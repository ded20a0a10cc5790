import DocPages.Proofs.Text.Basic
import DocPages.Text.WordChar
import Mathlib.Data.List.Infix

/-!
# Trimmed texts and lines

A trimmed text has a blank at neither end (`IsTrimmed`): these are the texts that trimming gives
(`isTrimmed_trim`) and leaves as they are (`trim_eq_self_iff`), and blanks put around one are what
trimming takes away (`trim_append_append`). Lines that are each ended by a line feed are read back
from their text (`lines_unlines_append`).
-/

namespace DocPages.Text

/-! ### Trimming -/

/-- A text with a blank at neither end. -/
structure IsTrimmed (t : Text) : Prop where
  head : ∀ c ∈ t.head?, isBlank c = false
  last : ∀ c ∈ t.getLast?, isBlank c = false

section Trim

variable {a b t : Text}

theorem trimStart_append (ha : ∀ c ∈ a, isBlank c) (ht : ∀ c ∈ t.head?, isBlank c = false) :
    trimStart (a ++ t) = t :=
  dropWhile_append_of_boundary ha ht

theorem trimEnd_append (hb : ∀ c ∈ b, isBlank c) (ht : ∀ c ∈ t.getLast?, isBlank c = false) :
    trimEnd (t ++ b) = t := by
  rw [trimEnd, List.reverse_append,
    dropWhile_append_of_boundary (fun c hc => hb c (List.mem_reverse.1 hc))
      (by rwa [List.head?_reverse]),
    List.reverse_reverse]

theorem trim_append_append (ha : ∀ c ∈ a, isBlank c) (ht : IsTrimmed t) (hb : ∀ c ∈ b, isBlank c) :
    trim (a ++ t ++ b) = t := by
  cases t with
  | nil =>
    have hall : (a ++ [] ++ b).dropWhile isBlank = [] := by
      rw [List.append_nil, List.dropWhile_eq_nil_iff]
      intro c hc
      exact (List.mem_append.1 hc).elim (ha c) (hb c)
    rw [trim, trimStart, hall, trimEnd_nil]
  | cons c cs =>
    rw [trim, List.append_assoc, trimStart_append (t := c :: cs ++ b) ha ht.head,
      trimEnd_append hb ht.last]

theorem IsTrimmed.trim_eq (h : IsTrimmed t) : trim t = t := by
  simpa using trim_append_append (a := []) (b := []) (by simp) h (by simp)

theorem head?_trimStart (t : Text) : ∀ c ∈ (trimStart t).head?, isBlank c = false := by
  intro c hc
  simpa [show (t.dropWhile isBlank).head? = some c from hc] using
    List.head?_dropWhile_not isBlank t

theorem getLast?_trimEnd (t : Text) : ∀ c ∈ (trimEnd t).getLast?, isBlank c = false := by
  rw [trimEnd, List.getLast?_reverse]
  exact head?_trimStart t.reverse

theorem trimEnd_isPrefix (t : Text) : trimEnd t <+: t := by
  rw [← List.reverse_suffix, trimEnd, List.reverse_reverse]
  exact List.dropWhile_suffix _

theorem trim_isInfix (t : Text) : trim t <:+: t :=
  (trimEnd_isPrefix _).isInfix.trans (List.dropWhile_suffix _).isInfix

theorem isTrimmed_trim (t : Text) : IsTrimmed (trim t) where
  head c hc := by
    obtain ⟨rest, hrest⟩ := trimEnd_isPrefix (trimStart t)
    refine head?_trimStart t c ?_
    rw [← hrest, List.head?_append]
    exact Option.or_eq_some_iff.2 (Or.inl hc)
  last := getLast?_trimEnd _

theorem exists_eq_append_trim (t : Text) :
    ∃ a b, (∀ c ∈ a, isBlank c) ∧ (∀ c ∈ b, isBlank c) ∧ t = a ++ trim t ++ b := by
  refine ⟨t.takeWhile isBlank, ((trimStart t).reverse.takeWhile isBlank).reverse,
    fun c hc => List.mem_takeWhile_imp hc,
    fun c hc => List.mem_takeWhile_imp (List.mem_reverse.1 hc), ?_⟩
  have hend : trim t ++ ((trimStart t).reverse.takeWhile isBlank).reverse = trimStart t := by
    rw [trim, trimEnd, ← List.reverse_append, List.takeWhile_append_dropWhile, List.reverse_reverse]
  rw [List.append_assoc, hend, trimStart, List.takeWhile_append_dropWhile]

/-- Blanks behind a text do not matter when it is trimmed. -/
theorem trim_append_of_isBlank (hb : ∀ c ∈ b, isBlank c) : trim (t ++ b) = trim t := by
  obtain ⟨a, b', ha, hb', ht⟩ := exists_eq_append_trim t
  have hblanks : ∀ c ∈ b' ++ b, isBlank c := by
    intro c hc
    exact (List.mem_append.1 hc).elim (hb' c) (hb c)
  rw [ht, List.append_assoc, trim_append_append ha (isTrimmed_trim t) hblanks,
    trim_append_append ha (isTrimmed_trim t) hb']

theorem trim_eq_self_iff : trim t = t ↔ IsTrimmed t :=
  ⟨fun h => h ▸ isTrimmed_trim t, IsTrimmed.trim_eq⟩

/-- A trimmed text may be cut in front of a character that is not blank. -/
theorem IsTrimmed.of_append (h : IsTrimmed (a ++ t)) (ht : ∀ c ∈ t.head?, isBlank c = false) :
    IsTrimmed t where
  head := ht
  last c hc := h.last c (by rw [List.getLast?_append]; exact Option.or_eq_some_iff.2 (Or.inl hc))

theorem IsTrimmed.append (ha : IsTrimmed a) (hb : IsTrimmed b) (hne : a ≠ []) (hne' : b ≠ [])
    (s : Text) : IsTrimmed (a ++ s ++ b) where
  head c hc := by
    obtain ⟨d, ds, rfl⟩ := List.exists_cons_of_ne_nil hne
    exact ha.head c hc
  last c hc := by
    rw [List.getLast?_append, List.getLast?_eq_some_getLast hne'] at hc
    exact hb.last c (by rw [List.getLast?_eq_some_getLast hne']; exact hc)

end Trim

/-! ### Word characters -/

/-- The numbers of the blanks. -/
def blankNumbers : List Nat :=
  [0x09, 0x0A, 0x0B, 0x0C, 0x0D, 0x20, 0x85, 0xA0, 0x1680, 0x2000, 0x2001, 0x2002, 0x2003, 0x2004,
    0x2005, 0x2006, 0x2007, 0x2008, 0x2009, 0x200A, 0x2028, 0x2029, 0x202F, 0x205F, 0x3000]

theorem isBlank_of_isWordChar {c : Char} (h : isWordChar c) : isBlank c = false := by
  have hnone : ∀ n ∈ blankNumbers, isWordChar (Char.ofNat n) = false := by decide +kernel
  by_contra hblank
  have hmem : c.toNat ∈ blankNumbers := by
    simp only [isBlank, Bool.not_eq_false, Bool.or_eq_true, Bool.and_eq_true, decide_eq_true_eq,
      beq_iff_eq] at hblank
    simp only [blankNumbers, List.mem_cons, List.not_mem_nil, or_false]
    omega
  have hword := hnone _ hmem
  rw [Char.ofNat_toNat] at hword
  exact Bool.false_ne_true (hword.symm.trans h)

/-! ### Taking off marks -/

section Marks

variable {p t : Text}

theorem withoutStart_append (p t : Text) : withoutStart p (p ++ t) = t := by
  rw [withoutStart, List.isPrefixOf?_eq_some_iff_append_eq.2 rfl, Option.getD_some]

theorem withoutStart_of_not_isPrefix (h : ¬ p <+: t) : withoutStart p t = t := by
  cases he : p.isPrefixOf? t with
  | none => rw [withoutStart, he, Option.getD_none]
  | some rest => exact absurd ⟨rest, List.isPrefixOf?_eq_some_iff_append_eq.1 he⟩ h

theorem withoutStart_isSuffix (p t : Text) : withoutStart p t <:+ t := by
  cases he : p.isPrefixOf? t with
  | none => rw [withoutStart, he, Option.getD_none]
  | some rest =>
    rw [withoutStart, he, Option.getD_some]
    exact ⟨p, List.isPrefixOf?_eq_some_iff_append_eq.1 he⟩

theorem withoutEnd_append (p t : Text) : withoutEnd p (t ++ p) = t := by
  rw [withoutEnd, List.isSuffixOf?_eq_some_iff_append_eq.2 rfl, Option.getD_some]

theorem withoutEnd_of_not_isSuffix (h : ¬ p <:+ t) : withoutEnd p t = t := by
  cases he : p.isSuffixOf? t with
  | none => rw [withoutEnd, he, Option.getD_none]
  | some rest => exact absurd ⟨rest, List.isSuffixOf?_eq_some_iff_append_eq.1 he⟩ h

end Marks

/-! ### Lines -/

/-- Lines that are each ended by a line feed. -/
def unlines (ls : List Text) : Text := ls.flatMap (· ++ ['\n'])

section Lines

variable {line rest last : Text} {ls : List Text}

theorem isInfix_joinLines {ls : List Text} (h : line ∈ ls) : line <:+: joinLines ls := by
  refine List.infix_of_mem_flatten ?_
  induction ls with
  | nil => simp at h
  | cons l ls ih =>
    cases ls with
    | nil => simpa using h
    | cons m ls =>
      rcases List.mem_cons.1 h with rfl | h
      · simp
      · simp [ih h]

theorem isInfix_of_mem_splitOn (h : line ∈ rest.splitOn '\n') : line <:+: rest := by
  have hjoin := isInfix_joinLines h
  rwa [joinLines, List.intercalate_splitOn] at hjoin

theorem lines_of_not_mem (h : '\n' ∉ line) (hne : line ≠ []) : lines line = [line] := by
  simp [lines, List.splitOn_eq_singleton h, hne]

theorem lines_append (h : '\n' ∉ line) :
    lines (line ++ '\n' :: rest) = dropReturn line :: lines rest := by
  have hsplit := List.splitOn_append_cons_self_of_not_mem h rest
  have hne : rest.splitOn '\n' ≠ [] := List.splitOn_ne_nil _ _
  rw [lines, hsplit, List.dropLast_cons_of_ne_nil hne, List.getLast?_cons_of_ne_nil hne]
  rfl

theorem unlines_cons (line : Text) (ls : List Text) :
    unlines (line :: ls) = line ++ '\n' :: unlines ls := by
  rw [unlines, List.flatMap_cons, List.append_assoc, List.singleton_append, unlines]

/-- Lines that are each ended by a line feed are read back, without a carriage return. -/
theorem lines_unlines_append (h : ∀ line ∈ ls, '\n' ∉ line) (last : Text) :
    lines (unlines ls ++ last) = ls.map dropReturn ++ lines last := by
  induction ls with
  | nil => rfl
  | cons line ls ih =>
    rw [unlines_cons, List.append_assoc, List.cons_append, lines_append (h line List.mem_cons_self),
      ih fun l hl => h l (List.mem_cons_of_mem _ hl), List.map_cons, List.cons_append]

theorem dropReturn_of_isTrimmed (a : Text) (h : IsTrimmed line) (hne : line ≠ []) :
    dropReturn (a ++ line) = a ++ line := by
  apply withoutEnd_of_not_isSuffix
  rintro ⟨s, hs⟩
  have hlast : line.getLast? = some '\r' := by
    rw [← List.getLast?_append_of_ne_nil a hne, ← hs, List.getLast?_concat]
  exact absurd (h.last _ hlast) (by decide)

theorem trim_dropReturn (line : Text) : trim (dropReturn line) = trim line := by
  by_cases h : ['\r'] <:+ line
  · obtain ⟨rest, rfl⟩ := h
    rw [dropReturn, withoutEnd_append, trim_append_of_isBlank (List.forall_mem_singleton.2 rfl)]
  · rw [dropReturn, withoutEnd_of_not_isSuffix h]

end Lines

end DocPages.Text
