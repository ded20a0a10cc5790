import DocPages.Proofs.Token.Enclosed
import Mathlib.Data.List.Chain

/-!
# Byte offsets

A text is stored as bytes, and a place in it is a number of bytes. Only some numbers are places: a
number may lie inside a character or beyond the end, and a text cannot be cut there (`Text.cutAt?`).
This module reads comments, strings and heredocs by adding up offsets (`commentLength`,
`quotedLength`, `heredocLength?`), where each cut and each difference of lengths may fail, and shows
that none fails and that the sums agree with the splits of the lexer.

Main statement: so every cut of the lexer is a place of the source, and the tokens cover the source
without gaps (`tokenize_tiles`).
-/

namespace DocPages

namespace Text

/-! ### Cutting at an offset -/

/-- Cuts a text behind its first `n` bytes, if these are whole characters of it. -/
def cutAt? : Nat → Text → Option (Text × Text)
  | 0, t => some ([], t)
  | _ + 1, [] => none
  | n + 1, c :: cs =>
    if c.utf8Size ≤ n + 1 then (cutAt? (n + 1 - c.utf8Size) cs).map (keep c) else none

/-- The difference of two lengths, if the second one is not the larger one. -/
def lengthBefore? (whole rest : Nat) : Option Nat := if rest ≤ whole then some (whole - rest) else none

/-- The offset of the first character with a property. -/
def offsetOf? (p : Char → Bool) : Text → Option Nat
  | [] => none
  | c :: cs => if p c then some 0 else (offsetOf? p cs).map (c.utf8Size + ·)

/-- The offset at which a mark first occurs. -/
def offsetOfMark? (mark : Text) : Text → Option Nat
  | [] => none
  | c :: cs =>
    if mark.isPrefixOf (c :: cs) then some 0 else (offsetOfMark? mark cs).map (c.utf8Size + ·)

variable {t p r : Text} {n : Nat}

@[simp] theorem byteSize_cons (c : Char) (t : Text) : byteSize (c :: t) = c.utf8Size + byteSize t :=
  rfl

theorem byteSize_eq_zero_iff : byteSize t = 0 ↔ t = [] := by
  cases t with
  | nil => simp
  | cons c cs =>
    have := c.utf8Size_pos
    simp only [byteSize_cons, List.cons_ne_nil, iff_false]
    omega

/-- A text can be cut exactly at the sizes of the texts that it starts with. -/
theorem cutAt?_eq_some_iff : cutAt? n t = some (p, r) ↔ p ++ r = t ∧ byteSize p = n := by
  fun_induction cutAt? n t generalizing p with
  | case1 t =>
    rw [Option.some.injEq, Prod.mk.injEq, byteSize_eq_zero_iff]
    constructor
    · rintro ⟨rfl, rfl⟩
      exact ⟨rfl, rfl⟩
    · rintro ⟨rfl, rfl⟩
      exact ⟨rfl, rfl⟩
  | case2 n =>
    simp only [reduceCtorEq, List.append_eq_nil_iff, false_iff, not_and, and_imp]
    rintro rfl -
    simp
  | case3 n c cs hle ih =>
    rw [Option.map_eq_some_iff]
    constructor
    · rintro ⟨⟨a, b⟩, hcut, hkeep⟩
      obtain ⟨rfl, rfl⟩ := Prod.ext_iff.1 hkeep
      obtain ⟨rfl, hsize⟩ := ih.1 hcut
      simp only [fst_keep, snd_keep, List.cons_append, byteSize_cons, true_and]
      omega
    · rintro ⟨happend, hsize⟩
      cases p with
      | nil => simp at hsize
      | cons d ds =>
        rw [List.cons_append, List.cons.injEq] at happend
        obtain ⟨rfl, rfl⟩ := happend
        rw [byteSize_cons] at hsize
        exact ⟨(ds, r), ih.2 ⟨rfl, by omega⟩, rfl⟩
  | case4 n c cs hlt =>
    simp only [reduceCtorEq, false_iff, not_and]
    intro happend hsize
    cases p with
    | nil => simp at hsize
    | cons d ds =>
      rw [List.cons_append, List.cons.injEq] at happend
      rw [byteSize_cons, happend.1] at hsize
      omega

theorem cutAt?_append (p r : Text) : cutAt? (byteSize p) (p ++ r) = some (p, r) :=
  cutAt?_eq_some_iff.2 ⟨rfl, rfl⟩

theorem lengthBefore?_append (p r : Text) :
    lengthBefore? (byteSize (p ++ r)) (byteSize r) = some (byteSize p) := by
  rw [byteSize_append, lengthBefore?, if_pos (Nat.le_add_left _ _), Nat.add_sub_cancel]

theorem lengthBefore?_dropWhile (p : Char → Bool) (t : Text) :
    lengthBefore? (byteSize t) (byteSize (t.dropWhile p)) = some (byteSize (t.takeWhile p)) := by
  rw [← lengthBefore?_append (t.takeWhile p), List.takeWhile_append_dropWhile]

theorem offsetOf?_eq_some {p : Char → Bool} (h : offsetOf? p t = some n) :
    ∃ s c r, t = s ++ c :: r ∧ byteSize s = n ∧ p c ∧ ∀ d ∈ s, p d = false := by
  induction t generalizing n with
  | nil => simp [offsetOf?] at h
  | cons d ds ih =>
    by_cases hd : p d
    · rw [offsetOf?, if_pos hd] at h
      exact ⟨[], d, ds, rfl, Option.some.inj h, hd, by simp⟩
    · rw [offsetOf?, if_neg hd, Option.map_eq_some_iff] at h
      obtain ⟨m, hm, rfl⟩ := h
      obtain ⟨s, c, r, rfl, rfl, hc, hs⟩ := ih hm
      refine ⟨d :: s, c, r, rfl, rfl, hc, ?_⟩
      intro e he
      rcases List.mem_cons.1 he with rfl | he
      · simpa using hd
      · exact hs e he

theorem offsetOf?_of_forall {p : Char → Bool} (h : ∀ d ∈ t, p d = false) : offsetOf? p t = none := by
  induction t with
  | nil => rfl
  | cons d ds ih =>
    rw [List.forall_mem_cons] at h
    rw [offsetOf?, h.1, if_neg Bool.false_ne_true, ih h.2, Option.map_none]

theorem offsetOf?_append_cons {p : Char → Bool} {c : Char} (h : ∀ d ∈ t, p d = false) (hc : p c)
    (r : Text) : offsetOf? p (t ++ c :: r) = some (byteSize t) := by
  induction t with
  | nil => rw [List.nil_append, offsetOf?, if_pos hc, byteSize_nil]
  | cons d ds ih =>
    rw [List.forall_mem_cons] at h
    rw [List.cons_append, offsetOf?, h.1, if_neg Bool.false_ne_true, ih h.2, Option.map_some,
      byteSize_cons]

theorem offsetOf?_getD (p : Char → Bool) (t : Text) :
    (offsetOf? p t).getD (byteSize t) = byteSize (t.takeWhile fun c => !p c) := by
  induction t with
  | nil => rfl
  | cons c cs ih =>
    by_cases hc : p c
    · simp [offsetOf?, hc]
    · rw [offsetOf?, if_neg hc, List.takeWhile_cons_of_pos (by simp [hc]), byteSize_cons,
        byteSize_cons, ← ih]
      cases offsetOf? p cs <;> rfl

end Text

open Text

/-! ### Comments and strings -/

/-- The length of a block comment behind its opening mark: up to and with the first closing mark, or
all that is left. -/
def commentLength (rest : Text) : Nat :=
  match offsetOfMark? ['*', '/'] rest with
  | some n => n + 2
  | none => byteSize rest

/-- The length of a string behind its opening quote. Each character is looked at once; `escaped` tells
that a backslash stands before it. -/
def quotedLength (q : Char) : Bool → Text → Nat
  | _, [] => 0
  | true, c :: cs => c.utf8Size + quotedLength q false cs
  | false, c :: cs =>
    if c = '\\' then c.utf8Size + quotedLength q true cs
    else if c = q then c.utf8Size
    else c.utf8Size + quotedLength q false cs

theorem byteSize_commentBody (rest : Text) :
    byteSize (commentBody rest).1 = commentLength rest := by
  fun_induction commentBody rest with
  | case1 rest => rfl
  | case2 c cs hnot ih =>
    have hmark : ¬ ['*', '/'].isPrefixOf (c :: cs) := by
      rw [List.isPrefixOf_iff_prefix]
      rintro ⟨r, hr⟩
      exact hnot r (List.cons.inj hr).1.symm (List.cons.inj hr).2.symm
    rw [fst_keep, byteSize_cons, ih, commentLength, commentLength, offsetOfMark?, if_neg hmark]
    cases offsetOfMark? ['*', '/'] cs with
    | none => rfl
    | some n => simp only [Option.map_some, Nat.add_assoc]
  | case3 => rfl

theorem byteSize_quotedBody (q : Char) (rest : Text) :
    byteSize (quotedBody q rest).1 = quotedLength q false rest := by
  fun_induction quotedBody q rest with
  | case1 c cs ih => simp [quotedLength, ih]
  | case2 cs hnot =>
    by_cases hb : q = '\\'
    · -- Nothing stands behind the backslash, or it would be read as the start of an escape.
      cases cs with
      | nil => simp [quotedLength]
      | cons d ds => exact absurd rfl (hnot d ds hb)
    · simp [quotedLength, hb]
  | case3 c cs hnot hne ih =>
    by_cases hb : c = '\\'
    · cases cs with
      | nil => simp [quotedLength, quotedBody]
      | cons d ds => exact absurd rfl (hnot d ds hb)
    · simp [quotedLength, hb, hne, ih]
  | case4 => rfl

/-- The cut behind a block comment is a place of the text. -/
theorem cutAt?_commentLength (rest : Text) :
    cutAt? (commentLength rest) rest = some (commentBody rest) :=
  cutAt?_eq_some_iff.2 ⟨commentBody_append rest, byteSize_commentBody rest⟩

/-- The cut behind a string is a place of the text. -/
theorem cutAt?_quotedLength (q : Char) (rest : Text) :
    cutAt? (quotedLength q false rest) rest = some (quotedBody q rest) :=
  cutAt?_eq_some_iff.2 ⟨quotedBody_append q rest, byteSize_quotedBody q rest⟩

/-! ### Heredocs -/

/-- Where a heredoc ends that has the line at offset `position` in the text `rest` behind its opening
mark: behind the first line that opens with the label, or where the text ends. -/
def heredocEnd? (label rest : Text) (position : Nat) : Option Nat :=
  match _hcut : cutAt? position rest with
  | none => none
  | some (_, line) => do
    let indented := line.dropWhile isIndent
    let indent ← lengthBefore? (byteSize line) (byteSize indented)
    if (label.isPrefixOf? indented).any fun after => !after.head?.any isNameChar then
      some (position + indent + byteSize label)
    else
      match _hline : offsetOf? (· == '\n') line with
      | some n => heredocEnd? label rest (position + n + 1)
      | none => some (byteSize rest)
termination_by byteSize rest - position
decreasing_by
  -- The line goes on behind its line break, so that break lies in front of the end of the text.
  obtain ⟨s, c, r, rfl, rfl, -, -⟩ := offsetOf?_eq_some _hline
  obtain ⟨rfl, rfl⟩ := cutAt?_eq_some_iff.1 _hcut
  have hc := c.utf8Size_pos
  simp only [byteSize_append, byteSize_cons]
  omega

section Heredoc

variable {label before line : Text} {cut : Text × Text}

theorem isSome_closingLabel? (label line : Text) : (closingLabel? label line).isSome =
    (label.isPrefixOf? (line.dropWhile isIndent)).any fun after => !after.head?.any isNameChar := by
  unfold closingLabel?
  cases label.isPrefixOf? (line.dropWhile isIndent) with
  | none => rfl
  | some after => by_cases h : after.head?.any isNameChar <;> simp [h]

/-- One line of a heredoc, read by offsets. -/
theorem heredocEnd?_append (label before line : Text) :
    heredocEnd? label (before ++ line) (byteSize before) =
      if (closingLabel? label line).isSome then
        some (byteSize before + byteSize (line.takeWhile isIndent) + byteSize label)
      else
        match offsetOf? (· == '\n') line with
        | some n => heredocEnd? label (before ++ line) (byteSize before + n + 1)
        | none => some (byteSize (before ++ line)) := by
  rw [heredocEnd?, isSome_closingLabel?]
  split
  · next hnone => simp [cutAt?_append] at hnone
  · next a b hcut =>
    rw [cutAt?_append, Option.some.injEq, Prod.mk.injEq] at hcut
    obtain ⟨rfl, rfl⟩ := hcut
    simp only [lengthBefore?_dropWhile, Option.bind_eq_bind, Option.bind_some]
    congr 1
    split <;> simp only [*]

/-- The offsets of the lines add up to the length of what is read. -/
theorem LineRounds.heredocEnd?_eq (h : LineRounds label n line cut) (before : Text) :
    heredocEnd? label (before ++ line) (byteSize before) = some (byteSize before + byteSize cut.1) := by
  have hnot {s : Text} (hs : '\n' ∉ s) : ∀ c ∈ s, (c == '\n') = false := fun c hc =>
    beq_eq_false_iff_ne.2 fun heq => hs (heq ▸ hc)
  induction h generalizing before with
  | @close line cut hclose =>
    have hsome : (closingLabel? label line).isSome := hclose ▸ rfl
    rw [heredocEnd?_append, if_pos hsome, fst_of_closingLabel? hclose, byteSize_append, Nat.add_assoc]
  | last hnone hline =>
    rw [heredocEnd?_append, if_neg (by simp [hnone]), offsetOf?_of_forall (hnot hline), byteSize_append]
  | @next n s rest cut hnone hline _ ih =>
    have hnext := ih (before ++ s ++ ['\n'])
    have hbreak : byteSize ['\n'] = 1 := rfl
    rw [byteSize_append, byteSize_append, hbreak, List.append_assoc, List.append_assoc,
      List.singleton_append] at hnext
    rw [heredocEnd?_append, if_neg (by simp [hnone]), offsetOf?_append_cons (hnot hline) rfl]
    dsimp only
    rw [hnext, ← List.singleton_append, byteSize_append, byteSize_append, hbreak]
    congr 1
    omega

theorem heredocEnd?_eq (hl : isWord label) (before line : Text) :
    heredocEnd? label (before ++ line) (byteSize before) =
      some (byteSize before + byteSize (heredocBody label true line).1) := by
  obtain ⟨n, -, hrounds⟩ := exists_lineRounds hl line
  exact hrounds.heredocEnd?_eq before

/-- The label of a heredoc and the offset of its body behind the opening mark, or nothing when no
label line follows the mark. The outer option tells whether every cut is a place of the text. -/
def heredocStart? (rest : Text) : Option (Option (Text × Nat)) := do
  let header := rest.dropWhile isIndent
  let indent ← lengthBefore? (byteSize rest) (byteSize header)
  let quote := openingQuote header
  let (_, named) ← cutAt? (byteSize quote) header
  let labelLength := (offsetOf? (fun c => !isNameChar c) named).getD (byteSize named)
  let (label, after) ← cutAt? labelLength named
  if label = [] ∨ label.head?.any Char.isDigit then return none
  if !quote.isPrefixOf after then return none
  let (_, line) ← cutAt? (indent + byteSize quote + labelLength + byteSize quote) rest
  match lineBreak? line with
  | none => return none
  | some newline =>
    let position ← lengthBefore? (byteSize rest) (byteSize (line.drop newline.length))
    return some (label, position)

/-- The length of a heredoc behind its opening mark, in the same way. -/
def heredocLength? (rest : Text) : Option (Option Nat) := do
  match ← heredocStart? rest with
  | none => return none
  | some (label, position) =>
    let length ← heredocEnd? label rest position
    return some length

/-- A name goes on with digits, but does not start with one. -/
theorem isNameStart_iff {c : Char} (h : isNameChar c) : isNameStart c ↔ c.isDigit = false := by
  constructor
  · intro hc
    by_contra hd
    simp only [Bool.not_eq_false, Char.isDigit, Bool.and_eq_true, decide_eq_true_eq, ge_iff_le,
      UInt32.le_iff_toNat_le] at hd
    have hletter : c.isAlpha =
        (decide (c.val ≥ 65 ∧ c.val ≤ 90) || decide (c.val ≥ 97) && decide (c.val ≤ 122)) := rfl
    simp only [isNameStart, hletter, ge_iff_le, Bool.or_eq_true, Bool.and_eq_true, decide_eq_true_eq,
      beq_iff_eq, UInt32.le_iff_toNat_le, Char.toNat] at hc
    rcases hc with (((hc | hc) | rfl) | hc)
    · simp at hd hc; omega
    · simp at hd hc; omega
    · simp at hd
    · simp at hd hc; omega
  · intro hd
    rw [isNameChar, hd, Bool.or_false] at h
    exact h

/-- The header of a heredoc, read by offsets. -/
theorem heredocStart?_eq (rest : Text) :
    heredocStart? rest = some ((heredocOpening? rest).map fun o => (o.label, byteSize o.line)) := by
  -- Each part of the header gets a name, and the text becomes the row of these parts.
  have hindent := lengthBefore?_dropWhile isIndent rest
  have hrest := rest.takeWhile_append_dropWhile (p := isIndent)
  unfold heredocStart? heredocOpening?
  dsimp only
  generalize rest.takeWhile isIndent = indent at *
  generalize rest.dropWhile isIndent = header at *
  have hheader := openingQuote_append header
  generalize openingQuote header = quote at *
  generalize header.drop quote.length = named at *
  have hlength : (offsetOf? (fun c => !isNameChar c) named).getD (byteSize named) =
      byteSize (named.takeWhile isNameChar) := by
    simp only [offsetOf?_getD, Bool.not_not]
  have hnamed := named.takeWhile_append_dropWhile (p := isNameChar)
  have hname : ∀ c ∈ named.takeWhile isNameChar, isNameChar c := fun c hc => List.mem_takeWhile_imp hc
  generalize named.takeWhile isNameChar = label at *
  generalize named.dropWhile isNameChar = after at *
  have hstart : (label = [] ∨ label.head?.any Char.isDigit) ↔ ¬ label.head?.any isNameStart := by
    cases label with
    | nil => simp
    | cons c cs => simp [isNameStart_iff (hname c List.mem_cons_self)]
  subst hrest hheader hnamed
  simp only [hindent, hlength, cutAt?_append, Option.bind_eq_bind, Option.bind_some, hstart]
  by_cases hlabel : label.head?.any isNameStart
  · rw [if_neg (by simp [hlabel]), if_pos hlabel]
    cases hafter : quote.isPrefixOf? after with
    | none =>
      rw [if_pos (by simp [← List.isSome_isPrefixOf?_eq_isPrefixOf, hafter])]
      rfl
    | some line =>
      obtain rfl := append_of_isPrefixOf? hafter
      have hparts : indent ++ (quote ++ (label ++ (quote ++ line))) =
          indent ++ quote ++ label ++ quote ++ line := by
        simp only [List.append_assoc]
      rw [if_neg (by simp [← List.isSome_isPrefixOf?_eq_isPrefixOf, hafter]), hparts, ← byteSize_append,
        ← byteSize_append, ← byteSize_append, cutAt?_append, Option.bind_some, Option.bind_some]
      dsimp only
      cases hbreak : lineBreak? line with
      | none => rfl
      | some newline =>
        have hposition := lengthBefore?_append (indent ++ quote ++ label ++ quote ++ newline)
          (line.drop newline.length)
        rw [List.append_assoc _ newline, lineBreak?_append hbreak] at hposition
        dsimp only
        rw [hposition]
        rfl
  · rw [if_pos hlabel, if_neg hlabel]
    rfl

/-- The length of a heredoc is that of what the lexer splits off. -/
theorem heredocLength?_eq (rest : Text) :
    heredocLength? rest = some ((heredoc? rest).map fun split => byteSize split.1) := by
  unfold heredocLength? heredoc?
  rw [heredocStart?_eq]
  cases ho : heredocOpening? rest with
  | none => rfl
  | some o =>
    obtain ⟨header, hheader⟩ := exists_header_of_heredocOpening? ho
    have hrest := heredocOpening?_append ho
    rw [hheader] at hrest ⊢
    have hend := heredocEnd?_eq header.isWord_label header.text o.body
    rw [hrest] at hend
    simp only [Option.bind_eq_bind, Option.bind_some, Option.map_some, hend, byteSize_append]
    rfl

end Heredoc

/-! ### Tokens -/

/-- The row cuts the text into parts of which none is empty. -/
structure Lexeme.Cuts (ls : List Lexeme) (source : Text) : Prop where
  ne_nil : ∀ l ∈ ls, l.text ≠ []
  flatten_eq : (ls.map Lexeme.text).flatten = source

/-- The tokens cover the source without gaps. None is empty, the first one starts at the start, each
other one where the one before it ends, and the source has the text of each token at its offset. -/
structure Token.Tile (ts : List Token) (source : Text) : Prop where
  ne_nil : ∀ t ∈ ts, t.text ≠ []
  first : ∀ t ∈ ts.head?, t.offset = 0
  next : ts.IsChain fun t u => u.offset = t.offset + byteSize t.text
  cut : ∀ t ∈ ts, ∃ before after, cutAt? t.offset source = some (before, t.text ++ after) ∧
    cutAt? (t.offset + byteSize t.text) source = some (before ++ t.text, after)
  source_eq : Token.source ts = source

namespace Lexeme

variable {ls : List Lexeme} {start : Nat}

theorem offset_of_mem_head?_place {t : Token} (h : t ∈ (place start ls).head?) :
    t.offset = start := by
  cases ls with
  | nil => simp at h
  | cons l ls =>
    obtain rfl := Option.some.inj h
    rfl

theorem isChain_place (start : Nat) (ls : List Lexeme) :
    (place start ls).IsChain fun t u => u.offset = t.offset + byteSize t.text := by
  induction ls generalizing start with
  | nil => exact .nil
  | cons l ls ih =>
    rw [place_cons, List.isChain_cons]
    exact ⟨fun t ht => offset_of_mem_head?_place ht, ih _⟩

theorem cutAt?_of_mem_place (before : Text) {t : Token} (h : t ∈ place (byteSize before) ls) :
    ∃ b a, cutAt? t.offset (before ++ (ls.map text).flatten) = some (b, t.text ++ a) ∧
      cutAt? (t.offset + byteSize t.text) (before ++ (ls.map text).flatten) = some (b ++ t.text, a) := by
  induction ls generalizing before with
  | nil => simp at h
  | cons l ls ih =>
    rw [place_cons, ← byteSize_append] at h
    rw [List.map_cons, List.flatten_cons]
    rcases List.mem_cons.1 h with rfl | h
    · refine ⟨before, _, cutAt?_append _ _, ?_⟩
      rw [← byteSize_append, ← List.append_assoc, cutAt?_append]
    · rw [← List.append_assoc]
      exact ih (before ++ l.text) h

/-- However a source is cut into parts that are not empty, the tokens of these parts cover it. -/
theorem Cuts.tile {source : Text} (h : Cuts ls source) :
    Token.Tile (place 0 (qualify none ls)) source := by
  have htexts := map_text_qualify none ls
  have hflatten := h.flatten_eq
  rw [← htexts] at hflatten
  refine ⟨fun t ht => ?_, fun t ht => offset_of_mem_head?_place ht, isChain_place _ _,
    fun t ht => ?_, ?_⟩
  · have hmem := List.mem_map_of_mem (f := Token.text) ht
    rw [map_text_place, htexts, List.mem_map] at hmem
    obtain ⟨l, hl, heq⟩ := hmem
    rw [← heq]
    exact h.ne_nil l hl
  · have hcut := cutAt?_of_mem_place [] ht
    rwa [List.nil_append, hflatten] at hcut
  · rw [Token.source, map_text_place, hflatten]

theorem cuts_lexemes (source : Text) : Cuts (lexemes source) source := by
  refine ⟨fun l hl => ?_, flatten_lexemes source⟩
  fun_induction lexemes source with
  | case1 => simp at hl
  | case2 c cs ih =>
    rcases List.mem_cons.1 hl with rfl | hl
    · exact List.cons_ne_nil _ _
    · exact ih hl

end Lexeme

/-- Reading a source by offsets never fails. The length of each comment, string and heredoc is a
place of the text behind its opening mark, where the lexer cuts, and every cut on the way to the
length of a heredoc is one too. Whatever parts a lexer finds, as long as none is empty, their tokens
cover the source without gaps; and so do the tokens of the source. -/
theorem tokenize_tiles (source : Text) :
    (∀ rest, cutAt? (commentLength rest) rest = some (commentBody rest)) ∧
    (∀ q rest, cutAt? (quotedLength q false rest) rest = some (quotedBody q rest)) ∧
    (∀ rest, ∃ length?, heredocLength? rest = some length? ∧
      length?.map (cutAt? · rest) = (heredoc? rest).map some) ∧
    (∀ ls, Lexeme.Cuts ls source → Token.Tile (Lexeme.place 0 (Lexeme.qualify none ls)) source) ∧
    Token.Tile (tokenize source) source := by
  refine ⟨cutAt?_commentLength, cutAt?_quotedLength, fun rest => ?_, fun ls h => h.tile,
    (Lexeme.cuts_lexemes source).tile⟩
  refine ⟨_, heredocLength?_eq rest, ?_⟩
  cases h : heredoc? rest with
  | none => rfl
  | some split =>
    have hcut := cutAt?_append split.1 split.2
    rw [heredoc?_append h] at hcut
    rw [Option.map_some, Option.map_some, Option.map_some, hcut]

/-- A lexer that takes two characters as one error still leaves no gap. -/
theorem tokenize_tiles_error :
    Lexeme.Cuts [⟨.other, "~é".toList⟩, ⟨.semicolon, [';']⟩] "~é;".toList ∧
      Token.Tile [⟨.other, "~é".toList, 0⟩, ⟨.semicolon, [';'], 3⟩] "~é;".toList := by
  have hcuts : Lexeme.Cuts [⟨.other, "~é".toList⟩, ⟨.semicolon, [';']⟩] "~é;".toList :=
    ⟨by decide, rfl⟩
  exact ⟨hcuts, (tokenize_tiles _).2.2.2.1 _ hcuts⟩

end DocPages
