import DocPages.Proofs.Declaration.Gist
import DocPages.Proofs.Token.Offset
import DocPages.Proofs.Token.Replace
import Mathlib

/-!
# Enclosed texts are opaque

What stands inside a comment, a string or a heredoc does not matter for what a source declares. Where
such a text is a token of a source, another one may stand in its place: the other lexemes stay as
they are (`lexemes_replace`), keywords next to it are settled as before (`Lexeme.qualify_replace`),
and the pass reads nothing of it but its kind (`declaration_extract_gists`).

Main statement: `scanSource_replace`.
-/

namespace DocPages

open Text Token

namespace Lexeme

variable {ls ms : List Lexeme} {l l' : Lexeme} {start : Nat}

/-- A lexeme that is neither a keyword nor transparent may be replaced by another one of its kind
without any effect on how keywords are settled. -/
theorem qualify_replace (previous : Option TokenKind) (hkind : l'.kind = l.kind)
    (hkey : l.kind.isKeyword = false) (ht : l.isTransparent = false) (ht' : l'.isTransparent = false)
    (ls ms : List Lexeme) :
    ∃ as bs, qualify previous (ls ++ l :: ms) = as ++ l :: bs ∧
      qualify previous (ls ++ l' :: ms) = as ++ l' :: bs := by
  induction ls generalizing previous with
  | nil =>
    refine ⟨[], qualify (some l.kind) ms, qualify_mark hkey ht, ?_⟩
    rw [List.nil_append, qualify_mark (hkind ▸ hkey) ht', hkind, List.nil_append]
  | cons m ls ih =>
    have hsettle : settle previous m (ls ++ l' :: ms) = settle previous m (ls ++ l :: ms) := by
      have hstart : startsWithSeparator (ls ++ l' :: ms) = startsWithSeparator (ls ++ l :: ms) := by
        cases ls with
        | nil => simp [startsWithSeparator, hkind]
        | cons n ls => rfl
      rw [settle, settle, hstart]
    obtain ⟨as, bs, has, has'⟩ := ih (if (settle previous m (ls ++ l :: ms)).isTransparent then
      previous else some (settle previous m (ls ++ l :: ms)).kind)
    refine ⟨settle previous m (ls ++ l :: ms) :: as, bs, ?_, ?_⟩
    · rw [List.cons_append, qualify_cons, has, List.cons_append]
    · rw [List.cons_append, qualify_cons, hsettle, has', List.cons_append]

theorem gists_place (start start' : Nat) (ls : List Lexeme) :
    gists (place start ls) = gists (place start' ls) := by
  induction ls generalizing start start' with
  | nil => rfl
  | cons l ls ih =>
    rw [place_cons, place_cons]
    by_cases hl : l.kind = .whitespace
    · rw [gists_cons_of_whitespace hl, gists_cons_of_whitespace hl]
      exact ih _ _
    · rw [gists_cons hl, gists_cons hl, ih _ (start' + byteSize l.text)]
      rfl

theorem exists_eq_append_of_mem_place {t : Token} (h : t ∈ place start ls) :
    ∃ as bs, ls = as ++ ⟨t.kind, t.text⟩ :: bs ∧
      t.offset = start + byteSize (as.map text).flatten := by
  induction ls generalizing start with
  | nil => simp at h
  | cons l ls ih =>
    rw [place_cons] at h
    rcases List.mem_cons.1 h with rfl | h
    · exact ⟨[], ls, rfl, rfl⟩
    · obtain ⟨as, bs, rfl, hoffset⟩ := ih h
      refine ⟨l :: as, bs, rfl, ?_⟩
      rw [hoffset, List.map_cons, List.flatten_cons, byteSize_append, Nat.add_assoc]

end Lexeme

open Lexeme

/-- A token of a source is one of its lexemes, and the lexemes in front of it make up the text in
front of it. -/
theorem exists_lexemes_eq_of_mem_tokenize {p rest : Text} {t : Token}
    (ht : t ∈ tokenize (p ++ rest)) (hoffset : t.offset = byteSize p) :
    ∃ ls k ms, lexemes (p ++ rest) = ls ++ ⟨k, t.text⟩ :: ms ∧ (ls.map Lexeme.text).flatten = p := by
  obtain ⟨as, bs, hrow, hsize⟩ := exists_eq_append_of_mem_place ht
  have htexts := map_text_qualify none (lexemes (p ++ rest))
  rw [hrow, List.map_append, List.map_cons] at htexts
  obtain ⟨ls, ms, hlex, hls, hms⟩ := List.map_eq_append_iff.1 htexts.symm
  obtain ⟨l, ms, rfl, hl, -⟩ := List.map_eq_cons_iff.1 hms
  have htext : l.text = t.text := hl
  refine ⟨ls, l.kind, ms, by rw [hlex, ← htext], ?_⟩
  rw [hoffset, Nat.zero_add] at hsize
  have hsource := flatten_lexemes (p ++ rest)
  rw [hlex, List.map_append, List.flatten_append, hls] at hsource
  have hcut := cutAt?_append (as.map Lexeme.text).flatten ((l :: ms).map Lexeme.text).flatten
  rw [hsource, ← hsize, cutAt?_append, Option.some.injEq, Prod.mk.injEq] at hcut
  rw [hls, ← hcut.1]

section Replace

variable {e : Enclosure} {c₁ c₂ : Text}

theorem Enclosed.ne_referenceMark (h : Enclosed e c₁) : c₁ ≠ referenceMark := by
  cases h with
  | comment => simp [referenceMark]
  | quoted => simp [referenceMark]
  | heredoc => simp [referenceMark, heredocMark]

theorem Enclosed.isTransparent (h : Enclosed e c₁) :
    (⟨e.kind, c₁⟩ : Lexeme).isTransparent = false := by
  have hkind : e.kind ≠ .whitespace := by cases e <;> simp [Enclosure.kind]
  simp [Lexeme.isTransparent, hkind, h.ne_referenceMark]

theorem Enclosed.gist (h : Enclosed e c₁) (offset : Nat) :
    Token.gist ⟨e.kind, c₁, offset⟩ = ⟨e.kind, [], 0⟩ := by
  have hread : e.kind.isRead = false := by cases e <;> rfl
  simp [Token.gist, hread, h.ne_referenceMark]

/-- What a source declares does not depend on what its comments, strings and heredocs say. -/
theorem scanSource_replace (h₁ : Enclosed e c₁) (h₂ : Enclosed e c₂) (p s : Text)
    (htoken : ∃ t ∈ tokenize (p ++ c₁ ++ s), t.text = c₁ ∧ t.offset = byteSize p)
    (hquoted : ∀ q, e = .quoted q → ¬ heredocMark <:+ p.rdropWhile isIndent) (path : Text) :
    (scanSource path (p ++ c₁ ++ s)).declaration = (scanSource path (p ++ c₂ ++ s)).declaration := by
  obtain ⟨t, ht, rfl, hoffset⟩ := htoken
  rw [List.append_assoc] at ht
  obtain ⟨ls, k, ms, hlex, hls⟩ := exists_lexemes_eq_of_mem_tokenize ht hoffset
  obtain ⟨hlex₁, hlex₂⟩ := lexemes_replace h₁ h₂ hlex hls hquoted
  have hkey : e.kind.isKeyword = false := by cases e <;> rfl
  have hsolid : e.kind ≠ .whitespace := by cases e <;> simp [Enclosure.kind]
  have hkind : (⟨e.kind, c₂⟩ : Lexeme).kind = (⟨e.kind, t.text⟩ : Lexeme).kind := rfl
  obtain ⟨as, bs, hrow₁, hrow₂⟩ :=
    qualify_replace none hkind hkey h₁.isTransparent h₂.isTransparent ls (lexemes s)
  have hgists : gists (tokenize (p ++ t.text ++ s)) = gists (tokenize (p ++ c₂ ++ s)) := by
    rw [List.append_assoc, List.append_assoc, tokenize, tokenize, hlex₁, hlex₂, hrow₁, hrow₂,
      place_append, place_append, place_cons, place_cons, gists_append, gists_append,
      gists_cons hsolid, gists_cons hsolid, h₁.gist, h₂.gist]
    congr 2
    exact gists_place _ _ _
  rw [scanSource, scanSource, ← declaration_extract_gists, hgists, declaration_extract_gists]

/-- What is written in a string declares nothing. -/
theorem scanSource_replace_string :
    (∃ t ∈ tokenize "class A\x7bfunction f()\x7becho 'x';\x7d\x7d".toList,
      t.text = "'x'".toList ∧ t.offset = 26) ∧
      (scanSource [] "class A\x7bfunction f()\x7becho 'x';\x7d\x7d".toList).declaration =
        (scanSource []
          "class A\x7bfunction f()\x7becho '\x7d/** */function g';\x7d\x7d".toList).declaration := by
  have hinner₁ : QuotedText '\'' ['x'] := quotedText_of_not_mem (by decide) (by decide)
  have hinner₂ : QuotedText '\'' "\x7d/** */function g".toList :=
    quotedText_of_not_mem (by decide) (by decide)
  have h₁ : Enclosed (.quoted '\'') "'x'".toList := .quoted (Or.inl rfl) hinner₁
  have h₂ : Enclosed (.quoted '\'') "'\x7d/** */function g'".toList := .quoted (Or.inl rfl) hinner₂
  have htoken : ∃ t ∈ tokenize "class A\x7bfunction f()\x7becho 'x';\x7d\x7d".toList,
      t.text = "'x'".toList ∧ t.offset = 26 := by
    have hrow : (tokenize "class A\x7bfunction f()\x7becho 'x';\x7d\x7d".toList)[12]? =
        some ⟨.literal, "'x'".toList, 26⟩ := by cbv
    exact ⟨_, List.mem_of_getElem? hrow, rfl, rfl⟩
  have hreplace :=
    scanSource_replace h₁ h₂ "class A\x7bfunction f()\x7becho ".toList ";\x7d\x7d".toList
  have hmark : ¬ heredocMark <:+ "class A\x7bfunction f()\x7becho ".toList.rdropWhile isIndent := by
    decide
  exact ⟨htoken, hreplace htoken (fun q _ => hmark) []⟩

end Replace

end DocPages
