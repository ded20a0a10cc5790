import DocPages.Declaration.Extract
import Mathlib.Tactic.Common

/-!
# What a declaration depends on

Of most tokens the pass reads the kind only: the texts that may become part of a declaration are those
of words, backslashes and documentation blocks, and of every other token it matters whether it is a
reference mark. Blank space does not matter at all. `Token.gists` keeps of a row just that.

A change of the tokens that keeps what is read of them (`Token.KeepsRead`) leaves every lookahead as it
is, and so every step of the pass (`ScanState.Agree.step`). A row and its gists declare the same
(`declaration_extract_gists`).

Main statement: rows with the same gists declare the same, and so do rows that differ in blank space or
in texts that are not read (`declaration_extract_layout`).
-/

namespace DocPages

namespace TokenKind

/-- The kinds whose texts may become part of a declaration. -/
def isRead (k : TokenKind) : Bool := k.isWord || k == .namespaceSeparator || k == .docBlock

end TokenKind

namespace Token

/-- What is read of a token. -/
def gist (t : Token) : Token where
  kind := t.kind
  text := if t.kind.isRead then t.text else if t.text = referenceMark then referenceMark else []
  offset := 0

/-- What is read of a row. -/
def gists (ts : List Token) : List Token := (ts.filter fun t => t.kind != .whitespace).map gist

/-- A change of tokens keeps what the pass reads of them: their kinds, the texts that may become part
of a declaration, and whether a name is looked for past them. -/
structure KeepsRead (g : Token → Token) : Prop where
  kind (t : Token) : (g t).kind = t.kind
  text {t : Token} (h : t.kind.isRead) : (g t).text = t.text
  isNameGap (t : Token) : (g t).isNameGap = t.isNameGap

theorem keepsRead_gist : KeepsRead gist where
  kind _ := rfl
  text h := if_pos h
  isNameGap t := by
    have htext : (t.gist.text == referenceMark) = (t.text == referenceMark) := by
      unfold gist
      dsimp only
      split
      · rfl
      · split
        · next h => rw [h]
        · next h => rw [beq_eq_false_iff_ne.2 h]; rfl
    rw [Token.isNameGap, Token.isNameGap, htext]
    rfl

/-- The row without blank space, with every other token changed. -/
def solid (g : Token → Token) (ts : List Token) : List Token :=
  (ts.filter fun t => t.kind != .whitespace).map g

section Solid

variable {g : Token → Token} {ts : List Token} {t : Token}

theorem solid_cons_of_whitespace (h : t.kind = .whitespace) : solid g (t :: ts) = solid g ts := by
  rw [solid, List.filter_cons_of_neg (by simp [h]), solid]

theorem solid_cons (h : t.kind ≠ .whitespace) : solid g (t :: ts) = g t :: solid g ts := by
  rw [solid, List.filter_cons_of_pos (by simp [h]), List.map_cons, solid]

theorem solid_append (ts us : List Token) : solid g (ts ++ us) = solid g ts ++ solid g us := by
  simp only [solid, List.filter_append, List.map_append]

theorem gists_cons_of_whitespace (h : t.kind = .whitespace) : gists (t :: ts) = gists ts :=
  solid_cons_of_whitespace h

theorem gists_cons (h : t.kind ≠ .whitespace) : gists (t :: ts) = t.gist :: gists ts := solid_cons h

theorem gists_append (ts us : List Token) : gists (ts ++ us) = gists ts ++ gists us :=
  solid_append ts us

/-! ### Looking ahead -/

theorem firstSignificant?_solid {skip : Token → Bool} (hskip : ∀ t, skip (g t) = skip t)
    (hblank : ∀ t, t.kind = .whitespace → skip t) (ts : List Token) :
    firstSignificant? skip (solid g ts) = (firstSignificant? skip ts).map g := by
  unfold firstSignificant?
  induction ts with
  | nil => rfl
  | cons t ts ih =>
    by_cases ht : t.kind = .whitespace
    · rw [solid_cons_of_whitespace ht, List.find?_cons_of_neg (by simp [hblank t ht]), ih]
    · rw [solid_cons ht]
      by_cases hs : skip t
      · rw [List.find?_cons_of_neg (by simp [hskip, hs]), List.find?_cons_of_neg (by simp [hs]), ih]
      · rw [List.find?_cons_of_pos (by simp [hskip, hs]), List.find?_cons_of_pos (by simp [hs]),
          Option.map_some]

variable (hg : KeepsRead g)
include hg

theorem KeepsRead.isTrivia (t : Token) : (g t).isTrivia = t.isTrivia := by
  rw [Token.isTrivia, hg.kind, Token.isTrivia]

theorem KeepsRead.isTargetGap (t : Token) : (g t).isTargetGap = t.isTargetGap := by
  rw [Token.isTargetGap, hg.kind, Token.isTargetGap]

theorem KeepsRead.endsNamespace (t : Token) : (g t).endsNamespace = t.endsNamespace := by
  rw [Token.endsNamespace, hg.kind, Token.endsNamespace]

theorem KeepsRead.isNamespacePart (t : Token) : (g t).isNamespacePart = t.isNamespacePart := by
  rw [Token.isNamespacePart, hg.kind, Token.isNamespacePart]

theorem nameAfter?_solid (ts : List Token) : nameAfter? (solid g ts) = nameAfter? ts := by
  have hblank : ∀ t : Token, t.kind = .whitespace → t.isNameGap := fun t ht => by
    rw [isNameGap, isTrivia, ht]
    rfl
  rw [nameAfter?, nameAfter?, firstSignificant?_solid hg.isNameGap hblank, Option.bind_map]
  congr 1
  funext t
  rw [Function.comp_apply, hg.kind]
  by_cases hw : t.kind.isWord
  · have hread : t.kind.isRead := by rw [TokenKind.isRead, hw]; rfl
    rw [hg.text hread]
  · rw [if_neg hw, if_neg hw]

theorem targetAfter?_solid (ts : List Token) : targetAfter? (solid g ts) = targetAfter? ts := by
  have hblank : ∀ t : Token, t.kind = .whitespace → t.isTargetGap := fun t ht => by
    rw [isTargetGap, ht]
    rfl
  rw [targetAfter?, targetAfter?, firstSignificant?_solid hg.isTargetGap hblank, Option.bind_map]
  congr 1
  funext t
  rw [Function.comp_apply, hg.kind]

theorem dropWhile_isTrivia_solid (ts : List Token) :
    (solid g ts).dropWhile isTrivia = solid g (ts.dropWhile isTrivia) := by
  induction ts with
  | nil => rfl
  | cons t ts ih =>
    by_cases ht : t.kind = .whitespace
    · have htrivia : t.isTrivia := by rw [isTrivia, ht]; rfl
      rw [solid_cons_of_whitespace ht, List.dropWhile_cons_of_pos htrivia, ih]
    · rw [solid_cons ht, List.dropWhile_cons, List.dropWhile_cons, hg.isTrivia, ih]
      by_cases htrivia : t.isTrivia
      · rw [if_pos htrivia, if_pos htrivia]
      · rw [if_neg htrivia, if_neg htrivia, solid_cons ht]

/-- The parts of a namespace statement, up to its end. -/
theorem namespaceParts_solid (ts : List Token) :
    (((solid g ts).takeWhile fun t => !t.endsNamespace).filter isNamespacePart).map Token.text =
      ((ts.takeWhile fun t => !t.endsNamespace).filter isNamespacePart).map Token.text := by
  induction ts with
  | nil => rfl
  | cons t ts ih =>
    by_cases ht : t.kind = .whitespace
    · have hend : t.endsNamespace = false := by rw [endsNamespace, ht]; rfl
      have hpart : t.isNamespacePart = false := by rw [isNamespacePart, ht]; rfl
      rw [solid_cons_of_whitespace ht, List.takeWhile_cons_of_pos (by simp [hend]),
        List.filter_cons_of_neg (by simp [hpart]), ih]
    rw [solid_cons ht, List.takeWhile_cons, List.takeWhile_cons, hg.endsNamespace]
    cases hend : t.endsNamespace with
    | true => rfl
    | false =>
      cases hpart : t.isNamespacePart with
      | true =>
        have hread : t.kind.isRead := by
          rw [isNamespacePart] at hpart
          rw [TokenKind.isRead, hpart, Bool.true_or]
        simp [hg.isNamespacePart, hpart, hg.text hread, ih]
      | false => simp [hg.isNamespacePart, hpart, ih]

theorem namespaceAfter?_solid (ts : List Token) :
    namespaceAfter? (solid g ts) = namespaceAfter? ts := by
  unfold namespaceAfter?
  rw [dropWhile_isTrivia_solid hg]
  have hhead : ∀ t ∈ (ts.dropWhile isTrivia).head?, t.kind ≠ .whitespace := by
    intro t ht hk
    have hnot := List.head?_dropWhile_not isTrivia ts
    rw [Option.mem_def.1 ht] at hnot
    simp [isTrivia, hk, TokenKind.isTrivia] at hnot
  cases hdrop : ts.dropWhile isTrivia with
  | nil => rfl
  | cons t us =>
    have ht := hhead t (by rw [hdrop]; rfl)
    have hparts := namespaceParts_solid hg (t :: us)
    rw [solid_cons ht] at hparts ⊢
    dsimp only
    rw [hparts]

end Solid

end Token

open Token

/-! ### The pass -/

namespace ScanState

/-- The states agree, but for the blocks that have been dropped. -/
def Agree (s s' : ScanState) : Prop := s' = { s with dropped := s'.dropped }

theorem Agree.declaration_eq {s s' : ScanState} (h : Agree s s') : s'.declaration = s.declaration := by
  rw [h]

variable {s s' : ScanState} {g : Token → Token} (path : Text)

/-- A token other than blank space has the same effect when it is changed. -/
theorem Agree.step (hg : KeepsRead g) (h : Agree s s') (t : Token) (rest : List Token) :
    Agree (s.step path t rest) (s'.step path (g t) (solid g rest)) := by
  have hinside : s'.insideType = s.insideType := by
    rw [h]
    rfl
  unfold ScanState.step
  rw [hg.kind]
  split
  · rw [takeNamespace, takeNamespace, namespaceAfter?_solid hg, h]
    rfl
  · next hk =>
    have hread : t.kind.isRead := by
      rw [hk]
      rfl
    rw [takeDoc, takeDoc, targetAfter?_solid hg, hg.text hread, h]
    split <;> rfl
  · rw [takeType, takeType, nameAfter?_solid hg, h]
    split
    · rfl
    · split <;> rfl
  · rw [takeFunction, takeFunction, hinside, nameAfter?_solid hg, h]
    split
    · split <;> rfl
    · rfl
  · exact h

/-- Blank space has no effect. -/
theorem step_of_whitespace {t : Token} (ht : t.kind = .whitespace) (rest : List Token) :
    s.step path t rest = s := by
  rw [ScanState.step, ht]

theorem Agree.run (hg : KeepsRead g) (h : Agree s s') (ts : List Token) :
    Agree (s.run path ts) (s'.run path (solid g ts)) := by
  induction ts generalizing s s' with
  | nil => exact h
  | cons t ts ih =>
    by_cases ht : t.kind = .whitespace
    · rw [solid_cons_of_whitespace ht, ScanState.run, step_of_whitespace path ht]
      exact ih h
    · rw [solid_cons ht, ScanState.run, ScanState.run]
      exact ih (h.step path hg t ts)

end ScanState

theorem declaration_extract_solid {g : Token → Token} (hg : KeepsRead g) (path : Text)
    (ts : List Token) : (extract path (solid g ts)).declaration = (extract path ts).declaration := by
  have hstart : ScanState.Agree .start .start := rfl
  exact (hstart.run path hg ts).declaration_eq

/-- A row declares what its gists declare. -/
theorem declaration_extract_gists (path : Text) (ts : List Token) :
    (extract path (gists ts)).declaration = (extract path ts).declaration :=
  declaration_extract_solid keepsRead_gist path ts

/-! ### Two rows -/

namespace Token

/-- The tokens differ in a text that is not read: that of a comment, or that of a token which is no
word, no backslash and no documentation block, and is a reference mark in both or in neither. -/
structure ReadsAlike (t t' : Token) : Prop where
  kind : t'.kind = t.kind
  text (h : t.kind.isRead) : t'.text = t.text
  mark (h : t.kind ≠ .comment) : t'.text = referenceMark ↔ t.text = referenceMark

/-- What is left of a token when comments are alike as well. -/
def core (t : Token) : Token where
  kind := t.kind
  text := if t.kind.isRead then t.text else if t.isNameGap then referenceMark else []
  offset := 0

theorem keepsRead_core : KeepsRead core where
  kind _ := rfl
  text h := if_pos h
  isNameGap t := by
    have hcore : t.core.isNameGap = (t.isTrivia || t.core.text == referenceMark) := rfl
    rw [hcore]
    by_cases hread : t.kind.isRead
    · rw [core, if_pos hread]
      rfl
    · rw [core, if_neg hread]
      cases hgap : t.isNameGap with
      | true => exact Bool.or_true _
      | false => rw [(Bool.or_eq_false_iff.1 hgap).1]; rfl

theorem ReadsAlike.isNameGap_eq {t t' : Token} (h : ReadsAlike t t') :
    t'.isNameGap = t.isNameGap := by
  rw [isNameGap, isNameGap, isTrivia, isTrivia, h.kind]
  by_cases hk : t.kind = .comment
  · rw [hk]
    rfl
  · have hmark : (t'.text == referenceMark) = (t.text == referenceMark) :=
      Bool.eq_iff_iff.2 (by simpa using h.mark hk)
    rw [hmark]

theorem ReadsAlike.core_eq {t t' : Token} (h : ReadsAlike t t') : t'.core = t.core := by
  rw [core, core, h.kind, h.isNameGap_eq]
  by_cases hread : t.kind.isRead
  · rw [h.text hread]
  · rw [if_neg hread, if_neg hread]

theorem solid_core_congr {ts us : List Token} (h : List.Forall₂ ReadsAlike ts us) :
    solid core us = solid core ts := by
  induction h with
  | nil => rfl
  | @cons t t' ts us ht _ ih =>
    by_cases hk : t.kind = .whitespace
    · rw [solid_cons_of_whitespace hk, solid_cons_of_whitespace (ht.kind.trans hk), ih]
    · rw [solid_cons hk, solid_cons (ht.kind ▸ hk), ih, ht.core_eq]

end Token

/-- What a row declares depends on its gists only. So blank space may be put in or taken out anywhere,
and the texts of comments, literals, variables and marks may be changed as long as a reference mark
stays one and no other mark becomes one. -/
theorem declaration_extract_layout (path : Text) :
    (∀ ts us, gists ts = gists us →
      (extract path ts).declaration = (extract path us).declaration) ∧
    (∀ ts us w, w.kind = .whitespace →
      (extract path (ts ++ w :: us)).declaration = (extract path (ts ++ us)).declaration) ∧
    ∀ ts us, List.Forall₂ ReadsAlike ts us →
      (extract path ts).declaration = (extract path us).declaration := by
  have hgists : ∀ ts us, gists ts = gists us →
      (extract path ts).declaration = (extract path us).declaration := fun ts us h => by
    rw [← declaration_extract_gists, h, declaration_extract_gists]
  refine ⟨hgists, fun ts us w hw => hgists _ _ ?_, fun ts us h => ?_⟩
  · rw [gists_append, gists_append, gists_cons_of_whitespace hw]
  · rw [← declaration_extract_solid keepsRead_core, ← solid_core_congr h,
      declaration_extract_solid keepsRead_core]

/-- A type on two lines with a comment in front of its name. -/
def wideRow : List Token :=
  Lexeme.place 0 [
    ⟨.classLike, "class".toList⟩, ⟨.whitespace, ['\n']⟩, ⟨.comment, "/* one */".toList⟩,
    ⟨.identifier, "Tool".toList⟩, ⟨.whitespace, [' ']⟩, ⟨.openBrace, ['{']⟩,
    ⟨.functionWord, "function".toList⟩, ⟨.whitespace, [' ']⟩, ⟨.other, ['&']⟩,
    ⟨.identifier, "run".toList⟩, ⟨.other, ['(']⟩, ⟨.variable, "$x".toList⟩, ⟨.other, ['}']⟩]

/-- The type of `wideRow` in other words and without blank space. -/
def tightRow : List Token :=
  Lexeme.place 0 [
    ⟨.classLike, "class".toList⟩, ⟨.comment, "/**/".toList⟩, ⟨.identifier, "Tool".toList⟩,
    ⟨.openBrace, ['[']⟩, ⟨.functionWord, "function".toList⟩, ⟨.other, ['&']⟩,
    ⟨.identifier, "run".toList⟩, ⟨.other, ['<']⟩, ⟨.variable, "$y".toList⟩, ⟨.other, ['>']⟩]

theorem declaration_extract_layout_tightRow :
    gists wideRow = gists tightRow ∧
      (extract [] wideRow).declaration = (extract [] tightRow).declaration ∧
      (extract [] tightRow).declaration =
        some ⟨[], "Tool".toList, none, [⟨"run".toList, none⟩], []⟩ := by
  have hgists : gists wideRow = gists tightRow := by decide
  exact ⟨hgists, (declaration_extract_layout []).1 wideRow tightRow hgists, rfl⟩

end DocPages
