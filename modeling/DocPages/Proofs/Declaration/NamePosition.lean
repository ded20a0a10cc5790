import DocPages.Proofs.Declaration.PlainName
import DocPages.Proofs.Token.Spelling

/-!
# The word behind a keyword

The lexer settles the kind of a word by looking back, past blank space and reference marks; the pass
over the tokens finds the name behind a keyword by looking ahead, past comments as well
(`IsNameOf`). Where the two agree the name is a plain name (`kindAt?_of_isNameOf`): behind `function`,
with no comment between. Elsewhere a keyword may stand as a name, and the pass acts on it once more.

Main statement: what the names of a source are when the name behind a keyword is read as a plain name
(`declaredNames_isNameOf`).
-/

namespace DocPages

open Token

/-! ### Looking back -/

namespace Lexeme

variable {previous : Option TokenKind} {ls : List Lexeme} {f l : Lexeme} {i n : Nat}

/-- Behind a settled lexeme that is not transparent, the row is settled with its kind. -/
theorem drop_qualify (hf : (qualify previous ls)[i]? = some f) (ht : f.isTransparent = false) :
    (qualify previous ls).drop (i + 1) = qualify (some f.kind) (ls.drop (i + 1)) := by
  induction ls generalizing previous i with
  | nil => simp [qualify] at hf
  | cons m ls ih =>
    rw [qualify_cons] at hf ⊢
    cases i with
    | zero =>
      obtain rfl : settle previous m ls = f := Option.some.inj hf
      rw [ht]
      rfl
    | succ i => exact ih hf

theorem isKeyword_settle (hp : previous.any TokenKind.qualifiesNext) :
    (settle previous l ls).kind.isKeyword = false := by
  unfold settle
  rw [hp, Bool.true_or, Bool.and_true]
  cases hk : l.kind.isKeyword with
  | true => rfl
  | false => exact hk

/-- Behind a lexeme that qualifies it, with nothing but transparent ones between, no keyword stands.
-/
theorem isKeyword_qualify (hp : previous.any TokenKind.qualifiesNext)
    (hgap : ∀ m, m < n → ∀ l ∈ (qualify previous ls)[m]?, l.isTransparent)
    (hl : (qualify previous ls)[n]? = some l) : l.kind.isKeyword = false := by
  induction n generalizing ls with
  | zero =>
    cases ls with
    | nil => simp [qualify] at hl
    | cons m ls =>
      obtain rfl : settle previous m ls = l := Option.some.inj hl
      exact isKeyword_settle hp
  | succ n ih =>
    cases ls with
    | nil => simp [qualify] at hl
    | cons m ls =>
      rw [qualify_cons] at hl hgap
      rw [hgap 0 (Nat.succ_pos n) _ rfl] at hl hgap
      exact ih (fun k hk => hgap (k + 1) (by omega)) hl

theorem getElem?_eq_place (start : Nat) (ls : List Lexeme) (i : Nat) :
    ls[i]? = (place start ls)[i]?.map fun t => ⟨t.kind, t.text⟩ := by
  induction ls generalizing start i with
  | nil => rfl
  | cons l ls ih =>
    cases i with
    | zero => rfl
    | succ i => exact ih _ i

end Lexeme

/-! ### Looking ahead -/

namespace Token

variable {ts : List Token} {i j : Nat}

variable (ts) in
/-- The keyword at `i` declares a type or a function, and the word at `j` is its name. -/
structure IsNameOf (j i : Nat) : Prop where
  named : IsNamed ts .classLike i ∨ IsNamed ts .functionWord i
  next : nextSignificant? isNameGap (i + 1) ts = some j

namespace IsNameOf

theorem lt (h : IsNameOf ts j i) : i < j := (exists_of_nextSignificant? h.next).1

theorem isNameGap (h : IsNameOf ts j i) {m : Nat} (hi : i < m) (hj : m < j) {t : Token}
    (ht : ts[m]? = some t) : t.isNameGap :=
  (exists_of_nextSignificant? h.next).2.2 m hi hj t ht

theorem isWordAt (h : IsNameOf ts j i) : IsWordAt ts j := by
  obtain ⟨-, ⟨t, ht, -⟩, -⟩ := exists_of_nextSignificant? h.next
  have hsome : (nameAt? ts i).isSome := h.named.elim And.right And.right
  refine ⟨t.kind, kindAt?_eq ht, ?_⟩
  rw [nameAt?, h.next, Option.bind_some, ht, Option.bind_some] at hsome
  by_contra hk
  rw [if_neg hk] at hsome
  contradiction

end IsNameOf

/-- A plain name is read as it is. -/
theorem asName_of_identifier (h : kindAt? ts j = some .identifier) : asName ts j = ts := by
  obtain ⟨t, ht, hk⟩ := Option.map_eq_some_iff.1 h
  refine List.ext_getElem? fun m => ?_
  rw [asName, List.getElem?_modify]
  by_cases hm : j = m
  · subst hm
    simp [ht, ← hk]
  · simp [hm]

section Source

variable {source : Text}

theorem getElem?_lexemes (source : Text) (i : Nat) :
    (Lexeme.qualify none (lexemes source))[i]? =
      (tokenize source)[i]?.map fun t => ⟨t.kind, t.text⟩ :=
  Lexeme.getElem?_eq_place 0 _ i

theorem isWord_text_of_getElem? {t : Token} (ht : (tokenize source)[i]? = some t)
    (hk : t.kind.isWord) : Text.isWord t.text :=
  (isSpelled_of_mem_tokenize (List.mem_of_getElem? ht)).word hk

/-- Where a token may come between a keyword and its name, the lexer looks past it as well, unless
it is a comment. -/
theorem isTransparent_of_isNameGap {t : Token} (hgap : t.isNameGap) (hk : t.kind ≠ .comment) :
    (⟨t.kind, t.text⟩ : Lexeme).isTransparent := by
  rw [Token.isNameGap, Bool.or_eq_true] at hgap
  rw [Lexeme.isTransparent, Bool.or_eq_true]
  refine hgap.imp_left fun htrivia => ?_
  rw [Token.isTrivia] at htrivia
  cases hkind : t.kind <;> simp_all [TokenKind.isTrivia]

/-- The name of a function is a plain name, unless a comment stands in front of it. -/
theorem kindAt?_of_isNameOf (h : IsNameOf (tokenize source) j i)
    (hi : kindAt? (tokenize source) i = some .functionWord)
    (hgap : ∀ m, i < m → m < j → kindAt? (tokenize source) m ≠ some .comment) :
    kindAt? (tokenize source) j = some .identifier := by
  obtain ⟨f, hf, hfk⟩ := Option.map_eq_some_iff.1 hi
  obtain ⟨k, hk, hword⟩ := h.isWordAt
  obtain ⟨t, ht, rfl⟩ := Option.map_eq_some_iff.1 hk
  obtain ⟨n, rfl⟩ := Nat.exists_eq_add_of_le h.lt
  have hf' := getElem?_lexemes source i
  rw [hf, Option.map_some, hfk] at hf'
  have hsolid : (⟨.functionWord, f.text⟩ : Lexeme).isTransparent = false :=
    Lexeme.isTransparent_of_isWord (isWord_text_of_getElem? hf (by rw [hfk]; rfl)) (by decide)
  -- The lexemes behind the keyword are settled with the keyword in front of them.
  have hbehind (m : Nat) :
      (Lexeme.qualify (some .functionWord) ((lexemes source).drop (i + 1)))[m]? =
        (tokenize source)[i + 1 + m]?.map fun t => ⟨t.kind, t.text⟩ := by
    rw [← getElem?_lexemes, ← List.getElem?_drop, Lexeme.drop_qualify hf' hsolid]
  have hname := hbehind n
  rw [ht, Option.map_some] at hname
  have hkey : t.kind.isKeyword = false := by
    refine Lexeme.isKeyword_qualify rfl (fun m hm l hl => ?_) hname
    rw [hbehind m] at hl
    obtain ⟨u, hu, rfl⟩ := Option.map_eq_some_iff.1 hl
    refine isTransparent_of_isNameGap (h.isNameGap (by omega) (by omega) hu) fun hc => ?_
    exact hgap _ (by omega) (by omega) (hc ▸ kindAt?_eq hu)
  rw [TokenKind.isKeyword, hword, Bool.true_and, bne_eq_false_iff_eq] at hkey
  rw [hk, hkey]

/-- Between a keyword and its name stands no function. -/
theorem memberNames_of_isNameOf (h : IsNameOf (tokenize source) j i) :
    memberNames (tokenize source) i j = [] := by
  rw [memberNames, List.map_eq_nil_iff, List.eq_nil_iff_forall_not_mem]
  intro f hf
  obtain ⟨hfj, hif, hfun⟩ := mem_functionsBetween.1 hf
  obtain ⟨t, ht, hk⟩ := Option.map_eq_some_iff.1 hfun.1
  have hgap := h.isNameGap hif hfj ht
  have hword := isWord_text_of_getElem? ht (by rw [hk]; rfl)
  rw [Token.isNameGap, Token.isTrivia, hk, Bool.or_eq_true] at hgap
  have hmark : t.text = referenceMark := by simpa [TokenKind.isTrivia] using hgap
  rw [hmark] at hword
  exact absurd hword (by decide)

end Source

end Token

/-- Behind `function`, with no comment between, the name is a plain name. Any other name may as well
be one unless it is a keyword that is acted on. Such a keyword is recorded as the first type, or ends
the members (all of them if it is the name of the type itself), or is a member of its own, or
declares the namespace; as a plain name it would not. -/
theorem declaredNames_isNameOf (path : Text) {source : Text} {ts : List Token} {i j : Nat}
    (hts : ts = tokenize source) (h : IsNameOf ts j i) :
    (kindAt? ts i = some .functionWord →
        (∀ m, i < m → m < j → kindAt? ts m ≠ some .comment) → asName ts j = ts) ∧
      (¬ IsActedOn ts j → declaredNames path (asName ts j) = declaredNames path ts) ∧
      (∀ e, IsTypeSpan ts j e → ∃ n, declaredNames path ts = some n ∧
        nameAt? ts j = some n.typeName ∧
        declaredNames path (asName ts j) =
          if e < ts.length then some (namesAt ts e (typeEnd ts e)) else none) ∧
      (∀ c, IsTypeSpan ts c j → ∃ n, declaredNames path ts = some n ∧
        (c = i → n.members = []) ∧
        declaredNames path (asName ts j) =
          some { n with members := n.members ++ memberNames ts j (typeEnd ts j) }) ∧
      (∀ c e, IsTypeSpan ts c e → j ∈ functionsBetween ts c e → ∃ n,
        declaredNames path ts = some n ∧
        declaredNames path (asName ts j) =
          some { n with
            members := ((functionsBetween ts c e).filter (· ≠ j)).map fun f =>
              (nameAt? ts f).getD [] }) ∧
      ∀ c e, IsTypeSpan ts c e → statementBefore? ts c = some j → ∃ n,
        declaredNames path ts = some n ∧ n.namespaceName = namespaceAt ts j ∧
        declaredNames path (asName ts j) =
          some { n with namespaceName := namespaceBefore ts j } := by
  have hword := h.isWordAt
  refine ⟨fun hi hgap => ?_, fun hacted => ?_, fun e hs => ?_, fun c hs => ?_, fun c e hs hf => ?_,
    fun c e hs hn => ?_⟩
  · subst hts
    exact asName_of_identifier (kindAt?_of_isNameOf h hi hgap)
  · exact declaredNames_asName hword hacted
  · exact ⟨_, declaredNames_of_isTypeSpan hs, nameAt?_of_isTypeSpan hs,
      declaredNames_asName_of_first hword hs⟩
  · refine ⟨_, declaredNames_of_isTypeSpan hs, ?_, declaredNames_asName_of_next hword hs⟩
    rintro rfl
    subst hts
    exact memberNames_of_isNameOf h
  · exact ⟨_, declaredNames_of_isTypeSpan hs, declaredNames_asName_of_member hword hs hf⟩
  · refine ⟨_, declaredNames_of_isTypeSpan hs, ?_, declaredNames_asName_of_statement hword hs hn⟩
    rw [namesAt, namespaceBefore_eq, hn, Option.map_some, Option.getD_some]

/-- A source with a type whose name is the keyword of a type. -/
def keywordSource : Text :=
  "<?php\nclass Enum extends Base\n\x7b\n\tpublic function get() \x7b\x7d\n\x7d\n".toList

theorem isNameOf_keywordSource : IsNameOf (tokenize keywordSource) 6 4 where
  named := Or.inl (by cbv)
  next := by cbv

theorem isTypeSpan_keywordSource : IsTypeSpan (tokenize keywordSource) 4 6 := by
  have hfirst : firstType? (tokenize keywordSource) = some 4 := by cbv
  have hend : typeEnd (tokenize keywordSource) 4 = 6 := by cbv
  exact hend ▸ isTypeSpan_typeEnd hfirst

theorem declaredNames_isNameOf_keywordSource :
    IsNameOf (tokenize keywordSource) 6 4 ∧
      ∃ n, declaredNames [] (tokenize keywordSource) = some n ∧ n.members = [] :=
  have h := (declaredNames_isNameOf [] rfl isNameOf_keywordSource).2.2.2.1 4
    isTypeSpan_keywordSource
  ⟨isNameOf_keywordSource, h.imp fun _ hn => ⟨hn.1, hn.2.1 rfl⟩⟩

/-- The name of the type ends the type in front of its function; read as a plain name it would not. -/
theorem name_ends_type_keywordSource :
    IsNameOf (tokenize keywordSource) 6 4 ∧
      declaredNames [] (tokenize keywordSource) = some ⟨"Enum".toList, [], []⟩ ∧
      declaredNames [] (asName (tokenize keywordSource) 6) =
        some ⟨"Enum".toList, [], ["get".toList]⟩ :=
  ⟨isNameOf_keywordSource, by cbv, by cbv⟩

/-- Behind a comment, the name of a function declares a namespace. -/
example :
    declaredNames [] (tokenize
      "namespace App;function /**/ namespace()\x7b\x7d class A\x7b\x7d".toList) =
        some ⟨"A".toList, [], []⟩ := by cbv

end DocPages
