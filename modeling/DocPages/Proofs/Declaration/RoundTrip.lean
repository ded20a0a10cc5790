import DocPages.Declaration.Extract
import DocPages.Proofs.Declaration.ClassRow

/-!
# Reading a class file back

The pass over the row of a class file goes part by part too. A part may be followed by any tokens,
so the lemmas (`run_namespaceRow`, `run_headerRow`, `run_memberRow`) say what the state is behind it
in front of an arbitrary rest.

Main statement: the text of a class file declares exactly what the class file does, and no
documentation block of it is dropped (`scanSource_print`).
-/

namespace DocPages

open Lexeme

/-! ### Tokens that change nothing -/

namespace TokenKind

/-- The kinds that the pass over a row of tokens goes past. -/
def isIdle : TokenKind → Bool
  | namespaceWord | docBlock | classLike | functionWord => false
  | _ => true

end TokenKind

theorem Lexeme.kind_of_mem_place {start : Nat} {ls : List Lexeme} {t : Token}
    (ht : t ∈ place start ls) : ∃ l ∈ ls, l.kind = t.kind := by
  have h : t.kind ∈ (place start ls).map Token.kind := List.mem_map_of_mem ht
  rwa [map_kind_place, List.mem_map] at h

section Pass

variable {path : Text} {s : ScanState} {us ts : List Token} {n : Nat}

theorem step_of_isIdle {t : Token} (h : t.kind.isIdle) : s.step path t ts = s := by
  unfold TokenKind.isIdle at h
  unfold ScanState.step
  split <;> simp_all

/-- Lexemes of idle kinds leave the state as it is. -/
theorem run_place_of_isIdle {ls : List Lexeme} (h : ls.all fun l => l.kind.isIdle) :
    s.run path (place n ls ++ ts) = s.run path ts := by
  induction ls generalizing n with
  | nil => rfl
  | cons l ls ih =>
    rw [List.all_cons, Bool.and_eq_true] at h
    rw [place_cons, List.cons_append, ScanState.run, step_of_isIdle h.1]
    exact ih h.2

theorem kind_of_mem_wordsRow {k : TokenKind} {ws : List (WordOf k)} {l : Lexeme}
    (h : l ∈ wordsRow ws) : l.kind = k ∨ l.kind = .whitespace := by
  obtain ⟨w, -, hl⟩ := List.mem_flatMap.1 h
  rcases List.mem_cons.1 hl with rfl | hl
  · exact Or.inl rfl
  · rw [List.mem_singleton.1 hl]
    exact Or.inr rfl

theorem run_wordsRow {k : TokenKind} (hk : k.isIdle) (ws : List (WordOf k)) :
    s.run path (place n (wordsRow ws) ++ ts) = s.run path ts := by
  refine run_place_of_isIdle (List.all_eq_true.2 fun l hl => ?_)
  rcases kind_of_mem_wordsRow hl with h | h
  · rwa [h]
  · rw [h]
    rfl

theorem targetAfter?_append (h : ∀ t ∈ us, t.isTargetGap) :
    Token.targetAfter? (us ++ ts) = Token.targetAfter? ts := by
  have hnone : us.find? (fun t => !t.isTargetGap) = none := by
    simpa [List.find?_eq_none] using h
  simp only [Token.targetAfter?, Token.firstSignificant?, List.find?_append, hnone,
    Option.none_or]

theorem targetAfter?_blank (c : Char) (ms : List Lexeme) :
    Token.targetAfter? (place n (blank c :: ms) ++ ts) =
      Token.targetAfter? (place (n + Text.byteSize [c]) ms ++ ts) := rfl

theorem targetAfter?_modifiers (ws : List (WordOf .modifier)) :
    Token.targetAfter? (place n (wordsRow ws) ++ ts) = Token.targetAfter? ts := by
  refine targetAfter?_append fun t ht => ?_
  obtain ⟨l, hl, hlt⟩ := kind_of_mem_place ht
  unfold Token.isTargetGap
  rcases kind_of_mem_wordsRow hl with h | h <;> rw [← hlt, h] <;> rfl

/-! ### Members -/

theorem isNameGap_word (w : Word) (k : Nat) :
    Token.isNameGap ⟨.identifier, w.text, k⟩ = false := by
  have hne : w.text ≠ referenceMark := by
    intro he
    have hword := w.isWord
    rw [he] at hword
    exact absurd hword (by decide)
  simp [Token.isNameGap, Token.isTrivia, TokenKind.isTrivia, hne]

theorem nameAfter?_blank (c : Char) (w : Word) (ls : List Lexeme) :
    Token.nameAfter? (place n (blank c :: Lexeme.name w.text :: ls) ++ ts) = some w.text := by
  show (Token.firstSignificant? Token.isNameGap (⟨.identifier, w.text, n + Text.byteSize [c]⟩ ::
    (place (n + Text.byteSize [c] + Text.byteSize w.text) ls ++ ts))).bind _ = _
  simp only [Token.firstSignificant?, List.find?_cons, isNameGap_word, Bool.not_false]
  rfl

/-- A function in a type is added with the block that waits. -/
theorem run_functionRow (hs : s.insideType) (w : Word) :
    s.run path (place n (functionRow w) ++ ts) =
      ScanState.run path { s with
        memberDoc := none
        declaration := s.declaration.map fun d =>
          { d with members := d.members ++ [⟨w.text, s.memberDoc⟩] } } ts := by
  set rest := [blank ' ', Lexeme.name w.text, ⟨.other, ['(']⟩, ⟨.other, [')']⟩, blank ' ',
    ⟨.openBrace, ['{']⟩, ⟨.other, ['}']⟩, blank '\n'] with hrest
  have hname : Token.nameAfter? (place (n + 8) rest ++ ts) = some w.text := nameAfter?_blank ' ' w _
  calc s.run path (place n (functionRow w) ++ ts)
      = ScanState.run path (s.takeFunction (place (n + 8) rest ++ ts)) (place (n + 8) rest ++ ts) :=
        rfl
    _ = ScanState.run path (s.takeFunction (place (n + 8) rest ++ ts)) ts :=
        run_place_of_isIdle rfl
    _ = _ := by rw [ScanState.takeFunction, if_pos hs, hname]

theorem targetAfter?_member (m : MemberText) :
    Token.targetAfter? (place n (wordsRow m.before ++ (wordsRow m.visibility.toList ++
      (wordsRow m.after ++ functionRow m.name))) ++ ts) = some .member := by
  rw [place_append, List.append_assoc, targetAfter?_modifiers]
  cases m.visibility with
  | none =>
    show Token.targetAfter? (place _ (wordsRow m.after ++ functionRow m.name) ++ ts) = _
    rw [place_append, List.append_assoc, targetAfter?_modifiers]
    rfl
  | some w => rfl

/-- Behind a block, if there is one, the state is what taking the block makes of it. -/
theorem run_docRow (d : Option DocText) (waiting : Option Text → ScanState)
    (hs : s = waiting none)
    (htake : ∀ text k us, Token.targetAfter? us = Token.targetAfter? ts →
      s.takeDoc ⟨.docBlock, text, k⟩ us = waiting (some text)) :
    s.run path (place n (docRow d) ++ ts) = (waiting (d.map DocText.text)).run path ts := by
  cases d with
  | none => exact congrArg (ScanState.run path · ts) hs
  | some d =>
    have hdoc := htake d.text n (place (n + Text.byteSize d.text) [blank '\n'] ++ ts)
      (targetAfter?_blank '\n' [])
    exact congrArg (ScanState.run path · ts) hdoc

theorem run_docRow_member (d : Option DocText) (hs : s.memberDoc = none)
    (h : Token.targetAfter? ts = some .member) :
    s.run path (place n (docRow d) ++ ts) =
      ScanState.run path { s with memberDoc := d.map DocText.text } ts := by
  refine run_docRow d (fun doc => { s with memberDoc := doc }) (by rw [← hs]) fun text k us hu => ?_
  rw [ScanState.takeDoc, hu, h]

theorem run_docRow_type (d : Option DocText) (hs : s.typeDoc = none)
    (h : Token.targetAfter? ts = some .type) :
    s.run path (place n (docRow d) ++ ts) =
      ScanState.run path { s with typeDoc := d.map DocText.text } ts := by
  refine run_docRow d (fun doc => { s with typeDoc := doc }) (by rw [← hs]) fun text k us hu => ?_
  rw [ScanState.takeDoc, hu, h]

/-- The state behind the opening brace of a type, where nothing has been dropped. -/
def ScanState.declaring (d : Declaration) : ScanState where
  namespaceName := d.namespaceName
  typeDoc := none
  memberDoc := none
  declaration := some d
  finished := false
  dropped := []

theorem run_memberRow (d : Declaration) (m : MemberText) :
    (ScanState.declaring d).run path (place n (memberRow m) ++ ts) =
      (ScanState.declaring { d with members := d.members ++ [m.member] }).run path ts := by
  rw [memberRow, place_append, List.append_assoc,
    run_docRow_member m.documentation rfl (targetAfter?_member m), place_append, List.append_assoc,
    run_wordsRow rfl, place_append, List.append_assoc, run_wordsRow rfl, place_append,
    List.append_assoc, run_wordsRow rfl, run_functionRow rfl]
  rfl

theorem run_memberRows (d : Declaration) (ms : List MemberText) :
    (ScanState.declaring d).run path (place n (ms.flatMap memberRow) ++ ts) =
      (ScanState.declaring { d with members := d.members ++ ms.map MemberText.member }).run path
        ts := by
  induction ms generalizing d n with
  | nil => simp
  | cons m ms ih =>
    rw [List.flatMap_cons, place_append, List.append_assoc, run_memberRow, ih]
    simp

/-! ### In front of the members -/

/-- The state behind a namespace statement. -/
def ScanState.inNamespace (n : Text) : ScanState := { ScanState.start with namespaceName := n }

theorem run_headerRow (name : Text) (f : ClassFile) :
    (ScanState.inNamespace name).run path (place n (headerRow f) ++ ts) =
      (ScanState.declaring
        ⟨name, f.name.text, f.documentation.map DocText.text, [], path⟩).run path ts := by
  set rest := [blank ' ', Lexeme.name f.name.text, blank '\n', ⟨.openBrace, ['{']⟩, blank '\n']
    with hrest
  have htarget (k : Nat) : Token.targetAfter? (place k (wordsRow f.modifiers ++
      ⟨.classLike, f.keyword.text⟩ :: rest) ++ ts) = some .type := by
    rw [place_append, List.append_assoc, targetAfter?_modifiers]
    rfl
  have hname (k : Nat) : Token.nameAfter? (place k rest ++ ts) = some f.name.text :=
    nameAfter?_blank ' ' f.name.toWord _
  rw [headerRow, place_append, List.append_assoc, run_docRow_type _ rfl (htarget _), place_append,
    List.append_assoc, run_wordsRow rfl, place_cons, List.cons_append, ScanState.run,
    run_place_of_isIdle rfl]
  show ScanState.run path (ScanState.takeType path _ (place _ rest ++ ts)) ts = _
  rw [ScanState.takeType, hname]
  rfl

theorem NamespaceName.trim_text (n : NamespaceName) : Text.trim n.text = n.text := by
  refine Text.trim_eq_self fun c hc => ?_
  rcases List.mem_append.1 hc with hc | hc
  · exact n.isBlank_eq _ List.mem_cons_self c hc
  · obtain ⟨w, hw, hc⟩ := List.mem_flatMap.1 hc
    rcases List.mem_cons.1 hc with rfl | hc
    · rfl
    · exact n.isBlank_eq w (List.mem_cons_of_mem _ hw) c hc

/-- The parts of a namespace up to its end. -/
theorem namespaceAfter?_append {t : Token} (hne : us ≠ []) (hu : ∀ u ∈ us, u.isNamespacePart)
    (ht : t.endsNamespace) :
    Token.namespaceAfter? (us ++ t :: ts) = some (Text.trim (Token.source us)) := by
  have hpart {u : Token} (h : u.isNamespacePart) :
      u.isTrivia = false ∧ u.endsNamespace = false := by
    revert h
    unfold Token.isNamespacePart Token.isTrivia Token.endsNamespace
    cases u.kind <;> decide
  have htake : (us ++ t :: ts).takeWhile (fun t => !t.endsNamespace) = us :=
    takeWhile_append_of_boundary (by simpa using fun u hmem => (hpart (hu u hmem)).2)
      (by simpa using ht)
  obtain ⟨v, vs, rfl⟩ := List.exists_cons_of_ne_nil hne
  have hdrop : (v :: vs ++ t :: ts).dropWhile Token.isTrivia = v :: (vs ++ t :: ts) := by
    simp [(hpart (hu v List.mem_cons_self)).1]
  rw [Token.namespaceAfter?, hdrop]
  show some (Text.trim (((((v :: vs ++ t :: ts).takeWhile fun t => !t.endsNamespace).filter
    Token.isNamespacePart).map Token.text).flatten)) = _
  rw [htake, List.filter_eq_self.2 hu, Token.source]

theorem NamespaceName.kind_of_mem_row {name : NamespaceName} {l : Lexeme} (h : l ∈ name.row) :
    l.kind = .identifier ∨ l.kind = .namespaceSeparator := by
  rcases List.mem_cons.1 h with rfl | h
  · exact Or.inl rfl
  · obtain ⟨w, -, hl⟩ := List.mem_flatMap.1 h
    simp only [List.mem_cons, List.not_mem_nil, or_false] at hl
    rcases hl with rfl | rfl
    · exact Or.inr rfl
    · exact Or.inl rfl

theorem isNamespacePart_of_mem_place {name : NamespaceName} {t : Token}
    (h : t ∈ place n name.row) : t.isNamespacePart := by
  obtain ⟨l, hl, hlt⟩ := kind_of_mem_place h
  unfold Token.isNamespacePart
  rcases NamespaceName.kind_of_mem_row hl with h | h <;> rw [← hlt, h] <;> rfl

theorem source_place_row (name : NamespaceName) : Token.source (place n name.row) = name.text := by
  have hothers (ws : List Word) :
      ((ws.flatMap fun w => [(⟨.namespaceSeparator, [separator]⟩ : Lexeme), Lexeme.name w.text]).map
        Lexeme.text).flatten = ws.flatMap fun w => separator :: w.text := by
    induction ws with
    | nil => rfl
    | cons w ws ih =>
      rw [List.flatMap_cons, List.map_append, List.flatten_append, ih]
      simp [Lexeme.name]
  rw [Token.source, map_text_place, NamespaceName.row, NamespaceName.text, List.map_cons,
    List.flatten_cons, hothers, Lexeme.name]

theorem run_namespaceRow (o : Option NamespaceName) :
    ScanState.start.run path (place n (namespaceRow o) ++ ts) =
      (ScanState.inNamespace ((o.map NamespaceName.text).getD [])).run path ts := by
  cases o with
  | none => rfl
  | some name =>
    set rest : List Lexeme := blank ' ' :: name.row ++ [⟨.semicolon, [';']⟩, blank '\n'] with hrest
    have hrow : namespaceRow (some name) = ⟨.namespaceWord, "namespace".toList⟩ :: rest := by
      rw [hrest, namespaceRow]
      simp
    have hname (k : Nat) : Token.namespaceAfter? (place k rest ++ ts) = some name.text := by
      show Token.namespaceAfter? (place (k + 1) (name.row ++ [⟨.semicolon, [';']⟩, blank '\n']) ++
        ts) = _
      have hne : place (k + 1) name.row ≠ [] := List.cons_ne_nil _ _
      rw [place_append, List.append_assoc, place_cons, List.cons_append,
        namespaceAfter?_append hne (fun t => isNamespacePart_of_mem_place) rfl, source_place_row,
        name.trim_text]
    have hidle : rest.all fun l => l.kind.isIdle := by
      have hall : name.row.all fun l => l.kind.isIdle := by
        refine List.all_eq_true.2 fun l hl => ?_
        rcases NamespaceName.kind_of_mem_row hl with h | h <;> rw [h] <;> rfl
      rw [hrest, List.all_append, List.all_cons, hall]
      rfl
    rw [hrow, place_cons, List.cons_append, ScanState.run, run_place_of_isIdle hidle]
    show ScanState.run path (ScanState.takeNamespace _ (place _ rest ++ ts)) ts = _
    rw [ScanState.takeNamespace, hname]
    rfl

/-- Behind a class file the state is that of its type with all members. -/
theorem run_classRow (f : ClassFile) :
    ScanState.start.run path (place n f.row ++ ts) =
      (ScanState.declaring (f.declaration path)).run path ts := by
  rw [ClassFile.row, place_append, List.append_assoc, run_place_of_isIdle rfl, place_append,
    List.append_assoc, run_namespaceRow, place_append, List.append_assoc, run_headerRow, place_append,
    List.append_assoc, run_memberRows, run_place_of_isIdle rfl]
  rfl

end Pass

/-! ### The whole file -/

theorem run_print (path : Text) (f : ClassFile) :
    ScanState.start.run path (tokenize f.print) = .declaring (f.declaration path) := by
  rw [tokenize_print, ← List.append_nil (place 0 f.row), run_classRow]
  rfl

/-- The text of a class file declares what the class file does, and no block of it is dropped. -/
theorem scanSource_print (path : Text) (f : ClassFile) :
    scanSource path f.print = ⟨some (f.declaration path), []⟩ := by
  rw [scanSource, extract, run_print]
  rfl

end DocPages
