import DocPages.Proofs.Declaration.ClassFile

/-!
# The row of a class file

A class file in canonical layout is cut part by part. Each part has its row of lexemes (`memberRow`,
`headerRow`, …) and is a piece that is cut into that row wherever it stands (`piece_member`,
`piece_header`, …). Names may be keywords where a backslash or the keyword of a function makes them
names (`NamespaceName.qualify_lexemes`, `piece_function`).

Main statement: a class file is cut into the rows of its parts (`ClassFile.piece_print`).
-/

namespace DocPages

open Lexeme

/-! ### The rows of the parts -/

/-- The row of some words of kind `k`. -/
def wordsRow {k : TokenKind} (ws : List (WordOf k)) : List Lexeme :=
  ws.flatMap fun w => [⟨k, w.text⟩, blank ' ']

/-- The row of a documentation block, if there is one. -/
def docRow (d : Option DocText) : List Lexeme :=
  d.toList.flatMap fun d => [⟨.docBlock, d.text⟩, blank '\n']

/-- The row of the words of a namespace. -/
def NamespaceName.row (n : NamespaceName) : List Lexeme :=
  Lexeme.name n.first.text ::
    n.others.flatMap fun w => [⟨.namespaceSeparator, [separator]⟩, Lexeme.name w.text]

/-- The row of a namespace statement, if there is one. -/
def namespaceRow (n : Option NamespaceName) : List Lexeme :=
  n.toList.flatMap fun n =>
    [⟨.namespaceWord, "namespace".toList⟩, blank ' '] ++ n.row ++
      [⟨.semicolon, [';']⟩, blank '\n']

/-- The row of a function without a body. -/
def functionRow (w : Word) : List Lexeme :=
  [⟨.functionWord, "function".toList⟩, blank ' ', Lexeme.name w.text, ⟨.other, ['(']⟩,
    ⟨.other, [')']⟩, blank ' ', ⟨.openBrace, ['{']⟩, ⟨.other, ['}']⟩, blank '\n']

theorem piece_openTag : Piece "<?php\n".toList
    [⟨.other, ['<']⟩, ⟨.other, ['?']⟩, Lexeme.name "php".toList, blank '\n'] where
  solid := by rintro c hc; cases hc; rfl
  cut rest hr previous hp := by
    have hcut : lexemes ("<?php\n".toList ++ rest) =
        [⟨.other, ['<']⟩, ⟨.other, ['?']⟩, Lexeme.name "php".toList, blank '\n'] ++
          lexemes rest := by
      have hphp : lexemes ("php".toList ++ ('\n' :: rest)) =
          Lexeme.name "php".toList :: lexemes ('\n' :: rest) :=
        lexemes_word rfl (by simp [isNameChar, isNameStart])
      rw [lexemes_blank rfl hr] at hphp
      show lexemes ('<' :: '?' :: ("php".toList ++ ('\n' :: rest))) = _
      rw [lexemes_cons, show reach '<' ('?' :: ("php".toList ++ ('\n' :: rest))) =
        ⟨.other, [], '?' :: ("php".toList ++ ('\n' :: rest))⟩ from rfl, lexemes_cons,
        show reach '?' ("php".toList ++ ('\n' :: rest)) =
        ⟨.other, [], "php".toList ++ ('\n' :: rest)⟩ from rfl, hphp]
      rfl
    refine ⟨some .identifier, rfl, ?_⟩
    rw [hcut]
    rfl

theorem WordOf.piece {k : TokenKind} (w : WordOf k) (hk : k ≠ .functionWord) {c : Char}
    (hc : isGap c) (hcn : isNameChar c = false) :
    Piece (w.text ++ [c]) [⟨k, w.text⟩, blank c] := by
  have hpiece := Piece.word w.isWord (by rwa [w.ofWord_eq]) hc hcn
  rwa [w.ofWord_eq] at hpiece

theorem piece_words {k : TokenKind} (hk : k ≠ .functionWord) (ws : List (WordOf k)) :
    Piece (printWords ws) (wordsRow ws) :=
  Piece.flatMap fun w _ => w.piece hk rfl rfl

theorem piece_doc (d : Option DocText) : Piece (printDoc d) (docRow d) :=
  Piece.flatMap fun d _ => Piece.docBlock d.isClosed d.isDocBody rfl

/-! ### Namespaces and functions -/

theorem isNameChar_head?_others (ws : List Word) {rest : Text}
    (hr : ∀ c ∈ rest.head?, isNameChar c = false) :
    ∀ c ∈ ((ws.flatMap fun w => separator :: w.text) ++ rest).head?, isNameChar c = false := by
  cases ws with
  | nil => exact hr
  | cons w ws =>
    rintro c hc
    obtain rfl : separator = c := Option.some.inj hc
    rfl

/-- The words behind the first one of a namespace are names, because a backslash stands in front of
each. -/
theorem qualify_lexemes_others (ws : List Word) {rest : Text}
    (hr : ∀ c ∈ rest.head?, isNameChar c = false) (previous : Option TokenKind)
    (hp : IsPlain previous) :
    ∃ previous', IsPlain previous' ∧
      qualify previous (lexemes ((ws.flatMap fun w => separator :: w.text) ++ rest)) =
        (ws.flatMap fun w => [⟨.namespaceSeparator, [separator]⟩, Lexeme.name w.text]) ++
          qualify previous' (lexemes rest) := by
  induction ws generalizing previous with
  | nil => exact ⟨previous, hp, rfl⟩
  | cons w ws ih =>
    obtain ⟨previous', hp', h⟩ := ih (some .identifier) rfl
    refine ⟨previous', hp', ?_⟩
    rw [List.flatMap_cons, List.append_assoc, List.cons_append, lexemes_mark rfl,
      lexemes_word w.isWord (isNameChar_head?_others ws hr), qualify_mark rfl rfl,
      qualify_word w.isWord (Or.inl rfl), h]
    rfl

/-- The first word of a namespace is a name: either it is no keyword, or a backslash follows it. -/
theorem NamespaceName.qualify_first (n : NamespaceName) (rest : Text) (previous : Option TokenKind) :
    qualify previous (⟨.ofWord n.first.text, n.first.text⟩ ::
        lexemes ((n.others.flatMap fun w => separator :: w.text) ++ rest)) =
      Lexeme.name n.first.text ::
        qualify (some .identifier)
          (lexemes ((n.others.flatMap fun w => separator :: w.text) ++ rest)) := by
  cases hn : n.others with
  | nil =>
    rw [n.ofWord_eq hn]
    exact qualify_mark rfl (isTransparent_of_isWord n.first.isWord (by decide))
  | cons w ws =>
    refine qualify_word n.first.isWord (Or.inr ?_)
    rw [List.flatMap_cons, List.append_assoc, List.cons_append, lexemes_mark rfl]
    rfl

theorem NamespaceName.qualify_lexemes (n : NamespaceName) {rest : Text}
    (hr : ∀ c ∈ rest.head?, isNameChar c = false) (previous : Option TokenKind) :
    ∃ previous', IsPlain previous' ∧
      qualify previous (lexemes (n.text ++ rest)) =
        n.row ++ qualify previous' (lexemes rest) := by
  obtain ⟨previous', hp', h⟩ := qualify_lexemes_others n.others hr (some .identifier) rfl
  refine ⟨previous', hp', ?_⟩
  rw [NamespaceName.text, List.append_assoc,
    lexemes_word n.first.isWord (isNameChar_head?_others n.others hr), n.qualify_first, h]
  rfl

theorem NamespaceName.startsSolid_append (n : NamespaceName) (rest : Text) :
    StartsSolid (n.text ++ rest) := by
  rw [NamespaceName.text, List.append_assoc]
  exact startsSolid_word_append n.first.isWord _

theorem piece_namespace (n : Option NamespaceName) : Piece (printNamespace n) (namespaceRow n) := by
  refine Piece.flatMap fun n _ => ⟨fun c hc => ?_, fun rest hr previous hp => ?_⟩
  · obtain rfl : 'n' = c := Option.some.inj hc
    rfl
  · have hword : Text.isWord "namespace".toList := rfl
    have hsolid := n.startsSolid_append (";\n".toList ++ rest)
    have hend : ∀ c ∈ (";\n".toList ++ rest).head?, isNameChar c = false := by
      simp [isNameChar, isNameStart]
    obtain ⟨previous', -, h⟩ := n.qualify_lexemes hend (some .namespaceWord)
    refine ⟨some .semicolon, rfl, ?_⟩
    calc qualify previous (lexemes ("namespace ".toList ++ n.text ++ ";\n".toList ++ rest))
        = qualify previous
            (lexemes ("namespace".toList ++ ' ' :: (n.text ++ (";\n".toList ++ rest)))) := by
          simp only [List.append_assoc]
          rfl
      _ = [⟨.namespaceWord, "namespace".toList⟩, blank ' '] ++
            qualify (some .namespaceWord) (lexemes (n.text ++ (";\n".toList ++ rest))) := by
          rw [lexemes_word hword (by simp [isNameChar, isNameStart]), lexemes_blank rfl hsolid]
          exact (qualify_of_isPlain hp rfl rfl).trans (congrArg _ (qualify_blank ' '))
      _ = [⟨.namespaceWord, "namespace".toList⟩, blank ' '] ++
            (n.row ++ qualify previous' (lexemes (';' :: '\n' :: rest))) := by rw [h]; rfl
      _ = _ := by
          rw [lexemes_mark rfl, lexemes_blank rfl hr, qualify_mark rfl rfl, qualify_blank]
          simp only [List.append_assoc]
          rfl

/-- Behind the keyword of a function every word is a name. -/
theorem piece_function (w : Word) :
    Piece ("function ".toList ++ w.text ++ ['(', ')', ' ', '{', '}', '\n']) (functionRow w) := by
  refine ⟨fun c hc => ?_, fun rest hr previous hp => ?_⟩
  · obtain rfl : 'f' = c := Option.some.inj hc
    rfl
  · have hword : Text.isWord "function".toList := rfl
    have hsolid := startsSolid_word_append w.isWord (['(', ')', ' ', '{', '}', '\n'] ++ rest)
    have hbrace : StartsSolid ('{' :: '}' :: '\n' :: rest) := by
      rintro c hc
      obtain rfl : '{' = c := Option.some.inj hc
      rfl
    refine ⟨some .other, rfl, ?_⟩
    calc qualify previous
          (lexemes ("function ".toList ++ w.text ++ ['(', ')', ' ', '{', '}', '\n'] ++ rest))
        = qualify previous (lexemes ("function".toList ++
            ' ' :: (w.text ++ (['(', ')', ' ', '{', '}', '\n'] ++ rest)))) := by
          simp only [List.append_assoc]
          rfl
      _ = [⟨.functionWord, "function".toList⟩, blank ' '] ++
            qualify (some .functionWord)
              (lexemes (w.text ++ ('(' :: ')' :: ' ' :: '{' :: '}' :: '\n' :: rest))) := by
          rw [lexemes_word hword (by simp [isNameChar, isNameStart]), lexemes_blank rfl hsolid]
          exact (qualify_of_isPlain hp rfl rfl).trans (congrArg _ (qualify_blank ' '))
      _ = [⟨.functionWord, "function".toList⟩, blank ' ', Lexeme.name w.text] ++
            qualify (some .identifier)
              (lexemes ('(' :: ')' :: ' ' :: '{' :: '}' :: '\n' :: rest)) := by
          rw [lexemes_word w.isWord (by simp [isNameChar, isNameStart]),
            qualify_word w.isWord (Or.inl rfl)]
          rfl
      _ = functionRow w ++ qualify (some .other) (lexemes rest) := by
          rw [lexemes_mark rfl, lexemes_mark rfl, lexemes_blank rfl hbrace, lexemes_mark rfl,
            lexemes_mark rfl, lexemes_blank rfl hr, qualify_mark rfl rfl, qualify_mark rfl rfl,
            qualify_blank, qualify_mark rfl rfl, qualify_mark rfl rfl, qualify_blank]
          rfl

/-! ### Whole files -/

/-- The row of a member. -/
def memberRow (m : MemberText) : List Lexeme :=
  docRow m.documentation ++ (wordsRow m.before ++ (wordsRow m.visibility.toList ++
    (wordsRow m.after ++ functionRow m.name)))

theorem piece_member (m : MemberText) : Piece m.print (memberRow m) := by
  have h := (piece_doc m.documentation).append <| (piece_words (by decide) m.before).append <|
    (piece_words (by decide) m.visibility.toList).append <|
    (piece_words (by decide) m.after).append (piece_function m.name)
  simpa only [MemberText.print, memberRow, List.append_assoc] using h

/-- The row in front of the members. -/
def headerRow (f : ClassFile) : List Lexeme :=
  docRow f.documentation ++ (wordsRow f.modifiers ++
    [⟨.classLike, f.keyword.text⟩, blank ' ', Lexeme.name f.name.text, blank '\n',
      ⟨.openBrace, ['{']⟩, blank '\n'])

theorem piece_header (f : ClassFile) :
    Piece (printDoc f.documentation ++ (printWords f.modifiers ++
      (f.keyword.text ++ [' '] ++ (f.name.text ++ ['\n'] ++ ['{', '\n'])))) (headerRow f) :=
  (piece_doc f.documentation).append <| (piece_words (by decide) f.modifiers).append <|
    (f.keyword.piece (by decide) rfl rfl).append <| (f.name.piece (by decide) rfl rfl).append <|
    Piece.mark rfl rfl rfl rfl rfl rfl

/-- The row of a class file. -/
def ClassFile.row (f : ClassFile) : List Lexeme :=
  [⟨.other, ['<']⟩, ⟨.other, ['?']⟩, Lexeme.name "php".toList, blank '\n'] ++
    (namespaceRow f.namespaceName ++ (headerRow f ++ (f.members.flatMap memberRow ++
      [⟨.other, ['}']⟩, blank '\n'])))

/-- A class file is cut into the rows of its parts, whatever follows it. -/
theorem ClassFile.piece_print (f : ClassFile) : Piece f.print f.row := by
  have hclose : Piece ['}', '\n'] [⟨.other, ['}']⟩, blank '\n'] :=
    Piece.mark rfl rfl rfl rfl rfl rfl
  have hprint : f.print = "<?php\n".toList ++ (printNamespace f.namespaceName ++
      (printDoc f.documentation ++ (printWords f.modifiers ++ (f.keyword.text ++ [' '] ++
        (f.name.text ++ ['\n'] ++ ['{', '\n']))) ++
        (f.members.flatMap MemberText.print ++ ['}', '\n']))) := by
    unfold ClassFile.print
    simp only [List.append_assoc]
  have hmembers : Piece (f.members.flatMap MemberText.print) (f.members.flatMap memberRow) :=
    Piece.flatMap fun m _ => piece_member m
  rw [hprint, ClassFile.row]
  exact piece_openTag.append ((piece_namespace f.namespaceName).append
    ((piece_header f).append (hmembers.append hclose)))

theorem tokenize_print (f : ClassFile) : tokenize f.print = place 0 f.row :=
  f.piece_print.tokenize_eq

end DocPages
