import DocPages.Proofs.Declaration.Outline
import DocPages.Proofs.Declaration.RoundTrip

/-!
# Functions behind a type

A closing brace ends no type: the pass over the tokens of a file goes past it, and the members of a type
go on up to the next named type or the end of the file. So free functions (`FunctionText`) that stand
behind a class are added to its members, with their documentation.

Main statement: the members of a class file with free functions behind it are its own and all of these,
whatever stands behind the next named type (`members_functions_behind`).
-/

namespace DocPages

open Lexeme

/-! ### The layout -/

/-- A free function. -/
structure FunctionText where
  documentation : Option DocText
  name : Word

namespace FunctionText

/-- The text of a free function. -/
def print (g : FunctionText) : Text :=
  printDoc g.documentation ++ "function ".toList ++ g.name.text ++ ['(', ')', ' ', '{', '}', '\n']

/-- The member that a type with this function in it would have. -/
def asMember (g : FunctionText) : MemberText := ⟨g.documentation, [], none, [], g.name⟩

/-- A free function has the text of a member without modifiers and visibility. -/
theorem print_asMember (g : FunctionText) : g.asMember.print = g.print := by
  simp only [MemberText.print, print, asMember, printWords, Option.toList_none, List.flatMap_nil,
    List.append_nil]

end FunctionText

/-- The text of free functions. -/
def printFunctions (gs : List FunctionText) : Text := gs.flatMap FunctionText.print

/-- The text of the type of a class file up to its opening brace. -/
def ClassFile.opening (f : ClassFile) : Text :=
  printDoc f.documentation ++ (printWords f.modifiers ++
    (f.keyword.text ++ [' '] ++ (f.name.text ++ ['\n'])))

/-- What a class file at `path` declares with free functions behind it. -/
def ClassFile.declarationWith (path : Text) (f : ClassFile) (gs : List FunctionText) : Declaration :=
  { f.declaration path with
    members := (f.declaration path).members ++ gs.map fun g => g.asMember.member }

/-! ### The rows -/

/-- The row of free functions. -/
def functionRows (gs : List FunctionText) : List Lexeme := gs.flatMap fun g => memberRow g.asMember

theorem piece_functions (gs : List FunctionText) : Piece (printFunctions gs) (functionRows gs) := by
  refine Piece.flatMap fun g _ => ?_
  rw [← g.print_asMember]
  exact piece_member g.asMember

/-- The row of the type of a class file up to its opening brace. -/
def openingRow (f : ClassFile) : List Lexeme :=
  docRow f.documentation ++ (wordsRow f.modifiers ++
    [⟨.classLike, f.keyword.text⟩, blank ' ', Lexeme.name f.name.text, blank '\n'])

theorem piece_opening (f : ClassFile) : Piece f.opening (openingRow f) :=
  (piece_doc f.documentation).append <| (piece_words (by decide) f.modifiers).append <|
    (f.keyword.piece (by decide) rfl rfl).append (f.name.piece (by decide) rfl rfl)

/-- In front of a text that opens with no blank, a piece is cut into its row. -/
theorem Piece.tokenize_append {t rest : Text} {ms : List Lexeme} (h : Piece t ms)
    (hr : StartsSolid rest) : ∃ us, tokenize (t ++ rest) = place 0 ms ++ us := by
  obtain ⟨previous, -, hcut⟩ := h.cut rest hr none rfl
  rw [tokenize, hcut, place_append]
  exact ⟨_, rfl⟩

/-! ### The pass -/

section Pass

variable {path : Text} {s : ScanState} {ts : List Token} {n : Nat} {d : Declaration}

theorem run_functionRows (d : Declaration) (gs : List FunctionText) :
    (ScanState.declaring d).run path (place n (functionRows gs) ++ ts) =
      (ScanState.declaring
        { d with members := d.members ++ gs.map fun g => g.asMember.member }).run path ts := by
  have hrows : functionRows gs = (gs.map FunctionText.asMember).flatMap memberRow := by
    rw [List.flatMap_map, functionRows]
  rw [hrows, run_memberRows, List.map_map]
  rfl

/-- Behind the name of another type the declaration is finished. -/
theorem run_openingRow (d : Declaration) (f : ClassFile) :
    (ScanState.declaring d).run path (place n (openingRow f) ++ ts) =
      ScanState.run path { ScanState.declaring d with
        typeDoc := f.documentation.map DocText.text
        finished := true } ts := by
  set rest := [blank ' ', Lexeme.name f.name.text, blank '\n'] with hrest
  have htarget (k : Nat) : Token.targetAfter? (place k (wordsRow f.modifiers ++
      ⟨.classLike, f.keyword.text⟩ :: rest) ++ ts) = some .type := by
    rw [place_append, List.append_assoc, targetAfter?_modifiers]
    rfl
  have hname (k : Nat) : Token.nameAfter? (place k rest ++ ts) = some f.name.text :=
    nameAfter?_blank ' ' f.name.toWord _
  rw [openingRow, place_append, List.append_assoc, run_docRow_type _ rfl (htarget _), place_append,
    List.append_assoc, run_wordsRow rfl, place_cons, List.cons_append, ScanState.run,
    run_place_of_isIdle rfl]
  show ScanState.run path (ScanState.takeType path _ (place _ rest ++ ts)) ts = _
  rw [ScanState.takeType, hname]
  rfl

/-- What follows changes nothing in a declaration that is finished. -/
theorem declaration_run_of_finished (hd : s.declaration = some d) (hf : s.finished = true) :
    (s.run path ts).declaration = some d := by
  induction ts generalizing s with
  | nil => exact hd
  | cons t ts ih =>
    have hmove : Move (t :: ts) path 0 s (s.step path t ts) := move_step path s rfl
    obtain ⟨hd', hf'⟩ := hmove.settled hd hf
    exact ih hd' hf'

theorem run_classRow_functions (f : ClassFile) (gs : List FunctionText) :
    ScanState.start.run path (place 0 (f.row ++ functionRows gs) ++ ts) =
      (ScanState.declaring (f.declarationWith path gs)).run path ts := by
  rw [place_append, List.append_assoc, run_classRow, run_functionRows]
  rfl

end Pass

/-! ### The members -/

section Members

variable (path : Text) (f : ClassFile) (gs : List FunctionText)

theorem scanSource_print_functions :
    scanSource path (f.print ++ printFunctions gs) = ⟨some (f.declarationWith path gs), []⟩ := by
  have htokens : tokenize (f.print ++ printFunctions gs) = place 0 (f.row ++ functionRows gs) :=
    (f.piece_print.append (piece_functions gs)).tokenize_eq
  rw [scanSource, extract, htokens, ← List.append_nil (place 0 _), run_classRow_functions]
  rfl

theorem declaration_print_functions_opening (next : ClassFile) (rest : Text) :
    (scanSource path (f.print ++ printFunctions gs ++ next.opening ++ '{' :: rest)).declaration =
      some (f.declarationWith path gs) := by
  have hbrace : StartsSolid ('{' :: rest) := by
    rintro c hc
    obtain rfl : '{' = c := Option.some.inj hc
    rfl
  have hpiece := (f.piece_print.append (piece_functions gs)).append (piece_opening next)
  obtain ⟨us, htokens⟩ := hpiece.tokenize_append hbrace
  rw [scanSource, extract, htokens, place_append, List.append_assoc, run_classRow_functions,
    run_openingRow]
  exact declaration_run_of_finished rfl rfl

theorem members_declarationWith_eq_iff :
    (f.declarationWith path gs).members = (f.declaration path).members ↔ gs = [] := by
  rw [ClassFile.declarationWith]
  simp

/-- Free functions behind a class are members of it too, each with its documentation, so the members are
those of the class alone exactly when there are none. The next named type ends them, and then what follows
its opening brace does not matter. -/
theorem members_functions_behind :
    scanSource path (f.print ++ printFunctions gs) =
        ⟨some { f.declaration path with
          members := f.members.map MemberText.member ++
            gs.map fun g => ⟨g.name.text, g.documentation.map DocText.text⟩ }, []⟩ ∧
      ((scanSource path (f.print ++ printFunctions gs)).declaration.map Declaration.members =
          (scanSource path f.print).declaration.map Declaration.members ↔ gs = []) ∧
      ∀ (next : ClassFile) (rest : Text),
        (scanSource path (f.print ++ printFunctions gs ++ next.opening ++ '{' :: rest)).declaration =
          (scanSource path (f.print ++ printFunctions gs)).declaration := by
  refine ⟨scanSource_print_functions path f gs, ?_, fun next rest => ?_⟩
  · rw [scanSource_print_functions, scanSource_print, Option.map_some, Option.map_some,
      Option.some_inj, members_declarationWith_eq_iff]
  · rw [declaration_print_functions_opening, scanSource_print_functions]

end Members

/-- A class file with one method. -/
def runnerFile : ClassFile where
  namespaceName := none
  documentation := none
  modifiers := []
  keyword := toolFile.keyword
  name := ⟨⟨"Runner".toList, rfl⟩, rfl⟩
  members := [⟨none, [], none, [], ⟨"run".toList, rfl⟩⟩]

/-- A free function without documentation. -/
def helperText : FunctionText := ⟨none, ⟨"helper".toList, rfl⟩⟩

example : runnerFile.print ++ printFunctions [helperText] =
    ("<?php\nclass Runner\n\x7b\nfunction run() \x7b\x7d\n\x7d\n" ++
      "function helper() \x7b\x7d\n").toList := by
  decide +kernel

/-- A free function behind the closing brace of a class becomes a member of it. -/
theorem members_ne_runnerFile :
    (scanSource [] (runnerFile.print ++ printFunctions [helperText])).declaration.map
        Declaration.members ≠
      (scanSource [] runnerFile.print).declaration.map Declaration.members := by
  rw [scanSource_print_functions, scanSource_print]
  decide

end DocPages
