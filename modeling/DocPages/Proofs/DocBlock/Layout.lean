import DocPages.Proofs.DocBlock.Content
import DocPages.Proofs.Token.Cut

/-!
# Layouts of documentation blocks

In the starred layout (`starred`) each line of a block has a star in front, and the marks stand on
lines of their own. A block written so (`BlockText.print`) is one token, and it is read back as it
was written (`ofText_print`): its description lines, and under each tag name the values in order.
Nothing in the lines is taken for decoration, stars and opening marks at their starts included
(`undecorated_starredLine`).

A block on one line (`oneLine`) is read as the starred block of the text without a star at its start
(`contentLines_oneLine`), so it says what was written exactly when the text does not start with a
star (`ofText_oneLine`).
-/

namespace DocPages

open Text

namespace DocBlock

/-! ### The layouts -/

/-- A text that can stand as a line of a block: it has no blank at its ends, no line feed, and no
closing mark of a comment. -/
structure IsLine (line : Text) : Prop where
  isTrimmed : IsTrimmed line
  not_mem : '\n' ∉ line
  hasNoMark : HasNoMark line

/-- A line in the starred layout. -/
def starredLine (line : Text) : Text := " * ".toList ++ line

/-- A block with each of the lines behind a star, between the marks on lines of their own. -/
def starred (lines : List Text) : Text :=
  unlines ("/**".toList :: lines.map starredLine) ++ " */".toList

/-- A block on one line. -/
def oneLine (line : Text) : Text := "/**".toList ++ (' ' :: line ++ [' ']) ++ "*/".toList

/-! ### What the lines hold -/

section Lines

variable {line : Text} {lines : List Text}

theorem forall_isBlank_space : ∀ c ∈ [' '], isBlank c := List.forall_mem_singleton.2 rfl

theorem trim_blank_append (h : IsTrimmed line) : trim (' ' :: line) = line := by
  have htrim := trim_append_append (a := [' ']) (b := []) forall_isBlank_space h (by simp)
  rwa [List.append_nil] at htrim

theorem not_close_isSuffix (h : IsLine line) : ¬ "*/".toList <:+ '*' :: ' ' :: line := by
  have hmark : HasNoMark (['*'] ++ ' ' :: line) :=
    (hasNoMark_append_cons (by decide) (by decide)).2 ⟨hasNoMark_star, h.hasNoMark⟩
  exact fun hsuffix => hmark hsuffix.isInfix

/-- In the starred layout only the star is decoration, whatever the line starts with. -/
theorem undecorated_starredLine (h : IsLine line) : undecorated (starredLine line) = line := by
  -- Behind an empty line's star there is only the blank, which is trimmed first.
  by_cases hne : line = []
  · subst hne
    rfl
  have hstar : IsTrimmed ['*'] := trim_eq_self_iff.1 rfl
  have htrimmed : IsTrimmed ('*' :: ' ' :: line) :=
    hstar.append h.isTrimmed (List.cons_ne_nil _ _) hne [' ']
  have hline : trim (starredLine line) = '*' :: ' ' :: line := trim_blank_append htrimmed
  -- With the star in front, no mark stands at either end, so only the star is taken off.
  have hopen : ¬ "/**".toList <+: '*' :: ' ' :: line := by simp
  rw [undecorated, hline, withoutStart_of_not_isPrefix hopen,
    withoutEnd_of_not_isSuffix (not_close_isSuffix h), htrimmed.trim_eq]
  have hrest : withoutStart ['*'] ('*' :: ' ' :: line) = ' ' :: line :=
    withoutStart_append ['*'] (' ' :: line)
  rw [hrest, trim_blank_append h.isTrimmed]

theorem dropReturn_starredLine (h : IsLine line) :
    dropReturn (starredLine line) = starredLine line := by
  by_cases hne : line = []
  · subst hne
    rfl
  · exact dropReturn_of_isTrimmed _ h.isTrimmed hne

theorem lines_starred (h : ∀ line ∈ lines, IsLine line) :
    Text.lines (starred lines) = "/**".toList :: (lines.map starredLine ++ [" */".toList]) := by
  have hfeed : ∀ line ∈ "/**".toList :: lines.map starredLine, '\n' ∉ line := by
    rw [List.forall_mem_cons, List.forall_mem_map]
    refine ⟨by decide, fun line hline hmem => ?_⟩
    exact (List.mem_append.1 hmem).elim (by decide) (h line hline).not_mem
  have hreturn : (lines.map starredLine).map dropReturn = lines.map starredLine := by
    rw [List.map_map]
    exact List.map_congr_left fun line hline => dropReturn_starredLine (h line hline)
  rw [starred, lines_unlines_append hfeed, List.map_cons, hreturn, List.cons_append]
  rfl

/-- The starred layout is read back, without empty lines. -/
theorem contentLines_starred (h : ∀ line ∈ lines, IsLine line) :
    contentLines (starred lines) = lines.filter (· ≠ []) := by
  have hread : ∀ line ∈ lines, (undecorated ∘ starredLine) line = id line := by
    intro line hline
    rw [Function.comp_apply, undecorated_starredLine (h line hline), id]
  have hopen : contentOf ["/**".toList] = [] := by decide +kernel
  have hclose : contentOf [" */".toList] = [] := by decide +kernel
  rw [contentLines, lines_starred h, ← List.singleton_append, contentOf_append, contentOf_append,
    hopen, hclose, List.nil_append, List.append_nil, contentOf, List.map_map,
    List.map_congr_left hread, List.map_id]

/-- On one line, a star at the start of the text is taken for decoration. -/
theorem undecorated_oneLine (h : IsTrimmed line) :
    undecorated (oneLine line) = trim (withoutStart ['*'] line) := by
  have hends : IsTrimmed (oneLine line) := by
    have hopen : IsTrimmed "/**".toList := trim_eq_self_iff.1 rfl
    have hclose : IsTrimmed "*/".toList := trim_eq_self_iff.1 rfl
    exact hopen.append hclose (by simp) (by simp) (' ' :: line ++ [' '])
  -- The blank behind the opening mark is trimmed before a star is looked for.
  have hopened :
      withoutStart "/**".toList (oneLine line) = ' ' :: line ++ [' '] ++ "*/".toList := by
    rw [oneLine, List.append_assoc, withoutStart_append]
  have hinside : trim (' ' :: line ++ [' ']) = line :=
    trim_append_append (a := [' ']) forall_isBlank_space h forall_isBlank_space
  rw [undecorated, hends.trim_eq, hopened, withoutEnd_append, hinside]

theorem IsLine.withoutStar (h : IsLine line) : IsLine (trim (withoutStart ['*'] line)) := by
  have hpart : trim (withoutStart ['*'] line) <:+: line :=
    (trim_isInfix _).trans (withoutStart_isSuffix _ _).isInfix
  have hfeed : '\n' ∉ trim (withoutStart ['*'] line) := fun hmem => h.not_mem (hpart.subset hmem)
  exact ⟨isTrimmed_trim _, hfeed, h.hasNoMark.of_isInfix hpart⟩

/-- A block on one line holds what the block in the starred layout holds that has the text without
a star at its start. -/
theorem contentLines_oneLine (h : IsLine line) :
    contentLines (oneLine line) = contentLines (starred [trim (withoutStart ['*'] line)]) := by
  have hfeed : '\n' ∉ oneLine line := by
    simp [oneLine, h.not_mem]
  have hone : ∀ l ∈ [trim (withoutStart ['*'] line)], IsLine l := by
    simpa using h.withoutStar
  rw [contentLines_starred hone, contentLines, lines_of_not_mem hfeed (by simp [oneLine]),
    contentOf, List.map_singleton, undecorated_oneLine h.isTrimmed]

/-! ### The token -/

theorem hasNoMark_unlines_starredLine (h : ∀ line ∈ lines, HasNoMark line) :
    HasNoMark (unlines (lines.map starredLine) ++ [' ']) := by
  induction lines with
  | nil => exact hasNoMark_of_not_mem (by decide)
  | cons line lines ih =>
    have hrest := ih fun l hl => h l (List.mem_cons_of_mem _ hl)
    have hline : HasNoMark (starredLine line) :=
      (hasNoMark_append_cons (a := [' ', '*']) (by decide) (by decide)).2
        ⟨hasNoMark_iff_isChain.2 (by simp), h line List.mem_cons_self⟩
    rw [List.map_cons, unlines_cons, List.append_assoc, List.cons_append]
    exact (hasNoMark_append_cons (by decide) (by decide)).2 ⟨hline, hrest⟩

theorem tokenize_starred (h : ∀ line ∈ lines, HasNoMark line) :
    tokenize (starred lines) = [⟨.docBlock, starred lines, 0⟩] := by
  have hbody : starred lines = '/' :: '*' ::
      ('*' :: '\n' :: (unlines (lines.map starredLine) ++ [' ']) ++ ['*', '/']) := by
    rw [starred, unlines_cons]
    simp
  have hmark := (hasNoMark_append_cons (a := ['*']) (c := '\n') (by decide) (by decide)).2
    ⟨hasNoMark_star, hasNoMark_unlines_starredLine h⟩
  rw [hbody]
  exact tokenize_docBlock (isClosed_append_of_hasNoMark hmark) rfl

end Lines

/-! ### Blocks in the starred layout -/

/-- A line of a description. -/
structure PlainLine where
  text : Text
  ne_nil : text ≠ []
  isLine : IsLine text
  plain : text.head? ≠ some '@'

/-- A tag with a value. -/
structure TagText where
  name : Text
  name_ne_nil : name ≠ []
  isWordChar_of_mem : ∀ c ∈ name, isWordChar c
  value : Text
  value_ne_nil : value ≠ []
  isLine : IsLine value

/-- What is to be written in a block: lines of a description, and tags behind them. -/
structure BlockText where
  description : List PlainLine
  tags : List TagText

theorem PlainLine.startsTag_eq_false (p : PlainLine) : startsTag p.text = false := by
  rw [← Bool.not_eq_true, startsTag_iff]
  exact p.plain

namespace TagText

/-- The line of a tag. -/
def line (t : TagText) : Text := '@' :: (t.name ++ ' ' :: t.value)

/-- The name and the value. -/
def pair (t : TagText) : Text × Text := (t.name, t.value)

theorem isTagLine_line (t : TagText) : IsTagLine t.line t.name t.value where
  name_ne_nil := t.name_ne_nil
  isWordChar_of_mem := t.isWordChar_of_mem
  exists_blanks := ⟨[' '], List.cons_ne_nil _ _, forall_isBlank_space, rfl⟩
  solid := t.isLine.isTrimmed.head

theorem not_mem_name (t : TagText) {c : Char} (h : isWordChar c = false) : c ∉ t.name := by
  intro hmem
  rw [t.isWordChar_of_mem c hmem] at h
  contradiction

theorem isLine_line (t : TagText) : IsLine t.line where
  isTrimmed := by
    have hat : IsTrimmed ['@'] := trim_eq_self_iff.1 rfl
    have hends := hat.append t.isLine.isTrimmed (List.cons_ne_nil _ _) t.value_ne_nil
    simpa [line] using hends (t.name ++ [' '])
  not_mem := by
    have hname : '\n' ∉ t.name := t.not_mem_name (by decide +kernel)
    simp [line, hname, t.isLine.not_mem]
  hasNoMark := by
    have hname : '*' ∉ '@' :: t.name := by
      simpa using t.not_mem_name (c := '*') (by decide +kernel)
    exact (hasNoMark_append_cons (by decide) (by decide)).2
      ⟨hasNoMark_of_not_mem hname, t.isLine.hasNoMark⟩

theorem tagOfLine?_line (t : TagText) : tagOfLine? t.line = some t.pair :=
  (tagOfLine?_eq_some_iff t.isLine_line.isTrimmed).2 t.isTagLine_line

end TagText

namespace BlockText

/-- The lines, without decoration. -/
def lines (b : BlockText) : List Text := b.description.map PlainLine.text ++ b.tags.map TagText.line

/-- The block in the starred layout. -/
def print (b : BlockText) : Text := starred b.lines

variable (b : BlockText)

theorem isLine_of_mem_lines : ∀ line ∈ b.lines, IsLine line ∧ line ≠ [] := by
  intro line hline
  rcases List.mem_append.1 hline with hline | hline
  · obtain ⟨p, -, rfl⟩ := List.mem_map.1 hline
    exact ⟨p.isLine, p.ne_nil⟩
  · obtain ⟨t, -, rfl⟩ := List.mem_map.1 hline
    exact ⟨t.isLine_line, List.cons_ne_nil _ _⟩

theorem contentLines_print : contentLines b.print = b.lines := by
  rw [print, contentLines_starred fun line hline => (b.isLine_of_mem_lines line hline).1,
    List.filter_eq_self]
  intro line hline
  simpa using (b.isLine_of_mem_lines line hline).2

theorem takeWhile_lines :
    (b.lines.takeWhile fun line => !startsTag line) = b.description.map PlainLine.text := by
  apply takeWhile_append_of_boundary
  · intro line hline
    obtain ⟨p, -, rfl⟩ := List.mem_map.1 hline
    simp [p.startsTag_eq_false]
  · intro line hline
    obtain ⟨t, -, rfl⟩ := List.mem_map.1 (List.mem_of_mem_head? hline)
    simp [t.isTagLine_line.startsTag]

theorem filterMap_lines : b.lines.filterMap tagOfLine? = b.tags.map TagText.pair := by
  have hplain : (b.description.map PlainLine.text).filterMap tagOfLine? = [] := by
    rw [List.filterMap_eq_nil_iff, List.forall_mem_map]
    exact fun p _ => tagOfLine?_of_not_startsTag p.startsTag_eq_false
  have htags : tagOfLine? ∘ TagText.line = some ∘ TagText.pair := funext TagText.tagOfLine?_line
  rw [lines, List.filterMap_append, hplain, List.nil_append, List.filterMap_map, htags,
    List.filterMap_eq_map]

theorem tokenize_print : tokenize b.print = [⟨.docBlock, b.print, 0⟩] :=
  tokenize_starred fun line hline => (b.isLine_of_mem_lines line hline).1.hasNoMark

/-- A block that is written in the starred layout is one token, and it is read back: the lines of
the description, and for each tag name in the order of first use its values in order. -/
theorem ofText_print :
    tokenize b.print = [⟨.docBlock, b.print, 0⟩] ∧
      (ofText b.print).description = joinLines (b.description.map PlainLine.text) ∧
      (ofText b.print).tags.toList = Grouping.groups (b.tags.map TagText.pair) := by
  refine ⟨b.tokenize_print, ?_, ?_⟩
  · rw [ofText_eq, contentLines_print, takeWhile_lines]
  · rw [ofText_eq, contentLines_print, filterMap_lines, Tags.toList_ofList]

end BlockText

/-! ### Blocks on one line -/

/-- A block with one line says that line, unless it opens like a tag. -/
theorem ofText_of_contentLines_eq_singleton {raw line : Text} (h : contentLines raw = [line])
    (hplain : startsTag line = false) : ofText raw = ⟨line, .empty⟩ := by
  have htake : ([line].takeWhile fun line => !startsTag line) = [line] := by simp [hplain]
  have htags : [line].filterMap tagOfLine? = [] := by simp [tagOfLine?_of_not_startsTag hplain]
  have hjoin : joinLines [line] = line := List.append_nil _
  rw [ofText_eq, h, htake, htags, hjoin]
  rfl

/-- The description of a block that holds one line at most is not longer than the line. -/
theorem length_description_le {raw line : Text} (h : contentLines raw = [line].filter (· ≠ [])) :
    (ofText raw).description.length ≤ line.length := by
  by_cases hne : line = []
  · rw [ofText_eq, h, hne]
    rfl
  · have hone : contentLines raw = [line] := by simpa [hne] using h
    rw [ofText_eq, hone, List.takeWhile_cons]
    split <;> simp [joinLines]

namespace PlainLine

variable (p : PlainLine)

theorem ofText_starred : ofText (starred [p.text]) = ⟨p.text, .empty⟩ := by
  apply ofText_of_contentLines_eq_singleton _ p.startsTag_eq_false
  rw [contentLines_starred (by simpa using p.isLine)]
  simp [p.ne_nil]

theorem ofText_oneLine_eq :
    ofText (oneLine p.text) = ofText (starred [trim (withoutStart ['*'] p.text)]) := by
  rw [ofText_eq, ofText_eq, contentLines_oneLine p.isLine]

/-- The star is lost. -/
theorem ofText_oneLine_ne (h : p.text.head? = some '*') :
    ofText (oneLine p.text) ≠ ⟨p.text, .empty⟩ := by
  obtain ⟨rest, hrest⟩ := List.head?_eq_some_iff.1 h
  have hstar : withoutStart ['*'] p.text = rest := by
    rw [hrest]
    exact withoutStart_append ['*'] rest
  have hcontent : contentLines (oneLine p.text) = [trim rest].filter (· ≠ []) := by
    rw [contentLines_oneLine p.isLine, contentLines_starred (by simpa using p.isLine.withoutStar),
      hstar]
  have hlength : (ofText (oneLine p.text)).description.length < p.text.length :=
    calc (ofText (oneLine p.text)).description.length
        ≤ (trim rest).length := length_description_le hcontent
      _ ≤ rest.length := (trim_isInfix rest).length_le
      _ < p.text.length := by rw [hrest]; exact Nat.lt_succ_self _
  intro hkept
  rw [hkept] at hlength
  exact Nat.lt_irrefl _ hlength

end PlainLine

/-- On one line a description is read like in the starred layout, but without a star at its start:
it is kept exactly if it has none. -/
theorem ofText_oneLine (p : PlainLine) :
    ofText (starred [p.text]) = ⟨p.text, .empty⟩ ∧
      ofText (oneLine p.text) = ofText (starred [trim (withoutStart ['*'] p.text)]) ∧
      (ofText (oneLine p.text) = ⟨p.text, .empty⟩ ↔ p.text.head? ≠ some '*') := by
  refine ⟨p.ofText_starred, p.ofText_oneLine_eq, fun hkept h => p.ofText_oneLine_ne h hkept, ?_⟩
  intro h
  have hstar : ¬ ['*'] <+: p.text := by
    rintro ⟨rest, hrest⟩
    exact h (by rw [← hrest]; rfl)
  rw [p.ofText_oneLine_eq, withoutStart_of_not_isPrefix hstar, p.isLine.isTrimmed.trim_eq,
    p.ofText_starred]

/-- A description that opens with an emphasized word. -/
def emphasized : PlainLine where
  text := "**Note** this".toList
  ne_nil := by decide
  isLine := ⟨trim_eq_self_iff.1 rfl, by decide, hasNoMark_iff_isChain.2 (by decide)⟩
  plain := by decide

theorem oneLine_emphasized :
    ofText (starred [emphasized.text]) = ⟨emphasized.text, .empty⟩ ∧
      ofText (oneLine emphasized.text) = ⟨"*Note** this".toList, .empty⟩ ∧
      ofText (oneLine emphasized.text) ≠ ⟨emphasized.text, .empty⟩ := by
  decide +kernel

end DocBlock

end DocPages
