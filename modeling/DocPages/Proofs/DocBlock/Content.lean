import DocPages.DocBlock.Basic
import DocPages.Proofs.DocBlock.Tags
import DocPages.Proofs.Text.Trim

/-!
# What a documentation block says

Reading a block line by line comes to this (`ofText_eq`): of the lines that hold anything but
comment marks and blanks (`contentLines`), those in front of the first one with a leading `@` are
the description, and the tag lines among all of them record the tags. A tag line is an `@`, a name,
blanks and a value (`IsTagLine`), and `tagOfLine?` finds exactly these (`tagOfLine?_eq_some_iff`).

Main statement: `ofText_reads`, with what holds of every description line, tag name and value.
-/

namespace DocPages.DocBlock

open Text

/-! ### Content lines -/

/-- What the lines of a row hold besides comment marks and blanks, without the lines that hold
nothing. -/
def contentOf (lines : List Text) : List Text := (lines.map undecorated).filter (· ≠ [])

theorem contentOf_append (ls ms : List Text) :
    contentOf (ls ++ ms) = contentOf ls ++ contentOf ms := by
  rw [contentOf, contentOf, contentOf, ← List.filter_append, ← List.map_append]

/-- The content lines of a block. -/
def contentLines (raw : Text) : List Text := contentOf (Text.lines raw)

/-- Blanks at the ends of a line do not matter, so the content lines are those of the pieces between
line feeds. -/
theorem contentLines_eq (raw : Text) : contentLines raw = contentOf (raw.splitOn '\n') := by
  have hreturn : undecorated ∘ dropReturn = undecorated := by
    funext line
    simp only [Function.comp_apply, undecorated, trim_dropReturn]
  have hlast (last : Text) : contentOf (if last = [] then [] else [last]) = contentOf [last] := by
    split
    · next h => rw [h]; decide
    · rfl
  obtain ⟨pieces, last, hpieces⟩ :=
    (List.eq_nil_or_concat' (raw.splitOn '\n')).resolve_left (List.splitOn_ne_nil _ _)
  rw [contentLines, Text.lines, hpieces, List.dropLast_concat, List.getLast?_concat,
    Option.getD_some, contentOf_append, hlast, contentOf_append, contentOf, List.map_map, hreturn]
  rfl

theorem contentLines_of_not_mem {line : Text} (h : '\n' ∉ line) :
    contentLines line = contentOf [line] := by
  rw [contentLines_eq, List.splitOn_eq_singleton h]

theorem contentLines_append_cons (a b : Text) :
    contentLines (a ++ '\n' :: b) = contentLines a ++ contentLines b := by
  simp only [contentLines_eq, List.splitOn_eq_splitOnP]
  rw [List.splitOnP_append_cons _ _ (by simp), contentOf_append]

/-- A block may be cut where a line ends. -/
theorem contentLines_append {a b : Text} (h : ∀ c ∈ b.head?, c = '\n') :
    contentLines (a ++ b) = contentLines a ++ contentLines b := by
  cases b with
  | nil =>
    have hnil : contentLines [] = [] := contentLines_of_not_mem List.not_mem_nil
    rw [hnil, List.append_nil, List.append_nil]
  | cons c b =>
    obtain rfl := h c rfl
    have hfeed : contentLines ('\n' :: b) = contentLines b := contentLines_append_cons [] b
    rw [contentLines_append_cons, hfeed]

theorem isTrimmed_undecorated (line : Text) : IsTrimmed (undecorated line) := isTrimmed_trim _

theorem isTrimmed_of_mem_contentLines {raw line : Text} (h : line ∈ contentLines raw) :
    IsTrimmed line := by
  obtain ⟨l, -, rfl⟩ := List.mem_map.1 (List.mem_filter.1 h).1
  exact isTrimmed_undecorated l

theorem ne_nil_of_mem_contentLines {raw line : Text} (h : line ∈ contentLines raw) : line ≠ [] := by
  simpa using (List.mem_filter.1 h).2

/-! ### Tag lines -/

/-- The line is an `@`, a name, blanks and a value. The name is all of the word characters behind
the `@`, and the blanks are all of those behind the name. -/
structure IsTagLine (line name value : Text) : Prop where
  name_ne_nil : name ≠ []
  isWordChar_of_mem : ∀ c ∈ name, isWordChar c
  exists_blanks : ∃ blanks, blanks ≠ [] ∧ (∀ c ∈ blanks, isBlank c) ∧
    line = '@' :: (name ++ (blanks ++ value))
  solid : ∀ c ∈ value.head?, isBlank c = false

section TagLine

variable {line name value : Text}

theorem head?_append_of_isBlank {blanks : Text} (hne : blanks ≠ []) (hb : ∀ c ∈ blanks, isBlank c)
    (rest : Text) : ∀ c ∈ (blanks ++ rest).head?, isWordChar c = false := by
  obtain ⟨b, bs, rfl⟩ := List.exists_cons_of_ne_nil hne
  intro c hc
  obtain rfl : b = c := Option.some.inj hc
  by_contra hword
  have hblank := hb b List.mem_cons_self
  rw [isBlank_of_isWordChar (by simpa using hword)] at hblank
  contradiction

namespace IsTagLine

theorem startsTag (h : IsTagLine line name value) : startsTag line := by
  obtain ⟨blanks, -, -, rfl⟩ := h.exists_blanks
  rfl

theorem tagOfLine?_eq (h : IsTagLine line name value) :
    tagOfLine? line = some (name, trimEnd value) := by
  obtain ⟨blanks, hne, hb, rfl⟩ := h.exists_blanks
  have hname := head?_append_of_isBlank hne hb value
  have hempty : (name.isEmpty || blanks.isEmpty) = false := by simp [h.name_ne_nil, hne]
  simp only [tagOfLine?, takeWhile_append_of_boundary h.isWordChar_of_mem hname,
    dropWhile_append_of_boundary h.isWordChar_of_mem hname,
    takeWhile_append_of_boundary hb h.solid, dropWhile_append_of_boundary hb h.solid, hempty]
  rfl

/-- The value is what follows the blanks, which stand at the end of no trimmed line. -/
theorem value_ne_nil (h : IsTagLine line name value) (ht : IsTrimmed line) : value ≠ [] := by
  rintro rfl
  obtain ⟨blanks, hne, hb, rfl⟩ := h.exists_blanks
  have hlast := ht.last (blanks.getLast hne) (by
    rw [List.append_nil, ← List.cons_append, List.getLast?_append_of_ne_nil _ hne,
      List.getLast?_eq_some_getLast hne]
    rfl)
  rw [hb _ (List.getLast_mem hne)] at hlast
  contradiction

theorem isTrimmed_value (h : IsTagLine line name value) (ht : IsTrimmed line) :
    IsTrimmed value := by
  obtain ⟨blanks, -, -, rfl⟩ := h.exists_blanks
  rw [← List.append_assoc, ← List.cons_append] at ht
  exact ht.of_append h.solid

end IsTagLine

theorem exists_isTagLine_of_tagOfLine? {p : Text × Text} (h : tagOfLine? line = some p) :
    ∃ rest, p.2 = trimEnd rest ∧ IsTagLine line p.1 rest := by
  unfold tagOfLine? at h
  split at h
  · next line =>
    simp only [Option.ite_none_left_eq_some, Bool.or_eq_true, List.isEmpty_iff, not_or,
      Option.some.injEq] at h
    obtain ⟨⟨hname, hblanks⟩, rfl⟩ := h
    refine ⟨_, rfl, hname, fun c hc => List.mem_takeWhile_imp hc, ⟨_, hblanks,
      fun c hc => List.mem_takeWhile_imp hc, ?_⟩, head?_trimStart _⟩
    rw [List.takeWhile_append_dropWhile, List.takeWhile_append_dropWhile]
  · contradiction

/-- Of a trimmed line, `tagOfLine?` finds the name and the value if it is a tag line. -/
theorem tagOfLine?_eq_some_iff (ht : IsTrimmed line) :
    tagOfLine? line = some (name, value) ↔ IsTagLine line name value := by
  constructor
  · intro h
    obtain ⟨rest, hrest, htag⟩ := exists_isTagLine_of_tagOfLine? h
    have hvalue : value = rest := by
      refine Eq.trans hrest ?_
      simpa using trimEnd_append (b := []) (by simp) (htag.isTrimmed_value ht).last
    exact hvalue ▸ htag
  · intro h
    have hvalue : trimEnd value = value := by
      simpa using trimEnd_append (b := []) (by simp) (h.isTrimmed_value ht).last
    rw [h.tagOfLine?_eq, hvalue]

theorem isSome_tagOfLine?_iff :
    (tagOfLine? line).isSome ↔ ∃ name value, IsTagLine line name value := by
  constructor
  · intro h
    obtain ⟨rest, -, htag⟩ := exists_isTagLine_of_tagOfLine? (Option.some_get h).symm
    exact ⟨_, rest, htag⟩
  · rintro ⟨name, value, h⟩
    rw [h.tagOfLine?_eq]
    rfl

instance (line : Text) : Decidable (∃ name value, IsTagLine line name value) :=
  decidable_of_iff _ isSome_tagOfLine?_iff

theorem tagOfLine?_of_not_startsTag (h : startsTag line = false) : tagOfLine? line = none := by
  by_contra hne
  obtain ⟨name, value, htag⟩ := isSome_tagOfLine?_iff.1 (Option.isSome_iff_ne_none.2 hne)
  rw [htag.startsTag] at h
  contradiction

end TagLine

/-- The tag lines of a row of lines, one after the other, have the given names and values. -/
inductive HasTagLines : List Text → List (Text × Text) → Prop
  | nil : HasTagLines [] []
  | tag {line name value : Text} {content : List Text} {pairs : List (Text × Text)} :
    IsTagLine line name value → HasTagLines content pairs →
      HasTagLines (line :: content) ((name, value) :: pairs)
  | other {line : Text} {content : List Text} {pairs : List (Text × Text)} :
    (¬ ∃ name value, IsTagLine line name value) → HasTagLines content pairs →
      HasTagLines (line :: content) pairs

section HasTagLines

variable {content : List Text} {pairs : List (Text × Text)}

theorem hasTagLines_filterMap (h : ∀ line ∈ content, IsTrimmed line) :
    HasTagLines content (content.filterMap tagOfLine?) := by
  induction content with
  | nil => exact .nil
  | cons line content ih =>
    have hrest := ih fun l hl => h l (List.mem_cons_of_mem _ hl)
    cases htag : tagOfLine? line with
    | none =>
      rw [List.filterMap_cons_none htag]
      refine .other (fun hex => ?_) hrest
      rw [← isSome_tagOfLine?_iff, htag] at hex
      contradiction
    | some p =>
      rw [List.filterMap_cons_some htag]
      exact .tag ((tagOfLine?_eq_some_iff (h line List.mem_cons_self)).1 htag) hrest

theorem hasTagLines_contentLines (raw : Text) :
    HasTagLines (contentLines raw) ((contentLines raw).filterMap tagOfLine?) :=
  hasTagLines_filterMap fun _ hline => isTrimmed_of_mem_contentLines hline

theorem HasTagLines.length_eq (h : HasTagLines content pairs) :
    pairs.length = content.countP fun line => ∃ name value, IsTagLine line name value := by
  induction h with
  | nil => rfl
  | tag htag _ ih =>
    rw [List.countP_cons_of_pos (by simpa using ⟨_, _, htag⟩), List.length_cons, ih]
  | other hnot _ ih => rw [List.countP_cons_of_neg (by simpa using hnot), ih]

theorem HasTagLines.eq_nil_iff (h : HasTagLines content pairs) :
    pairs = [] ↔ ∀ line ∈ content, ¬ ∃ name value, IsTagLine line name value := by
  rw [← List.length_eq_zero_iff, h.length_eq, List.countP_eq_zero]
  simp only [decide_eq_true_eq]

theorem HasTagLines.exists_isTagLine (h : HasTagLines content pairs) {p : Text × Text}
    (hp : p ∈ pairs) : ∃ line ∈ content, IsTagLine line p.1 p.2 := by
  induction h with
  | nil => cases hp
  | tag htag _ ih =>
    rcases List.mem_cons.1 hp with rfl | hp
    · exact ⟨_, List.mem_cons_self, htag⟩
    · obtain ⟨line, hline, hp⟩ := ih hp
      exact ⟨line, List.mem_cons_of_mem _ hline, hp⟩
  | other _ _ ih =>
    obtain ⟨line, hline, hp⟩ := ih hp
    exact ⟨line, List.mem_cons_of_mem _ hline, hp⟩

end HasTagLines

/-! ### Reading line by line -/

/-- Where the reading of a block stands when the lines read so far hold `content`. -/
structure HasRead (r : Reading) (content : List Text) : Prop where
  inDescription : r.inDescription = content.all fun line => !startsTag line
  description : r.description.toList = content.takeWhile fun line => !startsTag line
  tags : r.tags = Tags.ofList (content.filterMap tagOfLine?)

theorem takeWhile_concat {α : Type} (p : α → Bool) (l : List α) (a : α) :
    (l ++ [a]).takeWhile p = if l.all p && p a then l.takeWhile p ++ [a] else l.takeWhile p := by
  induction l with
  | nil => cases h : p a <;> simp [h]
  | cons b l ih =>
    rw [List.cons_append, List.takeWhile_cons, List.takeWhile_cons, List.all_cons, ih]
    cases p b with
    | false => rfl
    | true =>
      simp only [Bool.true_and, if_true]
      split <;> rfl

namespace HasRead

variable {r : Reading} {content : List Text}

theorem start : HasRead .start [] := ⟨rfl, rfl, rfl⟩

theorem readLine (h : HasRead r content) (line : Text) :
    HasRead (r.readLine line) (content ++ contentOf [line]) := by
  unfold Reading.readLine
  by_cases hnil : undecorated line = []
  · simpa [contentOf, hnil] using h
  have hcontent : contentOf [line] = [undecorated line] := by simp [contentOf, hnil]
  rw [hcontent, if_neg (by simpa using hnil)]
  generalize undecorated line = line
  cases hstarts : startsTag line with
  | false =>
    have hall : ((content ++ [line]).all fun l => !startsTag l) = r.inDescription := by
      simp [h.inDescription, hstarts]
    have htags : r.tags = Tags.ofList ((content ++ [line]).filterMap tagOfLine?) := by
      simp [h.tags, tagOfLine?_of_not_startsTag hstarts]
    rw [if_neg Bool.false_ne_true]
    cases hin : r.inDescription with
    | false =>
      rw [if_neg Bool.false_ne_true]
      refine ⟨hall.symm, ?_, htags⟩
      rw [takeWhile_concat, ← h.inDescription, hin]
      exact h.description
    | true =>
      rw [if_pos rfl]
      refine ⟨(hall.trans hin).symm, ?_, htags⟩
      rw [takeWhile_concat, ← h.inDescription, hin, hstarts, Array.toList_push, h.description]
      rfl
  | true =>
    have hall : ((content ++ [line]).all fun l => !startsTag l) = false := by simp [hstarts]
    have htake : ((content ++ [line]).takeWhile fun l => !startsTag l) =
        content.takeWhile fun l => !startsTag l := by
      rw [takeWhile_concat, hstarts]
      simp
    rw [if_pos rfl]
    cases htag : tagOfLine? line with
    | none =>
      refine ⟨hall.symm, h.description.trans htake.symm, ?_⟩
      simp [h.tags, htag]
    | some p =>
      refine ⟨hall.symm, h.description.trans htake.symm, ?_⟩
      rw [List.filterMap_append, List.filterMap_cons_some htag, List.filterMap_nil,
        Tags.ofList_concat, ← h.tags]

theorem foldl_readLine (h : HasRead r content) (lines : List Text) :
    HasRead (lines.foldl Reading.readLine r) (content ++ contentOf lines) := by
  induction lines generalizing r content with
  | nil => simpa [contentOf] using h
  | cons line lines ih =>
    have hcons : contentOf (line :: lines) = contentOf [line] ++ contentOf lines :=
      contentOf_append [line] lines
    rw [List.foldl_cons, hcons, ← List.append_assoc]
    exact ih (h.readLine line)

end HasRead

/-- A block says what its content lines say: those in front of the first one with a leading `@`
describe, and those that are tag lines record the tags. -/
theorem ofText_eq (raw : Text) :
    ofText raw =
      { description := joinLines ((contentLines raw).takeWhile fun line => !startsTag line)
        tags := Tags.ofList ((contentLines raw).filterMap tagOfLine?) } := by
  have hread : HasRead ((Text.lines raw).foldl Reading.readLine .start) (contentLines raw) :=
    HasRead.start.foldl_readLine (Text.lines raw)
  simp only [ofText, hread.description, hread.tags]

/-! ### What is read -/

/-- The longest start of a row of lines in which no line opens like a tag. -/
structure IsFrontOf (front content : List Text) : Prop where
  plain : ∀ line ∈ front, line.head? ≠ some '@'
  longest : ∃ rest, content = front ++ rest ∧ ∀ line ∈ rest.head?, line.head? = some '@'

theorem startsTag_iff {line : Text} : startsTag line ↔ line.head? = some '@' := beq_iff_eq

theorem isFrontOf_takeWhile (content : List Text) :
    IsFrontOf (content.takeWhile fun line => !startsTag line) content where
  plain line hline := by
    have hplain := List.mem_takeWhile_imp hline
    rw [ne_eq, ← startsTag_iff]
    simpa using hplain
  longest := by
    refine ⟨_, List.takeWhile_append_dropWhile.symm, fun line hline => startsTag_iff.1 ?_⟩
    have hstop := List.head?_dropWhile_not (fun line => !startsTag line) content
    rw [Option.mem_def.1 hline] at hstop
    simpa using hstop

/-- What a block says, for every text: the description are the content lines in front of the first
one with a leading `@`, the tags are those of all tag lines, and neither holds an empty line or an
empty or untrimmed part. -/
theorem ofText_reads (raw : Text) :
    ∃ front pairs, IsFrontOf front (contentLines raw) ∧ HasTagLines (contentLines raw) pairs ∧
      (ofText raw).description = joinLines front ∧ (ofText raw).tags = Tags.ofList pairs ∧
      (∀ line ∈ front, line ≠ [] ∧ trim line = line ∧ line.head? ≠ some '@') ∧
      (∀ tag ∈ (ofText raw).tags.toList,
        tag.1 ≠ [] ∧ ∀ value ∈ tag.2, value ≠ [] ∧ trim value = value) ∧
      ((ofText raw).tags.toList.flatMap Prod.snd).length =
        (contentLines raw).countP fun line => ∃ name value, IsTagLine line name value := by
  have hfront := isFrontOf_takeWhile (contentLines raw)
  have htags := hasTagLines_contentLines raw
  refine ⟨_, _, hfront, htags, by rw [ofText_eq], by rw [ofText_eq], ?_, ?_, ?_⟩
  · intro line hline
    have hmem : line ∈ contentLines raw := (List.takeWhile_sublist _).subset hline
    exact ⟨ne_nil_of_mem_contentLines hmem, (isTrimmed_of_mem_contentLines hmem).trim_eq,
      hfront.plain line hline⟩
  · intro tag htag
    rw [ofText_eq, Tags.toList_ofList] at htag
    have hread {value : Text} (hvalue : value ∈ tag.2) :
        ∃ line ∈ contentLines raw, IsTagLine line tag.1 value :=
      htags.exists_isTagLine (Grouping.mem_of_mem_groups htag hvalue)
    obtain ⟨value, hvalue⟩ := List.exists_mem_of_ne_nil _ (Grouping.snd_ne_nil_of_mem_groups htag)
    obtain ⟨line, -, hline⟩ := hread hvalue
    refine ⟨hline.name_ne_nil, fun value hvalue => ?_⟩
    obtain ⟨line, hmem, hline⟩ := hread hvalue
    have htrimmed := isTrimmed_of_mem_contentLines hmem
    exact ⟨hline.value_ne_nil htrimmed, (hline.isTrimmed_value htrimmed).trim_eq⟩
  · rw [ofText_eq, Tags.toList_ofList, Grouping.length_flatMap_groups, htags.length_eq]

end DocPages.DocBlock
