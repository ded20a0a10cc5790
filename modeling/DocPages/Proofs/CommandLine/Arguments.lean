import DocPages.CommandLine.Arguments

/-!
# Accepted command lines

A command line is accepted if `Arguments.parse` makes arguments of its words. The arguments come
from those that ask for nothing by giving options values (`Arguments.set`) and turning switches on
(`Arguments.turnOn`), so what these two keep (`Invariant`) holds of everything that is accepted
(`Invariant.of_parse`).

Main statement: arguments are accepted in some words if and only if no option has the empty value
(`exists_parse_iff`). The words may be the names of the options with their values behind them
(`spell`).
-/

namespace DocPages

namespace Arguments

/-! ### What every command line keeps -/

/-- Whatever `x` gives has the property `P`. -/
def Gives {α : Type} (x : Except Stop α) (P : α → Prop) : Prop := ∀ a, x = .ok a → P a

section Gives

variable {α β : Type} {P : α → Prop} {Q : β → Prop}

theorem gives_ok {a : α} (h : P a) : Gives (.ok a) P := fun _ heq => Except.ok.inj heq ▸ h

theorem gives_error (stop : Stop) : Gives (.error stop) P := fun _ heq => by contradiction

theorem Gives.bind {x : Except Stop α} {f : α → Except Stop β} (hx : Gives x P)
    (hf : ∀ a, P a → Gives (f a) Q) : Gives (x >>= f) Q := by
  cases x with
  | error stop => exact gives_error stop
  | ok a => exact hf a (hx a rfl)

end Gives

/-- `P` holds when nothing is asked for, and goes on to hold when an option gets a value or a switch
is turned on. -/
structure Invariant (P : Arguments → Prop) : Prop where
  nothing : P nothing
  set : ∀ {a : Arguments} (o : ValueOption) (v : Text), P a → Gives (a.set o v) P
  turnOn : ∀ {a : Arguments} (inFull : Bool) (s : Switch), P a → Gives (a.turnOn inFull s) P

namespace Invariant

variable {P : Arguments → Prop} {p : Progress} (hP : Invariant P)
include hP

theorem settle (hp : P p.arguments) : Gives (settle p) P := by
  unfold Arguments.settle
  split
  · exact gives_ok hp
  · exact gives_error _
  · exact hP.set _ _ hp

theorem readOption (hp : P p.arguments) (o : ValueOption) (attached : Option Text) :
    Gives (readOption p o attached) fun q => P q.arguments := by
  refine (hP.settle hp).bind fun a ha => ?_
  cases attached with
  | none => exact gives_ok ha
  | some v => exact (hP.set o v ha).bind fun b hb => gives_ok hb

theorem readLetters (hp : P p.arguments) (letters : Text) :
    Gives (readLetters p letters) fun q => P q.arguments := by
  induction letters generalizing p with
  | nil => exact gives_ok hp
  | cons c rest ih =>
    unfold Arguments.readLetters
    split
    · exact gives_error _
    · exact hP.readOption hp _ _
    · refine (hP.settle hp).bind fun a ha => ?_
      exact (hP.turnOn _ _ ha).bind fun b hb => ih hb

theorem readName (hp : P p.arguments) (word : Text) :
    Gives (readName p word) fun q => P q.arguments := by
  simp only [Arguments.readName]
  generalize (if '=' ∈ word then _ else _ : Option Text) = attached
  split
  · exact gives_error _
  · exact hP.readOption hp _ _
  · split
    · exact gives_error _
    · refine (hP.settle hp).bind fun a ha => ?_
      exact (hP.turnOn _ _ ha).bind fun b hb => gives_ok hb

omit hP in
theorem readValue (hp : P p.arguments) (word : Text) :
    Gives (readValue p word) fun q => P q.arguments := by
  unfold Arguments.readValue
  split
  · exact gives_ok hp
  · exact gives_error _

theorem parseFrom (hp : P p.arguments) (words : List Text) : Gives (parseFrom p words) P := by
  induction words generalizing p with
  | nil => exact hP.settle hp
  | cons word rest ih =>
    unfold Arguments.parseFrom
    split
    · split
      · exact hP.settle hp
      · exact gives_error _
    · exact (hP.readName hp _).bind fun q hq => ih hq
    · exact (hP.readLetters hp _).bind fun q hq => ih hq
    · exact (readValue hp _).bind fun q hq => ih hq

/-- An invariant holds of the arguments of every command line that is accepted. -/
theorem of_parse {words : List Text} {a : Arguments} (h : parse words = .ok a) : P a :=
  hP.parseFrom (p := ⟨Arguments.nothing, none⟩) hP.nothing words a h

end Invariant

/-! ### Values -/

/-- No option has the empty value. -/
def IsFilled (a : Arguments) : Prop := ∀ o, a.value? o ≠ some []

section IsFilled

variable {a b : Arguments}

theorem value?_withValue (a : Arguments) (v : Path) (o o' : ValueOption) :
    (a.withValue v o).value? o' = if o' = o then some v else a.value? o' := by
  cases o <;> cases o' <;> rfl

theorem IsFilled.withValue (ha : a.IsFilled) {v : Path} (hv : v ≠ []) (o : ValueOption) :
    (a.withValue v o).IsFilled := by
  intro o'
  rw [value?_withValue]
  split
  · simpa using hv
  · exact ha o'

theorem IsFilled.setVerbose (ha : a.IsFilled) (verbose : Bool) :
    IsFilled { a with verbose := verbose } := by
  intro o
  cases o with
  | path => exact ha .path
  | source => exact ha .source
  | output => exact ha .output

/-- A switch leaves the values as they are. -/
theorem value?_turnOn {inFull : Bool} {s : Switch} (h : a.turnOn inFull s = .ok b)
    (o : ValueOption) : b.value? o = a.value? o := by
  cases s with
  | verbose | noColor =>
    simp only [turnOn] at h
    split at h
    · contradiction
    · obtain rfl := Except.ok.inj h
      cases o <;> rfl
  | help | version => contradiction

theorem invariant_isFilled : Invariant IsFilled where
  nothing o := by cases o <;> exact nofun
  set {a} o v ha := by
    unfold Arguments.set
    split
    · exact gives_error _
    · split
      · exact gives_error _
      · next hv => exact gives_ok (ha.withValue hv o)
  turnOn inFull s ha b hb o := value?_turnOn hb o ▸ ha o

end IsFilled

/-! ### Spelling -/

/-- The name of an option that takes a value. -/
def nameOf : ValueOption → Text
  | .path => "path".toList
  | .source => "source".toList
  | .output => "output".toList

/-- An option and its value in one word. -/
def valueWord (o : ValueOption) (v : Text) : Text := '-' :: '-' :: (nameOf o ++ '=' :: v)

/-- The word for an option, if it has a value. -/
def valueWords (a : Arguments) (o : ValueOption) : List Text :=
  (a.value? o).toList.map (valueWord o)

/-- The words for the switches that are on. -/
def switchWords (a : Arguments) : List Text :=
  (if a.verbose then ["--verbose".toList] else []) ++
    if a.noColor then ["--no-color".toList] else []

/-- A command line that asks for the arguments. -/
def spell (a : Arguments) : List Text :=
  valueWords a .path ++ (valueWords a .source ++ (valueWords a .output ++ switchWords a))

section Spell

variable {a b : Arguments}

theorem readName_valueWord (b : Arguments) (o : ValueOption) (v : Text) :
    readName ⟨b, none⟩ (nameOf o ++ '=' :: v) = readOption ⟨b, none⟩ o (some v) := by
  have hname : (nameOf o ++ '=' :: v).takeWhile (· != '=') = nameOf o := by cases o <;> rfl
  have hdrop : (nameOf o ++ '=' :: v).drop ((nameOf o).length + 1) = v := by cases o <;> rfl
  have hlookup : names.lookup (nameOf o) = some (.inl o) := by cases o <;> rfl
  simp only [Arguments.readName, hname, hdrop, hlookup, List.mem_append, List.mem_cons, true_or,
    or_true, if_true]

/-- Reading the word for an option gives it its value. -/
theorem parseFrom_valueWord {o : ValueOption} {v : Text} (ho : b.value? o = none) (hv : v ≠ [])
    (words : List Text) :
    parseFrom ⟨b, none⟩ (valueWord o v :: words) = parseFrom ⟨b.withValue v o, none⟩ words := by
  have hset : b.set o v = .ok (b.withValue v o) := by
    simp only [Arguments.set, ho, hv, Option.isSome_none, Bool.false_eq_true, if_false]
  calc parseFrom ⟨b, none⟩ (valueWord o v :: words)
      = (readName ⟨b, none⟩ (nameOf o ++ '=' :: v) >>= fun q => parseFrom q words) := by
        cases o <;> rfl
    _ = ((b.set o v >>= fun c => .ok ⟨c, none⟩) >>= fun q => parseFrom q words) := by
        rw [readName_valueWord]
        rfl
    _ = parseFrom ⟨b.withValue v o, none⟩ words := by
        rw [hset]
        rfl

/-- The arguments `b` with the value that `a` has for an option, if it has one. -/
def withValueOf (b a : Arguments) (o : ValueOption) : Arguments :=
  ((a.value? o).map (b.withValue · o)).getD b

theorem parseFrom_valueWords (ha : a.IsFilled) {o : ValueOption} (ho : b.value? o = none)
    (words : List Text) :
    parseFrom ⟨b, none⟩ (valueWords a o ++ words) = parseFrom ⟨b.withValueOf a o, none⟩ words := by
  unfold valueWords withValueOf
  cases hv : a.value? o with
  | none => rfl
  | some v => exact parseFrom_valueWord ho (fun h => ha o (h ▸ hv)) words

theorem value?_withValueOf_of_ne {o o' : ValueOption} (h : o' ≠ o) :
    (b.withValueOf a o).value? o' = b.value? o' := by
  unfold withValueOf
  cases a.value? o with
  | none => rfl
  | some v => exact (value?_withValue b v o o').trans (if_neg h)

theorem parse_spell (ha : a.IsFilled) : parse (spell a) = .ok a := by
  have hsource : (nothing.withValueOf a .path).value? .source = none :=
    value?_withValueOf_of_ne (by decide)
  have houtput : ((nothing.withValueOf a .path).withValueOf a .source).value? .output = none :=
    (value?_withValueOf_of_ne (by decide)).trans (value?_withValueOf_of_ne (by decide))
  rw [parse, spell, parseFrom_valueWords ha rfl, parseFrom_valueWords ha hsource,
    parseFrom_valueWords ha houtput]
  obtain ⟨path, source, output, verbose, noColor⟩ := a
  cases path <;> cases source <;> cases output <;> cases verbose <;> cases noColor <;> rfl

end Spell

/-- The arguments that are accepted are those in which no option has the empty value. -/
theorem exists_parse_iff (a : Arguments) : (∃ words, parse words = .ok a) ↔ a.IsFilled :=
  ⟨fun ⟨_, h⟩ => invariant_isFilled.of_parse h, fun h => ⟨spell a, parse_spell h⟩⟩

end Arguments

end DocPages
