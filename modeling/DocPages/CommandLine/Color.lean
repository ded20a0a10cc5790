import DocPages.Text.Basic

/-!
# Colours

When output is styled, and how. The output of a run and the help follow rules of their own: a run
has colours when they are forced or when a display shows them (`Environment.colorsRuns`), the help
is styled by the variables that most commands heed (`Environment.stylesHelp`).
-/

namespace DocPages

/-- What surrounds the command. -/
structure Environment where
  /-- The names of the variables that are set, and their values. -/
  values : List (Text × Text)
  /-- Whether the output goes to a terminal. -/
  isTerminal : Bool

namespace Environment

/-- The value of a variable that is set. -/
def get? (env : Environment) (name : String) : Option Text := env.values.lookup name.toList

/-- Whether a variable is set to anything but a zero. -/
def isOn (env : Environment) (name : String) : Bool := (env.get? name).any (· != ['0'])

/-- Whether a variable is set to anything but the empty text. -/
def isFilled (env : Environment) (name : String) : Bool := (env.get? name).any (· != [])

/-- Whether the terminal cannot show anything but plain text. -/
def isDumb (env : Environment) : Bool := env.get? "TERM" == some "dumb".toList

/-! ### The output of a run -/

/-- Whether a value asks for colours: any number of them but zero, or any other word but `false`. -/
def asksForColor (value : Text) : Bool :=
  let digits := Text.withoutStart ['+'] value
  value != "false".toList && (digits.isEmpty || digits.any (· != '0'))

/-- Whether colours are asked for although nobody may see them. -/
def forcesColor (env : Environment) : Bool :=
  match env.get? "FORCE_COLOR" with
  | some value => asksForColor value
  | none => env.isOn "CLICOLOR_FORCE"

/-- Whether the display shows colours, as every named terminal does that is not dumb, or colours are
welcome for another reason. -/
def showsColors (env : Environment) : Bool :=
  (env.get? "TERM").isSome || (env.get? "COLORTERM").isSome || env.isOn "CLICOLOR" ||
    (env.get? "CI").any fun value => value = "true".toList || value = ['1']

/-- Whether the output of a run has colours, unless the command line refuses them. -/
def colorsRuns (env : Environment) : Bool :=
  (env.get? "NO_COLOR").isNone &&
    (env.forcesColor ||
      (!env.isDumb && (env.isTerminal || env.isOn "IGNORE_IS_TERMINAL") && env.showsColors))

/-! ### The help -/

/-- Whether the help is styled. -/
def stylesHelp (env : Environment) : Bool :=
  !env.isFilled "NO_COLOR" &&
    (env.isFilled "CLICOLOR_FORCE" ||
      (env.isTerminal && env.get? "CLICOLOR" != some ['0'] &&
        (((env.get? "TERM").isSome && !env.isDumb) ||
          (env.get? "CLICOLOR").isSome || (env.get? "CI").isSome)))

end Environment

namespace CommandLine

/-! ### Styles -/

/-- A text between the marks that turn a style on and off. -/
def styled (isOn : Bool) (before after t : Text) : Text :=
  if isOn then before ++ t ++ after else t

/-- A text in bold. -/
def bold (isOn : Bool) (t : Text) : Text := styled isOn "\x1b[1m".toList "\x1b[0m".toList t

/-- A text in bold that is underlined. -/
def heading (isOn : Bool) (t : Text) : Text :=
  styled isOn "\x1b[1m\x1b[4m".toList "\x1b[0m".toList t

/-- A text in green. -/
def green (isOn : Bool) (t : Text) : Text := styled isOn "\x1b[32m".toList "\x1b[39m".toList t

end CommandLine

end DocPages
