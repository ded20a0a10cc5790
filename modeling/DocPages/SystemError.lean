import DocPages.SystemError.Number

/-!
# System errors

What the operating system reports when it refuses an operation on files. An error is a number, whose
kind and description are in the table `errorNumbers`, or a cause that arises outside the system,
such as a file that is no text. `SystemError.message` is the description with the number behind it.
-/

namespace DocPages

/-- Why an operation on files failed. -/
inductive SystemError where
  /-- The system reported an error number. -/
  | number (n : Int)
  /-- A file that has to be text is not valid UTF-8. -/
  | malformedText
  /-- A path holds the character that ends a path for the system. -/
  | nulInPath
  /-- Any other cause. -/
  | other (message : Text)
  deriving DecidableEq, Repr

namespace SystemError

/-- A name on the path does not exist. -/
def notFound : SystemError := .number 2

/-- The name is taken. -/
def alreadyExists : SystemError := .number 17

/-- A name on the path is not that of a directory. -/
def notADirectory : SystemError := .number 20

/-- The path is that of a directory. -/
def isADirectory : SystemError := .number 21

/-- A name on the path is too long. -/
def nameTooLong : SystemError := .number 36

/-- The path leads through too many links. -/
def tooManyLinks : SystemError := .number 40

/-- The kind of an error. -/
def kind : SystemError → ErrorKind
  | number n => ((errorNumbers.lookup n).map Prod.fst).getD .uncategorized
  | malformedText => .invalidData
  | nulInPath => .invalidInput
  | other _ => .other

/-- What went wrong, in words. -/
def message : SystemError → Text
  | number n =>
    let description :=
      ((errorNumbers.lookup n).map Prod.snd).getD ("Unknown error ".toList ++ (toString n).toList)
    description ++ " (os error ".toList ++ (toString n).toList ++ [')']
  | malformedText => "stream did not contain valid UTF-8".toList
  | nulInPath => "file name contained an unexpected NUL byte".toList
  | other message => message

end SystemError

end DocPages
