import DocPages.Path
import DocPages.SystemError

/-!
# Failures

The reasons for which a run ends without documentation. Each has a message (`Failure.message`), a
code (`Failure.code`) and, where something can be done about it, a hint (`Failure.help?`).
-/

namespace DocPages

/-- Why a run failed. -/
inductive Failure where
  /-- A file could not be read. -/
  | io (cause : SystemError)
  /-- There is no source directory. -/
  | missingSource (path : Path)
  /-- The output directory could not be made. -/
  | createOutput (path : Path) (cause : SystemError)
  /-- A document could not be written. -/
  | writeDocument (path : Path) (cause : SystemError)
  /-- The settings file could not be understood. -/
  | settings (reason : Text)
  /-- An exclude pattern is malformed. -/
  | excludePattern (pattern reason : Text)
  /-- A directory of the source tree was entered twice. -/
  | linkCycle (path : Path)
  deriving DecidableEq, Repr

namespace Failure

/-- What went wrong, in words. -/
def message : Failure → Text
  | io cause => cause.message
  | missingSource path => "source directory not found: ".toList ++ Text.inBackquotes path
  | createOutput path _ => "failed to create output directory ".toList ++ Text.inBackquotes path
  | writeDocument path _ => "failed to write ".toList ++ Text.inBackquotes path
  | settings reason => "failed to parse config file: ".toList ++ reason
  | excludePattern pattern reason =>
    "invalid exclude pattern ".toList ++ Text.inBackquotes pattern ++ ": ".toList ++ reason
  | linkCycle path => "symlink cycle detected at: ".toList ++ Text.inBackquotes path

/-- A fixed name for what went wrong. -/
def code : Failure → Text
  | io _ => "docmd::io_error".toList
  | missingSource _ => "docmd::missing_source_dir".toList
  | createOutput _ _ => "docmd::create_output_dir".toList
  | writeDocument _ _ => "docmd::write_file".toList
  | settings _ => "docmd::config_parse".toList
  | excludePattern _ _ => "docmd::exclude_pattern".toList
  | linkCycle _ => "docmd::symlink_cycle".toList

/-- What can be done about it. -/
def help? : Failure → Option Text
  | io _ => none
  | missingSource _ =>
    some "create the directory, set `source_dir` in docmd.toml or pass `--source`".toList
  | createOutput _ _ => some "check that the parent directory exists and is writable".toList
  | writeDocument _ _ => none
  | settings _ =>
    some ("check that docmd.toml is valid TOML with `source_dir`, `output_dir` and `[exclude]` " ++
      "keys").toList
  | excludePattern _ _ => some "exclude patterns follow .gitignore syntax".toList
  | linkCycle _ => some "remove the circular symlink or exclude this path".toList

/-- The system error behind a failure. -/
def cause? : Failure → Option SystemError
  | io cause | createOutput _ cause | writeDocument _ cause => some cause
  | _ => none

end Failure

end DocPages
