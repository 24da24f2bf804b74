import SchemePlayer.Text.Basic

/-!
# Failures of file access
-/

namespace SchemePlayer

/-- Why a file or a directory could not be used. -/
inductive FileError where
  /-- there is no such file or directory -/
  | notExist
  /-- any other reason -/
  | failed
  deriving DecidableEq, Repr

namespace FileError

/-- The report. -/
def message : FileError → Text
  | notExist => "file does not exist"
  | failed => "file access failed"

end FileError

end SchemePlayer
