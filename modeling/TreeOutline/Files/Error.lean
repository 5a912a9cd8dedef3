/-!
Why a path cannot be used, with the numbers that systems give to these reasons.
-/

namespace TreeOutline

inductive IoError where
  | notFound
  | notDirectory
  | isDirectory
  | nameTooLong
  | tooManyLinks
  /-- The path holds a NUL character. -/
  | nulInPath
  /-- The content is no UTF-8. -/
  | notText
  deriving Repr, DecidableEq

def IoError.numbered (reason : String) (number : Nat) : String :=
  reason ++ " (os error " ++ toString number ++ ")"

def IoError.message : IoError → String
  | .notFound => numbered "No such file or directory" 2
  | .notDirectory => numbered "Not a directory" 20
  | .isDirectory => numbered "Is a directory" 21
  | .nameTooLong => numbered "File name too long" 36
  | .tooManyLinks => numbered "Too many levels of symbolic links" 40
  | .nulInPath => "file name contained an unexpected NUL byte"
  | .notText => "stream did not contain valid UTF-8"

end TreeOutline
