import TreeOutline.Files.Walk
import TreeOutline.Ignore
import TreeOutline.Outline.Basic
import TreeOutline.Scan.Load

/-!
What a scan depends on besides the files, and why one fails.
-/

namespace TreeOutline

structure Settings where
  outline : Outline.Options
  ignorePatterns : List String
  includeHidden : Bool
  followLinks : Bool
  /-- How many files may be outlined at a time. The reports do not depend on it. -/
  threads : Nat
  /-- The size in bytes that a file may have. -/
  maxFileSize : Nat

def Settings.standard.maxFileSize : Nat := 64 * 1024 * 1024

/-- What holds if nothing else is said, with as many threads as the machine has processors. -/
def Settings.standard (threads : Nat) : Settings where
  outline := ⟨.standard, true⟩
  ignorePatterns := []
  includeHidden := false
  followLinks := false
  threads := threads
  maxFileSize := standard.maxFileSize

inductive ScanError where
  | load (error : LoadError)
  | shape (path : String) (error : ShapeError)
  | pattern (error : Glob.PatternError)
  | walk (error : WalkError)
  deriving Repr, DecidableEq

namespace ScanError

def message : ScanError → String
  | .load error => error.message
  | .shape path error => path ++ ": " ++ error.message
  | .pattern error => "Config error: " ++ error.message
  | .walk error => "Failed to walk directory: " ++ error.message

/-- What an error stems from, the nearest cause first. -/
def causes : ScanError → List String
  | .load error => error.causes
  | .shape _ error => [error.message]
  | .pattern error => [error.message]
  | .walk (.unusable path reason) => [(WalkError.unusable path reason).message, reason.message]
  | .walk (.loop path ancestor) => [(WalkError.loop path ancestor).message]

end ScanError

end TreeOutline
