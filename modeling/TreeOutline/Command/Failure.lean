import TreeOutline.Recognizer.Rule
import TreeOutline.Scan.Settings
import TreeOutline.Text.Pieces

/-!
Why a run fails, and how that is told: what failed, and what it stems from. A single cause stands for
itself, several are numbered; the further lines of a cause stand below its first one.
-/

namespace TreeOutline.Command

inductive Failure where
  | rule (error : Recognizer.RuleError)
  | noRules
  | scanner (error : ScanError)
  | scan (path : String) (error : ScanError)
  | load (path : String) (error : LoadError)
  | collect (path : String) (error : ShapeError)
  | write (reason : IoError)
  deriving Repr, DecidableEq

namespace Failure

def text : Failure → String
  | .rule error => error.message
  | .noRules => "No recognizers configured; pass --recognize or drop --no-default-recognizers"
  | .scanner _ => "Failed to create scanner"
  | .scan path _ => "Failed to outline " ++ path
  | .load path _ => "Failed to load " ++ path
  | .collect path _ => "Failed to collect definitions from " ++ path
  | .write _ => "Failed to write output file"

/-- What a failure stems from, the nearest cause first. -/
def causes : Failure → List String
  | .rule _ => []
  | .noRules => []
  | .scanner error => error.message :: error.causes
  | .scan _ error => error.message :: error.causes
  | .load _ error => error.message :: error.causes
  | .collect _ error => [error.message]
  | .write reason => [reason.message]

/-- A text whose first line has one start and whose further lines another. -/
def hanging (first further text : String) : String :=
  let lines := (Text.pieces '\n' text.toList).map String.ofList
  first ++ Text.join ("\n" ++ further) lines

def single (cause : String) : String :=
  hanging "    " "    " cause

/-- A cause with its number, right-aligned in five columns. -/
def numbered (number : Nat) (cause : String) : String :=
  let digits := toString number
  let blanks := String.ofList (List.replicate (5 - digits.length) ' ')
  hanging (blanks ++ digits ++ ": ") "       " cause

def causeLines : List String → List String
  | [cause] => [single cause]
  | causes => causes.mapIdx numbered

def message (f : Failure) : String :=
  let told := if f.causes.isEmpty then "" else
    "\n\nCaused by:\n" ++ Text.join "\n" (causeLines f.causes)
  "Error: " ++ f.text ++ told ++ "\n"

end Failure

end TreeOutline.Command
