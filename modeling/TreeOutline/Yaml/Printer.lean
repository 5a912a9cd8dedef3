import TreeOutline.Decimal.Layout
import TreeOutline.Yaml.Scalar

/-!
JSON values as YAML. The members of an object and the items of an array stand on lines of their own,
an array at the depth of the key that it stands under and all else two deeper. Keys are written as
they are: those of reports are plain words.
-/

namespace TreeOutline.Yaml

/-- Reals are laid out as in JSON, but a positive exponent has no sign. -/
def realLayout : Decimal.Layout := ⟨-4, 16, false⟩

def numberText : Json.Number → String
  | .natural n => toString n
  | .negative n => "-" ++ toString n
  | .real x => realLayout.text x

mutual

/-- A value where an item or a whole text may stand: its first line has no blanks before it, and its
further lines stand at `depth`. -/
def block (depth : Nat) : Json → List Char
  | .null => ['n', 'u', 'l', 'l', '\n']
  | .bool true => ['t', 'r', 'u', 'e', '\n']
  | .bool false => ['f', 'a', 'l', 's', 'e', '\n']
  | .number n => (numberText n).toList ++ ['\n']
  | .string s => scalar depth s.toList
  | .array [] => ['[', ']', '\n']
  | .array (v :: vs) => item depth v ++ items depth vs
  | .object [] => ['\x7b', '\x7d', '\n']
  | .object (m :: ms) => member depth m ++ members depth ms

def item (depth : Nat) (v : Json) : List Char :=
  '-' :: ' ' :: block (depth + 2) v

def items (depth : Nat) : List Json → List Char
  | [] => []
  | v :: vs => pad depth ++ (item depth v ++ items depth vs)

def member (depth : Nat) : String × Json → List Char
  | (key, .array (v :: vs)) =>
    key.toList ++ ':' :: '\n' :: (pad depth ++ (item depth v ++ items depth vs))
  | (key, .object (m :: ms)) =>
    key.toList ++ ':' :: '\n' :: (pad (depth + 2) ++
      (member (depth + 2) m ++ members (depth + 2) ms))
  | (key, v) => key.toList ++ ':' :: ' ' :: block (depth + 2) v

def members (depth : Nat) : List (String × Json) → List Char
  | [] => []
  | m :: ms => pad depth ++ (member depth m ++ members depth ms)

end

def render (v : Json) : String :=
  String.ofList (block 0 v)

end TreeOutline.Yaml
