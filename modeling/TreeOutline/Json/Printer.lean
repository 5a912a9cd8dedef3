import TreeOutline.Decimal.Layout
import TreeOutline.Json.Text

/-!
JSON values written as text: on one line without blanks, or with each item and member on a line of
its own, two spaces deeper than what holds it. The two differ in a `Layout` only.
-/

namespace TreeOutline.Json

/-- Reals are positional while the point stands at most sixteen digits to the right of the first one
and four to its left; a positive exponent shows its sign. -/
def realLayout : Decimal.Layout := ⟨-4, 16, true⟩

def Number.text : Number → String
  | .natural n => toString n
  | .negative n => "-" ++ toString n
  | .real x => realLayout.text x

/-- The blanks of a written value: what starts a line at a depth, and what follows a colon. -/
structure Layout where
  line : Nat → List Char
  afterColon : List Char

def Layout.compact : Layout := ⟨fun _ => [], []⟩

def Layout.pretty : Layout := ⟨fun depth => '\n' :: List.replicate (2 * depth) ' ', [' ']⟩

mutual

def write (l : Layout) (depth : Nat) : Json → List Char
  | .null => ['n', 'u', 'l', 'l']
  | .bool true => ['t', 'r', 'u', 'e']
  | .bool false => ['f', 'a', 'l', 's', 'e']
  | .number n => n.text.toList
  | .string s => quoted s
  | .array [] => ['[', ']']
  | .array (v :: vs) =>
    '[' :: (l.line (depth + 1) ++ (write l (depth + 1) v ++ writeItems l (depth + 1) vs))
      ++ (l.line depth ++ [']'])
  | .object [] => ['\x7b', '\x7d']
  | .object (m :: ms) =>
    '\x7b' :: (l.line (depth + 1) ++ (writeMember l (depth + 1) m ++ writeMembers l (depth + 1) ms))
      ++ (l.line depth ++ ['\x7d'])

/-- The items after the first, each behind a comma. -/
def writeItems (l : Layout) (depth : Nat) : List Json → List Char
  | [] => []
  | v :: vs => ',' :: (l.line depth ++ (write l depth v ++ writeItems l depth vs))

def writeMember (l : Layout) (depth : Nat) : String × Json → List Char
  | (key, v) => quoted key ++ ':' :: (l.afterColon ++ write l depth v)

def writeMembers (l : Layout) (depth : Nat) : List (String × Json) → List Char
  | [] => []
  | m :: ms => ',' :: (l.line depth ++ (writeMember l depth m ++ writeMembers l depth ms))

end

def compact (v : Json) : String :=
  String.ofList (write .compact 0 v)

def pretty (v : Json) : String :=
  String.ofList (write .pretty 0 v)

end TreeOutline.Json
