import TreeOutline.Json.Printer

/-!
Fields of syntax tree nodes. A tree is untyped JSON; a field that an outline relies on and that is
missing, or of another type, is a `ShapeError` naming the field and where it was looked for.
-/

namespace TreeOutline

inductive ShapeError where
  | missing (field context : String)
  | wrongType (field context expected : String)
  deriving Repr, DecidableEq

def ShapeError.message : ShapeError → String
  | .missing field context => "Unexpected shape: missing '" ++ field ++ "' in " ++ context
  | .wrongType field context expected =>
    "Unexpected shape: '" ++ field ++ "' in " ++ context ++ " is not " ++ expected

namespace Node

def text? (key : String) (node : Json) : Option String :=
  (node.get? key).bind Json.asString?

theorem text?_eq_some {key s : String} {node : Json} :
    text? key node = some s ↔ node.get? key = some (.string s) := by
  simp [text?, Option.bind_eq_some_iff, Json.asString?_eq_some]

def type? (node : Json) : Option String :=
  text? "type" node

def entries? (node : Json) : Option (List Json) :=
  (node.get? "properties").bind Json.asArray?

def field (node : Json) (name context : String) : Except ShapeError Json :=
  match node.get? name with
  | some value => .ok value
  | none => .error (.missing name context)

def arrayField (node : Json) (name context : String) : Except ShapeError (List Json) := do
  let value ← field node name context
  match value.asArray? with
  | some items => .ok items
  | none => .error (.wrongType name context "an array")

def textField (node : Json) (name context : String) : Except ShapeError String := do
  let value ← field node name context
  match value.asString? with
  | some text => .ok text
  | none => .error (.wrongType name context "a string")

/-- The first declarator of a variable declaration; later ones do not count. -/
def firstDeclarator (statement : Json) : Except ShapeError Json := do
  let declarators ← arrayField statement "declarations" "VariableDeclaration"
  match declarators with
  | first :: _ => .ok first
  | [] => .error (.missing "declarations[0]" "VariableDeclaration")

/-- The name that a declarator declares. -/
def declaratorName (declarator : Json) : Except ShapeError String := do
  let id ← field declarator "id" "VariableDeclarator"
  textField id "name" "VariableDeclarator id"

/-- A literal as it is reported: a text as it is, anything else as JSON. -/
def literalText : Json → String
  | .string s => s
  | other => other.compact

mutual

/-- The name of an identifier, or of a chain of member accesses with a dot before each member. A
node that has a name of its own goes by that name. -/
def dottedName : Json → Option String
  | .object members =>
    match text? "name" (.object members) with
    | some name => some name
    | none =>
      match objectName members, ((Json.object members).get? "property").bind (text? "name") with
      | some object, some property => some (object ++ "." ++ property)
      | _, _ => none
  | _ => none

/-- The dotted name of the member called `object`. -/
def objectName : List (String × Json) → Option String
  | [] => none
  | (key, value) :: rest => if "object" = key then dottedName value else objectName rest

end

theorem objectName_eq (members : List (String × Json)) :
    objectName members = ((Json.object members).get? "object").bind dottedName := by
  induction members with
  | nil => simp [objectName, Json.get?]
  | cons m rest ih =>
    obtain ⟨key, value⟩ := m
    simp only [Json.get?] at ih
    by_cases h : "object" = key
    · simp [objectName, h, Json.get?]
    · simp [objectName, h, Json.get?, List.lookup_cons, beq_eq_false_iff_ne.2 h, ih]

end Node

end TreeOutline
