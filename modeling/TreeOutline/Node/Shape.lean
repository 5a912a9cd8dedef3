import TreeOutline.Node.Basic

/-!
What the value of a class member looks like, and the members of an object literal. The type of a
node decides first; a node of any other type is an object literal if it has a list of properties.
-/

namespace TreeOutline.Node

inductive Shape where
  | literal (value : Json)
  | access (name : String)
  | function
  | object (entries : List Json)
  | other (type : Option String)
  deriving Repr

/-- A literal without a value has the value null. -/
def shape (node : Json) : Shape :=
  let type := type? node
  if type = some "Literal" then .literal ((node.get? "value").getD .null)
  else if type = some "MemberExpression" then
    match dottedName node with
    | some name => .access name
    | none => .other type
  else if type = some "FunctionExpression" then .function
  else
    match entries? node with
    | some entries => .object entries
    | none => .other type

structure Member where
  key : String
  value : Json
  deriving Repr

/-- A key is an identifier, or a literal other than null. -/
def keyName (key : Json) (context : String) : Except ShapeError String :=
  match text? "name" key with
  | some name => .ok name
  | none =>
    match key.get? "value" with
    | some value =>
      if value.isNull then .error (.missing "key.name" context) else .ok (literalText value)
    | none => .error (.missing "key.name" context)

def member (context : String) (entry : Json) : Except ShapeError Member := do
  let key ← field entry "key" context
  let value ← field entry "value" context
  let name ← keyName key context
  .ok ⟨name, value⟩

def members (context : String) (entries : List Json) : Except ShapeError (List Member) :=
  entries.mapM (member context)

end TreeOutline.Node
