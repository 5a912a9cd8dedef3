import TreeOutline.Report.Line

/-!
The lines that the members of a class give. All members are read first, then the declared properties
among them, so that a member which only serves a declared property is left out wherever the
properties are declared.
-/

namespace TreeOutline.ClassBody

open Node (Member Shape)

def metadataKeys : List String :=
  ["Name", "GTypeName", "Extends", "Implements"]

def propertiesKey : String := "Properties"

inductive Part where
  | metadata (key : String) (value : Option String)
  | declared (names : List String)
  | plain (key : String) (shape : Shape)
  deriving Repr

/-- What is reported of a value that describes a class: a literal or a dotted name. -/
def metadataValue? (value : Json) : Option String :=
  match Node.shape value with
  | .literal v => some (Node.literalText v)
  | .access name => some name
  | _ => none

def declaredNames (value : Json) : Except ShapeError (List String) :=
  match Node.shape value with
  | .object entries => (Node.members propertiesKey entries).map fun ms => ms.map Member.key
  | _ => .error (.wrongType "value" propertiesKey "an object literal")

def Part.ofMember (m : Member) : Except ShapeError Part :=
  if m.key ∈ metadataKeys then .ok (.metadata m.key (metadataValue? m.value))
  else if m.key = propertiesKey then (declaredNames m.value).map .declared
  else .ok (.plain m.key (Node.shape m.value))

def Part.names : Part → List String
  | .declared names => names
  | _ => []

def hyphenated (name : String) : String :=
  String.ofList (name.toList.map fun c => if c = '_' then '-' else c)

/-- Whether a name is declared, as written or hyphenated. -/
def isDeclared (declared : List String) (name : String) : Bool :=
  declared.contains name || declared.contains (hyphenated name)

def Part.lines (declared : List String) : Part → List Line
  | .metadata key (some value) => [.metadata key value]
  | .metadata _ none => []
  | .declared names => names.map .property
  | .plain key shape =>
    -- such a member only serves the declared property
    if isDeclared declared key then []
    else
      match shape with
      | .literal _ => [.constant key]
      | .function => [.method key]
      | _ => []

def lines (parts : List Part) : List Line :=
  parts.flatMap (Part.lines (parts.flatMap Part.names))

/-- The entries of all object literals among the arguments of a call. -/
def entries (arguments : List Json) : List Json :=
  (arguments.filterMap Node.entries?).flatten

def parts (arguments : List Json) : Except ShapeError (List Part) := do
  let members ← Node.members "class argument" (entries arguments)
  members.mapM Part.ofMember

end TreeOutline.ClassBody
