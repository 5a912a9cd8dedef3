import TreeOutline.Node.Call

/-!
Classified top-level statements. Collecting goes through the body once: a variable declaration is a
class, an interface or a constant by its first declarator, an expression statement is itself, and
any other statement is passed over. The first malformed declaration ends it.
-/

namespace TreeOutline

/-- The kinds of definitions. Collecting finds no functions. -/
inductive DefinitionKind where
  | classDeclaration
  | interfaceDeclaration
  | constantDeclaration
  | expressionStatement
  | functionDeclaration
  deriving Repr, DecidableEq

namespace DefinitionKind

def all : List DefinitionKind :=
  [.classDeclaration, .interfaceDeclaration, .constantDeclaration, .expressionStatement,
    .functionDeclaration]

def label : DefinitionKind → String
  | .classDeclaration => "class"
  | .interfaceDeclaration => "interface"
  | .constantDeclaration => "constant"
  | .expressionStatement => "expression"
  | .functionDeclaration => "function"

end DefinitionKind

structure Summary where
  kind : DefinitionKind
  name : Option String
  documented : Bool
  deriving Repr, DecidableEq

/-- A summary on one line: the kind, and the name if there is one. -/
def Summary.display (s : Summary) : String :=
  match s.name with
  | some name => s.kind.label ++ " " ++ name
  | none => s.kind.label

/-- A top-level statement with its kind and, for a declaration, the declared name. -/
structure Definition where
  kind : DefinitionKind
  name : Option String
  node : Json
  deriving Repr

namespace Definition

open Recognizer (Table)

/-- Documentation comments are not looked for. -/
def summary (d : Definition) : Summary :=
  ⟨d.kind, d.name, false⟩

def kindOf (table : Table) (declarator : Json) : DefinitionKind :=
  match Node.declaratorInit table declarator with
  | .classCall _ => .classDeclaration
  | .interfaceCall _ => .interfaceDeclaration
  | .other => .constantDeclaration

def ofDeclaration (table : Table) (statement : Json) : Except ShapeError Definition := do
  let declarator ← Node.firstDeclarator statement
  let name ← Node.declaratorName declarator
  .ok ⟨kindOf table declarator, some name, statement⟩

def ofStatement? (table : Table) (statement : Json) : Except ShapeError (Option Definition) :=
  if Node.type? statement = some "VariableDeclaration" then
    (ofDeclaration table statement).map some
  else if Node.type? statement = some "ExpressionStatement" then
    .ok (some ⟨.expressionStatement, none, statement⟩)
  else .ok none

def ofStatements (table : Table) : List Json → Except ShapeError (List Definition)
  | [] => .ok []
  | statement :: rest => do
    let first ← ofStatement? table statement
    let others ← ofStatements table rest
    .ok (first.toList ++ others)

def body (root : Json) : List Json :=
  ((root.get? "body").bind Json.asArray?).getD []

theorem body_of_array {root : Json} {items : List Json} (h : root.get? "body" = some (.array items)) :
    body root = items := by
  rw [body, h]
  rfl

theorem body_of_not_array {root : Json} (h : ∀ items, root.get? "body" ≠ some (.array items)) :
    body root = [] := by
  unfold body
  cases hb : (root.get? "body").bind Json.asArray? with
  | none => rfl
  | some items =>
    obtain ⟨v, hv, hitems⟩ := Option.bind_eq_some_iff.1 hb
    rw [Json.asArray?_eq_some.1 hitems] at hv
    exact absurd hv (h items)

def collect (table : Table) (root : Json) : Except ShapeError (List Definition) :=
  ofStatements table (body root)

end Definition

end TreeOutline
