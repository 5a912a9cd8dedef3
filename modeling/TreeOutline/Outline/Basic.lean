import TreeOutline.Outline.ClassBody
import TreeOutline.Report.Basic

/-!
Outlines of definitions and of whole trees. Classes get a header and the lines of their members;
interfaces and functions get a line that says they have no outline, unless that is switched off;
constants and expressions get none.
-/

namespace TreeOutline

open Recognizer (Table)

structure Outline.Options where
  table : Table
  reportUnsupported : Bool
  deriving Repr, DecidableEq

namespace Outline

def callArguments (site : Node.CallSite) : Except ShapeError (List Json) :=
  match site.node.get? "arguments" with
  | none => .ok []
  | some arguments =>
    match arguments.asArray? with
    | some items => .ok items
    | none => .error (.wrongType "arguments" (site.callee ++ " call") "an array")

def classLines (table : Table) (d : Definition) : Except ShapeError (List Line) := do
  let declarator ← Node.firstDeclarator d.node
  let name ←
    match d.name with
    | some name => .ok name
    | none => Node.declaratorName declarator
  match Node.declaratorInit table declarator with
  | .classCall site =>
    let arguments ← callArguments site
    let parts ← ClassBody.parts arguments
    .ok (.header name :: ClassBody.lines parts)
  | _ => .error (.wrongType "init" "VariableDeclarator" "a recognized class call")

def unsupportedLine (d : Definition) : Line :=
  .unsupported d.kind d.name

/-- The line of a function, whose signature is not outlined. -/
def methodLine (d : Definition) : Line :=
  unsupportedLine d

def definitionLines (o : Options) (d : Definition) : Except ShapeError (List Line) :=
  match d.kind with
  | .classDeclaration => classLines o.table d
  | .functionDeclaration => .ok (if o.reportUnsupported then [methodLine d] else [])
  | .interfaceDeclaration => .ok (if o.reportUnsupported then [unsupportedLine d] else [])
  | .constantDeclaration => .ok []
  | .expressionStatement => .ok []

def lines (o : Options) : List Definition → Except ShapeError (List Line)
  | [] => .ok []
  | d :: ds => do
    let first ← definitionLines o d
    let others ← lines o ds
    .ok (first ++ others)

/-- The report of a tree: all definitions are collected before any is outlined. -/
def report (o : Options) (path : String) (moduleName : String) (root : Json) :
    Except ShapeError Report := do
  let definitions ← Definition.collect o.table root
  let lines ← lines o definitions
  .ok ⟨path, moduleName, definitions.map Definition.summary, lines⟩

end Outline

end TreeOutline
