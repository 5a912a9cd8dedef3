import TreeOutline.Node.Shape
import TreeOutline.Recognizer.Table

/-!
Calls that declare a class or an interface, told from the initializer of a declarator by a table of
rules. Only calls of a member of a dotted scope can be recognized.
-/

namespace TreeOutline.Node

open Recognizer (Kind Table)

structure CallSite where
  callee : String
  node : Json
  deriving Repr

inductive Init where
  | classCall (site : CallSite)
  | interfaceCall (site : CallSite)
  | other
  deriving Repr

def callee? (call : Json) : Option (String × String) := do
  let callee ← call.get? "callee"
  let scope ← (callee.get? "object").bind dottedName
  let member ← (callee.get? "property").bind (text? "name")
  some (scope, member)

def init (table : Table) (call : Json) : Init :=
  match callee? call with
  | none => .other
  | some (scope, member) =>
    let site : CallSite := ⟨scope ++ "." ++ member, call⟩
    match table.lookup scope member with
    | some .classCall => .classCall site
    | some .interfaceCall => .interfaceCall site
    | none => .other

def declaratorInit (table : Table) (declarator : Json) : Init :=
  match declarator.get? "init" with
  | some call => init table call
  | none => .other

end TreeOutline.Node
