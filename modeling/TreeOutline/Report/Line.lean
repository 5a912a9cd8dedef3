import TreeOutline.Definition

/-!
The lines of a report, each naming a class, one of its members or a definition without an outline.
-/

namespace TreeOutline

inductive Line where
  | header (name : String)
  | metadata (key value : String)
  | property (name : String)
  | constant (name : String)
  | method (name : String)
  | unsupported (kind : DefinitionKind) (name : Option String)
  deriving Repr, DecidableEq

namespace Line

/-- How deep a line stands: definitions at zero, what describes a class at one, members at two. -/
def depth : Line → Nat
  | .header _ => 0
  | .unsupported _ _ => 0
  | .metadata _ _ => 1
  | .property _ => 2
  | .constant _ => 2
  | .method _ => 2

def isProperty : Line → Bool
  | .property _ => true
  | _ => false

def isConstant : Line → Bool
  | .constant _ => true
  | _ => false

def isMethod : Line → Bool
  | .method _ => true
  | _ => false

def isUnsupported : Line → Bool
  | .unsupported _ _ => true
  | _ => false

end Line

end TreeOutline
