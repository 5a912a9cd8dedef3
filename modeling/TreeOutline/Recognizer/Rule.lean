import TreeOutline.Text.Blank
import TreeOutline.Text.Lower
import TreeOutline.Text.Pieces

/-!
Rules that say which calls declare a class or an interface, written `Scope.Member=kind`. Blanks
around the callee and the kind do not count, nor does the case of the kind.
-/

namespace TreeOutline.Recognizer

inductive Kind where
  | classCall
  | interfaceCall
  deriving Repr, DecidableEq

/-- The call of `member` on `scope` declares a `kind`. -/
structure Rule where
  scope : String
  member : String
  kind : Kind
  deriving Repr, DecidableEq

inductive RuleCause where
  | noKind
  | noDot
  | emptyName
  | badKind
  deriving Repr, DecidableEq

structure RuleError where
  text : String
  cause : RuleCause
  deriving Repr, DecidableEq

def RuleCause.message : RuleCause → String
  | .noKind => "expected Namespace.Member=kind"
  | .noDot => "expected a dotted callee"
  | .emptyName => "namespace and member must not be empty"
  | .badKind => "kind must be 'class' or 'interface'"

def RuleError.message (e : RuleError) : String :=
  "Invalid recognizer rule '" ++ e.text ++ "': " ++ e.cause.message

def Kind.label : Kind → String
  | .classCall => "class"
  | .interfaceCall => "interface"

/-- The kind that a word stands for, in any case. -/
def Kind.ofLabel? (word : List Char) : Option Kind :=
  if Text.lower word = Kind.classCall.label.toList then some .classCall
  else if Text.lower word = Kind.interfaceCall.label.toList then some .interfaceCall
  else none

/-- The rule before and after the first `=`: a callee cut at its last dot, and a kind. -/
def Rule.read (text : List Char) : Except RuleCause Rule :=
  match Text.cutFirst '=' text with
  | none => .error .noKind
  | some (callee, kind) =>
    match Text.cutLast '.' (Text.trim callee) with
    | none => .error .noDot
    | some (scope, member) =>
      if scope = [] ∨ member = [] then .error .emptyName
      else
        match Kind.ofLabel? (Text.trim kind) with
        | none => .error .badKind
        | some kind => .ok ⟨String.ofList scope, String.ofList member, kind⟩

def Rule.parse (text : String) : Except RuleError Rule :=
  match Rule.read text.toList with
  | .ok rule => .ok rule
  | .error cause => .error ⟨text, cause⟩

def Rule.text (rule : Rule) : String :=
  rule.scope ++ "." ++ rule.member ++ "=" ++ rule.kind.label

end TreeOutline.Recognizer
