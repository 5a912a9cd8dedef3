import TreeOutline.Recognizer.Rule

/-!
Ordered tables of rules. The first rule that fits a call decides, so a rule added at the end changes
nothing for a call that is recognized already (`lookup_append`).
-/

namespace TreeOutline.Recognizer

/-- Rules in the order in which they are tried. -/
structure Table where
  rules : List Rule
  deriving Repr, DecidableEq

namespace Table

def empty : Table := ⟨[]⟩

def standard : Table :=
  ⟨[⟨"Lang", "Class", .classCall⟩, ⟨"Lang", "Interface", .interfaceCall⟩]⟩

/-- The table with one more rule, tried last. -/
def add (table : Table) (rule : Rule) : Table :=
  ⟨table.rules ++ [rule]⟩

def isEmpty (table : Table) : Bool :=
  table.rules.isEmpty

def lookup (table : Table) (scope member : String) : Option Kind :=
  (table.rules.find? fun rule => rule.scope = scope && rule.member = member).map Rule.kind

/-- The table with the rules that texts write, in order, or the first error. -/
def addTexts (table : Table) : List String → Except RuleError Table
  | [] => .ok table
  | text :: rest => do
    let rule ← Rule.parse text
    (table.add rule).addTexts rest

theorem lookup_append (rules more : List Rule) (scope member : String) :
    lookup ⟨rules ++ more⟩ scope member
      = (lookup ⟨rules⟩ scope member).or (lookup ⟨more⟩ scope member) := by
  simp only [lookup, List.find?_append]
  cases rules.find? fun rule => rule.scope = scope && rule.member = member <;> rfl

end Table

end TreeOutline.Recognizer
