import Mathlib.Tactic.SplitIfs
import TreeOutline.Definition

/-!
Trees without what no outline reads. `Json.erase` drops every member that is not read, and every
declarator but the first. Each reader of nodes gives the erased nodes of an erased tree where it
gives nodes, and the same text where it gives text.
-/

namespace TreeOutline

namespace Json

/-- The names of the members that outlines read. -/
def readFields : List String :=
  ["body", "type", "declarations", "id", "name", "init", "callee", "object", "property",
    "arguments", "properties", "key", "value"]

/-- An array cut after its first item. -/
def firstItem : Json → Json
  | .array (first :: _) => .array [first]
  | v => v

/-- Whether the `value` of a node may be the value of a literal, to be kept as it is. -/
def holdsLiteral (node : Json) : Bool :=
  (node.get? "key").isNone || Node.type? node = some "Literal"

mutual

/-- A tree without what no outline reads. -/
def erase : Json → Json
  | .array items => .array (eraseItems items)
  | .object members => .object (eraseMembers (holdsLiteral (.object members)) members)
  | .null => .null
  | .bool b => .bool b
  | .number n => .number n
  | .string s => .string s

def eraseItems : List Json → List Json
  | [] => []
  | v :: vs => erase v :: eraseItems vs

/-- The members that are read. Keys are kept whole, and values too if the object holds a literal. -/
def eraseMembers (literal : Bool) : List (String × Json) → List (String × Json)
  | [] => []
  | (name, v) :: rest =>
    if name ∉ readFields then eraseMembers literal rest
    else if name = "key" ∨ (name = "value" ∧ literal) then (name, v) :: eraseMembers literal rest
    else if name = "declarations" then (name, firstItem (erase v)) :: eraseMembers literal rest
    else (name, erase v) :: eraseMembers literal rest

end

/-! ## Members of erased nodes -/

theorem eraseItems_eq_map (items : List Json) : eraseItems items = items.map erase := by
  induction items with
  | nil => rfl
  | cons v vs ih => rw [eraseItems, ih, List.map_cons]

/-- What is left of a member that is read. -/
def eraseField (literal : Bool) (name : String) (v : Json) : Json :=
  if name = "key" ∨ (name = "value" ∧ literal) then v
  else if name = "declarations" then firstItem (erase v)
  else erase v

theorem eraseMembers_cons {literal : Bool} {name : String} {v : Json}
    {rest : List (String × Json)} :
    eraseMembers literal ((name, v) :: rest) =
      if name ∈ readFields then (name, eraseField literal name v) :: eraseMembers literal rest
      else eraseMembers literal rest := by
  rw [eraseMembers, eraseField]
  split_ifs <;> rfl

theorem lookup_eraseMembers {name : String} (h : name ∈ readFields) (literal : Bool)
    (members : List (String × Json)) :
    (eraseMembers literal members).lookup name =
      (members.lookup name).map (eraseField literal name) := by
  induction members with
  | nil => rfl
  | cons member rest ih =>
    obtain ⟨key, v⟩ := member
    rw [eraseMembers_cons]
    by_cases hname : name = key
    · subst hname
      simp [h]
    · split_ifs <;> simp [List.lookup_cons, beq_eq_false_iff_ne.2 hname, ih]

theorem get?_erase_eq {name : String} (h : name ∈ readFields) (v : Json) :
    (erase v).get? name = (v.get? name).map (eraseField v.holdsLiteral name) := by
  cases v with
  | object members => exact lookup_eraseMembers h _ members
  | _ => rfl

/-- The names of members that are erased like any node. -/
def nodeFields : List String :=
  ["body", "type", "id", "name", "init", "callee", "object", "property", "arguments", "properties"]

theorem get?_erase {name : String} (h : name ∈ nodeFields) (v : Json) :
    (erase v).get? name = (v.get? name).map erase := by
  have hread : name ∈ readFields ∧ ¬ (name = "key" ∨ name = "value" ∨ name = "declarations") := by
    simp only [nodeFields, List.mem_cons, List.not_mem_nil, or_false] at h
    rcases h with rfl | rfl | rfl | rfl | rfl | rfl | rfl | rfl | rfl | rfl <;> decide
  rw [get?_erase_eq hread.1]
  refine congrArg (Option.map · _) (funext fun w => ?_)
  simp_all [eraseField]

theorem get?_erase_key (v : Json) : (erase v).get? "key" = v.get? "key" := by
  rw [get?_erase_eq (by decide)]
  cases v.get? "key" <;> simp [eraseField]

theorem get?_erase_value (v : Json) :
    (erase v).get? "value" = (v.get? "value").map fun w => if v.holdsLiteral then w else erase w := by
  rw [get?_erase_eq (by decide)]
  refine congrArg (Option.map · _) (funext fun w => ?_)
  simp [eraseField]

theorem get?_erase_declarations (v : Json) :
    (erase v).get? "declarations" = (v.get? "declarations").map fun w => firstItem (erase w) := by
  rw [get?_erase_eq (by decide)]
  refine congrArg (Option.map · _) (funext fun w => ?_)
  simp [eraseField]

theorem asString?_erase (v : Json) : (erase v).asString? = v.asString? := by
  cases v <;> rfl

theorem asArray?_erase (v : Json) : (erase v).asArray? = v.asArray?.map (List.map erase) := by
  cases v with
  | array items => exact congrArg some (eraseItems_eq_map items)
  | _ => rfl

end Json

namespace Node

open Json
open Recognizer (Table)

/-! ## Names -/

theorem text?_erase (name : String) (h : name ∈ nodeFields) (v : Json) :
    text? name (erase v) = text? name v := by
  rw [text?, text?, get?_erase h]
  cases v.get? name with
  | none => rfl
  | some w => exact asString?_erase w

theorem type?_erase (v : Json) : type? (erase v) = type? v :=
  text?_erase "type" (by decide) v

/-- A reader that erasing does not disturb may look below a member. -/
theorem bind_erase {α : Type} (name : String) {f : Json → Option α} (h : name ∈ nodeFields)
    (hf : ∀ w, f (erase w) = f w) (v : Json) :
    ((erase v).get? name).bind f = (v.get? name).bind f := by
  rw [get?_erase h]
  cases v.get? name with
  | none => rfl
  | some w => exact hf w

mutual

theorem dottedName_erase : (v : Json) → dottedName (erase v) = dottedName v
  | .object members => by
    have hname := text?_erase "name" (by decide) (.object members)
    have hproperty := bind_erase "property" (by decide) (text?_erase "name" (by decide))
      (.object members)
    rw [erase] at hname hproperty ⊢
    -- the object below comes last, since only there is the claim needed once more
    rw [dottedName, dottedName, hname, hproperty, objectName_erase]
  | .array _ => rfl
  | .null => rfl
  | .bool _ => rfl
  | .number _ => rfl
  | .string _ => rfl

theorem objectName_erase (literal : Bool) :
    (members : List (String × Json)) →
      objectName (eraseMembers literal members) = objectName members
  | [] => rfl
  | (key, v) :: rest => by
    rw [eraseMembers_cons, objectName]
    by_cases hkey : "object" = key
    · subst hkey
      have hfield : eraseField literal "object" v = erase v := by simp [eraseField]
      rw [if_pos (by decide), if_pos rfl, objectName, if_pos rfl, hfield, dottedName_erase v]
    · rw [if_neg hkey, ← objectName_erase literal rest]
      split_ifs
      · rw [objectName, if_neg hkey]
      · rfl

end

/-! ## Declarations and calls -/

theorem entries?_erase (v : Json) : entries? (erase v) = (entries? v).map (List.map erase) := by
  rw [entries?, entries?, get?_erase (by decide)]
  cases v.get? "properties" with
  | none => rfl
  | some w => exact asArray?_erase w

theorem firstDeclarator_erase (s : Json) :
    firstDeclarator (erase s) = (firstDeclarator s).map erase := by
  unfold firstDeclarator arrayField field
  rw [get?_erase_declarations]
  cases s.get? "declarations" with
  | none => rfl
  | some w =>
    cases w with
    | array items => cases items <;> rfl
    | _ => rfl

theorem declaratorName_erase (d : Json) : declaratorName (erase d) = declaratorName d := by
  unfold declaratorName field textField field
  rw [get?_erase (by decide)]
  cases d.get? "id" with
  | none => rfl
  | some id =>
    simp only [Option.map_some, bind, Except.bind]
    rw [get?_erase (by decide)]
    cases id.get? "name" with
    | none => rfl
    | some w => simp only [Option.map_some, asString?_erase]

theorem callee?_erase (call : Json) : callee? (erase call) = callee? call := by
  refine bind_erase "callee" (by decide) (fun callee => ?_) call
  have hscope := bind_erase "object" (by decide) dottedName_erase callee
  have hmember := bind_erase "property" (by decide) (text?_erase "name" (by decide)) callee
  rw [hscope, hmember]

/-- An initializer with its call node put through `f`. -/
def Init.mapNode (f : Json → Json) : Init → Init
  | .classCall site => .classCall ⟨site.callee, f site.node⟩
  | .interfaceCall site => .interfaceCall ⟨site.callee, f site.node⟩
  | .other => .other

theorem init_erase (table : Table) (call : Json) :
    init table (erase call) = (init table call).mapNode erase := by
  unfold init
  rw [callee?_erase]
  cases callee? call with
  | none => rfl
  | some scopeMember =>
    obtain ⟨scope, member⟩ := scopeMember
    dsimp only
    cases table.lookup scope member with
    | none => rfl
    | some kind => cases kind <;> rfl

theorem declaratorInit_erase (table : Table) (declarator : Json) :
    declaratorInit table (erase declarator) = (declaratorInit table declarator).mapNode erase := by
  unfold declaratorInit
  rw [get?_erase (by decide)]
  cases declarator.get? "init" with
  | none => rfl
  | some call => exact init_erase table call

/-! ## Members -/

/-- A shape with the entries of an object literal put through `f`. -/
def Shape.mapEntries (f : Json → Json) : Shape → Shape
  | .object entries => .object (entries.map f)
  | s => s

theorem shape_erase (v : Json) : shape (erase v) = (shape v).mapEntries erase := by
  unfold shape
  simp only [type?_erase, dottedName_erase, entries?_erase, get?_erase_value]
  by_cases hliteral : type? v = some "Literal"
  · have hholds : v.holdsLiteral = true := by simp [holdsLiteral, hliteral]
    simp [hliteral, hholds, Shape.mapEntries]
  · rw [if_neg hliteral, if_neg hliteral]
    split_ifs
    · cases dottedName v <;> rfl
    · rfl
    · cases entries? v <;> rfl

end Node

end TreeOutline
