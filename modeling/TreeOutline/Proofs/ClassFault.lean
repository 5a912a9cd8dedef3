import TreeOutline.Proofs.ClassLines
import TreeOutline.Proofs.Extend

/-!
What is wrong with a class. A class that was collected can fail for its arguments only, and for the
first thing that is wrong with them (`classLines_eq_error`): the list itself, then the entries of its
object literals, and then what the entries called `Properties` declare. A table with more rules does
not change that, since it finds the call of the class again.
-/

namespace TreeOutline.ClassBody

open Node Traversal

/-- What keeps a value from declaring properties. -/
inductive ValueFault (value : Json) : ShapeError → Prop
  | notObject (h : ∀ inner, ¬ ObjectLiteral value inner) :
    ValueFault value (.wrongType "value" "Properties" "an object literal")
  | entry {inner : List Json} {e : ShapeError} (h : ObjectLiteral value inner)
    (hf : FirstOf (EntryFault "Properties") inner e) : ValueFault value e

/-- The entry is to declare properties, and does not. -/
def PropertiesFault (entry : Json) (e : ShapeError) : Prop :=
  ∃ value, HasMember entry "Properties" value ∧ ValueFault value e

/-- What is wrong with a call of `callee` that declares a class. Each of these is looked for in all
arguments before the next one is. -/
inductive CallFault (callee : String) (call : Json) : ShapeError → Prop
  | arguments {v : Json} (h : call.get? "arguments" = some v) (hv : ∀ items, v ≠ .array items) :
    CallFault callee call (.wrongType "arguments" (callee ++ " call") "an array")
  | entry {arguments es : List Json} {e : ShapeError} (h : HasArguments call arguments)
    (hes : Holds arguments es) (hf : FirstOf (EntryFault "class argument") es e) :
    CallFault callee call e
  | properties {arguments es : List Json} {e : ShapeError} (h : HasArguments call arguments)
    (hes : Holds arguments es) (hread : ∀ entry ∈ es, ∀ e, ¬ EntryFault "class argument" entry e)
    (hf : FirstOf PropertiesFault es e) : CallFault callee call e

variable {arguments : List Json} {key : String} {value entry : Json} {e : ShapeError}

theorem declaredNames_eq_error : declaredNames value = .error e ↔ ValueFault value e := by
  unfold declaredNames
  refine ⟨fun h => ?_, fun h => ?_⟩
  · split at h
    · next inner hshape =>
      exact .entry (shape_eq_object.1 hshape) (members_eq_error.1 (map_eq_error.1 h))
    · next hshape =>
      cases h
      exact .notObject fun inner hinner => hshape inner (shape_eq_object.2 hinner)
  · cases h with
    | notObject h =>
      split
      · next inner hshape => exact absurd (shape_eq_object.1 hshape) (h inner)
      · rfl
    | entry h hf =>
      rw [shape_eq_object.2 h]
      exact map_eq_error.2 (members_eq_error.2 hf)

theorem ofMember_eq_error :
    Part.ofMember ⟨key, value⟩ = .error e ↔ key = "Properties" ∧ ValueFault value e := by
  unfold Part.ofMember
  rw [← declaredNames_eq_error]
  by_cases hmetadata : key ∈ metadataKeys
  · have hkey : key ≠ "Properties" := by
      rintro rfl
      exact absurd hmetadata (by decide)
    simp [hmetadata, hkey]
  · by_cases hkey : key = propertiesKey
    · rw [if_neg hmetadata, if_pos hkey, map_eq_error]
      exact (and_iff_right hkey).symm
    · have hne : key ≠ "Properties" := hkey
      simp [hmetadata, hkey, hne]

/-- Of an entry that is a member, only what it declares can be wrong. -/
theorem propertiesFault_iff {m : Member} (hm : HasMember entry m.key m.value) :
    Part.ofMember m = .error e ↔ PropertiesFault entry e := by
  refine ofMember_eq_error.trans ⟨fun h => ?_, fun h => ?_⟩
  · obtain ⟨hkey, hf⟩ := h
    exact ⟨m.value, hkey ▸ hm, hf⟩
  · obtain ⟨value, hvalue, hf⟩ := h
    obtain ⟨hkey, rfl⟩ := hm.unique hvalue
    exact ⟨hkey, hf⟩

theorem parts_eq_error :
    parts arguments = .error e ↔
      FirstOf (EntryFault "class argument") (entries arguments) e ∨
      (∀ entry ∈ entries arguments, ∀ e, ¬ EntryFault "class argument" entry e) ∧
        FirstOf PropertiesFault (entries arguments) e := by
  unfold parts
  rw [bind_eq_error, members_eq_error]
  refine or_congr_right ?_
  have hread : (∃ ms, members "class argument" (entries arguments) = .ok ms) ↔
      ∀ entry ∈ entries arguments, ∀ e, ¬ EntryFault "class argument" entry e := by
    rw [members, exists_mapM_eq_ok]
    simp only [exists_eq_ok_iff, ne_eq, member_eq_error]
  have hfirst {ms : List Member} (hms : members "class argument" (entries arguments) = .ok ms) :
      ms.mapM Part.ofMember = .error e ↔ FirstOf PropertiesFault (entries arguments) e := by
    rw [mapM_of_mapM_eq_ok hms, mapM_eq_error]
    refine firstError_iff fun entry hentry fault => ?_
    obtain ⟨m, hm⟩ := exists_mapM_eq_ok.1 ⟨ms, hms⟩ entry hentry
    rw [hm]
    exact propertiesFault_iff (member_eq_ok.1 hm)
  refine ⟨fun h => ?_, fun h => ?_⟩
  · obtain ⟨ms, hms, h⟩ := h
    exact ⟨hread.1 ⟨ms, hms⟩, (hfirst hms).1 h⟩
  · obtain ⟨hall, h⟩ := h
    obtain ⟨ms, hms⟩ := hread.2 hall
    exact ⟨ms, hms, (hfirst hms).2 h⟩

theorem callArguments_eq_error {site : CallSite} :
    Outline.callArguments site = .error e ↔
      ∃ v, site.node.get? "arguments" = some v ∧ (∀ items, v ≠ .array items) ∧
        e = .wrongType "arguments" (site.callee ++ " call") "an array" := by
  unfold Outline.callArguments
  cases site.node.get? "arguments" with
  | none => simp
  | some v => cases v <;> simp [Json.asArray?, eq_comm]

theorem callFault_iff {site : CallSite} :
    CallFault site.callee site.node e ↔ Outline.callParts site = .error e := by
  unfold Outline.callParts
  simp only [bind_eq_error, callArguments_eq_error, parts_eq_error, ← hasArguments_iff]
  refine ⟨fun h => ?_, fun h => ?_⟩
  · cases h with
    | arguments h hv => exact .inl ⟨_, h, hv, rfl⟩
    | entry h hes hf =>
      obtain rfl := holds_iff.1 hes
      exact .inr ⟨_, h, .inl hf⟩
    | properties h hes hread hf =>
      obtain rfl := holds_iff.1 hes
      exact .inr ⟨_, h, .inr ⟨hread, hf⟩⟩
  · rcases h with ⟨v, h, hv, rfl⟩ | ⟨arguments, h, hf | ⟨hread, hf⟩⟩
    · exact .arguments h hv
    · exact .entry h (holds_iff.2 rfl) hf
    · exact .properties h (holds_iff.2 rfl) hread hf

/-- The field that an error is about. -/
def faultField : ShapeError → String
  | .missing field _ => field
  | .wrongType field _ _ => field

theorem faultField_mem_of_entryFault {context : String} (h : EntryFault context entry e) :
    faultField e ∈ ["key", "value", "key.name"] := by
  cases h <;> simp [faultField]

/-- No error of a call is about its recognition, or about the declaration that it stands in. -/
theorem CallFault.faultField_mem {callee : String} {call : Json} (h : CallFault callee call e) :
    faultField e ∈ ["arguments", "key", "value", "key.name"] := by
  cases h with
  | arguments h hv => simp [faultField]
  | entry h hes hf =>
    obtain ⟨-, x, -, -, -, hx⟩ := hf
    exact List.mem_cons_of_mem _ (faultField_mem_of_entryFault hx)
  | properties h hes hread hf =>
    obtain ⟨-, x, -, -, -, value, -, hx⟩ := hf
    cases hx with
    | notObject h => simp [faultField]
    | entry h hf =>
      obtain ⟨-, x, -, -, -, hx⟩ := hf
      exact List.mem_cons_of_mem _ (faultField_mem_of_entryFault hx)

end TreeOutline.ClassBody

namespace TreeOutline.Outline

open ClassBody Definition Node Traversal
open Recognizer (Table)

/-- A collected class fails for the first thing that is wrong with its call, and never because the
call is not recognized, also under a table with more rules. -/
theorem classLines_eq_error {table : Table} {root : Json} {ds : List Definition} {d : Definition}
    (hds : collect table root = .ok ds) (hd : d ∈ ds) (hk : d.kind = .classDeclaration) :
    ∃ declarator name call scope member, Declares d.node declarator name ∧ d.name = some name ∧
      declarator.get? "init" = some call ∧ callee? call = some (scope, member) ∧
      ∀ rules, (∀ e, classLines (table.extend rules) d = .error e ↔
          CallFault (scope ++ "." ++ member) call e) ∧
        classLines (table.extend rules) d ≠
          .error (.wrongType "init" "VariableDeclarator" "a recognized class call") := by
  obtain ⟨name, site, hc, hname⟩ := exists_declaresClass hds hd hk
  obtain ⟨declarator, scope, member, hdecl, hcall, hcallee, hsite⟩ := hc.exists_call
  refine ⟨declarator, name, site.node, scope, member, hdecl, hname, hcall, hcallee, fun rules => ?_⟩
  have hfault (e : ShapeError) : classLines (table.extend rules) d = .error e ↔
      CallFault (scope ++ "." ++ member) site.node e := by
    rw [classLines_of_declaresClass (hc.extend rules) hname, map_eq_error, ← hsite, callFault_iff]
  refine ⟨hfault, fun h => ?_⟩
  have hfield := ((hfault _).1 h).faultField_mem
  simp [faultField] at hfield

/-- A class whose first entry declares badly, and whose second one is no member. -/
def faultyCall : Json :=
  langDeclaration "Class" "Card" (.array
    [.object [("properties", .array [objectEntry "Properties" [("type", .string "Literal")]])],
      .object [("properties", .array [.object [("key", .null)]])]])

/-- The later entry is the one that is told, also where a later rule speaks for the call. -/
theorem classLines_faultyCall :
    collect .standard (Module.ofBody [faultyCall]).root =
      .ok [⟨.classDeclaration, some "Card", faultyCall⟩] ∧
    classLines (Table.standard.extend mixinRules) ⟨.classDeclaration, some "Card", faultyCall⟩ =
      .error (.missing "value" "class argument") ∧
    ∃ callee call, CallFault callee call (.missing "value" "class argument") := by
  have hds : collect .standard (Module.ofBody [faultyCall]).root =
      .ok [⟨.classDeclaration, some "Card", faultyCall⟩] := rfl
  have herror : classLines (Table.standard.extend mixinRules)
      ⟨.classDeclaration, some "Card", faultyCall⟩ = .error (.missing "value" "class argument") := rfl
  obtain ⟨-, -, call, scope, member, -, -, -, -, h⟩ :=
    classLines_eq_error hds (List.mem_singleton_self _) rfl
  exact ⟨hds, herror, _, call, ((h mixinRules).1 _).1 herror⟩

end TreeOutline.Outline
