import TreeOutline.Definition
import TreeOutline.Proofs.Traversal

/-!
Reading fields of nodes. A required field is read exactly when it is there and has its type, and
each way of failing has one error. From this, the first declarator of a statement and the name it
declares are read exactly when the statement `Declares` them, and fail with a `DeclarationFault`.
-/

namespace TreeOutline

open Traversal

namespace Node

variable {node v : Json} {name context : String} {e : ShapeError}

theorem field_eq_ok : field node name context = .ok v ↔ node.get? name = some v := by
  unfold field
  cases node.get? name <;> simp

theorem field_eq_error :
    field node name context = .error e ↔ node.get? name = none ∧ e = .missing name context := by
  unfold field
  cases node.get? name <;> simp [eq_comm]

theorem arrayField_eq_ok {items : List Json} :
    arrayField node name context = .ok items ↔ node.get? name = some (.array items) := by
  unfold arrayField
  rw [bind_eq_ok]
  refine ⟨fun h => ?_, fun h => ?_⟩
  · obtain ⟨w, hw, h⟩ := h
    rw [field_eq_ok.1 hw]
    cases w <;> simp_all [Json.asArray?]
  · exact ⟨.array items, field_eq_ok.2 h, rfl⟩

theorem arrayField_eq_error :
    arrayField node name context = .error e ↔
      (node.get? name = none ∧ e = .missing name context) ∨
      ∃ w, node.get? name = some w ∧ w.asArray? = none ∧
        e = .wrongType name context "an array" := by
  unfold arrayField
  rw [bind_eq_error, field_eq_error]
  refine or_congr_right (exists_congr fun w => and_congr field_eq_ok ?_)
  cases w.asArray? <;> simp [eq_comm]

theorem textField_eq_ok {s : String} :
    textField node name context = .ok s ↔ node.get? name = some (.string s) := by
  unfold textField
  rw [bind_eq_ok]
  refine ⟨fun h => ?_, fun h => ?_⟩
  · obtain ⟨w, hw, h⟩ := h
    rw [field_eq_ok.1 hw]
    cases w <;> simp_all [Json.asString?]
  · exact ⟨.string s, field_eq_ok.2 h, rfl⟩

theorem textField_eq_error :
    textField node name context = .error e ↔
      (node.get? name = none ∧ e = .missing name context) ∨
      ∃ w, node.get? name = some w ∧ w.asString? = none ∧
        e = .wrongType name context "a string" := by
  unfold textField
  rw [bind_eq_error, field_eq_error]
  refine or_congr_right (exists_congr fun w => and_congr field_eq_ok ?_)
  cases w.asString? <;> simp [eq_comm]

/-! ## Declarations -/

variable {statement declarator : Json}

/-- The first of the statement's declarators is `declarator`, and its identifier is `name`. -/
def Declares (statement declarator : Json) (name : String) : Prop :=
  ∃ later id, statement.get? "declarations" = some (.array (declarator :: later)) ∧
    declarator.get? "id" = some id ∧ id.get? "name" = some (.string name)

/-- What keeps a statement from declaring anything, with the error that tells it. -/
inductive DeclarationFault (statement : Json) : ShapeError → Prop
  | noDeclarations (h : statement.get? "declarations" = none) :
    DeclarationFault statement (.missing "declarations" "VariableDeclaration")
  | notArray {v : Json} (h : statement.get? "declarations" = some v) (hv : v.asArray? = none) :
    DeclarationFault statement (.wrongType "declarations" "VariableDeclaration" "an array")
  | noDeclarator (h : statement.get? "declarations" = some (.array [])) :
    DeclarationFault statement (.missing "declarations[0]" "VariableDeclaration")
  | noId {declarator : Json} {later : List Json}
    (h : statement.get? "declarations" = some (.array (declarator :: later)))
    (hid : declarator.get? "id" = none) :
    DeclarationFault statement (.missing "id" "VariableDeclarator")
  | noName {declarator id : Json} {later : List Json}
    (h : statement.get? "declarations" = some (.array (declarator :: later)))
    (hid : declarator.get? "id" = some id) (hname : id.get? "name" = none) :
    DeclarationFault statement (.missing "name" "VariableDeclarator id")
  | nameNotText {declarator id v : Json} {later : List Json}
    (h : statement.get? "declarations" = some (.array (declarator :: later)))
    (hid : declarator.get? "id" = some id) (hname : id.get? "name" = some v)
    (hv : v.asString? = none) :
    DeclarationFault statement (.wrongType "name" "VariableDeclarator id" "a string")

theorem firstDeclarator_eq_ok :
    firstDeclarator statement = .ok declarator ↔
      ∃ later, statement.get? "declarations" = some (.array (declarator :: later)) := by
  unfold firstDeclarator
  rw [bind_eq_ok]
  refine ⟨fun h => ?_, fun h => ?_⟩
  · obtain ⟨items, h, hfirst⟩ := h
    cases items with
    | nil => simp at hfirst
    | cons first later =>
      cases hfirst
      exact ⟨later, arrayField_eq_ok.1 h⟩
  · obtain ⟨later, h⟩ := h
    exact ⟨declarator :: later, arrayField_eq_ok.2 h, rfl⟩

theorem firstDeclarator_eq_error :
    firstDeclarator statement = .error e ↔
      (statement.get? "declarations" = none ∧
        e = .missing "declarations" "VariableDeclaration") ∨
      (∃ v, statement.get? "declarations" = some v ∧ v.asArray? = none ∧
        e = .wrongType "declarations" "VariableDeclaration" "an array") ∨
      (statement.get? "declarations" = some (.array []) ∧
        e = .missing "declarations[0]" "VariableDeclaration") := by
  unfold firstDeclarator
  rw [bind_eq_error, arrayField_eq_error, or_assoc]
  refine or_congr_right (or_congr_right ?_)
  refine ⟨fun h => ?_, fun h => ?_⟩
  · obtain ⟨items, h, hfirst⟩ := h
    cases items with
    | nil =>
      cases hfirst
      exact ⟨arrayField_eq_ok.1 h, rfl⟩
    | cons first later => simp at hfirst
  · obtain ⟨h, rfl⟩ := h
    exact ⟨[], arrayField_eq_ok.2 h, rfl⟩

theorem declaratorName_eq_ok {name : String} :
    declaratorName declarator = .ok name ↔
      ∃ id, declarator.get? "id" = some id ∧ id.get? "name" = some (.string name) := by
  unfold declaratorName
  simp only [bind_eq_ok, field_eq_ok, textField_eq_ok]

theorem declaratorName_eq_error :
    declaratorName declarator = .error e ↔
      (declarator.get? "id" = none ∧ e = .missing "id" "VariableDeclarator") ∨
      ∃ id, declarator.get? "id" = some id ∧
        ((id.get? "name" = none ∧ e = .missing "name" "VariableDeclarator id") ∨
        ∃ v, id.get? "name" = some v ∧ v.asString? = none ∧
          e = .wrongType "name" "VariableDeclarator id" "a string") := by
  unfold declaratorName
  simp only [bind_eq_error, field_eq_ok, field_eq_error, textField_eq_error]

theorem declares_iff {name : String} :
    Declares statement declarator name ↔
      firstDeclarator statement = .ok declarator ∧ declaratorName declarator = .ok name := by
  rw [firstDeclarator_eq_ok, declaratorName_eq_ok]
  refine ⟨fun h => ?_, fun h => ?_⟩
  · obtain ⟨later, id, h, hid, hname⟩ := h
    exact ⟨⟨later, h⟩, id, hid, hname⟩
  · obtain ⟨⟨later, h⟩, id, hid, hname⟩ := h
    exact ⟨later, id, h, hid, hname⟩

theorem declarationFault_iff :
    DeclarationFault statement e ↔
      firstDeclarator statement = .error e ∨
      ∃ declarator, firstDeclarator statement = .ok declarator ∧
        declaratorName declarator = .error e := by
  simp only [firstDeclarator_eq_ok, firstDeclarator_eq_error, declaratorName_eq_error]
  refine ⟨fun h => ?_, ?_⟩
  · cases h with
    | noDeclarations h => exact .inl (.inl ⟨h, rfl⟩)
    | notArray h hv => exact .inl (.inr (.inl ⟨_, h, hv, rfl⟩))
    | noDeclarator h => exact .inl (.inr (.inr ⟨h, rfl⟩))
    | noId h hid => exact .inr ⟨_, ⟨_, h⟩, .inl ⟨hid, rfl⟩⟩
    | noName h hid hname => exact .inr ⟨_, ⟨_, h⟩, .inr ⟨_, hid, .inl ⟨hname, rfl⟩⟩⟩
    | nameNotText h hid hname hv =>
      exact .inr ⟨_, ⟨_, h⟩, .inr ⟨_, hid, .inr ⟨_, hname, hv, rfl⟩⟩⟩
  · rintro ((⟨h, rfl⟩ | ⟨v, h, hv, rfl⟩ | ⟨h, rfl⟩) |
      ⟨declarator, ⟨later, h⟩, ⟨hid, rfl⟩ | ⟨id, hid, ⟨hname, rfl⟩ | ⟨v, hname, hv, rfl⟩⟩⟩)
    · exact .noDeclarations h
    · exact .notArray h hv
    · exact .noDeclarator h
    · exact .noId h hid
    · exact .noName h hid hname
    · exact .nameNotText h hid hname hv

end Node

end TreeOutline
