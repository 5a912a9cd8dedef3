import TreeOutline.Node.Shape
import TreeOutline.Proofs.Field

/-!
Members of object literals. An entry with a value under a key that has a text is a member
(`HasMember`); every other entry has one `EntryFault`. Reading entries gives their members in order
(`members_eq_ok`), or the fault of the first one that has a fault (`members_eq_error`). The type of a
value decides what it is before its fields do (`ObjectLiteral`).
-/

namespace TreeOutline.Node

open Traversal

/-- The text of a key: the name of an identifier, or else the value of a literal other than null. -/
inductive KeyText (key : Json) : String → Prop
  | ofName {name : String} (h : text? "name" key = some name) : KeyText key name
  | ofValue {value : Json} (hname : text? "name" key = none) (h : key.get? "value" = some value)
    (hvalue : value ≠ .null) : KeyText key (literalText value)

/-- The entry holds a value under the key `key`. -/
def HasMember (entry : Json) (key : String) (value : Json) : Prop :=
  ∃ k, entry.get? "key" = some k ∧ entry.get? "value" = some value ∧ KeyText k key

/-- What keeps an entry from being a member, with the error that tells it. -/
inductive EntryFault (context : String) (entry : Json) : ShapeError → Prop
  | noKey (h : entry.get? "key" = none) : EntryFault context entry (.missing "key" context)
  | noValue {key : Json} (hkey : entry.get? "key" = some key) (h : entry.get? "value" = none) :
    EntryFault context entry (.missing "value" context)
  | noName {key value : Json} (hkey : entry.get? "key" = some key)
    (hvalue : entry.get? "value" = some value) (hname : text? "name" key = none)
    (h : key.get? "value" = none ∨ key.get? "value" = some .null) :
    EntryFault context entry (.missing "key.name" context)

/-- The node is an object literal with these entries: it has a list of properties, and no type that
makes it something else. -/
structure ObjectLiteral (node : Json) (entries : List Json) : Prop where
  notLiteral : type? node ≠ some "Literal"
  notAccess : type? node ≠ some "MemberExpression"
  notFunction : type? node ≠ some "FunctionExpression"
  properties : node.get? "properties" = some (.array entries)

variable {key entry value : Json} {name context : String} {e : ShapeError}

theorem entries?_eq_some {entries : List Json} :
    entries? value = some entries ↔ value.get? "properties" = some (.array entries) := by
  simp only [entries?, Option.bind_eq_some_iff, Json.asArray?_eq_some, exists_eq_right]

/-! ## Keys and entries -/

theorem keyName_eq_ok : keyName key context = .ok name ↔ KeyText key name := by
  unfold keyName
  refine ⟨fun h => ?_, fun h => ?_⟩
  · split at h
    · next hname =>
      cases h
      exact .ofName hname
    · next hname =>
      split at h
      · next value hvalue =>
        split at h
        · cases h
        · next hnull =>
          cases h
          exact .ofValue hname hvalue fun h => hnull (by rw [h]; rfl)
      · cases h
  · cases h with
    | ofName h => rw [h]
    | @ofValue value hname h hvalue =>
      rw [hname, h]
      cases value <;> first | rfl | contradiction

theorem keyName_eq_error :
    keyName key context = .error e ↔
      text? "name" key = none ∧ (key.get? "value" = none ∨ key.get? "value" = some .null) ∧
        e = .missing "key.name" context := by
  unfold keyName
  cases text? "name" key with
  | some name => simp
  | none =>
    cases key.get? "value" with
    | none => simp [eq_comm]
    | some value => cases value <;> simp [Json.isNull, eq_comm]

theorem member_eq_ok {m : Member} :
    member context entry = .ok m ↔ HasMember entry m.key m.value := by
  unfold member HasMember
  simp only [bind_eq_ok, field_eq_ok, keyName_eq_ok]
  refine ⟨fun h => ?_, fun h => ?_⟩
  · obtain ⟨k, hk, value, hvalue, name, hname, h⟩ := h
    cases h
    exact ⟨k, hk, hvalue, hname⟩
  · obtain ⟨k, hk, hvalue, hname⟩ := h
    exact ⟨k, hk, m.value, hvalue, m.key, hname, rfl⟩

theorem member_eq_error : member context entry = .error e ↔ EntryFault context entry e := by
  unfold member
  simp only [bind_eq_error, field_eq_ok, field_eq_error, keyName_eq_error]
  refine ⟨?_, fun h => ?_⟩
  · rintro (⟨h, rfl⟩ | ⟨key, hkey, ⟨h, rfl⟩ | ⟨value, hvalue, ⟨hname, h, rfl⟩ | ⟨name, -, h⟩⟩⟩)
    · exact .noKey h
    · exact .noValue hkey h
    · exact .noName hkey hvalue hname h
    · cases h
  · cases h with
    | noKey h => exact .inl ⟨h, rfl⟩
    | noValue hkey h => exact .inr ⟨_, hkey, .inl ⟨h, rfl⟩⟩
    | noName hkey hvalue hname h => exact .inr ⟨_, hkey, .inr ⟨_, hvalue, .inl ⟨hname, h, rfl⟩⟩⟩

/-- An entry is no more than one member. -/
theorem HasMember.unique {other : String} {v : Json} (h : HasMember entry name value)
    (h' : HasMember entry other v) : name = other ∧ value = v := by
  have hm : member "" entry = .ok ⟨name, value⟩ := member_eq_ok.2 h
  have hm' : member "" entry = .ok ⟨other, v⟩ := member_eq_ok.2 h'
  cases hm.symm.trans hm'
  exact ⟨rfl, rfl⟩

theorem members_eq_ok {entries : List Json} {ms : List Member} :
    members context entries = .ok ms ↔
      List.Forall₂ (fun entry m => HasMember entry m.key m.value) entries ms := by
  simp only [members, mapM_eq_ok, member_eq_ok]

theorem members_eq_error {entries : List Json} :
    members context entries = .error e ↔ FirstOf (EntryFault context) entries e :=
  mapM_eq_error.trans (firstError_iff fun _ _ _ => member_eq_error)

/-! ## Shapes -/

theorem shape_eq_literal {v : Json} :
    shape value = .literal v ↔
      type? value = some "Literal" ∧ (value.get? "value").getD .null = v := by
  unfold shape
  by_cases h : type? value = some "Literal"
  · simp [h]
  · simp only [h, if_false, false_and, iff_false]
    split_ifs
    · cases dottedName value <;> simp
    · simp
    · cases entries? value <;> simp

theorem shape_eq_access {name : String} :
    shape value = .access name ↔
      type? value = some "MemberExpression" ∧ dottedName value = some name := by
  unfold shape
  by_cases h : type? value = some "MemberExpression"
  · cases hname : dottedName value <;> simp [h]
  · simp only [h, if_false, false_and, iff_false]
    split_ifs
    · simp
    · simp
    · cases entries? value <;> simp

theorem shape_eq_function :
    shape value = .function ↔ type? value = some "FunctionExpression" := by
  unfold shape
  by_cases h : type? value = some "FunctionExpression"
  · simp [h]
  · simp only [h, if_false, iff_false]
    split_ifs
    · simp
    · cases dottedName value <;> simp
    · cases entries? value <;> simp

theorem shape_eq_object {entries : List Json} :
    shape value = .object entries ↔ ObjectLiteral value entries := by
  unfold shape
  refine ⟨fun h => ?_, fun h => ?_⟩
  · dsimp only at h
    split_ifs at h with hliteral haccess hfunction
    · cases hname : dottedName value <;> simp [hname] at h
    · cases hentries : entries? value with
      | none => simp [hentries] at h
      | some es =>
        rw [hentries] at h
        cases h
        exact ⟨hliteral, haccess, hfunction, entries?_eq_some.1 hentries⟩
  · rw [if_neg h.notLiteral, if_neg h.notAccess, if_neg h.notFunction,
      entries?_eq_some.2 h.properties]

end TreeOutline.Node
