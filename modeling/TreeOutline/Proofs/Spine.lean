import TreeOutline.Proofs.Callee
import TreeOutline.Proofs.Listing

/-!
What a dotted name is made of. From a node the members called `object` lead on to its scope, to the
scope of that and so forth, and in a finite tree this comes to an end. The first of these nodes that
has a name of its own begins the dotted name. Each node before it adds the name of its property, so
that one without such a name spoils the whole.
-/

namespace TreeOutline.Node

variable {node object : Json} {base member text : String} {members : List String}

/-- The node that a number of members called `object` lead to. -/
def scopeAt? : Nat → Json → Option Json
  | 0, node => some node
  | steps + 1, node => (node.get? "object").bind (scopeAt? steps)

/-- The name of the property that a node is an access of. -/
def propertyName? (node : Json) : Option String :=
  (node.get? "property").bind (text? "name")

/-- Past as many nodes as there are members, `base` is the first name that a node has of its own, and
the properties of the nodes passed over are named by the members. -/
structure Spells (node : Json) (base : String) (members : List String) : Prop where
  named : (scopeAt? members.length node).bind (text? "name") = some base
  unnamed : ∀ i < members.length, (scopeAt? i node).bind (text? "name") = none
  accesses : ∀ i (h : i < members.length), (scopeAt? i node).bind propertyName? = some members[i]

/-! ## One step -/

theorem spells_nil : Spells node base [] ↔ text? "name" node = some base := by
  refine ⟨fun h => h.named, fun h => ⟨h, ?_, ?_⟩⟩
  · intro i hi
    cases hi
  · intro i hi
    cases hi

theorem scopeAt?_succ (h : node.get? "object" = some object) (steps : Nat) :
    scopeAt? (steps + 1) node = scopeAt? steps object := by
  rw [scopeAt?, h, Option.bind_some]

theorem spells_cons : Spells node base (member :: members) ↔
    text? "name" node = none ∧ propertyName? node = some member ∧
      ∃ object, node.get? "object" = some object ∧ Spells object base members := by
  refine ⟨fun h => ?_, fun h => ?_⟩
  · obtain ⟨scope, hscope, -⟩ := Option.bind_eq_some_iff.1 h.named
    obtain ⟨object, hobject, -⟩ := Option.bind_eq_some_iff.1 hscope
    refine ⟨h.unnamed 0 (by simp), h.accesses 0 (by simp), object, hobject, ?_, ?_, ?_⟩
    · rw [← scopeAt?_succ hobject]
      exact h.named
    · intro i hi
      rw [← scopeAt?_succ hobject]
      exact h.unnamed (i + 1) (by simpa using hi)
    · intro i hi
      rw [← scopeAt?_succ hobject]
      exact h.accesses (i + 1) (by simpa using hi)
  · obtain ⟨hname, hmember, object, hobject, hrest⟩ := h
    refine ⟨?_, ?_, ?_⟩
    · rw [List.length_cons, scopeAt?_succ hobject]
      exact hrest.named
    · rintro (_ | i) hi
      · exact hname
      · rw [scopeAt?_succ hobject]
        exact hrest.unnamed i (by simpa using hi)
    · rintro (_ | i) hi
      · exact hmember
      · rw [scopeAt?_succ hobject]
        exact hrest.accesses i (by simpa using hi)

theorem dottedName_eq_some : dottedName node = some text ↔
    text? "name" node = some text ∨
      text? "name" node = none ∧ ∃ object scope member, node.get? "object" = some object ∧
        dottedName object = some scope ∧ propertyName? node = some member ∧
          text = scope ++ "." ++ member := by
  rw [dottedName_eq]
  cases text? "name" node with
  | some name => simp
  | none =>
    cases node.get? "object" with
    | none => simp
    | some object =>
      cases hscope : dottedName object with
      | none => simp [hscope]
      | some scope =>
        cases hproperty : propertyName? node with
        | none =>
          rw [propertyName?] at hproperty
          simp [hproperty]
        | some member =>
          rw [propertyName?] at hproperty
          simp [hscope, hproperty, eq_comm]

/-! ## The whole way -/

theorem sizeOf_lt_of_get? {key : String} {value : Json} (h : node.get? key = some value) :
    sizeOf value < sizeOf node := by
  cases node with
  | object ms =>
    have hmem : (key, value) ∈ ms := Keyed.mem_of_lookup h
    have hlt := List.sizeOf_lt_of_mem hmem
    simp only [Prod.mk.sizeOf_spec, Json.object.sizeOf_spec] at hlt ⊢
    omega
  | _ => cases h

/-- No tree has scopes without end. -/
theorem exists_scopeAt?_eq_none (node : Json) : ∃ steps, scopeAt? steps node = none := by
  cases hobject : node.get? "object" with
  | none => exact ⟨1, by rw [scopeAt?, hobject, Option.bind_none]⟩
  | some object =>
    have hlt := sizeOf_lt_of_get? hobject
    obtain ⟨steps, hsteps⟩ := exists_scopeAt?_eq_none object
    exact ⟨steps + 1, (scopeAt?_succ hobject steps).trans hsteps⟩
termination_by sizeOf node

theorem join_reverse_cons : Text.join "." (base :: (member :: members).reverse) =
    Text.join "." (base :: members.reverse) ++ "." ++ member := by
  rw [List.reverse_cons, ← List.cons_append, Text.join_append _ (by simp) (by simp)]
  rfl

theorem dottedName_of_spells (h : Spells node base members) :
    dottedName node = some (Text.join "." (base :: members.reverse)) := by
  induction members generalizing node with
  | nil => exact dottedName_eq_some.2 (.inl (spells_nil.1 h))
  | cons member members ih =>
    obtain ⟨hname, hmember, object, hobject, hrest⟩ := spells_cons.1 h
    exact dottedName_eq_some.2
      (.inr ⟨hname, object, _, member, hobject, ih hrest, hmember, join_reverse_cons⟩)

theorem exists_spells {steps : Nat} (hend : scopeAt? steps node = none)
    (h : dottedName node = some text) :
    ∃ base members, Spells node base members ∧ text = Text.join "." (base :: members.reverse) := by
  induction steps generalizing node text with
  | zero => cases hend
  | succ steps ih =>
    rcases dottedName_eq_some.1 h with
      hname | ⟨hname, object, scope, member, hobject, hscope, hmember, rfl⟩
    · exact ⟨text, [], spells_nil.2 hname, rfl⟩
    · rw [scopeAt?_succ hobject] at hend
      obtain ⟨base, members, hspells, rfl⟩ := ih hend hscope
      exact ⟨base, member :: members, spells_cons.2 ⟨hname, hmember, object, hobject, hspells⟩,
        join_reverse_cons.symm⟩

/-- A node has a dotted name just if its scopes lead to one with a name past accesses with names, and
then it is that name followed by theirs. A name of its own comes before all else, an access without a
name leaves the node without one, and the scopes of a node come to an end. -/
theorem dottedName_exact (node : Json) :
    (∀ text, dottedName node = some text ↔
      ∃ base members, Spells node base members ∧ text = Text.join "." (base :: members.reverse)) ∧
    (∀ name, text? "name" node = some name → dottedName node = some name) ∧
    (∀ i, (∀ j ≤ i, (scopeAt? j node).bind (text? "name") = none) →
      (scopeAt? i node).bind propertyName? = none → dottedName node = none) ∧
    ∃ steps, scopeAt? steps node = none := by
  obtain ⟨steps, hend⟩ := exists_scopeAt?_eq_none node
  refine ⟨fun text => ⟨exists_spells hend, ?_⟩, fun name hname => ?_, fun i hunnamed haccess => ?_,
    steps, hend⟩
  · rintro ⟨base, members, hspells, rfl⟩
    exact dottedName_of_spells hspells
  · exact dottedName_eq_some.2 (.inl hname)
  · cases h : dottedName node with
    | none => rfl
    | some text =>
      obtain ⟨base, members, hspells, -⟩ := exists_spells hend h
      by_cases hi : i < members.length
      · cases haccess.symm.trans (hspells.accesses i hi)
      · cases (hunnamed members.length (by omega)).symm.trans hspells.named

/-- An access of the property that `name` tells, with a name of its own that is no text. -/
def access (object name : Json) : Json :=
  .object [("name", .null), ("object", object), ("property", .object [("name", name)])]

/-- The access `imports.lang`, except that its property may have any name. -/
def ofImports (name : Json) : Json :=
  access (.object [("name", .string "imports")]) name

/-- Two accesses are passed over on the way to `imports`, and the inner one without a name of its
property spoils the outer one, which has such a name. -/
theorem dottedName_access :
    Spells (access (ofImports (.string "lang")) (.string "Class")) "imports" ["Class", "lang"] ∧
      dottedName (access (ofImports (.string "lang")) (.string "Class")) =
        some "imports.lang.Class" ∧
      dottedName (access (ofImports (.bool true)) (.string "Class")) = none := by
  have hinner : Spells (ofImports (.string "lang")) "imports" ["lang"] :=
    spells_cons.2 ⟨rfl, rfl, _, rfl, spells_nil.2 (text?_eq_some.2 rfl)⟩
  have hspells :
      Spells (access (ofImports (.string "lang")) (.string "Class")) "imports" ["Class", "lang"] :=
    spells_cons.2 ⟨rfl, rfl, _, rfl, hinner⟩
  have hunnamed : ∀ j ≤ 1,
      (scopeAt? j (access (ofImports (.bool true)) (.string "Class"))).bind (text? "name") = none := by
    decide
  obtain ⟨hwhole, -, -, -⟩ := dottedName_exact (access (ofImports (.string "lang")) (.string "Class"))
  obtain ⟨-, -, hspoiled, -⟩ := dottedName_exact (access (ofImports (.bool true)) (.string "Class"))
  exact ⟨hspells, (hwhole "imports.lang.Class").2 ⟨_, _, hspells, rfl⟩, hspoiled 1 hunnamed rfl⟩

end TreeOutline.Node
