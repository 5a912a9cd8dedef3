import TreeOutline.Proofs.Statement
import TreeOutline.Scan.Basic

/-!
Trees put together. The outline of two bodies one after the other is that of the first followed by
that of the second, for no class can tell what stands beside it. A failure need not be that of the
first body that fails: a malformed declaration in the second one comes before a malformed class in
the first.
-/

namespace TreeOutline

open Definition Outline Traversal

variable {o : Options} {m m₁ m₂ : Module}

theorem outline_eq_ok {r : Report} :
    m.outline o = .ok r ↔
      ∃ ds ls, ofStatements o.table (body m.root) = .ok ds ∧ Outline.lines o ds = .ok ls ∧
        r = ⟨m.path, m.name, ds.map Definition.summary, ls⟩ :=
  report_eq_ok

theorem ok_append_of_ok (hb : body m.root = body m₁.root ++ body m₂.root) {r₁ r₂ : Report}
    (h₁ : m₁.outline o = .ok r₁) (h₂ : m₂.outline o = .ok r₂) :
    m.outline o =
      .ok ⟨m.path, m.name, r₁.definitions ++ r₂.definitions, r₁.lines ++ r₂.lines⟩ := by
  obtain ⟨ds₁, ls₁, hds₁, hls₁, rfl⟩ := outline_eq_ok.1 h₁
  obtain ⟨ds₂, ls₂, hds₂, hls₂, rfl⟩ := outline_eq_ok.1 h₂
  refine outline_eq_ok.2 ⟨ds₁ ++ ds₂, ls₁ ++ ls₂, ?_, ?_, ?_⟩
  · rw [hb, ofStatements_append, hds₁, hds₂]
    rfl
  · rw [lines_append, hls₁, hls₂]
    rfl
  · rw [List.map_append]

theorem ok_of_ok_append (hb : body m.root = body m₁.root ++ body m₂.root) {r : Report}
    (h : m.outline o = .ok r) :
    (∃ r₁, m₁.outline o = .ok r₁) ∧ ∃ r₂, m₂.outline o = .ok r₂ := by
  obtain ⟨ds, ls, hds, hls, -⟩ := outline_eq_ok.1 h
  rw [hb, ofStatements_append] at hds
  obtain ⟨ds₁, hds₁, hds⟩ := bind_eq_ok.1 hds
  obtain ⟨ds₂, hds₂, rfl⟩ := map_eq_ok.1 hds
  rw [lines_append] at hls
  obtain ⟨ls₁, hls₁, hls⟩ := bind_eq_ok.1 hls
  obtain ⟨ls₂, hls₂, -⟩ := map_eq_ok.1 hls
  exact ⟨⟨_, outline_eq_ok.2 ⟨ds₁, ls₁, hds₁, hls₁, rfl⟩⟩,
    _, outline_eq_ok.2 ⟨ds₂, ls₂, hds₂, hls₂, rfl⟩⟩

/-- Outlines are put together as bodies are. One fails with the first malformed declaration of both
bodies, or else with the first class of both bodies whose arguments are malformed. -/
theorem outline_append (hb : body m.root = body m₁.root ++ body m₂.root) :
    ((∃ r, m.outline o = .ok r) ↔
      (∃ r₁, m₁.outline o = .ok r₁) ∧ ∃ r₂, m₂.outline o = .ok r₂) ∧
    (∀ r r₁ r₂, m.outline o = .ok r → m₁.outline o = .ok r₁ → m₂.outline o = .ok r₂ →
      r.definitions = r₁.definitions ++ r₂.definitions ∧ r.lines = r₁.lines ++ r₂.lines) ∧
    (∀ e, m.outline o = .error e ↔
      FirstFault (body m₁.root ++ body m₂.root) e ∨
      (∀ s ∈ body m₁.root ++ body m₂.root, WellDeclared s) ∧
        FirstClassFault o.table (body m₁.root ++ body m₂.root) e) := by
  refine ⟨⟨?_, ?_⟩, ?_, fun e => ?_⟩
  · rintro ⟨r, h⟩
    exact ok_of_ok_append hb h
  · rintro ⟨⟨r₁, h₁⟩, r₂, h₂⟩
    exact ⟨_, ok_append_of_ok hb h₁ h₂⟩
  -- the parts determine the whole, so it is enough to name one report for it
  · intro r r₁ r₂ h h₁ h₂
    obtain rfl : _ = r := Except.ok.inj ((ok_append_of_ok hb h₁ h₂).symm.trans h)
    exact ⟨rfl, rfl⟩
  · rw [← hb]
    exact report_eq_error

/-- The module whose body is `statements`. -/
def Module.ofBody (statements : List Json) : Module :=
  ⟨"module.json", "module", .object [("body", .array statements)]⟩

/-- A class with arguments that are no list, which alone is the fault. -/
def badClass : Json := langDeclaration "Class" "Card" .null

/-- A declaration of nothing. -/
def badDeclaration : Json := .object [("type", .string "VariableDeclaration")]

/-- The later statement is the one that is told. -/
theorem outline_badClass_badDeclaration :
    body (Module.ofBody ([badClass] ++ [badDeclaration])).root =
      body (Module.ofBody [badClass]).root ++ body (Module.ofBody [badDeclaration]).root ∧
    (Module.ofBody [badClass]).outline ⟨.standard, true⟩ =
      .error (.wrongType "arguments" "Lang.Class call" "an array") ∧
    (Module.ofBody ([badClass] ++ [badDeclaration])).outline ⟨.standard, true⟩ =
      .error (.missing "declarations" "VariableDeclaration") := by
  have hb : body (Module.ofBody ([badClass] ++ [badDeclaration])).root =
      body (Module.ofBody [badClass]).root ++ body (Module.ofBody [badDeclaration]).root := rfl
  have hclass : WellDeclared badClass := fun _ => ⟨_, "Card", _, _, rfl, rfl, rfl⟩
  refine ⟨hb, rfl, ((outline_append hb).2.2 _).2 (.inl ?_)⟩
  exact ⟨[badClass], badDeclaration, [], rfl, by simpa using hclass, rfl, .noDeclarations rfl⟩

end TreeOutline
