import TreeOutline.Proofs.Field

/-!
Collecting definitions. The definitions of a tree stand in order for the statements of its body that
are variable declarations or expression statements (`ofStatements_eq_ok`); collecting fails only on a
declaration that declares nothing, on the first one (`ofStatements_eq_error`). The table of rules
decides about kinds alone.
-/

namespace TreeOutline.Definition

open Node Traversal
open Recognizer (Table)

def IsDeclaration (statement : Json) : Prop := type? statement = some "VariableDeclaration"

def IsExpression (statement : Json) : Prop := type? statement = some "ExpressionStatement"

instance : DecidablePred IsDeclaration := fun _ => inferInstanceAs (Decidable (_ = _))

instance : DecidablePred IsExpression := fun _ => inferInstanceAs (Decidable (_ = _))

theorem not_isExpression {s : Json} (h : IsDeclaration s) : ¬ IsExpression s := by
  intro he
  exact absurd (h.symm.trans he) (by decide)

/-- A statement that is no declaration, or declares a name. -/
def WellDeclared (statement : Json) : Prop :=
  IsDeclaration statement → ∃ declarator name, Declares statement declarator name

/-- The kind that the initializer of a declarator gives. -/
inductive InitKind (table : Table) (declarator : Json) : DefinitionKind → Prop
  | ofClass {call : Json} {site : CallSite} (h : declarator.get? "init" = some call)
    (hsite : init table call = .classCall site) : InitKind table declarator .classDeclaration
  | ofInterface {call : Json} {site : CallSite} (h : declarator.get? "init" = some call)
    (hsite : init table call = .interfaceCall site) :
    InitKind table declarator .interfaceDeclaration
  | ofOther (h : ∀ call, declarator.get? "init" = some call → init table call = .other) :
    InitKind table declarator .constantDeclaration

/-- The statement makes the definition. -/
inductive Makes (table : Table) (statement : Json) : Definition → Prop
  | declaration {declarator : Json} {name : String} {kind : DefinitionKind}
    (h : IsDeclaration statement) (hd : Declares statement declarator name)
    (hk : InitKind table declarator kind) : Makes table statement ⟨kind, some name, statement⟩
  | expression (h : IsExpression statement) :
    Makes table statement ⟨.expressionStatement, none, statement⟩

/-! ## One statement -/

theorem initKind_iff {table : Table} {declarator : Json} {kind : DefinitionKind} :
    InitKind table declarator kind ↔ kind = kindOf table declarator := by
  unfold kindOf declaratorInit
  refine ⟨fun h => ?_, fun h => ?_⟩
  · rcases h with ⟨h, hsite⟩ | ⟨h, hsite⟩ | h
    · simp [h, hsite]
    · simp [h, hsite]
    · cases hc : declarator.get? "init" with
      | none => rfl
      | some call => simp [h call hc]
  · subst h
    cases hc : declarator.get? "init" with
    | none => exact .ofOther (by simp [hc])
    | some call =>
      cases hi : init table call with
      | classCall site => simpa [hi] using InitKind.ofClass hc hi
      | interfaceCall site => simpa [hi] using InitKind.ofInterface hc hi
      | other =>
        simp only [hi]
        refine .ofOther fun call' h => ?_
        rw [hc] at h
        cases h
        exact hi

theorem ofDeclaration_eq_ok {table : Table} {s : Json} {d : Definition} :
    ofDeclaration table s = .ok d ↔
      ∃ declarator name, Declares s declarator name ∧ d = ⟨kindOf table declarator, some name, s⟩ := by
  unfold ofDeclaration
  simp only [bind_eq_ok, declares_iff]
  refine ⟨fun h => ?_, fun h => ?_⟩
  · obtain ⟨declarator, hd, name, hn, h⟩ := h
    cases h
    exact ⟨declarator, name, ⟨hd, hn⟩, rfl⟩
  · obtain ⟨declarator, name, ⟨hd, hn⟩, rfl⟩ := h
    exact ⟨declarator, hd, name, hn, rfl⟩

theorem ofDeclaration_eq_error {table : Table} {s : Json} {e : ShapeError} :
    ofDeclaration table s = .error e ↔ DeclarationFault s e := by
  unfold ofDeclaration
  rw [declarationFault_iff]
  simp [bind_eq_error]

theorem ofStatement?_eq_some {table : Table} {s : Json} {d : Definition} :
    ofStatement? table s = .ok (some d) ↔ Makes table s d := by
  unfold ofStatement?
  split
  · next h =>
    simp only [map_eq_ok, Option.some.injEq, exists_eq_right, ofDeclaration_eq_ok]
    refine ⟨fun h => ?_, fun h => ?_⟩
    · obtain ⟨declarator, name, hd, rfl⟩ := h
      exact .declaration h hd (initKind_iff.2 rfl)
    · rcases h with ⟨-, hd, hk⟩ | he
      · exact ⟨_, _, hd, by rw [initKind_iff.1 hk]⟩
      · simp [IsExpression, h] at he
  · split
    · next h he =>
      refine ⟨fun hd => ?_, fun h => ?_⟩
      · cases hd
        exact .expression he
      · rcases h with ⟨hd, -, -⟩ | -
        · exact absurd hd h
        · rfl
    · next h he =>
      refine ⟨?_, fun h => ?_⟩
      · simp
      · rcases h with ⟨hd, -, -⟩ | he'
        · exact absurd hd h
        · exact absurd he' he

theorem ofStatement?_eq_none {table : Table} {s : Json} :
    ofStatement? table s = .ok none ↔ ¬ (IsDeclaration s ∨ IsExpression s) := by
  unfold ofStatement? IsDeclaration IsExpression
  split
  · next h => simp [map_eq_ok, h]
  · split
    · next h => simp [h]
    · next h he => simp [h, he]

theorem ofStatement?_eq_error {table : Table} {s : Json} {e : ShapeError} :
    ofStatement? table s = .error e ↔ IsDeclaration s ∧ DeclarationFault s e := by
  unfold ofStatement?
  split
  · next h => simp only [map_eq_error, ofDeclaration_eq_error, IsDeclaration, h, true_and]
  · next h => split <;> simp [IsDeclaration, h]

theorem exists_ofStatement?_eq_ok (table : Table) {s : Json} :
    (∃ d, ofStatement? table s = .ok d) ↔ WellDeclared s := by
  refine ⟨?_, fun h => ?_⟩
  · rintro ⟨d, hd⟩ h
    cases d with
    | none => exact absurd (.inl h) (ofStatement?_eq_none.1 hd)
    | some d =>
      cases ofStatement?_eq_some.1 hd with
      | declaration _ hdecl _ => exact ⟨_, _, hdecl⟩
      | expression he => exact absurd he (not_isExpression h)
  · by_cases hs : IsDeclaration s ∨ IsExpression s
    · rcases hs with hs | hs
      · obtain ⟨declarator, name, hd⟩ := h hs
        exact ⟨_, ofStatement?_eq_some.2 (.declaration hs hd (initKind_iff.2 rfl))⟩
      · exact ⟨_, ofStatement?_eq_some.2 (.expression hs)⟩
    · exact ⟨none, ofStatement?_eq_none.2 hs⟩

theorem WellDeclared.not_declarationFault {s : Json} {e : ShapeError} (hw : WellDeclared s)
    (h : IsDeclaration s) : ¬ DeclarationFault s e := by
  intro hf
  obtain ⟨d, hd⟩ := (exists_ofStatement?_eq_ok .empty).2 hw
  cases (ofStatement?_eq_error.2 ⟨h, hf⟩).symm.trans hd

/-! ## All statements -/

theorem ofStatements_eq_mapM (table : Table) (statements : List Json) :
    ofStatements table statements =
      (statements.mapM (ofStatement? table)).map fun ds => ds.flatMap Option.toList := by
  induction statements with
  | nil => rfl
  | cons s rest ih =>
    rw [ofStatements, List.mapM_cons, ih]
    cases ofStatement? table s with
    | error e => rfl
    | ok d => cases rest.mapM (ofStatement? table) <;> rfl

theorem ofStatements_append (table : Table) (xs ys : List Json) :
    ofStatements table (xs ++ ys) =
      (ofStatements table xs >>= fun a => (ofStatements table ys).map fun b => a ++ b) := by
  simp only [ofStatements_eq_mapM]
  exact map_mapM_append (fun _ _ => List.flatMap_append) xs ys

theorem ofStatements_eq_ok {table : Table} {statements : List Json} {ds : List Definition} :
    ofStatements table statements = .ok ds ↔
      List.Forall₂ (Makes table)
        (statements.filter fun s => IsDeclaration s ∨ IsExpression s) ds := by
  induction statements generalizing ds with
  | nil => simp [ofStatements, eq_comm]
  | cons s rest ih =>
    simp only [ofStatements, bind_eq_ok, ih]
    by_cases hs : IsDeclaration s ∨ IsExpression s
    · rw [List.filter_cons_of_pos (by simpa using hs), List.forall₂_cons_left_iff]
      refine ⟨fun h => ?_, fun h => ?_⟩
      · obtain ⟨d, hd, others, hothers, h⟩ := h
        cases h
        cases d with
        | none => exact absurd hs (ofStatement?_eq_none.1 hd)
        | some d => exact ⟨d, others, ofStatement?_eq_some.1 hd, hothers, rfl⟩
      · obtain ⟨d, others, hd, hothers, rfl⟩ := h
        exact ⟨some d, ofStatement?_eq_some.2 hd, others, hothers, rfl⟩
    · rw [List.filter_cons_of_neg (by simpa using hs)]
      simp only [ofStatement?_eq_none.2 hs]
      refine ⟨fun h => ?_, fun h => ?_⟩
      · obtain ⟨d, hd, others, hothers, h⟩ := h
        cases hd
        cases h
        exact hothers
      · exact ⟨none, rfl, ds, h, rfl⟩

/-- The first statement that is a declaration but declares nothing has the fault `e`. -/
def FirstFault (statements : List Json) (e : ShapeError) : Prop :=
  ∃ before s after, statements = before ++ s :: after ∧ (∀ x ∈ before, WellDeclared x) ∧
    IsDeclaration s ∧ DeclarationFault s e

theorem ofStatements_eq_error {table : Table} {statements : List Json} {e : ShapeError} :
    ofStatements table statements = .error e ↔ FirstFault statements e := by
  rw [ofStatements_eq_mapM, map_eq_error, mapM_eq_error]
  simp only [FirstError, FirstFault, exists_ofStatement?_eq_ok, ofStatement?_eq_error]

theorem exists_ofStatements_eq_ok (table : Table) {statements : List Json} :
    (∃ ds, ofStatements table statements = .ok ds) ↔ ∀ s ∈ statements, WellDeclared s := by
  rw [ofStatements_eq_mapM, exists_map_eq_ok, exists_mapM_eq_ok]
  simp only [exists_ofStatement?_eq_ok]

/-- Collecting gives one definition for each declaration and each expression statement of the body, in
order, unless a declaration is malformed; then the first such one tells the error, under any table. -/
theorem collect_corresponds (table : Table) (root : Json) :
    ((∀ items, root.get? "body" ≠ some (.array items)) → collect table root = .ok []) ∧
    ∀ items, root.get? "body" = some (.array items) →
      ((∃ ds, collect table root = .ok ds) ↔
        ∀ s ∈ items, IsDeclaration s → ∃ declarator name, Declares s declarator name) ∧
      (∀ ds, collect table root = .ok ds ↔
        List.Forall₂ (Makes table) (items.filter fun s => IsDeclaration s ∨ IsExpression s) ds) ∧
      (∀ e, collect table root = .error e ↔ FirstFault items e) ∧
      ∀ e other, collect table root = .error e ↔ collect other root = .error e := by
  refine ⟨fun h => ?_, fun items h => ?_⟩
  · rw [collect, body_of_not_array h]
    rfl
  · have hcollect (table : Table) : collect table root = ofStatements table items := by
      rw [collect, body_of_array h]
    simp only [hcollect]
    refine ⟨exists_ofStatements_eq_ok table, fun ds => ofStatements_eq_ok,
      fun e => ofStatements_eq_error, fun e other => ?_⟩
    exact ofStatements_eq_error.trans ofStatements_eq_error.symm

/-- A declaration of one name with an initializer, and of another one that has no name. -/
def pairDeclaration (initializer : Json) : Json :=
  .object [("type", .string "VariableDeclaration"), ("declarations", .array
    [.object [("id", .object [("name", .string "Card")]), ("init", initializer)], .object []])]

def classCall : Json :=
  .object [("callee", .object [("object", .object [("name", .string "Lang")]),
    ("property", .object [("name", .string "Class")])])]

def expressionStatement : Json :=
  .object [("type", .string "ExpressionStatement")]

def mixedBody : List Json :=
  [expressionStatement, .object [], pairDeclaration classCall]

def faultyBody : List Json :=
  [expressionStatement, .object [("type", .string "VariableDeclaration")], pairDeclaration .null]

/-- A second declarator counts for nothing, nor does a statement without a type. A declaration that
declares nothing is at fault, and a root that is a list has no statements. -/
theorem collect_mixedBody :
    collect .standard (.object [("body", .array mixedBody)]) =
      .ok [⟨.expressionStatement, none, expressionStatement⟩,
        ⟨.classDeclaration, some "Card", pairDeclaration classCall⟩] ∧
    collect .empty (.object [("body", .array faultyBody)]) =
      .error (.missing "declarations" "VariableDeclaration") ∧
    collect .standard (.array mixedBody) = .ok [] := by
  have hexpression : Makes .standard expressionStatement
      ⟨.expressionStatement, none, expressionStatement⟩ :=
    .expression rfl
  have hclass : Makes .standard (pairDeclaration classCall)
      ⟨.classDeclaration, some "Card", pairDeclaration classCall⟩ :=
    .declaration rfl ⟨_, _, rfl, rfl, rfl⟩ (.ofClass rfl rfl)
  refine ⟨?_, ?_, ?_⟩
  · obtain ⟨-, hok, -⟩ := (collect_corresponds .standard (.object [("body", .array mixedBody)])).2
      mixedBody rfl
    exact (hok _).2 (.cons hexpression (.cons hclass .nil))
  · obtain ⟨-, -, herror, -⟩ := (collect_corresponds .empty (.object [("body", .array faultyBody)])).2
      faultyBody rfl
    refine (herror _).2 ⟨[expressionStatement], _, [pairDeclaration .null], rfl, ?_, rfl, ?_⟩
    · rw [List.forall_mem_singleton]
      exact fun h => absurd h (by decide)
    · exact .noDeclarations rfl
  · apply (collect_corresponds .standard (.array mixedBody)).1
    rintro items ⟨⟩

end TreeOutline.Definition
