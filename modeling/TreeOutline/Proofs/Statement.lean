import TreeOutline.Outline.Basic
import TreeOutline.Proofs.Collect

/-!
What single statements contribute to a report. Once all definitions are collected, the lines of a
tree are those of its statements (`lines_of_ofStatements`), and only a class whose arguments are
malformed can fail. So a report fails on the first malformed declaration, or else on the first
malformed class (`report_eq_error`).
-/

namespace TreeOutline.Outline

open Definition Node Traversal
open Recognizer (Table)

/-- The parts of the class that a recognized call declares. -/
def callParts (site : CallSite) : Except ShapeError (List ClassBody.Part) := do
  let arguments ← callArguments site
  ClassBody.parts arguments

/-- The lines of a class called `name` with an initializer. -/
def initLines (name : String) : Init → Except ShapeError (List Line)
  | .classCall site => (callParts site).map fun parts => .header name :: ClassBody.lines parts
  | _ => .error (.wrongType "init" "VariableDeclarator" "a recognized class call")

/-- The statement declares the class `name` by the recognized call `site`. -/
def DeclaresClass (table : Table) (statement : Json) (name : String) (site : CallSite) : Prop :=
  IsDeclaration statement ∧ ∃ declarator call, Declares statement declarator name ∧
    declarator.get? "init" = some call ∧ init table call = .classCall site

/-- The lines of the definition that a statement makes, if any. -/
def statementLines (o : Options) (statement : Json) : Except ShapeError (List Line) := do
  match ← ofStatement? o.table statement with
  | some d => definitionLines o d
  | none => .ok []

/-- The declaration of `name` by a call of `Lang.member`. -/
def langDeclaration (member name : String) (arguments : Json) : Json :=
  .object [("type", .string "VariableDeclaration"), ("declarations", .array [.object
    [("id", .object [("name", .string name)]), ("init", .object
      [("callee", .object [("object", .object [("name", .string "Lang")]),
        ("property", .object [("name", .string member)])]), ("arguments", arguments)])]])]

/-! ## One definition -/

variable {o : Options} {table : Table} {s : Json} {d : Definition} {name : String}
  {site : CallSite} {e : ShapeError}

theorem makes_class_iff :
    Makes table s d ∧ d.kind = .classDeclaration ↔
      ∃ name site, DeclaresClass table s name site ∧ d = ⟨.classDeclaration, some name, s⟩ := by
  refine ⟨fun h => ?_, fun h => ?_⟩
  · obtain ⟨hm, hk⟩ := h
    cases hm with
    | expression he => cases hk
    | declaration h hd hkind =>
      cases hkind with
      | ofClass hcall hinit => exact ⟨_, _, ⟨h, _, _, hd, hcall, hinit⟩, rfl⟩
      | ofInterface => cases hk
      | ofOther => cases hk
  · obtain ⟨name, site, ⟨h, declarator, call, hd, hcall, hinit⟩, rfl⟩ := h
    exact ⟨.declaration h hd (.ofClass hcall hinit), rfl⟩

theorem DeclaresClass.makes (hc : DeclaresClass table s name site) :
    Makes table s ⟨.classDeclaration, some name, s⟩ :=
  (makes_class_iff.2 ⟨name, site, hc, rfl⟩).1

theorem initLines_eq (name : String) (i : Init) :
    initLines name i =
      match i with
      | .classCall site => do
        let arguments ← callArguments site
        let parts ← ClassBody.parts arguments
        .ok (.header name :: ClassBody.lines parts)
      | _ => .error (.wrongType "init" "VariableDeclarator" "a recognized class call") := by
  cases i with
  | classCall site =>
    simp only [initLines, callParts, bind, Except.bind]
    cases callArguments site with
    | error e => rfl
    | ok arguments => cases ClassBody.parts arguments <;> rfl
  | _ => rfl

theorem classLines_eq (table : Table) (d : Definition) :
    classLines table d =
      (firstDeclarator d.node >>= fun declarator =>
        (match d.name with
          | some name => .ok name
          | none => declaratorName declarator) >>= fun name =>
        initLines name (declaratorInit table declarator)) := by
  simp only [initLines_eq]
  unfold classLines
  cases d.name <;> rfl

/-- Under the table that classified it, a class never lacks its recognized call. -/
theorem definitionLines_class (hc : DeclaresClass o.table s name site) :
    definitionLines o ⟨.classDeclaration, some name, s⟩ =
      (callParts site).map fun parts => .header name :: ClassBody.lines parts := by
  obtain ⟨-, declarator, call, hd, hcall, hinit⟩ := hc
  have hsite : declaratorInit o.table declarator = .classCall site := by
    simp [declaratorInit, hcall, hinit]
  change classLines o.table ⟨.classDeclaration, some name, s⟩ = _
  rw [classLines_eq, (declares_iff.1 hd).1]
  change initLines name (declaratorInit o.table declarator) = _
  rw [hsite, initLines]

theorem definitionLines_of_kind_ne (hk : d.kind ≠ .classDeclaration) :
    ∃ ls, definitionLines o d = .ok ls := by
  unfold definitionLines
  split
  · contradiction
  all_goals exact ⟨_, rfl⟩

/-! ## One statement -/

theorem statementLines_class (hc : DeclaresClass o.table s name site) :
    statementLines o s = (callParts site).map fun parts => .header name :: ClassBody.lines parts := by
  unfold statementLines
  rw [ofStatement?_eq_some.2 hc.makes]
  exact definitionLines_class hc

theorem statementLines_eq_error :
    statementLines o s = .error e ↔
      (IsDeclaration s ∧ DeclarationFault s e) ∨
      ∃ name site, DeclaresClass o.table s name site ∧ callParts site = .error e := by
  refine ⟨fun h => ?_, fun h => ?_⟩
  · rcases bind_eq_error.1 h with h | ⟨d, hd, h⟩
    · exact .inl (ofStatement?_eq_error.1 h)
    · cases d with
      | none => cases h
      | some d =>
        change definitionLines o d = .error e at h
        by_cases hk : d.kind = .classDeclaration
        · obtain ⟨name, site, hc, rfl⟩ := makes_class_iff.1 ⟨ofStatement?_eq_some.1 hd, hk⟩
          rw [definitionLines_class hc] at h
          exact .inr ⟨name, site, hc, map_eq_error.1 h⟩
        · obtain ⟨ls, hls⟩ := definitionLines_of_kind_ne (o := o) hk
          cases hls.symm.trans h
  · rcases h with h | ⟨name, site, hc, h⟩
    · exact bind_eq_error.2 (.inl (ofStatement?_eq_error.2 h))
    · rw [statementLines_class hc]
      exact map_eq_error.2 h

theorem exists_statementLines_eq_ok :
    (∃ ls, statementLines o s = .ok ls) ↔
      WellDeclared s ∧ ∀ name site, DeclaresClass o.table s name site →
        ∃ parts, callParts site = .ok parts := by
  refine ⟨fun h => ?_, fun h => ?_⟩
  · obtain ⟨ls, h⟩ := h
    obtain ⟨d, hd, -⟩ := bind_eq_ok.1 h
    refine ⟨(exists_ofStatement?_eq_ok o.table).1 ⟨d, hd⟩, fun name site hc => ?_⟩
    rw [statementLines_class hc] at h
    obtain ⟨parts, hparts, -⟩ := map_eq_ok.1 h
    exact ⟨parts, hparts⟩
  · obtain ⟨hs, hparts⟩ := h
    cases h : statementLines o s with
    | ok ls => exact ⟨ls, rfl⟩
    | error e =>
      rcases statementLines_eq_error.1 h with ⟨hdecl, hfault⟩ | ⟨name, site, hc, he⟩
      · exact absurd hfault (hs.not_declarationFault hdecl)
      · obtain ⟨parts, hok⟩ := hparts name site hc
        cases he.symm.trans hok

/-! ## All statements -/

theorem lines_eq_mapM (o : Options) (ds : List Definition) :
    lines o ds = (ds.mapM (definitionLines o)).map List.flatten := by
  induction ds with
  | nil => rfl
  | cons d ds ih =>
    rw [lines, List.mapM_cons, ih]
    cases definitionLines o d with
    | error e => rfl
    | ok first => cases ds.mapM (definitionLines o) <;> rfl

/-- Where definitions have no lines, a class is at fault. -/
theorem exists_class_of_lines_eq_error {ds : List Definition} (h : lines o ds = .error e) :
    ∃ d ∈ ds, d.kind = .classDeclaration ∧ classLines o.table d = .error e := by
  rw [lines_eq_mapM, map_eq_error, mapM_eq_error] at h
  obtain ⟨before, d, after, rfl, -, hd⟩ := h
  by_cases hk : d.kind = .classDeclaration
  · rw [definitionLines, hk] at hd
    exact ⟨d, by simp, hk, hd⟩
  · obtain ⟨ls, hls⟩ := definitionLines_of_kind_ne (o := o) hk
    cases hls.symm.trans hd

theorem lines_append (o : Options) (ds₁ ds₂ : List Definition) :
    lines o (ds₁ ++ ds₂) = (lines o ds₁ >>= fun a => (lines o ds₂).map fun b => a ++ b) := by
  simp only [lines_eq_mapM]
  exact map_mapM_append (fun _ _ => List.flatten_append) ds₁ ds₂

/-- The lines of collected definitions are those of the statements that they come from. -/
theorem lines_of_ofStatements {statements : List Json} {ds : List Definition}
    (h : ofStatements o.table statements = .ok ds) :
    lines o ds = (statements.mapM (statementLines o)).map List.flatten := by
  induction statements generalizing ds with
  | nil =>
    cases h
    rfl
  | cons s rest ih =>
    obtain ⟨d, hd, h⟩ := bind_eq_ok.1 h
    obtain ⟨others, hothers, h⟩ := bind_eq_ok.1 h
    cases h
    have ih := ih hothers
    rw [List.mapM_cons, statementLines, hd]
    cases d with
    | none =>
      simp only [Option.toList_none, List.nil_append, ih]
      cases rest.mapM (statementLines o) <;> rfl
    | some d =>
      simp only [Option.toList_some, List.singleton_append, lines, ih]
      change (definitionLines o d >>= _) = Except.map _ (definitionLines o d >>= _)
      cases definitionLines o d with
      | error e => rfl
      | ok first => cases rest.mapM (statementLines o) <;> rfl

/-- The first class whose arguments are malformed has the error `e`. -/
def FirstClassFault (table : Table) (statements : List Json) (e : ShapeError) : Prop :=
  ∃ before s after name site, statements = before ++ s :: after ∧
    (∀ x ∈ before, ∀ name site, DeclaresClass table x name site →
      ∃ parts, callParts site = .ok parts) ∧
    DeclaresClass table s name site ∧ callParts site = .error e

theorem firstError_statementLines {statements : List Json}
    (hw : ∀ s ∈ statements, WellDeclared s) :
    FirstError (statementLines o) statements e ↔ FirstClassFault o.table statements e := by
  refine ⟨fun h => ?_, fun h => ?_⟩
  · obtain ⟨before, s, after, rfl, hbefore, hs⟩ := h
    rcases statementLines_eq_error.1 hs with ⟨h, hf⟩ | ⟨name, site, hc, he⟩
    · exact absurd hf ((hw s (by simp)).not_declarationFault h)
    · exact ⟨before, s, after, name, site, rfl,
        fun x hx => (exists_statementLines_eq_ok.1 (hbefore x hx)).2, hc, he⟩
  · obtain ⟨before, s, after, name, site, rfl, hbefore, hc, he⟩ := h
    refine ⟨before, s, after, rfl, fun x hx => ?_,
      statementLines_eq_error.2 (.inr ⟨name, site, hc, he⟩)⟩
    exact exists_statementLines_eq_ok.2 ⟨hw x (by simp [hx]), hbefore x hx⟩

/-! ## Whole trees -/

variable {path moduleName : String} {root : Json}

theorem report_eq_ok {r : Report} :
    report o path moduleName root = .ok r ↔
      ∃ ds ls, collect o.table root = .ok ds ∧ lines o ds = .ok ls ∧
        r = ⟨path, moduleName, ds.map Definition.summary, ls⟩ := by
  refine ⟨fun h => ?_, fun h => ?_⟩
  · obtain ⟨ds, hds, h⟩ := bind_eq_ok.1 h
    obtain ⟨ls, hls, h⟩ := bind_eq_ok.1 h
    cases h
    exact ⟨ds, ls, hds, hls, rfl⟩
  · obtain ⟨ds, ls, hds, hls, rfl⟩ := h
    exact bind_eq_ok.2 ⟨ds, hds, bind_eq_ok.2 ⟨ls, hls, rfl⟩⟩

/-- All declarations are looked at before any class is. -/
theorem report_eq_error :
    report o path moduleName root = .error e ↔
      FirstFault (body root) e ∨
      (∀ s ∈ body root, WellDeclared s) ∧ FirstClassFault o.table (body root) e := by
  unfold report
  rw [bind_eq_error, collect, ofStatements_eq_error]
  refine or_congr_right ⟨?_, ?_⟩
  · rintro ⟨ds, hds, h⟩
    have hw := (exists_ofStatements_eq_ok o.table).1 ⟨ds, hds⟩
    rcases bind_eq_error.1 h with h | ⟨ls, -, h⟩
    · rw [lines_of_ofStatements hds, map_eq_error, mapM_eq_error] at h
      exact ⟨hw, (firstError_statementLines hw).1 h⟩
    · cases h
  · rintro ⟨hw, hf⟩
    obtain ⟨ds, hds⟩ := (exists_ofStatements_eq_ok o.table).2 hw
    refine ⟨ds, hds, bind_eq_error.2 (.inl ?_)⟩
    rw [lines_of_ofStatements hds, map_eq_error, mapM_eq_error]
    exact (firstError_statementLines hw).2 hf

end TreeOutline.Outline
