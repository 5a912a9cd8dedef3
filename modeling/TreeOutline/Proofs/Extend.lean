import TreeOutline.Proofs.Append

/-!
Tables with more rules. Since the first rule that fits a call decides, rules at the end of a table
only speak for calls that no rule fits yet. So a longer table finds every class and interface that
the shorter one finds, and may find more among the constants. Each class keeps its lines, and the
lines of a new one stand where a constant had none.
-/

namespace TreeOutline

open Traversal
open Recognizer (Kind Rule Table)

/-- The table with rules added one after another. -/
def Recognizer.Table.extend (table : Table) (rules : List Rule) : Table :=
  rules.foldl Table.add table

theorem Recognizer.Table.extend_eq (table : Table) (rules : List Rule) :
    table.extend rules = ⟨table.rules ++ rules⟩ := by
  unfold extend
  induction rules generalizing table with
  | nil => simp
  | cons rule rest ih => simp [ih, add]

theorem Recognizer.Table.lookup_extend {table : Table} {scope member : String} {kind : Kind}
    (rules : List Rule) (h : table.lookup scope member = some kind) :
    (table.extend rules).lookup scope member = some kind := by
  rw [extend_eq, lookup_append, h]
  rfl

/-! ## Kinds -/

/-- A kind under a table, and the kind that it may be under a longer one. -/
inductive DefinitionKind.Widens : DefinitionKind → DefinitionKind → Prop
  | same (kind : DefinitionKind) : Widens kind kind
  | toClass : Widens .constantDeclaration .classDeclaration
  | toInterface : Widens .constantDeclaration .interfaceDeclaration

/-- Two definitions of one statement, the second one under a longer table. -/
structure Definition.Widens (d d' : Definition) : Prop where
  kind : d.kind.Widens d'.kind
  name : d'.name = d.name
  node : d'.node = d.node

theorem Node.init_extend (table : Table) (rules : List Rule) (call : Json) :
    init table call = .other ∨ init (table.extend rules) call = init table call := by
  unfold init
  cases callee? call with
  | none => exact .inl rfl
  | some names =>
    cases h : table.lookup names.1 names.2 with
    | none => exact .inl (by simp [h])
    | some kind => exact .inr (by simp [h, Table.lookup_extend rules h])

namespace Definition

theorem kindOf_extend (table : Table) (rules : List Rule) (declarator : Json) :
    (kindOf table declarator).Widens (kindOf (table.extend rules) declarator) := by
  unfold kindOf Node.declaratorInit
  cases declarator.get? "init" with
  | none => exact .same _
  | some call =>
    rcases Node.init_extend table rules call with h | h
    · -- not recognized by the table, so the new rules decide
      simp only [h]
      cases Node.init (table.extend rules) call with
      | classCall site => exact .toClass
      | interfaceCall site => exact .toInterface
      | other => exact .same _
    · simp only [h]
      exact .same _

theorem ofDeclaration_extend (table : Table) (rules : List Rule) (s : Json) :
    Agree Widens (ofDeclaration table s) (ofDeclaration (table.extend rules) s) := by
  unfold ofDeclaration
  refine (Agree.of_eq (R := Eq) (fun _ => rfl) rfl).bind ?_
  rintro declarator _ rfl
  refine (Agree.of_eq (R := Eq) (fun _ => rfl) rfl).bind ?_
  rintro name _ rfl
  exact .ok ⟨kindOf_extend table rules declarator, rfl, rfl⟩

theorem ofStatement?_extend (table : Table) (rules : List Rule) (s : Json) :
    Agree (fun d d' => List.Forall₂ Widens d.toList d'.toList)
      (ofStatement? table s) (ofStatement? (table.extend rules) s) := by
  unfold ofStatement?
  split
  · exact (ofDeclaration_extend table rules s).map fun _ _ h => .cons h .nil
  · split
    · exact .ok (.cons ⟨.same _, rfl, rfl⟩ .nil)
    · exact .ok .nil

theorem ofStatements_extend (table : Table) (rules : List Rule) (statements : List Json) :
    Agree (List.Forall₂ Widens)
      (ofStatements table statements) (ofStatements (table.extend rules) statements) := by
  induction statements with
  | nil => exact .ok .nil
  | cons s rest ih =>
    rw [ofStatements, ofStatements]
    refine (ofStatement?_extend table rules s).bind fun d d' hd => ?_
    refine ih.bind fun ds ds' hds => ?_
    exact .ok (List.rel_append hd hds)

end Definition

/-! ## Lines -/

namespace Outline

open Definition

variable {table : Table} {o : Options} {s : Json}

theorem DeclaresClass.extend {name : String} {site : Node.CallSite} (rules : List Rule)
    (hc : DeclaresClass table s name site) : DeclaresClass (table.extend rules) s name site := by
  obtain ⟨hs, declarator, call, hd, hcall, hinit⟩ := hc
  refine ⟨hs, declarator, call, hd, hcall, ?_⟩
  rcases Node.init_extend table rules call with h | h
  · rw [h] at hinit
    cases hinit
  · rw [h, hinit]

theorem definitionLines_extend {d d' : Definition} {ls' : List Line} (rules : List Rule)
    (hm : Makes o.table s d) (hw : d.Widens d')
    (h : definitionLines { o with table := o.table.extend rules } d' = .ok ls') :
    ∃ ls, definitionLines o d = .ok ls ∧ ls.Sublist ls' := by
  obtain ⟨kind, name, node⟩ := d
  obtain ⟨kind', name', node'⟩ := d'
  obtain ⟨hkind, hname, hnode⟩ := hw
  dsimp only at hkind hname hnode
  subst hname hnode
  cases hkind with
  | toClass => exact ⟨[], rfl, List.nil_sublist _⟩
  | toInterface => exact ⟨[], rfl, List.nil_sublist _⟩
  | same =>
    refine ⟨ls', ?_, List.Sublist.refl _⟩
    rw [← h]
    by_cases hk : kind = .classDeclaration
    · obtain ⟨name, site, hc, hd⟩ := makes_class_iff.1 ⟨hm, hk⟩
      rw [hd, definitionLines_class hc,
        definitionLines_class (o := { o with table := o.table.extend rules }) (hc.extend rules)]
    · -- only the lines of classes depend on the table
      cases kind with
      | classDeclaration => contradiction
      | _ => rfl

theorem lines_extend {ds ds' : List Definition} {ls' : List Line} (rules : List Rule)
    (hm : ∀ d ∈ ds, ∃ s, Makes o.table s d) (hw : List.Forall₂ Definition.Widens ds ds')
    (h : lines { o with table := o.table.extend rules } ds' = .ok ls') :
    ∃ ls, lines o ds = .ok ls ∧ ls.Sublist ls' := by
  induction hw generalizing ls' with
  | nil =>
    cases h
    exact ⟨[], rfl, List.Sublist.refl _⟩
  | cons hd _ ih =>
    obtain ⟨first', hfirst', h⟩ := bind_eq_ok.1 h
    obtain ⟨others', hothers', h⟩ := bind_eq_ok.1 h
    cases h
    obtain ⟨s, hs⟩ := hm _ List.mem_cons_self
    obtain ⟨first, hfirst, hsub⟩ := definitionLines_extend rules hs hd hfirst'
    obtain ⟨others, hothers, hsubs⟩ := ih (fun d hd => hm d (List.mem_cons_of_mem _ hd)) hothers'
    refine ⟨first ++ others, ?_, hsub.append hsubs⟩
    exact bind_eq_ok.2 ⟨first, hfirst, bind_eq_ok.2 ⟨others, hothers, rfl⟩⟩

/-- More rules change no error of collecting and no definition but from a constant to a class or an
interface, and they only add lines. -/
theorem outline_extend (o : Options) (rules : List Rule) (m : Module) :
    Agree (List.Forall₂ Definition.Widens)
      (collect o.table m.root) (collect (o.table.extend rules) m.root) ∧
    ∀ r', m.outline { o with table := o.table.extend rules } = .ok r' →
      ∃ r, m.outline o = .ok r ∧ r.lines.Sublist r'.lines := by
  have hcollect := ofStatements_extend o.table rules (body m.root)
  refine ⟨hcollect, fun r' h => ?_⟩
  obtain ⟨ds', ls', hds', hls', rfl⟩ := outline_eq_ok.1 h
  dsimp only at hds'
  rw [hds'] at hcollect
  obtain ⟨ds, hds, hw⟩ := hcollect.exists_eq_ok
  have hm : ∀ d ∈ ds, ∃ s, Makes o.table s d := by
    intro d hd
    obtain ⟨s, -, hs⟩ := exists_of_mem_right (ofStatements_eq_ok.1 hds) hd
    exact ⟨s, hs⟩
  obtain ⟨ls, hls, hsub⟩ := lines_extend rules hm hw hls'
  exact ⟨_, outline_eq_ok.2 ⟨ds, ls, hds, hls, rfl⟩, hsub⟩

/-- A class, and a constant that a rule of its own makes a class. -/
def mixinModule : Module := Module.ofBody
  [langDeclaration "Class" "Card" (.array []), langDeclaration "Mixin" "Drag" (.array [])]

/-- The first rule comes too late for a call that the standard table knows. -/
def mixinRules : List Rule := [⟨"Lang", "Class", .interfaceCall⟩, ⟨"Lang", "Mixin", .classCall⟩]

theorem outline_mixinModule :
    mixinModule.outline ⟨Table.standard.extend mixinRules, true⟩ = .ok
      ⟨"module.json", "module", [⟨.classDeclaration, some "Card", false⟩,
        ⟨.classDeclaration, some "Drag", false⟩], [.header "Card", .header "Drag"]⟩ ∧
    ∃ r, mixinModule.outline ⟨.standard, true⟩ = .ok r ∧
      r.lines.Sublist [.header "Card", .header "Drag"] :=
  ⟨rfl, (outline_extend ⟨.standard, true⟩ mixinRules mixinModule).2 _ rfl⟩

end Outline

end TreeOutline
