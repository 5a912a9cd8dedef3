import Mathlib.Algebra.BigOperators.Group.List.Basic
import Mathlib.Algebra.Ring.Nat
import TreeOutline.Proofs.Append
import TreeOutline.Proofs.Blocks

/-!
What the counts of a scan tell. Each is a sum over the modules, so it does not depend on their order.
Definitions and lines are counted apart, but in an outline a header stands for each class and, if
interfaces are reported, an unsupported line for each of them: one count tells of the other.
-/

namespace TreeOutline

open Definition Outline Traversal

/-! ## Sums over modules -/

theorem Stats.ofReports_eq (rs : List Report) :
    Stats.ofReports rs =
      { modules := rs.length
        definitions := (rs.map fun r => r.definitions.length).sum
        classes := (rs.map (Report.count .classDeclaration)).sum
        interfaces := (rs.map (Report.count .interfaceDeclaration)).sum
        constantDeclarations := (rs.map (Report.count .constantDeclaration)).sum
        expressions := (rs.map (Report.count .expressionStatement)).sum
        properties := (rs.map fun r => r.lines.countP Line.isProperty).sum
        constants := (rs.map fun r => r.lines.countP Line.isConstant).sum
        methods := (rs.map fun r => r.lines.countP Line.isMethod).sum
        unsupported := (rs.map fun r => r.lines.countP Line.isUnsupported).sum } := by
  induction rs with
  | nil => rfl
  | cons r rs ih =>
    rw [ofReports, ih]
    change add _ _ = _
    simp [add, ofReport, Nat.add_comm]

theorem Stats.ofReports_append (rs rs' : List Report) :
    Stats.ofReports (rs ++ rs') = Stats.ofReports rs + Stats.ofReports rs' := by
  change _ = add _ _
  simp [add, ofReports_eq]

theorem Stats.ofReports_perm {rs rs' : List Report} (h : rs.Perm rs') :
    Stats.ofReports rs = Stats.ofReports rs' := by
  have hsum (f : Report → Nat) : (rs.map f).sum = (rs'.map f).sum := (h.map f).sum_eq
  simp only [ofReports_eq, hsum, h.length_eq]

/-! ## Lines of each kind -/

def Line.isHeader : Line → Bool
  | .header _ => true
  | _ => false

def Line.isMetadata : Line → Bool
  | .metadata _ _ => true
  | _ => false

theorem length_eq_sum_countP (ls : List Line) :
    ls.length = ls.countP Line.isHeader + ls.countP Line.isUnsupported
      + ls.countP Line.isProperty + ls.countP Line.isConstant + ls.countP Line.isMethod
      + ls.countP Line.isMetadata := by
  induction ls with
  | nil => rfl
  | cons l ls ih =>
    cases l <;> simp only [List.length_cons, List.countP_cons, ih, Line.isHeader, Line.isMetadata,
      Line.isProperty, Line.isConstant, Line.isMethod, Line.isUnsupported] <;> simp <;> omega

/-- A line below the header of a class is neither a header nor the line of another definition. -/
theorem Line.OfMember.not_isHeader {l : Line} (h : l.OfMember) :
    ¬ l.isHeader = true ∧ ¬ l.isUnsupported = true := by
  cases l with
  | header => exact absurd h id
  | unsupported => exact absurd h id
  | _ => simp [Line.isHeader, Line.isUnsupported]

theorem Block.countP_eq {d : Summary} {ls : List Line} (h : Block d ls) :
    ls.countP Line.isHeader = (if d.kind = .classDeclaration then 1 else 0) ∧
      ls.countP Line.isUnsupported = if d.kind = .interfaceDeclaration then 1 else 0 := by
  cases h with
  | ofInterface => exact ⟨rfl, rfl⟩
  | @ofClass name members hline _ =>
    have hheader : members.countP Line.isHeader = 0 :=
      List.countP_eq_zero.2 fun l hl => (hline l hl).not_isHeader.1
    have hunsupported : members.countP Line.isUnsupported = 0 :=
      List.countP_eq_zero.2 fun l hl => (hline l hl).not_isHeader.2
    simp [List.countP_cons, hheader, hunsupported, Line.isHeader, Line.isUnsupported]

theorem countP_flatten_of_blocks {ds : List Summary} {blocks : List (List Line)}
    (h : List.Forall₂ Block ds blocks) :
    blocks.flatten.countP Line.isHeader = ds.countP (fun d => d.kind = .classDeclaration) ∧
      blocks.flatten.countP Line.isUnsupported =
        ds.countP fun d => d.kind = .interfaceDeclaration := by
  induction h with
  | nil => exact ⟨rfl, rfl⟩
  | cons hb _ ih =>
    obtain ⟨hheader, hunsupported⟩ := hb.countP_eq
    rw [List.flatten_cons]
    simp only [List.countP_append, List.countP_cons, ih.1, ih.2, hheader, hunsupported,
      decide_eq_true_eq]
    omega

/-! ## One module -/

theorem length_eq_sum_count {ds : List Summary} (h : ∀ d ∈ ds, d.kind ≠ .functionDeclaration) :
    ds.length = ds.countP (fun d => d.kind = .classDeclaration)
      + ds.countP (fun d => d.kind = .interfaceDeclaration)
      + ds.countP (fun d => d.kind = .constantDeclaration)
      + ds.countP fun d => d.kind = .expressionStatement := by
  induction ds with
  | nil => rfl
  | cons d ds ih =>
    have hd := h d (by simp)
    have ih := ih fun x hx => h x (by simp [hx])
    simp only [List.length_cons, List.countP_cons, ih]
    cases hk : d.kind <;> simp_all <;> omega

/-- The counts of one module are bound to each other as its definitions and lines are. -/
structure Report.Balanced (o : Options) (r : Report) : Prop where
  definitions : r.definitions.length = r.count .classDeclaration + r.count .interfaceDeclaration
    + r.count .constantDeclaration + r.count .expressionStatement
  unsupported : r.lines.countP Line.isUnsupported =
    if o.reportUnsupported then r.count .interfaceDeclaration else 0
  headers : r.lines.countP Line.isHeader = r.count .classDeclaration

/-- Of the classes the filter keeps all, of the interfaces all or none. -/
theorem countP_filter_hasBlock (o : Options) (ds : List Summary) :
    (ds.filter (Summary.hasBlock o)).countP (fun d => d.kind = .classDeclaration) =
        ds.countP (fun d => d.kind = .classDeclaration) ∧
      (ds.filter (Summary.hasBlock o)).countP (fun d => d.kind = .interfaceDeclaration) =
        if o.reportUnsupported then ds.countP fun d => d.kind = .interfaceDeclaration else 0 := by
  constructor
  · rw [List.countP_filter]
    apply List.countP_congr
    intro d _
    simp +contextual [Summary.hasBlock]
  · rw [List.countP_filter]
    split
    · next ho =>
      apply List.countP_congr
      intro d _
      simp +contextual [Summary.hasBlock, ho]
    · next ho =>
      apply List.countP_eq_zero.2
      intro d _
      simp +contextual [Summary.hasBlock, ho]

theorem balanced_of_outline {m : Module} {o : Options} {r : Report} (h : m.outline o = .ok r) :
    r.Balanced o := by
  obtain ⟨ds, ls, hds, hls, rfl⟩ := outline_eq_ok.1 h
  have hm := ofStatements_eq_ok.1 hds
  obtain ⟨blocks, hblocks, rfl⟩ := blocks_of_lines hm hls
  obtain ⟨hheader, hunsupported⟩ := countP_flatten_of_blocks hblocks
  obtain ⟨hclasses, hinterfaces⟩ := countP_filter_hasBlock o (ds.map Definition.summary)
  refine ⟨?_, hunsupported.trans hinterfaces, hheader.trans hclasses⟩
  apply length_eq_sum_count
  intro d hd
  obtain ⟨made, hmade, rfl⟩ := List.mem_map.1 hd
  obtain ⟨s, -, hs⟩ := exists_of_mem_right hm hmade
  exact kind_ne_function_of_makes hs

/-! ## All modules -/

/-- The number of all lines that tell something of a class. -/
def metadataLines (rs : List Report) : Nat :=
  (rs.map fun r => r.lines.countP Line.isMetadata).sum

/-- The counts of modules add up, and those of outlined modules account for every definition and
every line. -/
theorem ofReports_accounts :
    (∀ rs rs', Stats.ofReports (rs ++ rs') = Stats.ofReports rs + Stats.ofReports rs') ∧
    (∀ rs rs' : List Report, rs.Perm rs' → Stats.ofReports rs = Stats.ofReports rs') ∧
    ∀ (o : Options) (rs : List Report), (∀ r ∈ rs, ∃ m : Module, m.outline o = .ok r) →
      let stats := Stats.ofReports rs
      stats.definitions = stats.classes + stats.interfaces + stats.constantDeclarations
        + stats.expressions ∧
      stats.unsupported = (if o.reportUnsupported then stats.interfaces else 0) ∧
      stats.classes + stats.unsupported + stats.properties + stats.constants + stats.methods
        + metadataLines rs = (rs.map fun r => r.lines.length).sum := by
  refine ⟨Stats.ofReports_append, fun _ _ => Stats.ofReports_perm, fun o rs h => ?_⟩
  have hrs : ∀ r ∈ rs, r.Balanced o := by
    intro r hr
    obtain ⟨m, hm⟩ := h r hr
    exact balanced_of_outline hm
  simp only [Stats.ofReports_eq, metadataLines, ← List.sum_map_add]
  refine ⟨?_, ?_, ?_⟩
  · exact congrArg List.sum (List.map_congr_left fun r hr => (hrs r hr).definitions)
  · split
    · next ho =>
      refine congrArg List.sum (List.map_congr_left fun r hr => ?_)
      rw [(hrs r hr).unsupported, if_pos ho]
    · next ho =>
      apply List.sum_eq_zero
      intro n hn
      obtain ⟨r, hr, rfl⟩ := List.mem_map.1 hn
      rw [(hrs r hr).unsupported, if_neg ho]
  · refine congrArg List.sum (List.map_congr_left fun r hr => ?_)
    rw [length_eq_sum_countP r.lines, (hrs r hr).headers]

/-- The report of a module with nothing in it. -/
def blankReport : Report := ⟨"module.json", "module", [], []⟩

def cardStats : Stats :=
  .ofReports [cardReport, blankReport]

/-- Four definitions, one of them an interface, and seven lines, whichever module comes first. -/
theorem ofReports_cardReport :
    (∀ r ∈ [cardReport, blankReport], ∃ m : Module, m.outline ⟨.standard, true⟩ = .ok r) ∧
    [cardReport, blankReport].Perm [blankReport, cardReport] ∧
    cardStats = Stats.ofReports [blankReport, cardReport] ∧
    cardStats.definitions = cardStats.classes + cardStats.interfaces
      + cardStats.constantDeclarations + cardStats.expressions ∧
    cardStats.unsupported = cardStats.interfaces ∧
    cardStats.classes + cardStats.unsupported + cardStats.properties + cardStats.constants
      + cardStats.methods + metadataLines [cardReport, blankReport] = cardReport.lines.length ∧
    cardStats.definitions = 4 ∧ cardStats.interfaces = 1 ∧ cardReport.lines.length = 7 := by
  have h : ∀ r ∈ [cardReport, blankReport], ∃ m : Module, m.outline ⟨.standard, true⟩ = .ok r := by
    intro r hr
    rcases List.mem_pair.1 hr with rfl | rfl
    · exact ⟨cardModule, rfl⟩
    · exact ⟨Module.ofBody [], rfl⟩
  have hperm : [cardReport, blankReport].Perm [blankReport, cardReport] := List.Perm.swap ..
  obtain ⟨hdefinitions, hunsupported, hlines⟩ := ofReports_accounts.2.2 _ _ h
  exact ⟨h, hperm, ofReports_accounts.2.1 _ _ hperm, hdefinitions, hunsupported, hlines, rfl, rfl,
    rfl⟩

end TreeOutline
