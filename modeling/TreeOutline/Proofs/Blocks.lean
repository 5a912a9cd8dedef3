import TreeOutline.Proofs.ClassBody
import TreeOutline.Proofs.Statement
import TreeOutline.Scan.Basic

/-!
The form of a report. Its lines are blocks, one for each class and, if they are reported, one for
each interface, in the order of the definitions. A class block is a header above the lines of
members, none of which is a constant or a method that serves a property of the block.
-/

namespace TreeOutline

open Definition Outline Traversal

/-- A line that may stand below the header of a class. -/
def Line.OfMember : Line → Prop
  | .metadata key _ => key ∈ ["Name", "GTypeName", "Extends", "Implements"]
  | .property _ => True
  | .constant name => name ∉ ["Name", "GTypeName", "Extends", "Implements", "Properties"]
  | .method name => name ∉ ["Name", "GTypeName", "Extends", "Implements", "Properties"]
  | .header _ => False
  | .unsupported _ _ => False

/-- No constant and no method has the name of a property, as written or hyphenated. -/
def PropertiesHide (ls : List Line) : Prop :=
  ∀ name property, (Line.constant name ∈ ls ∨ Line.method name ∈ ls) → Line.property property ∈ ls →
    name ≠ property ∧ ClassBody.hyphenated name ≠ property

/-- The lines of a definition that has any. -/
inductive Block : Summary → List Line → Prop
  | ofClass {name : String} {members : List Line} (hline : ∀ l ∈ members, l.OfMember)
    (hname : PropertiesHide members) :
    Block ⟨.classDeclaration, some name, false⟩ (.header name :: members)
  | ofInterface {name : String} :
    Block ⟨.interfaceDeclaration, some name, false⟩ [.unsupported .interfaceDeclaration (some name)]

/-- Classes have lines, and interfaces do if they are reported. -/
def Summary.hasBlock (o : Options) (d : Summary) : Bool :=
  d.kind = .classDeclaration || (o.reportUnsupported && d.kind = .interfaceDeclaration)

/-- The lines of a report fit its definitions. -/
structure Report.WellFormed (o : Options) (r : Report) : Prop where
  blocks : ∃ blocks, List.Forall₂ Block (r.definitions.filter (Summary.hasBlock o)) blocks ∧
    r.lines = blocks.flatten
  definitions : ∀ d ∈ r.definitions, d.kind ≠ .functionDeclaration
  lines : ∀ kind name, Line.unsupported kind name ∈ r.lines → kind ≠ .functionDeclaration

/-! ## Class blocks -/

theorem ofMember_of_mem_lines {ps : List ClassBody.Part} (hps : ∀ p ∈ ps, p.KeyFits) {l : Line}
    (hl : l ∈ ClassBody.lines ps) : l.OfMember := by
  have hplain {name : String} (h : l = .constant name ∨ l = .method name) :
      name ∉ ["Name", "GTypeName", "Extends", "Implements", "Properties"] := by
    obtain ⟨⟨shape, hp⟩, -⟩ := ClassBody.plain_of_mem_lines hl h
    have hkey : name ∉ ClassBody.metadataKeys ∧ name ≠ ClassBody.propertiesKey := hps _ hp
    simpa [ClassBody.metadataKeys, ClassBody.propertiesKey, not_or, and_assoc] using hkey
  cases l with
  | header name => exact absurd (ClassBody.depth_pos_of_mem_lines hl) (Nat.lt_irrefl 0)
  | unsupported kind name => exact absurd (ClassBody.depth_pos_of_mem_lines hl) (Nat.lt_irrefl 0)
  | metadata key value => exact hps _ (ClassBody.metadata_mem_lines.1 hl)
  | property name => trivial
  | constant name => exact hplain (.inl rfl)
  | method name => exact hplain (.inr rfl)

theorem propertiesHide_lines (ps : List ClassBody.Part) : PropertiesHide (ClassBody.lines ps) := by
  intro name property hl hp
  have hp := ClassBody.property_mem_lines.1 hp
  obtain ⟨l, hl, hcases⟩ : ∃ l ∈ ClassBody.lines ps, l = .constant name ∨ l = .method name := by
    rcases hl with hl | hl
    · exact ⟨_, hl, .inl rfl⟩
    · exact ⟨_, hl, .inr rfl⟩
  obtain ⟨-, hname, hhyphen⟩ := ClassBody.plain_of_mem_lines hl hcases
  exact ⟨fun h => hname (h ▸ hp), fun h => hhyphen (h ▸ hp)⟩

/-! ## Blocks of definitions -/

variable {o : Options} {table : Recognizer.Table} {s : Json} {d : Definition}

theorem kind_ne_function_of_makes (hm : Makes table s d) : d.kind ≠ .functionDeclaration := by
  rintro hk
  cases hm with
  | expression => cases hk
  | declaration _ _ hkind => cases hkind <;> cases hk

theorem block_of_makes (hm : Makes o.table s d) {ls : List Line}
    (h : definitionLines o d = .ok ls) :
    if d.summary.hasBlock o then Block d.summary ls else ls = [] := by
  cases hm with
  | expression =>
    cases h
    simp [Summary.hasBlock, Definition.summary]
  | declaration hs hd hk =>
    cases hk with
    | ofClass hcall hinit =>
      -- the table that classified the statement also outlines it, so the call is found again
      have hc : DeclaresClass o.table s _ _ := ⟨hs, _, _, hd, hcall, hinit⟩
      rw [definitionLines_class hc] at h
      obtain ⟨ps, hps, rfl⟩ := map_eq_ok.1 h
      obtain ⟨arguments, -, hps⟩ := bind_eq_ok.1 hps
      have hfits := ClassBody.keyFits_parts hps
      exact .ofClass (fun l hl => ofMember_of_mem_lines hfits hl) (propertiesHide_lines ps)
    | ofInterface =>
      cases h
      -- an interface that is not reported keeps its definition but has no block
      cases ho : o.reportUnsupported with
      | true =>
        simp only [Summary.hasBlock, Definition.summary, ho, decide_true, Bool.and_self,
          Bool.or_true, if_true]
        exact .ofInterface
      | false => simp [Summary.hasBlock, Definition.summary, ho]
    | ofOther =>
      cases h
      simp [Summary.hasBlock, Definition.summary]

theorem blocks_of_lines {statements : List Json} {ds : List Definition} {ls : List Line}
    (hm : List.Forall₂ (Makes o.table) statements ds) (h : Outline.lines o ds = .ok ls) :
    ∃ blocks, List.Forall₂ Block ((ds.map Definition.summary).filter (Summary.hasBlock o)) blocks ∧
      ls = blocks.flatten := by
  induction hm generalizing ls with
  | nil =>
    cases h
    exact ⟨[], .nil, rfl⟩
  | cons hd hds ih =>
    obtain ⟨first, hfirst, h⟩ := bind_eq_ok.1 h
    obtain ⟨others, hothers, h⟩ := bind_eq_ok.1 h
    cases h
    obtain ⟨blocks, hblocks, rfl⟩ := ih hothers
    have hblock := block_of_makes hd hfirst
    rw [List.map_cons, List.filter_cons]
    split at hblock
    · next hb =>
      rw [if_pos hb]
      exact ⟨first :: blocks, .cons hblock hblocks, rfl⟩
    · next hb =>
      rw [if_neg hb]
      subst hblock
      exact ⟨blocks, hblocks, rfl⟩

theorem unsupported_of_block {block : List Line} {summary : Summary} (hb : Block summary block)
    {kind : DefinitionKind} {name : Option String} (h : Line.unsupported kind name ∈ block) :
    kind = .interfaceDeclaration := by
  cases hb with
  | ofInterface => simp_all
  | ofClass hline _ =>
    rcases List.mem_cons.1 h with h | h
    · cases h
    · exact absurd (hline _ h) id

/-- Whatever the tree and the options, a report that there is has the form described above. -/
theorem outline_wellFormed {m : Module} {o : Options} {r : Report} (h : m.outline o = .ok r) :
    r.WellFormed o := by
  obtain ⟨ds, ls, hds, hls, rfl⟩ := report_eq_ok.1 h
  have hm := ofStatements_eq_ok.1 hds
  obtain ⟨blocks, hblocks, rfl⟩ := blocks_of_lines hm hls
  refine ⟨⟨blocks, hblocks, rfl⟩, fun d hd => ?_, fun kind name hl => ?_⟩
  · obtain ⟨made, hmade, rfl⟩ := List.mem_map.1 hd
    obtain ⟨s, -, hs⟩ := exists_of_mem_right hm hmade
    exact kind_ne_function_of_makes hs
  · obtain ⟨block, hblock, hl⟩ := List.mem_flatten.1 hl
    obtain ⟨d, -, hd⟩ := exists_of_mem_right hblocks hblock
    rw [unsupported_of_block hd hl]
    decide

/-! ## A report with every kind of line -/

/-- The declaration of a class or an interface with the given members. -/
def langObject (member name : String) (entries : List Json) : Json :=
  langDeclaration member name (.array [.object [("properties", .array entries)]])

def objectEntry (key : String) (value : List (String × Json)) : Json :=
  .object [("key", .object [("name", .string key)]), ("value", .object value)]

/-- A class whose accessors stand on both sides of its properties, and an interface. -/
def cardModule : Module where
  path := "card.json"
  name := "card"
  root := .object [("body", .array
    [langObject "Class" "Card"
      [objectEntry "page_number" [("type", .string "FunctionExpression")],
        objectEntry "Properties" [("properties", .array
          [objectEntry "title" [], objectEntry "page-number" []])],
        objectEntry "title" [("type", .string "Literal"), ("value", .null)],
        objectEntry "MAX_WIDTH" [("type", .string "Literal"), ("value", .number (.natural 240))],
        objectEntry "Name" [("type", .string "Literal"), ("value", .string "Card")],
        objectEntry "show" [("type", .string "FunctionExpression")]],
      .object [("type", .string "EmptyStatement")],
      langObject "Interface" "Clickable" [],
      langObject "bind" "bound" [],
      .object [("type", .string "ExpressionStatement")]])]

def cardReport : Report where
  path := "card.json"
  moduleName := "card"
  definitions := [⟨.classDeclaration, some "Card", false⟩,
    ⟨.interfaceDeclaration, some "Clickable", false⟩, ⟨.constantDeclaration, some "bound", false⟩,
    ⟨.expressionStatement, none, false⟩]
  lines := [.header "Card", .property "title", .property "page-number", .constant "MAX_WIDTH",
    .metadata "Name" "Card", .method "show",
    .unsupported .interfaceDeclaration (some "Clickable")]

theorem outline_cardModule : cardModule.outline ⟨.standard, true⟩ = .ok cardReport ∧
    cardReport.WellFormed ⟨.standard, true⟩ := by
  have h : cardModule.outline ⟨.standard, true⟩ = .ok cardReport := rfl
  exact ⟨h, outline_wellFormed h⟩

end TreeOutline
