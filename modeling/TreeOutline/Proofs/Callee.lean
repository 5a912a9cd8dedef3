import TreeOutline.Proofs.Cut
import TreeOutline.Proofs.Extend

/-!
Recognition by the written callee. A rule text writes a callee, and so does a chain of member
accesses in a tree: the names with a dot between neighbours. The rule cuts its callee at the last
dot and the tree puts its scope together from nested nodes; as long as the last name has no dot the
two meet, so a call is recognized by the first rule that writes its callee.
-/

namespace TreeOutline

open Traversal

/-! ## Callees of rules -/

namespace Recognizer

/-- The callee of the calls that a rule is about. -/
def Rule.callee (rule : Rule) : String :=
  rule.scope ++ "." ++ rule.member

/-- The text before the first `=` of a rule text, without the blanks at its ends. -/
def writtenCallee? (text : String) : Option String :=
  (Text.cutFirst '=' text.toList).map fun parts => String.ofList (Text.trim parts.1)

theorem Rule.read_eq_ok {text : List Char} {rule : Rule} :
    Rule.read text = .ok rule ↔
      ∃ callee kind, Text.cutFirst '=' text = some (callee, kind) ∧
        Text.cutLast '.' (Text.trim callee) = some (rule.scope.toList, rule.member.toList) ∧
        rule.scope ≠ "" ∧ rule.member ≠ "" ∧ Kind.ofLabel? (Text.trim kind) = some rule.kind := by
  unfold Rule.read
  refine ⟨fun h => ?_, fun h => ?_⟩
  · split at h
    · cases h
    · next callee kind hfirst =>
      split at h
      · cases h
      · next scope member hlast =>
        split at h
        · cases h
        · next hempty =>
          rw [not_or] at hempty
          split at h
          · cases h
          · next k hk =>
            cases h
            refine ⟨callee, kind, hfirst, by simpa using hlast, ?_, ?_, hk⟩
            · simpa using hempty.1
            · simpa using hempty.2
  · obtain ⟨callee, kind, hfirst, hlast, hscope, hmember, hk⟩ := h
    simp [hfirst, hlast, hscope, hmember, hk]

theorem Rule.parse_eq_ok {text : String} {rule : Rule} :
    Rule.parse text = .ok rule ↔ Rule.read text.toList = .ok rule := by
  unfold Rule.parse
  cases Rule.read text.toList <;> simp

/-- The member of a rule is what follows the last dot of the callee that its text writes. -/
theorem Rule.callee_of_parse {text : String} {rule : Rule} (h : Rule.parse text = .ok rule) :
    writtenCallee? text = some rule.callee ∧ '.' ∉ rule.member.toList := by
  obtain ⟨callee, kind, hfirst, hlast, -⟩ := Rule.read_eq_ok.1 (Rule.parse_eq_ok.1 h)
  obtain ⟨hcallee, hdot⟩ := Text.cutLast_eq_some.1 hlast
  refine ⟨?_, hdot⟩
  rw [writtenCallee?, hfirst, Option.map_some, hcallee]
  congr 1
  apply String.toList_injective
  simp [Rule.callee]

theorem Rule.callee_eq_iff {rule : Rule} {scope member : String} (hr : '.' ∉ rule.member.toList)
    (hm : '.' ∉ member.toList) :
    rule.callee = scope ++ "." ++ member ↔ rule.scope = scope ∧ rule.member = member := by
  refine ⟨fun h => ?_, fun h => ?_⟩
  · have h := congrArg String.toList h
    simp only [Rule.callee, String.toList_append, List.append_assoc] at h
    obtain ⟨hscope, hmember⟩ := Text.append_cons_inj_of_notMem_right hr hm h
    exact ⟨String.toList_injective hscope, String.toList_injective hmember⟩
  · rw [Rule.callee, h.1, h.2]

/-! ## Tables of rule texts -/

variable {texts : List String} {rules : List Rule}

theorem Table.addTexts_eq_ok {table table' : Table} :
    table.addTexts texts = .ok table' ↔
      ∃ rules, List.Forall₂ (fun text rule => Rule.parse text = .ok rule) texts rules ∧
        table' = table.extend rules := by
  induction texts generalizing table with
  | nil => simp [Table.addTexts, Table.extend, eq_comm]
  | cons text rest ih =>
    simp only [Table.addTexts, bind_eq_ok, ih, List.forall₂_cons_left_iff]
    refine ⟨fun h => ?_, fun h => ?_⟩
    · obtain ⟨rule, hrule, rules, hrules, rfl⟩ := h
      exact ⟨rule :: rules, ⟨rule, rules, hrule, hrules, rfl⟩, rfl⟩
    · obtain ⟨_, ⟨rule, rules, hrule, hrules, rfl⟩, rfl⟩ := h
      exact ⟨rule, hrule, rules, hrules, rfl⟩

/-- The kind of the first rule text that writes a callee. -/
def writtenKind? (texts : List String) (callee : String) : Option Kind :=
  (texts.find? fun text => writtenCallee? text = some callee).bind fun text =>
    (Rule.parse text).toOption.map Rule.kind

theorem lookup_written {scope member : String} (hm : '.' ∉ member.toList)
    (h : List.Forall₂ (fun text rule => Rule.parse text = .ok rule) texts rules) :
    Table.lookup ⟨rules⟩ scope member = writtenKind? texts (scope ++ "." ++ member) := by
  unfold Table.lookup writtenKind?
  induction h with
  | nil => rfl
  | @cons text rule rest others hrule hrest ih =>
    obtain ⟨hcallee, hdot⟩ := Rule.callee_of_parse hrule
    have hiff : rule.callee = scope ++ "." ++ member ↔ rule.scope = scope ∧ rule.member = member :=
      Rule.callee_eq_iff hdot hm
    rw [List.find?_cons, List.find?_cons]
    by_cases hfits : rule.scope = scope ∧ rule.member = member
    · simp [hcallee, hiff.2 hfits, hfits, hrule, Except.toOption]
    · have hne : rule.callee ≠ scope ++ "." ++ member := mt hiff.1 hfits
      have hfalse : (decide (rule.scope = scope) && decide (rule.member = member)) = false := by
        rw [← Bool.decide_and]
        exact decide_eq_false hfits
      simpa [hcallee, hne, hfalse] using ih

end Recognizer

/-! ## Callees of calls -/

namespace Node

open Recognizer (Kind Rule Table writtenKind?)

/-- The node is an identifier, or a chain of member accesses that have no names of their own; the
names in it are given from the innermost on. -/
inductive Chain : Json → List String → Prop
  | identifier {node : Json} {name : String} (h : text? "name" node = some name) :
    Chain node [name]
  | access {node object property : Json} {names : List String} {name : String}
    (h : text? "name" node = none) (hobject : node.get? "object" = some object)
    (hnames : Chain object names) (hproperty : node.get? "property" = some property)
    (hname : text? "name" property = some name) : Chain node (names ++ [name])

theorem Chain.names_ne_nil {node : Json} {names : List String} (h : Chain node names) :
    names ≠ [] := by
  cases h <;> simp

theorem dottedName_eq (node : Json) :
    dottedName node =
      match text? "name" node with
      | some name => some name
      | none =>
        match (node.get? "object").bind dottedName, (node.get? "property").bind (text? "name") with
        | some object, some property => some (object ++ "." ++ property)
        | _, _ => none := by
  cases node with
  | object members =>
    rewrite [dottedName, objectName_eq]
    rfl
  | _ => rfl

theorem dottedName_of_chain {node : Json} {names : List String} (h : Chain node names) :
    dottedName node = some (Text.join "." names) := by
  induction h with
  | identifier h =>
    rw [dottedName_eq, h]
    rfl
  | access h hobject hnames hproperty hname ih =>
    rw [dottedName_eq, h, hobject, hproperty,
      Text.join_append _ hnames.names_ne_nil (List.cons_ne_nil _ _)]
    simp [ih, hname, Text.join]

/-- The form of a call whose callee has the kind. -/
def Init.ofKind? : Option Kind → CallSite → Init
  | some .classCall, site => .classCall site
  | some .interfaceCall, site => .interfaceCall site
  | none, _ => .other

theorem init_eq_ofKind? {table : Table} {call : Json} {scope member : String}
    (h : callee? call = some (scope, member)) :
    init table call = .ofKind? (table.lookup scope member) ⟨scope ++ "." ++ member, call⟩ := by
  rw [init, h]
  dsimp only
  cases table.lookup scope member with
  | none => rfl
  | some kind => cases kind <;> rfl

/-- A call of a chain of names is recognized by the first rule text that writes these names with
dots between them, and by nothing else. -/
theorem init_of_written {texts : List String} (ht : ∀ text ∈ texts, ∃ rule, Rule.parse text = .ok rule)
    {call callee object property : Json} {names : List String} {last : String}
    (hcallee : call.get? "callee" = some callee) (hobject : callee.get? "object" = some object)
    (hnames : Chain object names) (hproperty : callee.get? "property" = some property)
    (hlast : text? "name" property = some last) (hdot : '.' ∉ last.toList) :
    ∃ table, Table.empty.addTexts texts = .ok table ∧
      init table call =
        .ofKind? (writtenKind? texts (Text.join "." (names ++ [last])))
          ⟨Text.join "." (names ++ [last]), call⟩ := by
  obtain ⟨rules, hrules⟩ := exists_mapM_eq_ok.2 ht
  have hrules := mapM_eq_ok.1 hrules
  have hnamed : callee? call = some (Text.join "." names, last) := by
    simp [callee?, hcallee, hobject, dottedName_of_chain hnames, hproperty, hlast]
  refine ⟨Table.empty.extend rules, Recognizer.Table.addTexts_eq_ok.2 ⟨rules, hrules, rfl⟩, ?_⟩
  have htable : Table.empty.extend rules = ⟨rules⟩ := Table.extend_eq _ _
  rw [init_eq_ofKind? hnamed, htable, Recognizer.lookup_written hdot hrules,
    Text.join_append _ hnames.names_ne_nil (List.cons_ne_nil _ _), Text.join]

/-- The identifier `imports`. -/
def importsNode : Json := .object [("name", .string "imports")]

/-- A call of `imports.my.Lang.Class`, where `my.Lang` is one name. -/
def importsCall : Json :=
  .object [("callee", .object [("object", .object [("object", importsNode),
    ("property", .object [("name", .string "my.Lang")])]),
    ("property", .object [("name", .string "Class")])])]

/-- Rules for other callees, and two for this one, of which the first decides. -/
def importsRules : List String :=
  ["Lang.Class=class", "imports.my.Lang=class", " imports.my.Lang.Class\t= Interface",
    "imports.my.Lang.Class=class"]

theorem init_importsCall :
    (∀ text ∈ importsRules, ∃ rule, Rule.parse text = .ok rule) ∧
    ∃ table, Table.empty.addTexts importsRules = .ok table ∧
      init table importsCall = .interfaceCall ⟨"imports.my.Lang.Class", importsCall⟩ := by
  have hrules : ∀ text ∈ importsRules, ∃ rule, Rule.parse text = .ok rule := by
    simp only [importsRules, List.forall_mem_cons]
    exact ⟨⟨_, rfl⟩, ⟨_, rfl⟩, ⟨_, rfl⟩, ⟨_, rfl⟩, by simp⟩
  have hnames : Chain (.object [("object", importsNode),
      ("property", .object [("name", .string "my.Lang")])]) ["imports", "my.Lang"] :=
    .access rfl rfl (.identifier rfl) rfl rfl
  have hdot : '.' ∉ "Class".toList := by decide
  exact ⟨hrules, init_of_written hrules rfl rfl hnames rfl rfl hdot⟩

end Node

end TreeOutline
