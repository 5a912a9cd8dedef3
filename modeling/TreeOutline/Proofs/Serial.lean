import TreeOutline.Proofs.ReadJson
import TreeOutline.Render.Format

/-!
Reports read back from their JSON text. A written report opens at most three brackets at one place
and holds no number, so its text is read as the value that was written, members sorted. Each field
is then found by its name, and a field that was left out is taken for what it stands for: an absent
name, or no definitions.
-/

namespace TreeOutline

namespace Json

/-! ## Fields of sorted objects -/

theorem sortedMembers_eq_map (members : List (String × Json)) :
    sortedMembers members = members.map fun m => (m.1, sorted m.2) := by
  induction members with
  | nil => rfl
  | cons m rest ih => rw [sortedMembers, ih, List.map_cons]

theorem lookup_map_sorted (name : String) (members : List (String × Json)) :
    (members.map fun m => (m.1, sorted m.2)).lookup name = (members.lookup name).map sorted := by
  induction members with
  | nil => rfl
  | cons m rest ih =>
    obtain ⟨key, v⟩ := m
    by_cases h : name = key
    · simp [h]
    · simp [List.lookup_cons, beq_eq_false_iff_ne.2 h, ih]

theorem get?_sorted (name : String) (members : List (String × Json)) :
    (sorted (.object members)).get? name = (members.reverse.lookup name).map sorted := by
  rw [sorted, ofMembers, get?, Keyed.lookup_ofList, sortedMembers_eq_map, ← List.map_reverse,
    lookup_map_sorted]

theorem fields?_sorted (order : List String) (members : List (String × Json)) :
    (sorted (.object members)).fields? order =
      some fun name => (members.reverse.lookup name).map sorted := by
  rw [sorted, ofMembers, fields?]
  simp only [← get?_sorted]
  rfl

theorem mapM_sortedItems {α : Type} {encode : α → Json} {decode : Json → Option α}
    (h : ∀ a, decode (sorted (encode a)) = some a) (as : List α) :
    (sortedItems (as.map encode)).mapM decode = some as := by
  induction as with
  | nil => rfl
  | cons a rest ih => simp [sortedItems, h, ih]

end Json

open Json

/-! ## Definitions and lines -/

theorem DefinitionKind.ofTag?_tag (kind : DefinitionKind) : ofTag? kind.tag = some kind := by
  cases kind <;> rfl

theorem Summary.ofJson?_sorted (s : Summary) : ofJson? (sorted s.toJson) = some s := by
  obtain ⟨kind, name, documented⟩ := s
  unfold toJson ofJson?
  rw [fields?_sorted]
  cases name <;>
    simp [nameMember, Fields.text?, Fields.optionalText?, Fields.flag?, List.lookup_cons, asString?,
      asBool?, DefinitionKind.ofTag?_tag]

theorem Line.ofJson?_eq_ofFields? (l : Line) :
    ofJson? (sorted l.toJson) = ofFields? l.tag (sorted l.toJson) := by
  have htag : (sorted l.toJson).get? "line" = some (.string l.tag) := by
    rw [toJson, get?_sorted]
    cases l with
    | unsupported kind name => cases name <;> simp [members, nameMember, List.lookup_cons]
    | _ => simp [members, List.lookup_cons]
  simp only [toJson, sorted, ofMembers] at htag ⊢
  simp [ofJson?, htag, asString?]

theorem Line.ofJson?_sorted (l : Line) : ofJson? (sorted l.toJson) = some l := by
  rw [ofJson?_eq_ofFields?]
  unfold ofFields?
  cases l with
  | unsupported kind name =>
    cases name <;>
      simp [tag, toJson, members, nameMember, fields?_sorted, Fields.text?, Fields.optionalText?,
        List.lookup_cons, asString?, DefinitionKind.ofTag?_tag]
  | _ =>
    simp [tag, toJson, members, named?, fields?_sorted, Fields.text?, List.lookup_cons, asString?]

/-! ## Reports -/

theorem Report.ofJson?_sorted (r : Report) : ofJson? (sorted r.toJson) = some r := by
  obtain ⟨path, moduleName, definitions, lines⟩ := r
  have hlines := mapM_sortedItems Line.ofJson?_sorted lines
  have hdefinitions := mapM_sortedItems Summary.ofJson?_sorted definitions
  unfold toJson ofJson?
  rw [fields?_sorted]
  cases definitions with
  | nil =>
    simp [definitionsMember, Fields.text?, Fields.list?, List.lookup_cons, asString?, asArray?,
      hlines]
  | cons d ds =>
    rw [List.map_cons] at hdefinitions
    simp [definitionsMember, Fields.text?, Fields.list?, List.lookup_cons, asString?, asArray?,
      hlines, hdefinitions]

/-! ## Brackets of reports -/

theorem readable_nameMember (room : Nat) (name : Option String) :
    ∀ m ∈ nameMember name, Readable room m.2 := by
  cases name <;> simp [nameMember, Readable.string]

theorem Summary.readable_toJson (room : Nat) (s : Summary) : Readable (room + 1) s.toJson := by
  have hname := readable_nameMember room s.name
  refine .object ?_
  simp only [List.forall_mem_append, List.forall_mem_cons]
  exact ⟨⟨.string, hname⟩, .bool, by simp⟩

theorem Line.readable_toJson (room : Nat) (l : Line) : Readable (room + 1) l.toJson := by
  refine .object ?_
  rw [List.forall_mem_cons]
  refine ⟨.string, ?_⟩
  cases l with
  | unsupported kind name =>
    have hname := readable_nameMember room name
    simpa [members, Readable.string] using hname
  | _ => simp [members, Readable.string]

theorem Report.readable_toJson (room : Nat) (r : Report) : Readable (room + 3) r.toJson := by
  have hdefinitions : ∀ m ∈ definitionsMember r.definitions, Readable (room + 2) m.2 := by
    cases r.definitions with
    | nil => simp [definitionsMember]
    | cons d ds =>
      simp only [definitionsMember, List.forall_mem_singleton]
      refine .array (List.forall_mem_map.2 fun d _ => ?_)
      exact d.readable_toJson room
  have hlines : Readable (room + 2) (.array (r.lines.map Line.toJson)) :=
    .array (List.forall_mem_map.2 fun l _ => l.readable_toJson room)
  refine .object ?_
  simp only [List.forall_mem_append, List.forall_mem_cons]
  exact ⟨⟨⟨.string, .string, by simp⟩, hdefinitions⟩, hlines, by simp⟩

/-- The JSON text of a report reads back as that report, and so as one with the same text. -/
theorem Report.parse_render (r : Report) :
    ∃ v, Json.parse (r.render .json) = .ok v ∧ Report.ofJson? v = some r ∧
      (Report.ofJson? v).map (fun r' => r'.render .json) = some (r.render .json) := by
  have hread := parse_write blank_pretty (r.readable_toJson 124)
  have hr := r.ofJson?_sorted
  exact ⟨sorted r.toJson, hread, hr, by rw [hr]; rfl⟩

end TreeOutline
