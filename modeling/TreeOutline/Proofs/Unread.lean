import TreeOutline.Proofs.ClassBody
import TreeOutline.Proofs.Erase
import TreeOutline.Proofs.Statement
import TreeOutline.Scan.Basic

/-!
Outlines and erased trees. A tree and its erasure have the same outline, fault or not
(`outline_erase`). The members of a class are the one place where erasing is not plain: a member
that is itself a literal keeps its value whole, so members are compared up to that.
-/

namespace TreeOutline

open Node Traversal

/-! ## Members of a class -/

/-- One key, and a value that is erased or not. -/
def Node.Member.Same (m m' : Member) : Prop :=
  m'.key = m.key ∧ (m'.value = m.value ∨ m'.value = m.value.erase)

theorem member_erase (context : String) (e : Json) :
    Agree Member.Same (member context e) (member context e.erase) := by
  unfold member field
  rw [Json.get?_erase_key, Json.get?_erase_value]
  cases e.get? "key" with
  | none => exact .error _
  | some key =>
    cases e.get? "value" with
    | none => exact .error _
    | some value =>
      simp only [Option.map_some, bind, Except.bind]
      cases keyName key context with
      | error fault => exact .error fault
      | ok name =>
        refine .ok ⟨rfl, ?_⟩
        split
        · exact .inl rfl
        · exact .inr rfl

theorem members_erase (context : String) (es : List Json) :
    Agree (List.Forall₂ Member.Same) (members context es) (members context (es.map Json.erase)) := by
  refine Agree.mapM (R := fun e e' => e' = e.erase) ?_ ?_
  · exact List.forall₂_map_right_iff.2 (List.forall₂_same.2 fun _ _ => rfl)
  · rintro e e' rfl
    exact member_erase context e

theorem map_key_of_same {ms ms' : List Member} (h : List.Forall₂ Member.Same ms ms') :
    ms.map Member.key = ms'.map Member.key := by
  induction h with
  | nil => rfl
  | cons hm _ ih => rw [List.map_cons, List.map_cons, hm.1, ih]

namespace ClassBody

theorem declaredNames_erase (v : Json) : declaredNames v.erase = declaredNames v := by
  unfold declaredNames
  rw [shape_erase]
  cases shape v with
  | object entries =>
    exact ((members_erase propertiesKey entries).map fun _ _ => map_key_of_same).eq.symm
  | _ => rfl

theorem metadataValue?_erase (v : Json) : metadataValue? v.erase = metadataValue? v := by
  unfold metadataValue?
  rw [shape_erase]
  cases shape v <;> rfl

/-- Two parts declare the same names and give the same lines. -/
def Part.Same (p p' : Part) : Prop :=
  p'.names = p.names ∧ ∀ declared, p'.lines declared = p.lines declared

theorem Part.Same.refl (p : Part) : Part.Same p p :=
  ⟨rfl, fun _ => rfl⟩

theorem plain_same_mapEntries (key : String) (s : Shape) :
    Part.Same (.plain key s) (.plain key (s.mapEntries Json.erase)) := by
  refine ⟨rfl, fun declared => ?_⟩
  cases s <;> rfl

theorem ofMember_same {m m' : Member} (h : m.Same m') :
    Agree Part.Same (Part.ofMember m) (Part.ofMember m') := by
  obtain ⟨key, value⟩ := m
  obtain ⟨key', value'⟩ := m'
  obtain ⟨hkey, hvalue⟩ := h
  obtain rfl : key' = key := hkey
  rcases hvalue with hvalue | hvalue
  · obtain rfl : value' = value := hvalue
    exact .of_eq Part.Same.refl rfl
  -- an erased value keeps its shape, and the nodes of an object literal are read for keys only
  · obtain rfl : value' = value.erase := hvalue
    unfold Part.ofMember
    dsimp only
    rw [metadataValue?_erase, declaredNames_erase, shape_erase]
    split
    · exact .ok (.refl _)
    · split
      · exact .of_eq Part.Same.refl rfl
      · exact .ok (plain_same_mapEntries _ _)

theorem entries_erase (arguments : List Json) :
    entries (arguments.map Json.erase) = (entries arguments).map Json.erase := by
  unfold entries
  rw [List.filterMap_map, List.map_flatten, List.map_filterMap]
  simp only [Function.comp_def, entries?_erase]

theorem parts_erase (arguments : List Json) :
    Agree (List.Forall₂ Part.Same) (parts arguments) (parts (arguments.map Json.erase)) := by
  unfold parts
  rw [entries_erase]
  exact (members_erase _ _).bind fun _ _ h => .mapM h fun _ _ => ofMember_same

theorem lines_of_same {ps ps' : List Part} (h : List.Forall₂ Part.Same ps ps') :
    lines ps' = lines ps := by
  have hnames : ps'.flatMap Part.names = ps.flatMap Part.names := by
    induction h with
    | nil => rfl
    | cons hp _ ih => rw [List.flatMap_cons, List.flatMap_cons, hp.1, ih]
  unfold lines
  rw [hnames]
  generalize ps.flatMap Part.names = declared
  clear hnames
  induction h with
  | nil => rfl
  | cons hp _ ih => rw [List.flatMap_cons, List.flatMap_cons, hp.2, ih]

end ClassBody

/-! ## Definitions -/

/-- A definition of an erased statement. -/
def Definition.erase (d : Definition) : Definition :=
  { d with node := d.node.erase }

namespace Definition

theorem kindOf_erase (table : Recognizer.Table) (declarator : Json) :
    kindOf table declarator.erase = kindOf table declarator := by
  unfold kindOf
  rw [declaratorInit_erase]
  cases declaratorInit table declarator <;> rfl

theorem ofStatement?_erase (table : Recognizer.Table) (s : Json) :
    ofStatement? table s.erase = (ofStatement? table s).map (Option.map Definition.erase) := by
  unfold ofStatement? ofDeclaration
  rw [type?_erase, firstDeclarator_erase]
  split_ifs
  · cases firstDeclarator s with
    | error e => rfl
    | ok declarator =>
      simp only [Except.map, bind, Except.bind, declaratorName_erase, kindOf_erase]
      cases declaratorName declarator <;> rfl
  · rfl
  · rfl

theorem ofStatements_erase (table : Recognizer.Table) (statements : List Json) :
    ofStatements table (statements.map Json.erase) =
      (ofStatements table statements).map (List.map Definition.erase) := by
  induction statements with
  | nil => rfl
  | cons s rest ih =>
    rw [List.map_cons, ofStatements, ofStatements, ih, ofStatement?_erase]
    cases ofStatement? table s with
    | error e => rfl
    | ok d =>
      cases ofStatements table rest with
      | error e => rfl
      | ok ds => cases d <;> rfl

theorem body_erase (root : Json) : body root.erase = (body root).map Json.erase := by
  unfold body
  rw [Json.get?_erase (by decide)]
  cases root.get? "body" with
  | none => rfl
  | some v =>
    simp only [Option.map_some, Option.bind_some, Json.asArray?_erase]
    cases v.asArray? <;> rfl

theorem collect_erase (table : Recognizer.Table) (root : Json) :
    collect table root.erase = (collect table root).map (List.map Definition.erase) := by
  unfold collect
  rw [body_erase, ofStatements_erase]

end Definition

namespace Outline

theorem callParts_erase (site : CallSite) :
    Agree (List.Forall₂ ClassBody.Part.Same) (callParts site)
      (callParts ⟨site.callee, site.node.erase⟩) := by
  unfold callParts callArguments
  rw [Json.get?_erase (by decide)]
  cases site.node.get? "arguments" with
  | none => exact .ok .nil
  | some arguments =>
    simp only [Option.map_some, Json.asArray?_erase]
    cases arguments.asArray? with
    | none => exact .error _
    | some items => exact ClassBody.parts_erase items

theorem initLines_erase (name : String) (i : Init) :
    initLines name (i.mapNode Json.erase) = initLines name i := by
  cases i with
  | classCall site =>
    refine ((callParts_erase site).map (S := Eq) fun parts parts' hp => ?_).eq.symm
    rw [ClassBody.lines_of_same hp]
  | _ => rfl

theorem classLines_erase (table : Recognizer.Table) (d : Definition) :
    classLines table d.erase = classLines table d := by
  rw [classLines_eq, classLines_eq, Definition.erase, firstDeclarator_erase]
  cases firstDeclarator d.node with
  | error e => rfl
  | ok declarator =>
    simp only [Except.map, bind, Except.bind, declaratorName_erase, declaratorInit_erase,
      initLines_erase]

theorem definitionLines_erase (o : Options) (d : Definition) :
    definitionLines o d.erase = definitionLines o d := by
  unfold definitionLines
  rw [classLines_erase]
  rfl

theorem lines_erase (o : Options) (ds : List Definition) :
    lines o (ds.map Definition.erase) = lines o ds := by
  induction ds with
  | nil => rfl
  | cons d ds ih => rw [List.map_cons, lines, lines, definitionLines_erase, ih]

/-- What no outline reads changes neither the report of a tree nor the fault that keeps it from
having one. -/
theorem outline_erase (o : Options) (m : Module) :
    Module.outline { m with root := m.root.erase } o = m.outline o := by
  unfold Module.outline report
  rw [Definition.collect_erase]
  cases Definition.collect o.table m.root with
  | error e => rfl
  | ok ds =>
    have hsummary : (ds.map Definition.erase).map Definition.summary = ds.map Definition.summary := by
      rw [List.map_map]
      rfl
    simp only [Except.map, bind, Except.bind, lines_erase, hsummary]

end Outline

end TreeOutline
