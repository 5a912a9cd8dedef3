import TreeOutline.Proofs.Append
import TreeOutline.Proofs.Blocks
import TreeOutline.Proofs.Member

/-!
The lines of a class, read off its tree. The entries of all object literals among the arguments of a
class call stand in one row (`Holds`). Each of them adds its own lines (`Adds`), for which it needs to
know of the others only the names that they declare (`Declared`). An outline of a class is its header
and what the entries add, in order (`classLines_exact`).
-/

namespace TreeOutline.ClassBody

open Node Traversal

/-- The call has these arguments. A call without a list of them has none. -/
inductive HasArguments (call : Json) : List Json → Prop
  | none (h : call.get? "arguments" = none) : HasArguments call []
  | list {arguments : List Json} (h : call.get? "arguments" = some (.array arguments)) :
    HasArguments call arguments

/-- The object literals among some arguments hold these entries, one after another. Any argument with
a list of properties is an object literal here, whatever its type. -/
inductive Holds : List Json → List Json → Prop
  | nil : Holds [] []
  | object {argument : Json} {arguments es others : List Json}
    (h : argument.get? "properties" = some (.array es)) (ho : Holds arguments others) :
    Holds (argument :: arguments) (es ++ others)
  | other {argument : Json} {arguments others : List Json}
    (h : ∀ es, argument.get? "properties" ≠ some (.array es)) (ho : Holds arguments others) :
    Holds (argument :: arguments) others

/-- The value is an object literal whose entries have these keys. -/
def HasNames (value : Json) (names : List String) : Prop :=
  ∃ inner, ObjectLiteral value inner ∧
    List.Forall₂ (fun entry name => ∃ v, HasMember entry name v) inner names

/-- One of the entries declares a property called `name`. -/
def Declared (es : List Json) (name : String) : Prop :=
  ∃ entry ∈ es, ∃ value names, HasMember entry "Properties" value ∧ HasNames value names ∧ name ∈ names

/-- What a member adds to the lines of a class, given the names that are declared there. -/
inductive Adds (declared : String → Prop) (key : String) (value : Json) : List Line → Prop
  | literalMetadata (hkey : key ∈ ["Name", "GTypeName", "Extends", "Implements"])
    (hvalue : type? value = some "Literal") :
    Adds declared key value [.metadata key (literalText ((value.get? "value").getD .null))]
  | dottedMetadata {name : String} (hkey : key ∈ ["Name", "GTypeName", "Extends", "Implements"])
    (hvalue : type? value = some "MemberExpression") (hname : dottedName value = some name) :
    Adds declared key value [.metadata key name]
  | noMetadata (hkey : key ∈ ["Name", "GTypeName", "Extends", "Implements"])
    (hliteral : type? value ≠ some "Literal")
    (haccess : type? value = some "MemberExpression" → dottedName value = none) :
    Adds declared key value []
  | properties {names : List String} (hkey : key = "Properties") (hvalue : HasNames value names) :
    Adds declared key value (names.map .property)
  | hidden (hkey : key ∉ ["Name", "GTypeName", "Extends", "Implements", "Properties"])
    (h : declared key ∨ declared (hyphenated key)) : Adds declared key value []
  | constant (hkey : key ∉ ["Name", "GTypeName", "Extends", "Implements", "Properties"])
    (h : ¬ (declared key ∨ declared (hyphenated key))) (hvalue : type? value = some "Literal") :
    Adds declared key value [.constant key]
  | method (hkey : key ∉ ["Name", "GTypeName", "Extends", "Implements", "Properties"])
    (h : ¬ (declared key ∨ declared (hyphenated key)))
    (hvalue : type? value = some "FunctionExpression") : Adds declared key value [.method key]
  | unreported (hkey : key ∉ ["Name", "GTypeName", "Extends", "Implements", "Properties"])
    (h : ¬ (declared key ∨ declared (hyphenated key))) (hliteral : type? value ≠ some "Literal")
    (hfunction : type? value ≠ some "FunctionExpression") : Adds declared key value []

/-- What an entry adds is what the member in it adds. -/
def EntryAdds (declared : String → Prop) (entry : Json) (ls : List Line) : Prop :=
  ∃ key value, HasMember entry key value ∧ Adds declared key value ls

/-! ## Reading arguments and members -/

variable {arguments es : List Json} {key : String} {value entry : Json} {names : List String}
  {p : Part} {e : ShapeError}

theorem holds_iff : Holds arguments es ↔ entries arguments = es := by
  refine ⟨fun h => ?_, fun h => ?_⟩
  · induction h with
    | nil => rfl
    | object h _ ih => simp [entries, entries?_eq_some.2 h, ← ih]
    | @other argument _ _ h _ ih =>
      have hnone : entries? argument = none :=
        Option.eq_none_iff_forall_ne_some.2 fun es hes => h es (entries?_eq_some.1 hes)
      simp [entries, hnone, ← ih]
  · subst h
    induction arguments with
    | nil => exact .nil
    | cons argument arguments ih =>
      cases h : entries? argument with
      | some es =>
        have hes : entries (argument :: arguments) = es ++ entries arguments := by
          simp [entries, h]
        rw [hes]
        exact .object (entries?_eq_some.1 h) ih
      | none =>
        have hes : entries (argument :: arguments) = entries arguments := by simp [entries, h]
        rw [hes]
        refine .other (fun es hes => ?_) ih
        rw [entries?_eq_some.2 hes] at h
        cases h

theorem hasArguments_iff {site : CallSite} :
    HasArguments site.node arguments ↔ Outline.callArguments site = .ok arguments := by
  unfold Outline.callArguments
  refine ⟨fun h => ?_, fun h => ?_⟩
  · cases h with
    | none h => rw [h]
    | list h =>
      rw [h]
      rfl
  · split at h
    · next hnone =>
      cases h
      exact .none hnone
    · next v hv =>
      cases hitems : v.asArray? with
      | none => simp [hitems] at h
      | some items =>
        rw [hitems] at h
        cases h
        rw [Json.asArray?_eq_some.1 hitems] at hv
        exact .list hv

theorem declaredNames_eq_ok : declaredNames value = .ok names ↔ HasNames value names := by
  unfold declaredNames HasNames
  refine ⟨fun h => ?_, fun h => ?_⟩
  · split at h
    · next inner hshape =>
      obtain ⟨ms, hms, rfl⟩ := map_eq_ok.1 h
      refine ⟨inner, shape_eq_object.1 hshape, List.forall₂_map_right_iff.2 ?_⟩
      exact (members_eq_ok.1 hms).imp fun _ m hm => ⟨m.value, hm⟩
    · cases h
  · obtain ⟨inner, hvalue, hnames⟩ := h
    rw [shape_eq_object.2 hvalue]
    refine map_eq_ok.2 ?_
    simp only [members_eq_ok]
    clear hvalue
    induction hnames with
    | nil => exact ⟨[], .nil, rfl⟩
    | @cons entry name _ _ hname _ ih =>
      obtain ⟨v, hv⟩ := hname
      obtain ⟨ms, hms, rfl⟩ := ih
      exact ⟨⟨name, v⟩ :: ms, .cons hv hms, rfl⟩

theorem notMem_keys_iff :
    key ∉ ["Name", "GTypeName", "Extends", "Implements", "Properties"] ↔
      key ∉ metadataKeys ∧ key ≠ propertiesKey := by
  simp [metadataKeys, propertiesKey, not_or, and_assoc]

theorem ofMember_eq_ok :
    Part.ofMember ⟨key, value⟩ = .ok p ↔
      (key ∈ metadataKeys ∧ p = .metadata key (metadataValue? value)) ∨
      (key = propertiesKey ∧ ∃ names, HasNames value names ∧ p = .declared names) ∨
      (key ∉ metadataKeys ∧ key ≠ propertiesKey) ∧ p = .plain key (shape value) := by
  unfold Part.ofMember
  by_cases hmetadata : key ∈ metadataKeys
  · have hkey : key ≠ propertiesKey := by
      rintro rfl
      exact absurd hmetadata (by decide)
    simp [hmetadata, hkey, eq_comm]
  · by_cases hkey : key = propertiesKey
    · subst hkey
      simp [hmetadata, map_eq_ok, declaredNames_eq_ok, @eq_comm _ p]
    · simp [hmetadata, hkey, eq_comm]

/-- The entry is a member that reads as the part. -/
def HasPart (entry : Json) (p : Part) : Prop :=
  ∃ key value, HasMember entry key value ∧ Part.ofMember ⟨key, value⟩ = .ok p

theorem parts_eq_ok {ps : List Part} :
    parts arguments = .ok ps ↔ List.Forall₂ HasPart (entries arguments) ps := by
  unfold parts
  simp only [bind_eq_ok, members_eq_ok, mapM_eq_ok]
  generalize entries arguments = es
  refine ⟨fun h => ?_, fun h => ?_⟩
  · obtain ⟨ms, hms, hps⟩ := h
    induction hms generalizing ps with
    | nil =>
      cases hps
      exact .nil
    | cons hm _ ih =>
      cases hps with
      | cons hp hps => exact .cons ⟨_, _, hm, hp⟩ (ih hps)
  · induction h with
    | nil => exact ⟨[], .nil, .nil⟩
    | cons hp _ ih =>
      obtain ⟨key, value, hm, hp⟩ := hp
      obtain ⟨ms, hms, hps⟩ := ih
      exact ⟨⟨key, value⟩ :: ms, .cons hm hms, .cons hp hps⟩

theorem HasPart.unique {q : Part} (hp : HasPart entry p) (hq : HasPart entry q) : p = q := by
  obtain ⟨key, value, hm, hp⟩ := hp
  obtain ⟨key', value', hm', hq⟩ := hq
  obtain ⟨rfl, rfl⟩ := hm.unique hm'
  exact Except.ok.inj (hp.symm.trans hq)

/-! ## What one entry adds -/

theorem mem_names_iff (hp : HasPart entry p) {name : String} :
    name ∈ p.names ↔ ∃ value names, HasMember entry "Properties" value ∧ HasNames value names ∧
      name ∈ names := by
  refine ⟨fun h => ?_, fun h => ?_⟩
  · obtain ⟨key, value, hm, hp⟩ := hp
    rcases ofMember_eq_ok.1 hp with ⟨-, rfl⟩ | ⟨rfl, names, hnames, rfl⟩ | ⟨-, rfl⟩
    · cases h
    · exact ⟨value, names, hm, hnames, h⟩
    · cases h
  · obtain ⟨value, names, hm, hnames, h⟩ := h
    have hq : HasPart entry (.declared names) :=
      ⟨_, _, hm, ofMember_eq_ok.2 (.inr (.inl ⟨rfl, names, hnames, rfl⟩))⟩
    rw [hp.unique hq]
    exact h

theorem declared_iff {ps : List Part} (hps : List.Forall₂ HasPart es ps) {name : String} :
    name ∈ ps.flatMap Part.names ↔ Declared es name := by
  induction hps with
  | nil => simp [Declared]
  | cons hp _ ih =>
    rw [List.flatMap_cons, List.mem_append, ih, mem_names_iff hp]
    simp [Declared]

variable {declared : List String} {D : String → Prop} {ls : List Line}

theorem isDeclared_iff (hD : ∀ name, name ∈ declared ↔ D name) :
    isDeclared declared key = true ↔ D key ∨ D (hyphenated key) := by
  simp [isDeclared, hD]

theorem lines_plain (declared : List String) (key : String) (s : Shape) :
    Part.lines declared (.plain key s) =
      if isDeclared declared key then []
      else
        match s with
        | .literal _ => [.constant key]
        | .function => [.method key]
        | _ => [] := by
  cases s <;> rfl

theorem metadataValue?_eq_none (hliteral : type? value ≠ some "Literal")
    (haccess : type? value = some "MemberExpression" → dottedName value = none) :
    metadataValue? value = none := by
  unfold metadataValue?
  cases hs : shape value with
  | literal v => exact absurd (shape_eq_literal.1 hs).1 hliteral
  | access name =>
    obtain ⟨ht, hname⟩ := shape_eq_access.1 hs
    cases (haccess ht).symm.trans hname
  | _ => rfl

theorem adds_of_ofMember (hD : ∀ name, name ∈ declared ↔ D name)
    (h : Part.ofMember ⟨key, value⟩ = .ok p) : Adds D key value (p.lines declared) := by
  have hliteral (ht : type? value = some "Literal") := shape_eq_literal.2 ⟨ht, rfl⟩
  rcases ofMember_eq_ok.1 h with ⟨hkey, rfl⟩ | ⟨rfl, names, hnames, rfl⟩ | ⟨hkey, rfl⟩
  · by_cases ht : type? value = some "Literal"
    · rw [metadataValue?, hliteral ht]
      exact .literalMetadata hkey ht
    · by_cases hname : type? value = some "MemberExpression" ∧ ∃ name, dottedName value = some name
      · obtain ⟨ht, name, hname⟩ := hname
        rw [metadataValue?, shape_eq_access.2 ⟨ht, hname⟩]
        exact .dottedMetadata hkey ht hname
      · have hnone (ha : type? value = some "MemberExpression") : dottedName value = none :=
          Option.eq_none_iff_forall_ne_some.2 fun name hn => hname ⟨ha, name, hn⟩
        rw [metadataValue?_eq_none ht hnone]
        exact .noMetadata hkey ht hnone
  · exact .properties rfl hnames
  · have hplain := notMem_keys_iff.2 hkey
    by_cases hd : isDeclared declared key
    · rw [lines_plain, if_pos hd]
      exact .hidden hplain ((isDeclared_iff hD).1 hd)
    · have hnot : ¬ (D key ∨ D (hyphenated key)) := fun h => hd ((isDeclared_iff hD).2 h)
      rw [lines_plain, if_neg hd]
      cases hs : shape value with
      | literal v => exact .constant hplain hnot (shape_eq_literal.1 hs).1
      | function => exact .method hplain hnot (shape_eq_function.1 hs)
      | _ =>
        refine .unreported hplain hnot (fun ht => ?_) (fun ht => ?_)
        · cases (hliteral ht).symm.trans hs
        · cases (shape_eq_function.2 ht).symm.trans hs

theorem exists_part_of_adds (h : Adds D key value ls) :
    ∃ p, Part.ofMember ⟨key, value⟩ = .ok p ∧
      ∀ declared : List String, (∀ name, name ∈ declared ↔ D name) → p.lines declared = ls := by
  have hmetadata {shown : Option String} (hkey : key ∈ metadataKeys)
      (hv : metadataValue? value = shown) :
      Part.ofMember ⟨key, value⟩ = .ok (.metadata key shown) :=
    ofMember_eq_ok.2 (.inl ⟨hkey, by rw [hv]⟩)
  have hplain (hkey : key ∉ ["Name", "GTypeName", "Extends", "Implements", "Properties"]) :
      Part.ofMember ⟨key, value⟩ = .ok (.plain key (shape value)) :=
    ofMember_eq_ok.2 (.inr (.inr ⟨notMem_keys_iff.1 hkey, rfl⟩))
  cases h with
  | literalMetadata hkey hvalue =>
    have hv := hmetadata hkey (by rw [metadataValue?, shape_eq_literal.2 ⟨hvalue, rfl⟩])
    exact ⟨_, hv, fun _ _ => rfl⟩
  | dottedMetadata hkey hvalue hname =>
    have hv := hmetadata hkey (by rw [metadataValue?, shape_eq_access.2 ⟨hvalue, hname⟩])
    exact ⟨_, hv, fun _ _ => rfl⟩
  | noMetadata hkey hliteral haccess =>
    exact ⟨_, hmetadata hkey (metadataValue?_eq_none hliteral haccess), fun _ _ => rfl⟩
  | properties hkey hvalue =>
    exact ⟨_, ofMember_eq_ok.2 (.inr (.inl ⟨hkey, _, hvalue, rfl⟩)), fun _ _ => rfl⟩
  | hidden hkey h =>
    refine ⟨_, hplain hkey, fun declared hD => ?_⟩
    rw [lines_plain, if_pos ((isDeclared_iff hD).2 h)]
  | constant hkey h hvalue =>
    refine ⟨_, hplain hkey, fun declared hD => ?_⟩
    rw [lines_plain, if_neg (mt (isDeclared_iff hD).1 h), shape_eq_literal.2 ⟨hvalue, rfl⟩]
  | method hkey h hvalue =>
    refine ⟨_, hplain hkey, fun declared hD => ?_⟩
    rw [lines_plain, if_neg (mt (isDeclared_iff hD).1 h), shape_eq_function.2 hvalue]
  | unreported hkey h hliteral hfunction =>
    refine ⟨_, hplain hkey, fun declared hD => ?_⟩
    rw [lines_plain, if_neg (mt (isDeclared_iff hD).1 h)]
    cases hs : shape value with
    | literal v => exact absurd (shape_eq_literal.1 hs).1 hliteral
    | function => exact absurd (shape_eq_function.1 hs) hfunction
    | _ => rfl

/-! ## What all entries add -/

theorem forall₂_entryAdds (hD : ∀ name, name ∈ declared ↔ D name) {ps : List Part}
    (hps : List.Forall₂ HasPart es ps) :
    List.Forall₂ (EntryAdds D) es (ps.map (Part.lines declared)) := by
  refine List.forall₂_map_right_iff.2 (hps.imp fun entry p hp => ?_)
  obtain ⟨key, value, hm, hp⟩ := hp
  exact ⟨key, value, hm, adds_of_ofMember hD hp⟩

theorem exists_parts_of_entryAdds {pieces : List (List Line)}
    (h : List.Forall₂ (EntryAdds D) es pieces) :
    ∃ ps, List.Forall₂ HasPart es ps ∧
      ∀ declared : List String, (∀ name, name ∈ declared ↔ D name) →
        ps.map (Part.lines declared) = pieces := by
  induction h with
  | nil => exact ⟨[], .nil, fun _ _ => rfl⟩
  | cons hadds _ ih =>
    obtain ⟨key, value, hm, hadds⟩ := hadds
    obtain ⟨p, hp, hlines⟩ := exists_part_of_adds hadds
    obtain ⟨ps, hps, hrest⟩ := ih
    refine ⟨p :: ps, .cons ⟨key, value, hm, hp⟩ hps, fun declared hD => ?_⟩
    rw [List.map_cons, hlines declared hD, hrest declared hD]

/-- The arguments of a call give these lines: each entry in the row adds its own. -/
def CallAdds (call : Json) (ls : List Line) : Prop :=
  ∃ arguments es pieces, HasArguments call arguments ∧ Holds arguments es ∧
    List.Forall₂ (EntryAdds (Declared es)) es pieces ∧ ls = pieces.flatten

theorem callAdds_iff {site : CallSite} :
    CallAdds site.node ls ↔ ∃ ps, Outline.callParts site = .ok ps ∧ lines ps = ls := by
  unfold CallAdds Outline.callParts
  simp only [bind_eq_ok, hasArguments_iff, holds_iff, lines]
  refine ⟨fun h => ?_, fun h => ?_⟩
  · obtain ⟨arguments, es, pieces, ha, rfl, hadds, rfl⟩ := h
    obtain ⟨ps, hps, hpieces⟩ := exists_parts_of_entryAdds hadds
    refine ⟨ps, ⟨arguments, ha, parts_eq_ok.2 hps⟩, ?_⟩
    rw [← hpieces _ fun name => declared_iff hps, List.flatMap_def (f := Part.lines _)]
  · obtain ⟨ps, ⟨arguments, ha, hps⟩, rfl⟩ := h
    have hps := parts_eq_ok.1 hps
    refine ⟨arguments, _, _, ha, rfl, forall₂_entryAdds (fun name => declared_iff hps) hps, ?_⟩
    rw [List.flatMap_def (f := Part.lines _)]

end TreeOutline.ClassBody

namespace TreeOutline.Outline

open ClassBody Definition Node Traversal
open Recognizer (Table)

variable {table : Table} {root : Json} {ds : List Definition} {d : Definition} {name : String}
  {site : CallSite}

theorem exists_callee_of_init {call : Json} (h : init table call = .classCall site) :
    ∃ scope member, callee? call = some (scope, member) ∧ site = ⟨scope ++ "." ++ member, call⟩ := by
  unfold init at h
  split at h
  · cases h
  · next scope member hcallee =>
    refine ⟨scope, member, hcallee, ?_⟩
    dsimp only at h
    split at h
    · exact (Init.classCall.inj h).symm
    · cases h
    · cases h

theorem DeclaresClass.exists_call (hc : DeclaresClass table d.node name site) :
    ∃ declarator scope member, Declares d.node declarator name ∧
      declarator.get? "init" = some site.node ∧ callee? site.node = some (scope, member) ∧
      site.callee = scope ++ "." ++ member := by
  obtain ⟨-, declarator, call, hd, hcall, hinit⟩ := hc
  obtain ⟨scope, member, hcallee, rfl⟩ := exists_callee_of_init hinit
  exact ⟨declarator, scope, member, hd, hcall, hcallee, rfl⟩

theorem classLines_of_declaresClass (hc : DeclaresClass table d.node name site)
    (hname : d.name = some name) :
    classLines table d = (callParts site).map fun parts => .header name :: ClassBody.lines parts := by
  rw [← definitionLines_class (o := ⟨table, true⟩) hc]
  unfold definitionLines classLines
  rw [hname]

/-- A collected class has the recognized call that it was told by. -/
theorem exists_declaresClass (hds : collect table root = .ok ds) (hd : d ∈ ds)
    (hk : d.kind = .classDeclaration) :
    ∃ name site, DeclaresClass table d.node name site ∧ d.name = some name := by
  obtain ⟨s, -, hs⟩ := exists_of_mem_right (ofStatements_eq_ok.1 hds) hd
  obtain ⟨name, site, hc, rfl⟩ := makes_class_iff.1 ⟨hs, hk⟩
  exact ⟨name, site, hc, rfl⟩

/-- The lines of a collected class are its header and what the entries of its call add, one after the
other. -/
theorem classLines_exact (hds : collect table root = .ok ds) (hd : d ∈ ds)
    (hk : d.kind = .classDeclaration) :
    ∃ declarator name call, Declares d.node declarator name ∧ d.name = some name ∧
      declarator.get? "init" = some call ∧
      ∀ ls, classLines table d = .ok ls ↔ ∃ rest, CallAdds call rest ∧ ls = .header name :: rest := by
  obtain ⟨name, site, hc, hname⟩ := exists_declaresClass hds hd hk
  obtain ⟨declarator, -, -, hdecl, hcall, -, -⟩ := hc.exists_call
  refine ⟨declarator, name, site.node, hdecl, hname, hcall, fun ls => ?_⟩
  rw [classLines_of_declaresClass hc hname, map_eq_ok]
  simp only [callAdds_iff]
  refine ⟨fun h => ?_, fun h => ?_⟩
  · obtain ⟨ps, hps, rfl⟩ := h
    exact ⟨_, ⟨ps, hps, rfl⟩, rfl⟩
  · obtain ⟨_, ⟨ps, hps, rfl⟩, rfl⟩ := h
    exact ⟨ps, hps, rfl⟩

/-- A class whose second object declares what a method of the first one serves. -/
def splitCall : Json :=
  langDeclaration "Class" "Card" (.array
    [.object [("properties", .array
      [objectEntry "page_number" [("type", .string "FunctionExpression")],
        objectEntry "Extends" [("type", .string "MemberExpression"),
          ("object", .object [("name", .string "Gtk")]),
          ("property", .object [("name", .string "Box")])],
        objectEntry "WIDTH" [("type", .string "Literal")]])],
      .null,
      .object [("properties", .array
        [objectEntry "Properties" [("properties", .array [objectEntry "page-number" []])]])]])

theorem classLines_splitCall :
    (collect .standard (Module.ofBody [splitCall]).root =
        .ok [⟨.classDeclaration, some "Card", splitCall⟩] ∧
      classLines .standard ⟨.classDeclaration, some "Card", splitCall⟩ =
        .ok [.header "Card", .metadata "Extends" "Gtk.Box", .constant "WIDTH",
          .property "page-number"]) ∧
    ∃ call, CallAdds call
      [.metadata "Extends" "Gtk.Box", .constant "WIDTH", .property "page-number"] := by
  have hds : collect .standard (Module.ofBody [splitCall]).root =
      .ok [⟨.classDeclaration, some "Card", splitCall⟩] := rfl
  have hls : classLines .standard ⟨.classDeclaration, some "Card", splitCall⟩ =
      .ok [.header "Card", .metadata "Extends" "Gtk.Box", .constant "WIDTH",
        .property "page-number"] := rfl
  obtain ⟨-, name, call, -, -, -, h⟩ := classLines_exact hds (List.mem_singleton_self _) rfl
  obtain ⟨rest, hrest, hcons⟩ := (h _).1 hls
  obtain ⟨-, rfl⟩ := List.cons.inj hcons
  exact ⟨⟨hds, hls⟩, call, hrest⟩

end TreeOutline.Outline
