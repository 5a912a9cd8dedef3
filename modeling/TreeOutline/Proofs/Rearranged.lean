import Mathlib.Data.List.Perm.Basic
import TreeOutline.Proofs.ClassFault

/-!
Classes with the same entries in another arrangement. What an entry adds to a class depends on the
others only through the names that they declare, and these form a set. So entries may change their
order, and may stand in any of the arguments of the call: the class has an outline as before, its
lines below the header change their order at most, and not even that where the entries stand in the
same row (`classLines_rearranged`).
-/

namespace TreeOutline.ClassBody

open Node Traversal

/-- The object literals among the arguments of the call hold these entries, one after another. -/
def CallHolds (call : Json) (es : List Json) : Prop :=
  ∃ arguments, HasArguments call arguments ∧ Holds arguments es

/-- Two calls hold entries that are related, or neither has its arguments in a list. -/
inductive Rearranged (R : List Json → List Json → Prop) (call call' : Json) : Prop
  | held {es es' : List Json} (h : CallHolds call es) (h' : CallHolds call' es') (hes : R es es')
  | unlisted {v v' : Json} (h : call.get? "arguments" = some v) (hv : ∀ items, v ≠ .array items)
    (h' : call'.get? "arguments" = some v') (hv' : ∀ items, v' ≠ .array items)

/-! ## Lines -/

variable {declared declared' : List String} {ps ps' : List Part}

theorem isDeclared_congr (h : ∀ name, name ∈ declared ↔ name ∈ declared') (key : String) :
    isDeclared declared key = isDeclared declared' key := by
  rw [Bool.eq_iff_iff, isDeclared_iff h, isDeclared_iff fun _ => Iff.rfl]

/-- Only which names are declared counts, not where or how often. -/
theorem partLines_congr (h : ∀ name, name ∈ declared ↔ name ∈ declared') (p : Part) :
    p.lines declared = p.lines declared' := by
  cases p with
  | metadata key value => cases value <;> rfl
  | declared names => rfl
  | plain key s => rw [lines_plain, lines_plain, isDeclared_congr h]

theorem lines_perm (h : ps.Perm ps') : (lines ps).Perm (lines ps') := by
  have hnames : (ps.flatMap Part.names).Perm (ps'.flatMap Part.names) := h.flatMap_right _
  have hlines : Part.lines (ps.flatMap Part.names) = Part.lines (ps'.flatMap Part.names) :=
    funext fun p => partLines_congr (fun _ => hnames.mem_iff) p
  unfold lines
  rw [hlines]
  exact h.flatMap_right _

/-! ## Parts -/

variable {arguments arguments' es es' : List Json} {site site' : CallSite}

theorem parts_congr (h : entries arguments = entries arguments') :
    parts arguments = parts arguments' := by
  unfold parts
  rw [h]

theorem parts_perm (h : (entries arguments).Perm (entries arguments'))
    (hps : parts arguments = .ok ps) : ∃ ps', parts arguments' = .ok ps' ∧ ps.Perm ps' := by
  obtain ⟨ps', hps', hperm⟩ := List.perm_comp_forall₂ h.symm (parts_eq_ok.1 hps)
  exact ⟨ps', parts_eq_ok.2 hps', hperm.symm⟩

theorem CallHolds.exists_parts (h : CallHolds site.node es) :
    ∃ arguments, Outline.callParts site = parts arguments ∧ entries arguments = es := by
  obtain ⟨arguments, ha, hes⟩ := h
  refine ⟨arguments, ?_, holds_iff.1 hes⟩
  rw [Outline.callParts, hasArguments_iff.1 ha]
  rfl

theorem callParts_of_unlisted {v : Json} (h : site.node.get? "arguments" = some v)
    (hv : ∀ items, v ≠ .array items) :
    Outline.callParts site = .error (.wrongType "arguments" (site.callee ++ " call") "an array") :=
  bind_eq_error.2 (.inl (callArguments_eq_error.2 ⟨v, h, hv, rfl⟩))

theorem callParts_congr (hcallee : site.callee = site'.callee)
    (h : Rearranged Eq site.node site'.node) :
    Outline.callParts site = Outline.callParts site' := by
  cases h with
  | held h h' hes =>
    obtain ⟨arguments, hparts, rfl⟩ := h.exists_parts
    obtain ⟨arguments', hparts', rfl⟩ := h'.exists_parts
    rw [hparts, hparts', parts_congr hes]
  | unlisted h hv h' hv' =>
    rw [callParts_of_unlisted h hv, callParts_of_unlisted h' hv', hcallee]

theorem callParts_perm (h : Rearranged List.Perm site.node site'.node)
    (hps : Outline.callParts site = .ok ps) :
    ∃ ps', Outline.callParts site' = .ok ps' ∧ ps.Perm ps' := by
  cases h with
  | held h h' hes =>
    obtain ⟨arguments, hparts, rfl⟩ := h.exists_parts
    obtain ⟨arguments', hparts', rfl⟩ := h'.exists_parts
    rw [hparts] at hps
    rw [hparts']
    exact parts_perm hes hps
  | unlisted h hv =>
    rw [callParts_of_unlisted h hv] at hps
    cases hps

theorem Rearranged.symm {call call' : Json} (h : Rearranged List.Perm call call') :
    Rearranged List.Perm call' call := by
  cases h with
  | held h h' hes => exact .held h' h hes.symm
  | unlisted h hv h' hv' => exact .unlisted h' hv' h hv

end TreeOutline.ClassBody

namespace TreeOutline.Outline

open ClassBody Definition Node Traversal
open Recognizer (Table)

/-- The definition is one of the class `name`, which the recognized call `site` declares. -/
def DefinesClass (table : Table) (d : Definition) (name : String) (site : CallSite) : Prop :=
  ∃ declarator later scope member,
    d.node.get? "declarations" = some (.array (declarator :: later)) ∧
    (d.name = some name ∨ d.name = none ∧ Declares d.node declarator name) ∧
    declarator.get? "init" = some site.node ∧ callee? site.node = some (scope, member) ∧
    site.callee = scope ++ "." ++ member ∧ table.lookup scope member = some .classCall

variable {table table' : Table} {d d' : Definition} {name : String} {site site' : CallSite}

theorem classLines_of_definesClass (hc : DefinesClass table d name site) :
    classLines table d = (callParts site).map fun parts => .header name :: ClassBody.lines parts := by
  obtain ⟨declarator, later, scope, member, hd, hname, hcall, hcallee, hsite, hkind⟩ := hc
  have hinit : declaratorInit table declarator = .classCall site := by
    obtain ⟨callee, call⟩ := site
    dsimp only at hcall hcallee hsite
    simp [declaratorInit, hcall, init, hcallee, hkind, hsite]
  rw [classLines_eq, firstDeclarator_eq_ok.2 ⟨later, hd⟩]
  change (_ >>= fun name => initLines name (declaratorInit table declarator)) = _
  rw [hinit]
  rcases hname with hname | ⟨hname, hdeclares⟩
  · rw [hname]
    rfl
  · rw [hname]
    change (declaratorName declarator >>= _) = _
    rw [(declares_iff.1 hdeclares).2]
    rfl

/-- Two classes of one name, whose calls have the same callee and hold the same entries in any
arrangement, both have lines or both have none. The lines are the same but for their order below the
header, and the outlines are equal if the entries come in the same order. -/
theorem classLines_rearranged (hc : DefinesClass table d name site)
    (hc' : DefinesClass table' d' name site') (hcallee : site.callee = site'.callee)
    (h : Rearranged List.Perm site.node site'.node) :
    ((∃ ls, classLines table d = .ok ls) ↔ ∃ ls', classLines table' d' = .ok ls') ∧
    (∀ ls ls', classLines table d = .ok ls → classLines table' d' = .ok ls' →
      ∃ rest rest', ls = .header name :: rest ∧ ls' = .header name :: rest' ∧ rest.Perm rest') ∧
    (Rearranged Eq site.node site'.node → classLines table d = classLines table' d') := by
  rw [classLines_of_definesClass hc, classLines_of_definesClass hc']
  simp only [exists_map_eq_ok]
  -- the order decides which error is met first, so only what has an outline is carried over
  refine ⟨⟨?_, ?_⟩, ?_, ?_⟩
  · rintro ⟨ps, hps⟩
    obtain ⟨ps', hps', -⟩ := callParts_perm h hps
    exact ⟨ps', hps'⟩
  · rintro ⟨ps', hps'⟩
    obtain ⟨ps, hps, -⟩ := callParts_perm h.symm hps'
    exact ⟨ps, hps⟩
  · intro ls ls' hls hls'
    obtain ⟨ps, hps, rfl⟩ := map_eq_ok.1 hls
    obtain ⟨ps', hps', rfl⟩ := map_eq_ok.1 hls'
    obtain ⟨qs, hqs, hperm⟩ := callParts_perm h hps
    obtain rfl : ps' = qs := Except.ok.inj (hps'.symm.trans hqs)
    exact ⟨_, _, rfl, rfl, lines_perm hperm⟩
  · intro heq
    rw [callParts_congr hcallee heq]

/-- The recognized call of a class with these arguments. -/
def langSite (arguments : Json) : CallSite :=
  ⟨"Lang.Class", .object [("callee", .object [("object", .object [("name", .string "Lang")]),
    ("property", .object [("name", .string "Class")])]), ("arguments", arguments)]⟩

theorem definesClass_langDeclaration (name : String) (arguments : Json) :
    DefinesClass .standard ⟨.classDeclaration, some name, langDeclaration "Class" name arguments⟩
      name (langSite arguments) :=
  ⟨_, _, "Lang", "Class", rfl, .inl rfl, rfl, rfl, rfl, rfl⟩

/-- The class of `splitCall` with its entries from the last one to the first, and none of them in an
argument where it was. -/
def turnedCall : Json :=
  langDeclaration "Class" "Card" (.array
    [.object [("properties", .array
      [objectEntry "Properties" [("properties", .array [objectEntry "page-number" []])],
        objectEntry "WIDTH" [("type", .string "Literal")]])],
      .object [("properties", .array
        [objectEntry "Extends" [("type", .string "MemberExpression"),
          ("object", .object [("name", .string "Gtk")]),
          ("property", .object [("name", .string "Box")])],
          objectEntry "page_number" [("type", .string "FunctionExpression")]])]])

theorem classLines_turnedCall :
    classLines .standard ⟨.classDeclaration, some "Card", splitCall⟩ =
      .ok [.header "Card", .metadata "Extends" "Gtk.Box", .constant "WIDTH",
        .property "page-number"] ∧
    ∃ rest, classLines .standard ⟨.classDeclaration, some "Card", turnedCall⟩ =
        .ok (.header "Card" :: rest) ∧
      List.Perm [.metadata "Extends" "Gtk.Box", .constant "WIDTH", .property "page-number"] rest := by
  have hls : classLines .standard ⟨.classDeclaration, some "Card", splitCall⟩ =
      .ok [.header "Card", .metadata "Extends" "Gtk.Box", .constant "WIDTH",
        .property "page-number"] := rfl
  have hnull (es : List Json) : Json.null.get? "properties" ≠ some (.array es) := by
    intro h
    cases h
  have hc : DefinesClass .standard ⟨.classDeclaration, some "Card", splitCall⟩ "Card" _ :=
    definesClass_langDeclaration "Card" _
  have hc' : DefinesClass .standard ⟨.classDeclaration, some "Card", turnedCall⟩ "Card" _ :=
    definesClass_langDeclaration "Card" _
  obtain ⟨hsome, hperm, -⟩ := classLines_rearranged hc hc' rfl
    (.held ⟨_, .list rfl, .object rfl (.other hnull (.object rfl .nil))⟩
      ⟨_, .list rfl, .object rfl (.object rfl .nil)⟩ (List.reverse_perm _).symm)
  obtain ⟨ls', hls'⟩ := hsome.1 ⟨_, hls⟩
  obtain ⟨rest, rest', hcons, rfl, hrest⟩ := hperm _ _ hls hls'
  obtain ⟨-, rfl⟩ := List.cons.inj hcons
  exact ⟨hls, rest', hls', hrest⟩

end TreeOutline.Outline
