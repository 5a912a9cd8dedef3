import TreeOutline.Json.Parser
import TreeOutline.Json.Printer

/-!
Written JSON values read back. Reading skips the blanks that a layout puts between the pieces of a
value, and it takes at most three steps for each character, so the fuel of `document` is enough. A
value reads back as it was, but for the members of objects, which come sorted by key.
-/

namespace TreeOutline.Json

mutual

/-- The value as a reader gives it, with the members of all objects sorted. -/
def sorted : Json → Json
  | .null => .null
  | .bool b => .bool b
  | .number n => .number n
  | .string s => .string s
  | .array items => .array (sortedItems items)
  | .object members => ofMembers (sortedMembers members)

def sortedItems : List Json → List Json
  | [] => []
  | v :: vs => sorted v :: sortedItems vs

def sortedMembers : List (String × Json) → List (String × Json)
  | [] => []
  | (key, v) :: rest => (key, sorted v) :: sortedMembers rest

end

@[simp] theorem sorted_null : sorted .null = .null := rfl

@[simp] theorem sorted_bool (b : Bool) : sorted (.bool b) = .bool b := rfl

@[simp] theorem sorted_string (s : String) : sorted (.string s) = .string s := rfl

@[simp] theorem sorted_array (items : List Json) :
    sorted (.array items) = .array (sortedItems items) := rfl

/-- A value without numbers in which at most `room` brackets are open at one place. -/
inductive Readable : Nat → Json → Prop
  | null {room : Nat} : Readable room .null
  | bool {room : Nat} {b : Bool} : Readable room (.bool b)
  | string {room : Nat} {s : String} : Readable room (.string s)
  | array {room : Nat} {items : List Json} (h : ∀ v ∈ items, Readable room v) :
    Readable (room + 1) (.array items)
  | object {room : Nat} {members : List (String × Json)} (h : ∀ m ∈ members, Readable room m.2) :
    Readable (room + 1) (.object members)

/-- A layout that puts nothing but blanks between the pieces of a value. -/
structure Layout.Blank (l : Layout) : Prop where
  line : ∀ depth, ∀ c ∈ l.line depth, isBlank c = true
  afterColon : ∀ c ∈ l.afterColon, isBlank c = true

theorem blank_pretty : Layout.pretty.Blank := by
  refine ⟨fun depth c hc => ?_, List.forall_mem_singleton.2 rfl⟩
  rcases List.mem_cons.1 hc with rfl | hc
  · decide
  · rw [List.eq_of_mem_replicate hc]
    decide

/-! ## Blanks -/

theorem skipBlanks_append {bs : List Char} (h : ∀ c ∈ bs, isBlank c = true) (s : List Char) :
    skipBlanks (bs ++ s) = skipBlanks s :=
  List.dropWhile_append_of_pos h

theorem skipBlanks_cons {c : Char} (h : isBlank c = false) (cs : List Char) :
    skipBlanks (c :: cs) = c :: cs :=
  List.dropWhile_cons_of_neg (by simp [h])

/-- The first character of a value is no blank and ends no list. -/
theorem write_eq_cons {room : Nat} {v : Json} (h : Readable room v) (l : Layout) (depth : Nat) :
    ∃ c cs, write l depth v = c :: cs ∧ isBlank c = false ∧ c ≠ ']' := by
  cases h with
  | null => exact ⟨_, _, rfl, by decide, by decide⟩
  | @bool _ b => cases b <;> exact ⟨_, _, rfl, by decide, by decide⟩
  | string => exact ⟨_, _, rfl, by decide, by decide⟩
  | @array _ items => cases items <;> exact ⟨_, _, rfl, by decide, by decide⟩
  | @object _ members => cases members <;> exact ⟨_, _, rfl, by decide, by decide⟩

/-! ## Steps of the reader -/

variable {fuel room : Nat} {first : Bool} {c : Char} {s cs rest rest' : List Char} {v : Json}
  {vs : List Json} {ms : List (String × Json)} {key : String}

theorem value_skip {bs : List Char} (h : ∀ c ∈ bs, isBlank c = true) (s : List Char) :
    value fuel room (bs ++ s) = value fuel room s := by
  cases fuel with
  | zero => simp only [value]
  | succ fuel => simp only [value, skipBlanks_append h]

theorem value_string (h : stringBody 0 [] cs = .ok (key, rest)) :
    value (fuel + 1) room ('\x22' :: cs) = .ok (.string key, rest) := by
  simp [value, skipBlanks_cons (c := '\x22') (by decide), h, Char.isDigit]

theorem value_array (h : items fuel room true cs = .ok (vs, rest)) :
    value (fuel + 1) (room + 1) ('[' :: cs) = .ok (.array vs, rest) := by
  simp [value, skipBlanks_cons (c := '[') (by decide), h, Char.isDigit]

theorem value_object (h : members fuel room true cs = .ok (ms, rest)) :
    value (fuel + 1) (room + 1) ('\x7b' :: cs) = .ok (ofMembers ms, rest) := by
  simp [value, skipBlanks_cons (c := '\x7b') (by decide), h, Char.isDigit]

theorem items_end (h : skipBlanks s = ']' :: cs) :
    items (fuel + 1) room first s = .ok ([], cs) := by
  simp [items, h]

theorem items_first (h : skipBlanks s = c :: cs) (hc : c ≠ ']') :
    items (fuel + 1) room true s = item fuel room (c :: cs) := by
  simp [items, h, hc]

theorem items_next (h : skipBlanks s = ',' :: rest) (hrest : skipBlanks rest = c :: cs)
    (hc : c ≠ ']') : items (fuel + 1) room false s = item fuel room (c :: cs) := by
  simp [items, h, hrest, hc]

theorem item_eq_ok (hv : value fuel room s = .ok (v, rest))
    (hvs : items fuel room false rest = .ok (vs, rest')) :
    item (fuel + 1) room s = .ok (v :: vs, rest') := by
  simp [item, hv, hvs]

theorem members_end (h : skipBlanks s = '\x7d' :: cs) :
    members (fuel + 1) room first s = .ok ([], cs) := by
  simp [members, h]

theorem members_first (h : skipBlanks s = '\x22' :: cs) :
    members (fuel + 1) room true s = member fuel room cs := by
  simp [members, h]

theorem members_next (h : skipBlanks s = ',' :: rest) (hrest : skipBlanks rest = '\x22' :: cs) :
    members (fuel + 1) room false s = member fuel room cs := by
  simp [members, h, hrest]

theorem member_eq_ok (hkey : stringBody 0 [] s = .ok (key, ':' :: cs))
    (hv : value fuel room cs = .ok (v, rest))
    (hms : members fuel room false rest = .ok (ms, rest')) :
    member (fuel + 1) room s = .ok ((key, v) :: ms, rest') := by
  simp [member, hkey, colon, skipBlanks_cons (c := ':') (by decide), hv, hms]

/-! ## Values -/

variable {l : Layout}

/-- The text of the value reads back, at any depth and whatever follows. -/
def ReadsBack (l : Layout) (room : Nat) (v : Json) : Prop :=
  ∀ depth fuel rest, 3 * (write l depth v).length ≤ fuel →
    value fuel room (write l depth v ++ rest) = .ok (sorted v, rest)

theorem item_write (hread : Readable room v) (hv : ReadsBack l room v) (depth fuel : Nat)
    (hfuel : 3 * (write l depth v).length ≤ fuel)
    (hvs : items fuel room false rest = .ok (vs, rest')) :
    ∃ c cs, write l depth v ++ rest = c :: cs ∧ isBlank c = false ∧ c ≠ ']' ∧
      item (fuel + 1) room (c :: cs) = .ok (sorted v :: vs, rest') := by
  obtain ⟨c, cs, hwrite, hc, hend⟩ := write_eq_cons hread l depth
  have hvalue := hv depth fuel rest hfuel
  rw [hwrite, List.cons_append] at hvalue
  exact ⟨c, cs ++ rest, by rw [hwrite]; rfl, hc, hend, item_eq_ok hvalue hvs⟩

theorem items_writeItems (hl : l.Blank) (hv : ∀ v ∈ vs, Readable room v ∧ ReadsBack l room v)
    {bs : List Char} (hbs : ∀ c ∈ bs, isBlank c = true) (depth fuel : Nat) (rest : List Char)
    (hfuel : 3 * (writeItems l depth vs).length + 1 ≤ fuel) :
    items fuel room false (writeItems l depth vs ++ (bs ++ ']' :: rest)) =
      .ok (sortedItems vs, rest) := by
  induction vs generalizing fuel with
  | nil =>
    obtain ⟨fuel, rfl⟩ := Nat.exists_eq_add_of_le' (by omega : 1 ≤ fuel)
    refine items_end ?_
    rw [writeItems, List.nil_append, skipBlanks_append hbs, skipBlanks_cons (by decide)]
  | cons v vs ih =>
    simp only [writeItems, List.length_cons, List.length_append] at hfuel
    obtain ⟨fuel, rfl⟩ := Nat.exists_eq_add_of_le' (by omega : 2 ≤ fuel)
    obtain ⟨hread, hback⟩ := hv v List.mem_cons_self
    have hrest := ih (fun w hw => hv w (List.mem_cons_of_mem _ hw)) fuel (by omega)
    obtain ⟨c, cs, hcs, hc, hend, hitem⟩ := item_write hread hback depth fuel (by omega) hrest
    simp only [writeItems, List.cons_append, List.append_assoc]
    rw [hcs, items_next (skipBlanks_cons (by decide) _) ?_ hend, hitem]
    · rfl
    · rw [skipBlanks_append (hl.line depth), skipBlanks_cons hc]

theorem quoted_append (key : String) (rest : List Char) :
    quoted key ++ rest = '\x22' :: (key.toList.flatMap escaped ++ '\x22' :: rest) := by
  simp [quoted]

theorem stringBody_key (key : String) (rest : List Char) :
    stringBody 0 [] (key.toList.flatMap escaped ++ '\x22' :: rest) = .ok (key, rest) := by
  rw [stringBody_quoted]
  simp

theorem member_writeMember (hl : l.Blank) {m : String × Json} (hv : ReadsBack l room m.2)
    (depth fuel : Nat) (hfuel : 3 * (writeMember l depth m).length ≤ fuel + 1)
    (hms : members fuel room false rest = .ok (ms, rest')) :
    ∃ cs, writeMember l depth m ++ rest = '\x22' :: cs ∧
      member (fuel + 1) room cs = .ok ((m.1, sorted m.2) :: ms, rest') := by
  obtain ⟨key, v⟩ := m
  have hvalue : ReadsBack l room v := hv
  simp only [writeMember, quoted, List.length_cons, List.length_append] at hfuel
  refine ⟨_, by rw [writeMember, List.append_assoc, quoted_append], ?_⟩
  rw [List.cons_append, List.append_assoc]
  refine member_eq_ok (stringBody_key key _) ?_ hms
  rw [value_skip hl.afterColon]
  exact hvalue depth fuel rest (by omega)

theorem members_writeMembers (hl : l.Blank) (hv : ∀ m ∈ ms, ReadsBack l room m.2)
    {bs : List Char} (hbs : ∀ c ∈ bs, isBlank c = true) (depth fuel : Nat) (rest : List Char)
    (hfuel : 3 * (writeMembers l depth ms).length + 1 ≤ fuel) :
    members fuel room false (writeMembers l depth ms ++ (bs ++ '\x7d' :: rest)) =
      .ok (sortedMembers ms, rest) := by
  induction ms generalizing fuel with
  | nil =>
    obtain ⟨fuel, rfl⟩ := Nat.exists_eq_add_of_le' (by omega : 1 ≤ fuel)
    refine members_end ?_
    rw [writeMembers, List.nil_append, skipBlanks_append hbs, skipBlanks_cons (by decide)]
  | cons m ms ih =>
    simp only [writeMembers, List.length_cons, List.length_append] at hfuel
    obtain ⟨fuel, rfl⟩ := Nat.exists_eq_add_of_le' (by omega : 2 ≤ fuel)
    have hrest := ih (fun w hw => hv w (List.mem_cons_of_mem _ hw)) fuel (by omega)
    obtain ⟨cs, hcs, hmember⟩ :=
      member_writeMember hl (hv m List.mem_cons_self) depth fuel (by omega) hrest
    simp only [writeMembers, List.cons_append, List.append_assoc]
    rw [hcs, members_next (skipBlanks_cons (by decide) _) ?_, hmember]
    · rfl
    · rw [skipBlanks_append (hl.line depth), skipBlanks_cons (by decide)]

theorem readsBack_array (hl : l.Blank) (hv : ∀ v ∈ vs, Readable room v ∧ ReadsBack l room v) :
    ReadsBack l (room + 1) (.array vs) := by
  intro depth fuel rest hfuel
  cases vs with
  | nil =>
    simp only [write, List.length_cons, List.length_nil] at hfuel
    obtain ⟨fuel, rfl⟩ := Nat.exists_eq_add_of_le' (by omega : 2 ≤ fuel)
    exact value_array (items_end (skipBlanks_cons (by decide) _))
  | cons v vs =>
    simp only [write, List.length_cons, List.length_append] at hfuel
    obtain ⟨fuel, rfl⟩ := Nat.exists_eq_add_of_le' (by omega : 3 ≤ fuel)
    obtain ⟨hread, hback⟩ := hv v List.mem_cons_self
    have hrest := items_writeItems hl (fun w hw => hv w (List.mem_cons_of_mem _ hw)) (hl.line depth)
      (depth + 1) fuel rest (by omega)
    obtain ⟨c, cs, hcs, hc, hend, hitem⟩ :=
      item_write hread hback (depth + 1) fuel (by omega) hrest
    simp only [write, List.cons_append, List.append_assoc, List.nil_append]
    refine value_array ?_
    rw [hcs, items_first ?_ hend, hitem]
    · rfl
    · rw [skipBlanks_append (hl.line (depth + 1)), skipBlanks_cons hc]

theorem readsBack_object (hl : l.Blank) (hv : ∀ m ∈ ms, ReadsBack l room m.2) :
    ReadsBack l (room + 1) (.object ms) := by
  intro depth fuel rest hfuel
  cases ms with
  | nil =>
    simp only [write, List.length_cons, List.length_nil] at hfuel
    obtain ⟨fuel, rfl⟩ := Nat.exists_eq_add_of_le' (by omega : 2 ≤ fuel)
    exact value_object (members_end (skipBlanks_cons (by decide) _))
  | cons m ms =>
    simp only [write, List.length_cons, List.length_append] at hfuel
    obtain ⟨fuel, rfl⟩ := Nat.exists_eq_add_of_le' (by omega : 3 ≤ fuel)
    have hrest := members_writeMembers hl (fun w hw => hv w (List.mem_cons_of_mem _ hw))
      (hl.line depth) (depth + 1) fuel rest (by omega)
    obtain ⟨cs, hcs, hmember⟩ :=
      member_writeMember hl (hv m List.mem_cons_self) (depth + 1) fuel (by omega) hrest
    simp only [write, List.cons_append, List.append_assoc, List.nil_append]
    refine value_object ?_
    rw [hcs, members_first ?_, hmember]
    · rfl
    · rw [skipBlanks_append (hl.line (depth + 1)), skipBlanks_cons (by decide)]

/-- A written value is never empty, so there are at least three steps for it. -/
theorem ReadsBack.of_steps (h : Readable room v)
    (hv : ∀ depth fuel rest,
      value (fuel + 3) room (write l depth v ++ rest) = .ok (sorted v, rest)) :
    ReadsBack l room v := by
  intro depth fuel rest hfuel
  obtain ⟨c, cs, hwrite, -⟩ := write_eq_cons h l depth
  have hlength : (write l depth v).length = cs.length + 1 := by rw [hwrite, List.length_cons]
  obtain ⟨fuel, rfl⟩ := Nat.exists_eq_add_of_le' (by omega : 3 ≤ fuel)
  exact hv depth fuel rest

theorem readsBack_of_readable (hl : l.Blank) (h : Readable room v) : ReadsBack l room v := by
  induction h with
  | null =>
    refine .of_steps .null fun depth fuel rest => ?_
    simp [write, value, skipBlanks_cons (c := 'n') (by decide), word]
  | @bool _ b =>
    refine .of_steps .bool fun depth fuel rest => ?_
    cases b with
    | true => simp [write, value, skipBlanks_cons (c := 't') (by decide), word]
    | false => simp [write, value, skipBlanks_cons (c := 'f') (by decide), word]
  | @string _ s =>
    refine .of_steps .string fun depth fuel rest => ?_
    rw [write, quoted_append]
    exact value_string (stringBody_key s rest)
  | array h ih => exact readsBack_array hl fun v hv => ⟨h v hv, ih v hv⟩
  | object _ ih => exact readsBack_object hl ih

/-- Reading gives back what was written in any blank layout. -/
theorem parse_write (hl : l.Blank) (h : Readable maxDepth v) :
    parse (String.ofList (write l 0 v)) = .ok (sorted v) := by
  have hread := readsBack_of_readable hl h 0 (enoughFuel (write l 0 v)) [] (by
    rw [enoughFuel]
    omega)
  rw [List.append_nil] at hread
  simp [parse, document, hread, skipBlanks]

end TreeOutline.Json
