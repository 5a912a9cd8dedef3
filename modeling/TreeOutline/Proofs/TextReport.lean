import TreeOutline.Outline.ClassBody
import TreeOutline.Proofs.Cut
import TreeOutline.Render.Text

/-!
What a text report tells. The blanks that a line starts with tell its depth, for no name at the
margin starts with one and what stands deeper starts with a word; at each depth the words tell the
kind of line. Lines are never empty, so the empty rows of a report of several modules are those
between its blocks.
-/

namespace TreeOutline

open Text

/-- What ends the line of a definition that has no outline. -/
def unsupportedMark (kind : DefinitionKind) : String :=
  "(unsupported " ++ kind.label ++ ")"

/-- A line whose text can be told from that of any other. -/
def Line.Plain : Line → Prop
  | .header name => '\n' ∉ name.toList ∧ name ≠ "" ∧ name.toList.head? ≠ some ' ' ∧
    ∀ kind, ¬ (unsupportedMark kind).toList <:+ name.toList
  | .metadata key value => key ∈ ClassBody.metadataKeys ∧ '\n' ∉ value.toList
  | .property name => '\n' ∉ name.toList
  | .constant name => '\n' ∉ name.toList
  | .method name => '\n' ∉ name.toList
  | .unsupported _ (some name) => '\n' ∉ name.toList ∧ name.toList.head? ≠ some ' '
  | .unsupported _ none => True

/-- A report of plain lines. Its path and its definitions are not in its text. -/
structure Report.Plain (r : Report) : Prop where
  moduleName : '\n' ∉ r.moduleName.toList
  lines : ∀ l ∈ r.lines, l.Plain

namespace Line

/-- The text of a line without its indentation. -/
def body : Line → String
  | .header name => name
  | .metadata key value => key ++ ": " ++ value
  | .property name => "prop: " ++ name
  | .constant name => "constant: " ++ name
  | .method name => "method: " ++ name
  | .unsupported kind (some name) => name ++ " " ++ unsupportedMark kind
  | .unsupported kind none => unsupportedMark kind

theorem text_eq (l : Line) : l.text = indent l.depth ++ l.body := by
  cases l with
  | unsupported kind name =>
    cases name with
    | none => rfl
    | some name =>
      -- the blank before the mark belongs to the mark in `text` and to the name in `body`
      refine congrArg (indent 0 ++ ·) (String.toList_injective ?_)
      simp [body, unsupportedMark]
  | _ => rfl

theorem text_toList (l : Line) :
    l.text.toList = List.replicate (4 * l.depth) ' ' ++ l.body.toList := by
  rw [text_eq, String.toList_append, indent, String.toList_ofList]

/-! ## Indentation -/

variable {l l' : Line}

theorem metadataKey_eq {key : String} (h : key ∈ ClassBody.metadataKeys) :
    key = "Name" ∨ key = "GTypeName" ∨ key = "Extends" ∨ key = "Implements" := by
  simpa [ClassBody.metadataKeys] using h

theorem takeWhile_eq_nil {s : List Char} (h : s.head? ≠ some ' ') :
    s.takeWhile (· = ' ') = [] := by
  cases s with
  | nil => rfl
  | cons c cs => simp_all

theorem length_takeWhile_body (h : l.Plain) :
    (l.body.toList.takeWhile (· = ' ')).length ≤ 1 := by
  cases l with
  | header name => simp [body, takeWhile_eq_nil h.2.2.1]
  | metadata key value =>
    rcases metadataKey_eq h.1 with rfl | rfl | rfl | rfl <;> simp [body]
  | unsupported kind name =>
    cases name with
    | none => simp [body, unsupportedMark]
    | some name =>
      cases hn : name.toList with
      | nil => simp [body, hn, unsupportedMark]
      | cons c cs =>
        have hc : c ≠ ' ' := by simpa [hn] using h.2
        simp [body, hn, hc]
  | _ => simp [body]

/-- There are four blanks for each depth, and less than four more. -/
theorem depth_eq_div (h : l.Plain) :
    l.depth = (l.text.toList.takeWhile (· = ' ')).length / 4 := by
  have hbody := length_takeWhile_body h
  rw [text_toList, List.takeWhile_append_of_pos (by simp), List.length_append,
    List.length_replicate]
  omega

theorem body_ne_empty (h : l.Plain) : l.body ≠ "" := by
  cases l with
  | header name => exact h.2.1
  | unsupported kind name => cases name <;> simp [body, unsupportedMark]
  | _ => simp [body]

theorem text_ne_empty (h : l.Plain) : l.text ≠ "" := by
  rw [text_eq]
  intro he
  exact body_ne_empty h (String.append_eq_empty_iff.1 he).2

theorem newline_notMem_text (h : l.Plain) : '\n' ∉ l.text.toList := by
  have hmark : ∀ kind, '\n' ∉ (unsupportedMark kind).toList := by
    intro kind
    cases kind <;> decide
  have hbody : '\n' ∉ l.body.toList := by
    cases l with
    | header name => exact h.1
    | metadata key value =>
      have hvalue : '\n' ∉ value.toList := h.2
      rcases metadataKey_eq h.1 with rfl | rfl | rfl | rfl <;> simp [body, hvalue]
    | unsupported kind name =>
      cases name with
      | none => exact hmark kind
      | some name =>
        have hname : '\n' ∉ name.toList := h.1
        simp [body, hname, hmark]
    | property name | constant name | method name =>
      have hname : '\n' ∉ name.toList := h
      simp [body, hname]
  rw [text_toList]
  simp [hbody]

/-! ## Lines of one depth -/

theorem mark_suffix_body (kind : DefinitionKind) (name : Option String) :
    (unsupportedMark kind).toList <:+ (unsupported kind name).body.toList := by
  cases name with
  | none => exact List.suffix_refl _
  | some name => exact ⟨(name ++ " ").toList, by rw [body, ← String.toList_append]⟩

theorem label_inj {kind kind' : DefinitionKind} (h : kind.label = kind'.label) : kind = kind' := by
  cases kind <;> cases kind' <;> simp_all [DefinitionKind.label]

/-- What stands before the mark of a line. -/
def beforeMark : Option String → List Char
  | some name => name.toList ++ [' ']
  | none => []

theorem body_unsupported (kind : DefinitionKind) (name : Option String) :
    (unsupported kind name).body.toList =
      beforeMark name ++ '(' :: ("unsupported " ++ kind.label ++ ")").toList := by
  cases name <;> simp [body, beforeMark, unsupportedMark]

theorem unsupported_inj {kind kind' : DefinitionKind} {name name' : Option String}
    (h : (unsupported kind name).body = (unsupported kind' name').body) :
    kind = kind' ∧ name = name' := by
  have hbracket : ∀ kind : DefinitionKind,
      '(' ∉ ("unsupported " ++ kind.label ++ ")").toList := by
    intro kind
    cases kind <;> decide
  have hchars := congrArg String.toList h
  rw [body_unsupported, body_unsupported] at hchars
  obtain ⟨hname, hkind⟩ := append_cons_inj_of_notMem_right (hbracket kind) (hbracket kind') hchars
  have hlabel : kind.label = kind'.label := by simpa [String.toList_inj] using hkind
  refine ⟨label_inj hlabel, ?_⟩
  cases name <;> cases name' <;> simp_all [beforeMark, String.toList_inj]

theorem metadata_inj {key key' value value' : String} (hk : key ∈ ClassBody.metadataKeys)
    (hk' : key' ∈ ClassBody.metadataKeys)
    (h : (metadata key value).body = (metadata key' value').body) :
    key = key' ∧ value = value' := by
  have hcolon : ∀ key ∈ ClassBody.metadataKeys, ':' ∉ key.toList := by decide
  have hchars := congrArg String.toList h
  simp only [body, String.toList_append, List.append_assoc] at hchars
  obtain ⟨hkey, hvalue⟩ := append_cons_inj_of_notMem_left (hcolon key hk) (hcolon key' hk') hchars
  exact ⟨String.toList_injective hkey, by simpa [String.toList_inj] using hvalue⟩

theorem eq_of_body_eq (hl : l.Plain) (hl' : l'.Plain) (hd : l.depth = l'.depth)
    (h : l.body = l'.body) : l = l' := by
  cases l with
  | header name =>
    cases l' with
    | header name' => exact congrArg header h
    | unsupported kind name' =>
      have hmark := mark_suffix_body kind name'
      rw [← h] at hmark
      exact absurd hmark (hl.2.2.2 kind)
    | _ => simp [depth] at hd
  | unsupported kind name =>
    cases l' with
    | header name' =>
      have hmark := mark_suffix_body kind name
      rw [h] at hmark
      exact absurd hmark (hl'.2.2.2 kind)
    | unsupported kind' name' =>
      obtain ⟨rfl, rfl⟩ := unsupported_inj h
      rfl
    | _ => simp [depth] at hd
  | metadata key value =>
    cases l' with
    | metadata key' value' =>
      obtain ⟨rfl, rfl⟩ := metadata_inj hl.1 hl'.1 h
      rfl
    | _ => simp [depth] at hd
  -- the three kinds of members start with different letters
  | property name =>
    cases l' with
    | property name' => simpa [body] using h
    | constant name' | method name' => exact absurd (congrArg String.toList h) (by simp [body])
    | _ => simp [depth] at hd
  | constant name =>
    cases l' with
    | constant name' => simpa [body] using h
    | property name' | method name' => exact absurd (congrArg String.toList h) (by simp [body])
    | _ => simp [depth] at hd
  | method name =>
    cases l' with
    | method name' => simpa [body] using h
    | property name' | constant name' => exact absurd (congrArg String.toList h) (by simp [body])
    | _ => simp [depth] at hd

/-- Plain lines are told apart by their texts. -/
theorem text_inj (hl : l.Plain) (hl' : l'.Plain) (h : l.text = l'.text) : l = l' := by
  have hd : l.depth = l'.depth := by rw [depth_eq_div hl, depth_eq_div hl', h]
  have hchars := congrArg String.toList h
  rw [text_toList, text_toList, hd] at hchars
  exact eq_of_body_eq hl hl' hd (String.toList_injective (List.append_cancel_left hchars))

end Line

/-! ## Reports of one module -/

/-- What the members of a list tell of themselves, the list tells too. -/
theorem map_eq_of_map_eq {α β γ : Type} {p : α → Prop} {f : α → β} {g : α → γ}
    (hfg : ∀ a b, p a → p b → f a = f b → g a = g b) {as bs : List α} (ha : ∀ a ∈ as, p a)
    (hb : ∀ b ∈ bs, p b) (h : as.map f = bs.map f) : as.map g = bs.map g := by
  induction as generalizing bs with
  | nil =>
    obtain rfl : bs = [] := List.map_eq_nil_iff.1 h.symm
    rfl
  | cons a as ih =>
    cases bs with
    | nil => cases h
    | cons b bs =>
      rw [List.forall_mem_cons] at ha hb
      obtain ⟨hhead, hrest⟩ := List.cons.inj h
      rw [List.map_cons, List.map_cons, hfg a b ha.1 hb.1 hhead, ih ha.2 hb.2 hrest]

namespace Report

variable {r r' : Report}

theorem lines_eq_of_map_text (hr : r.Plain) (hr' : r'.Plain)
    (h : r.lines.map Line.text = r'.lines.map Line.text) : r.lines = r'.lines := by
  have hid := map_eq_of_map_eq (g := id) (fun _ _ => Line.text_inj) hr.lines hr'.lines h
  rwa [List.map_id, List.map_id] at hid

theorem Plain.newline_notMem (hr : r.Plain) : ∀ row ∈ r.lines.map Line.text, '\n' ∉ row.toList :=
  List.forall_mem_map.2 fun l hl => Line.newline_notMem_text (hr.lines l hl)

theorem Plain.empty_notMem (hr : r.Plain) : "" ∉ r.lines.map Line.text := by
  intro hmem
  obtain ⟨l, hl, htext⟩ := List.mem_map.1 hmem
  exact Line.text_ne_empty (hr.lines l hl) htext

theorem lines_eq_of_text_eq (hr : r.Plain) (hr' : r'.Plain) (h : r.text = r'.text) :
    r.lines = r'.lines := by
  have htexts : r.lines.map Line.text = r'.lines.map Line.text := by
    refine join_newline_inj hr.newline_notMem hr'.newline_notMem ?_ ?_ h
    · exact fun hhead => hr.empty_notMem (List.mem_of_head? hhead)
    · exact fun hhead => hr'.empty_notMem (List.mem_of_head? hhead)
  exact lines_eq_of_map_text hr hr' htexts

/-! ## Reports of several modules -/

/-- The rows of a report under its heading. -/
def rows (r : Report) : List String :=
  ("# " ++ r.moduleName) :: r.lines.map Line.text

theorem rows_ne_nil (r : Report) : r.rows ≠ [] :=
  List.cons_ne_nil _ _

theorem block_eq (h : r.isEmpty = false) : r.block = join "\n" r.rows := by
  have hlines : r.lines.map Line.text ≠ [] := by
    simpa [isEmpty] using h
  unfold block rows text
  rw [← List.singleton_append, join_append _ (List.cons_ne_nil _ _) hlines]
  rfl

theorem Plain.newline_notMem_rows (hr : r.Plain) : ∀ row ∈ r.rows, '\n' ∉ row.toList := by
  rw [rows, List.forall_mem_cons]
  exact ⟨by simp [hr.moduleName], hr.newline_notMem⟩

theorem Plain.empty_notMem_rows (hr : r.Plain) : "" ∉ r.rows := by
  rw [rows, List.mem_cons, not_or]
  exact ⟨by simp, hr.empty_notMem⟩

theorem eq_of_rows_eq (hr : r.Plain) (hr' : r'.Plain) (h : r.rows = r'.rows) :
    (r.moduleName, r.lines) = (r'.moduleName, r'.lines) := by
  obtain ⟨hname, hlines⟩ := List.cons.inj h
  have hname : r.moduleName = r'.moduleName := by simpa using hname
  rw [hname, lines_eq_of_map_text hr hr' hlines]

end Report

theorem intercalate_ne_nil {α : Type} {sep : List α} {b : List α} {bs : List (List α)} (h : b ≠ []) :
    sep.intercalate (b :: bs) ≠ [] := by
  cases bs with
  | nil => simpa using h
  | cons b' bs => simp [h]

/-- Blocks with an empty row between neighbours. -/
theorem join_blocks {bs : List (List String)} (h : ∀ b ∈ bs, b ≠ []) :
    join "\n\n" (bs.map (join "\n")) = join "\n" ([""].intercalate bs) := by
  induction bs with
  | nil => rfl
  | cons b rest ih =>
    rw [List.forall_mem_cons] at h
    cases rest with
    | nil => simp [join]
    | cons b' bs =>
      have hrest : [""].intercalate (b' :: bs) ≠ [] := intercalate_ne_nil (h.2 b' (by simp))
      rw [List.map_cons, List.map_cons, join, ← List.map_cons, ih h.2, List.intercalate_cons_cons,
        List.append_assoc, join_append _ h.1 (by simp), join_append _ (by simp) hrest]
      simp only [join, String.empty_append, String.append_assoc]
      rfl

theorem forall_mem_intercalate {α : Type} {p : α → Prop} {sep : List α} {bs : List (List α)}
    (hsep : ∀ a ∈ sep, p a) (h : ∀ b ∈ bs, ∀ a ∈ b, p a) : ∀ a ∈ sep.intercalate bs, p a := by
  induction bs with
  | nil => simp
  | cons b rest ih =>
    rw [List.forall_mem_cons] at h
    cases rest with
    | nil => simpa using h.1
    | cons b' bs =>
      rw [List.intercalate_cons_cons, List.forall_mem_append, List.forall_mem_append]
      exact ⟨⟨h.1, hsep⟩, ih h.2⟩

theorem head?_intercalate_ne {bs : List (List String)} (h : ∀ b ∈ bs, b ≠ [] ∧ "" ∉ b) :
    ([""].intercalate bs).head? ≠ some "" := by
  cases bs with
  | nil => simp
  | cons b rest =>
    obtain ⟨hb, hempty⟩ := h b List.mem_cons_self
    have hhead : ([""].intercalate (b :: rest)).head? = b.head? := by
      cases b with
      | nil => contradiction
      | cons row more => cases rest <;> simp
    rw [hhead]
    exact fun he => hempty (List.mem_of_head? he)

namespace ScanReport

/-- The modules that have lines. -/
def full (s : ScanReport) : List Report :=
  s.modules.filter fun r => !r.isEmpty

variable {s s' : ScanReport}

theorem text_eq_join_rows (hs : 2 ≤ s.modules.length) :
    s.text = join "\n" ([""].intercalate (s.full.map Report.rows)) := by
  have hblocks : s.full.map Report.block = (s.full.map Report.rows).map (join "\n") := by
    rw [List.map_map]
    refine List.map_congr_left fun r hr => ?_
    exact Report.block_eq (by simpa using (List.mem_filter.1 hr).2)
  unfold text
  rw [if_neg (by omega)]
  change join "\n\n" (s.full.map Report.block) = _
  rw [hblocks, join_blocks (List.forall_mem_map.2 fun r _ => r.rows_ne_nil)]

theorem map_rows_eq (hs : 2 ≤ s.modules.length) (hs' : 2 ≤ s'.modules.length)
    (hr : ∀ r ∈ s.full, r.Plain) (hr' : ∀ r ∈ s'.full, r.Plain) (h : s.text = s'.text) :
    s.full.map Report.rows = s'.full.map Report.rows := by
  have hblock {rs : List Report} (hrs : ∀ r ∈ rs, r.Plain) :
      ∀ b ∈ rs.map Report.rows, b ≠ [] ∧ "" ∉ b :=
    List.forall_mem_map.2 fun r h => ⟨r.rows_ne_nil, (hrs r h).empty_notMem_rows⟩
  have hnewline {rs : List Report} (hrs : ∀ r ∈ rs, r.Plain) :
      ∀ row ∈ [""].intercalate (rs.map Report.rows), '\n' ∉ row.toList := by
    refine forall_mem_intercalate (by simp) (List.forall_mem_map.2 fun r h => ?_)
    exact (hrs r h).newline_notMem_rows
  have hhead {rs : List Report} : (rs.map Report.rows).head? ≠ some [] := by
    cases rs <;> simp [Report.rows_ne_nil]
  rw [text_eq_join_rows hs, text_eq_join_rows hs'] at h
  have hrows := join_newline_inj (hnewline hr) (hnewline hr') (head?_intercalate_ne (hblock hr))
    (head?_intercalate_ne (hblock hr')) h
  exact intercalate_inj (fun b hb => (hblock hr b hb).2) (fun b hb => (hblock hr' b hb).2)
    hhead hhead hrows

end ScanReport

/-- The text of a plain report tells its lines, and the text of a scan of several plain modules
tells the names and the lines of those that have lines. -/
theorem text_determines_lines :
    (∀ r r' : Report, r.Plain → r'.Plain → r.text = r'.text → r.lines = r'.lines) ∧
    ∀ s s' : ScanReport, 2 ≤ s.modules.length → 2 ≤ s'.modules.length →
      (∀ r ∈ s.modules, r.Plain) → (∀ r ∈ s'.modules, r.Plain) → s.text = s'.text →
        s.full.map (fun r => (r.moduleName, r.lines)) =
          s'.full.map fun r => (r.moduleName, r.lines) := by
  refine ⟨fun r r' hr hr' h => Report.lines_eq_of_text_eq hr hr' h, ?_⟩
  intro s s' hs hs' hr hr' h
  have hfull : ∀ r ∈ s.full, r.Plain := fun r h => hr r (List.mem_filter.1 h).1
  have hfull' : ∀ r ∈ s'.full, r.Plain := fun r h => hr' r (List.mem_filter.1 h).1
  have hrows := ScanReport.map_rows_eq hs hs' hfull hfull' h
  exact map_eq_of_map_eq (fun _ _ => Report.eq_of_rows_eq) hfull hfull' hrows

/-- A report whose lines could be taken for lines of other kinds, were they less deep. -/
def memberReport (path : String) : Report where
  path := path
  moduleName := "member"
  definitions := []
  lines := [.header "prop: a", .metadata "Name" " Name: b", .property "", .method "# member",
    .unsupported .constantDeclaration (some "bound (unsupported class)"),
    .unsupported .expressionStatement none]

theorem memberReport_plain (path : String) : (memberReport path).Plain := by
  have hheader : (Line.header "prop: a").Plain := by
    refine ⟨by decide, by decide, by decide, fun kind => ?_⟩
    cases kind <;> decide
  have hmethod : '\n' ∉ "# member".toList := by decide
  refine ⟨(by decide : '\n' ∉ "member".toList), ?_⟩
  simp only [memberReport, List.forall_mem_cons]
  exact ⟨hheader, ⟨by decide, by decide⟩, List.not_mem_nil, hmethod, ⟨by decide, by decide⟩,
    trivial, by simp⟩

/-- A report without lines. -/
def bareReport (name : String) : Report :=
  ⟨"bare.json", name, [], []⟩

theorem bareReport_plain : (bareReport "bare").Plain :=
  ⟨by decide, by simp [bareReport]⟩

/-- A scan of the given modules. -/
def scanOf (modules : List Report) : ScanReport :=
  ⟨".", modules, .ofReports modules, ⟨0, 0, "", ""⟩⟩

def memberScan : ScanReport :=
  scanOf [memberReport "a.json", bareReport "bare"]

def movedScan : ScanReport :=
  scanOf [bareReport "bare", bareReport "bare", memberReport "b.json"]

theorem text_determines_lines_member :
    (memberReport "a.json").text = (memberReport "b.json").text ∧
    (memberReport "a.json").lines = (memberReport "b.json").lines ∧
    memberScan.text = movedScan.text ∧
    memberScan.full.map (fun r => (r.moduleName, r.lines)) =
      movedScan.full.map fun r => (r.moduleName, r.lines) := by
  have hscan : ∀ r ∈ memberScan.modules, r.Plain := by
    simp [memberScan, scanOf, memberReport_plain, bareReport_plain]
  have hmoved : ∀ r ∈ movedScan.modules, r.Plain := by
    simp [movedScan, scanOf, memberReport_plain, bareReport_plain]
  exact ⟨rfl, text_determines_lines.1 _ _ (memberReport_plain _) (memberReport_plain _) rfl, rfl,
    text_determines_lines.2 _ _ (by decide) (by decide) hscan hmoved rfl⟩

end TreeOutline
