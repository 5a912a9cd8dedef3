import TreeOutline.Proofs.TextReport
import TreeOutline.Render.Ansi

/-!
Reports for a terminal lose nothing and leave nothing on. The icon of a row tells the kind of its
line, the escape characters in it tell where its texts end, and a report without lines has a row
without an icon. At the end of each row the terminal has all attributes off, whatever was on before.
-/

namespace TreeOutline

open Text

/-! ## Terminals -/

/-- What a terminal takes the next character for. -/
inductive Terminal.Mode where
  | text
  /-- The character behind an escape. -/
  | escape
  /-- A part of a control sequence, of which some parameters are read. -/
  | control (parameters : List Char)
  deriving Repr, DecidableEq

/-- A terminal, with the attributes that were set since all were off. -/
structure Terminal where
  mode : Terminal.Mode
  attributes : List (List Char)
  deriving Repr, DecidableEq

namespace Terminal

/-- The attributes after one more is set. The number zero, which may be left out, puts all off. -/
def set (attributes : List (List Char)) (parameter : List Char) : List (List Char) :=
  if parameter.all (· = '0') then [] else attributes ++ [parameter]

/-- A control sequence ends with the first character that is none of its parameters; one that ends
with `m` sets attributes. An escape always starts anew. -/
def step : Terminal → Char → Terminal
  | ⟨.text, on⟩, c => if c = '\x1b' then ⟨.escape, on⟩ else ⟨.text, on⟩
  | ⟨.escape, on⟩, c =>
    if c = '[' then ⟨.control [], on⟩ else if c = '\x1b' then ⟨.escape, on⟩ else ⟨.text, on⟩
  | ⟨.control parameters, on⟩, c =>
    if c.isDigit ∨ c = ';' then ⟨.control (parameters ++ [c]), on⟩
    else if c = '\x1b' then ⟨.escape, on⟩
    else if c = 'm' then ⟨.text, (pieces ';' parameters).foldl set on⟩
    else ⟨.text, on⟩

/-- The terminal after a text. -/
def after (t : Terminal) (s : String) : Terminal :=
  s.toList.foldl step t

theorem after_append (t : Terminal) (s s' : String) : t.after (s ++ s') = (t.after s).after s' := by
  rw [after, String.toList_append, List.foldl_append]
  rfl

/-- After the text the terminal reads text again. -/
def Completes (s : String) : Prop :=
  ∀ on, ∃ on', after ⟨.text, on⟩ s = ⟨.text, on'⟩

theorem completes_of_notMem {s : String} (h : '\x1b' ∉ s.toList) : Completes s := by
  intro on
  refine ⟨on, ?_⟩
  unfold after
  generalize s.toList = cs at h ⊢
  induction cs with
  | nil => rfl
  | cons c cs ih =>
    obtain ⟨hc, hcs⟩ := not_or.1 (List.mem_cons.not.1 h)
    rw [List.foldl_cons, step, if_neg (Ne.symm hc)]
    exact ih hcs

theorem Completes.append {s s' : String} (h : Completes s) (h' : Completes s') :
    Completes (s ++ s') := by
  intro on
  obtain ⟨on', hs⟩ := h on
  rw [after_append, hs]
  exact h' on'

end Terminal

/-! ## Texts of reports -/

/-- The texts that a line shows. -/
def Line.texts : Line → List String
  | .header name => [name]
  | .metadata key value => [key, value]
  | .property name => [name]
  | .constant name => [name]
  | .method name => [name]
  | .unsupported _ name => name.toList

/-- The texts that a report shows. -/
def Report.texts (r : Report) : List String :=
  r.moduleName :: r.path :: r.lines.flatMap Line.texts

/-- A line whose row can be told from that of any other: a name that is there but empty would look like
none. -/
structure Line.Legible (l : Line) : Prop where
  texts : ∀ s ∈ l.texts, '\n' ∉ s.toList ∧ '\x1b' ∉ s.toList
  named : ∀ kind, l ≠ .unsupported kind (some "")

/-- A report of legible lines. Its definitions are not shown. -/
structure Report.Legible (r : Report) : Prop where
  texts : ∀ s ∈ r.texts, '\n' ∉ s.toList ∧ '\x1b' ∉ s.toList
  named : ∀ kind, Line.unsupported kind (some "") ∉ r.lines

theorem Report.mem_texts_of_line {r : Report} {l : Line} (hl : l ∈ r.lines) {s : String}
    (hs : s ∈ l.texts) : s ∈ r.texts :=
  List.mem_cons_of_mem _ (List.mem_cons_of_mem _ (List.mem_flatMap.2 ⟨l, hl, hs⟩))

theorem Report.Legible.line {r : Report} (h : r.Legible) {l : Line} (hl : l ∈ r.lines) : l.Legible :=
  ⟨fun s hs => h.texts s (mem_texts_of_line hl hs), fun kind he => h.named kind (he ▸ hl)⟩

namespace Ansi

variable {l l' : Line} {r r' : Report}

/-- A line without the line end behind it. -/
def row (l : Line) : String :=
  indent (l.depth + 1) ++ icon l ++ " " ++ body l ++ reset

/-- The one character of the icon. -/
def iconChar : Line → Char
  | .header _ => '🔷'
  | .metadata _ _ => '·'
  | .property _ => '📌'
  | .constant _ => '🔒'
  | .method _ => '🔹'
  | .unsupported _ _ => '⚠'

theorem icon_eq (l : Line) : icon l = String.singleton (iconChar l) := by
  cases l <;> rfl

theorem icon_toList (l : Line) : (icon l).toList = [iconChar l] := by
  rw [icon_eq, String.toList_singleton]

theorem iconChar_notMem (l : Line) : iconChar l ∉ [' ', '\n', '\x1b'] := by
  cases l <;> simp [iconChar]

def headingRow (r : Report) : String :=
  bold ++ brightGreen ++ "📦 " ++ r.moduleName ++ reset ++ " " ++ dim ++ "(" ++ r.path ++ ")" ++ reset

def noLinesRow : String :=
  "   " ++ dim ++ "no classes" ++ reset

/-- The rows of a report: its heading, and its lines or what stands in their place. -/
def rows (r : Report) : List String :=
  headingRow r :: if r.isEmpty then [noLinesRow] else r.lines.map row

/-- Each row has a line end behind it, and one more ends the report. -/
theorem module_eq (r : Report) : module r = concat ((rows r).map (· ++ "\n")) ++ "\n" := by
  have hlines : (r.lines.map row).map (· ++ "\n") = r.lines.map line := by
    rw [List.map_map]
    rfl
  have hheading : heading r = headingRow r ++ "\n" := rfl
  rw [module, rows, List.map_cons, concat, hheading]
  cases hempty : r.isEmpty with
  | false => simp [hlines]
  | true =>
    have hnil : r.lines = [] := List.isEmpty_iff.1 hempty
    simp [hnil, noLines, noLinesRow, concat]

theorem concat_eq_join (rs : List String) :
    concat (rs.map (· ++ "\n")) ++ "\n" = join "\n" (rs ++ ["", ""]) := by
  induction rs with
  | nil => rfl
  | cons s rs ih =>
    have hjoin : join "\n" ([s] ++ (rs ++ ["", ""])) = s ++ "\n" ++ join "\n" (rs ++ ["", ""]) :=
      join_append _ (by simp) (by simp)
    rw [List.map_cons, concat, String.append_assoc, ih]
    exact hjoin.symm

/-! ## No style leaks -/

/-- What rows switch attributes with. -/
def codes : List String :=
  [reset, bold, dim, blue, cyan, brightRed, brightGreen, brightYellow, brightMagenta]

theorem completes_code {code : String} (h : code ∈ codes) : Terminal.Completes code := by
  intro on
  simp only [codes, List.mem_cons, List.not_mem_nil, or_false] at h
  rcases h with rfl | rfl | rfl | rfl | rfl | rfl | rfl | rfl | rfl <;> exact ⟨_, rfl⟩

/-- Behind a code and a word, a text without escapes. -/
theorem completes_worded {code word text : String} (hcode : code ∈ codes)
    (hword : '\x1b' ∉ word.toList) (htext : '\x1b' ∉ text.toList) :
    Terminal.Completes (code ++ word ++ text) :=
  ((completes_code hcode).append (Terminal.completes_of_notMem hword)).append
    (Terminal.completes_of_notMem htext)

theorem completes_body (h : ∀ s ∈ l.texts, '\x1b' ∉ s.toList) : Terminal.Completes (body l) := by
  cases l with
  | header name =>
    have hname : '\x1b' ∉ name.toList := h name (by simp [Line.texts])
    have hfront : Terminal.Completes (brightYellow ++ "class ") :=
      (completes_code (by decide)).append (Terminal.completes_of_notMem (by decide))
    exact (hfront.append (completes_code (by decide))).append (Terminal.completes_of_notMem hname)
  | metadata key value =>
    have hkey : '\x1b' ∉ key.toList := h key (by simp [Line.texts])
    have hvalue : '\x1b' ∉ value.toList := h value (by simp [Line.texts])
    have hfront : Terminal.Completes (dim ++ key ++ ":") :=
      completes_worded (by decide) hkey (by decide)
    exact ((hfront.append (completes_code (by decide))).append
      (Terminal.completes_of_notMem (by decide))).append (Terminal.completes_of_notMem hvalue)
  | property name => exact completes_worded (by decide) (by decide) (h name (by simp [Line.texts]))
  | constant name => exact completes_worded (by decide) (by decide) (h name (by simp [Line.texts]))
  | method name => exact completes_worded (by decide) (by decide) (h name (by simp [Line.texts]))
  | unsupported kind name =>
    have hlabel : '\x1b' ∉ kind.label.toList := by cases kind <;> decide
    have hname : '\x1b' ∉ (name.getD "").toList := by
      cases name with
      | none => decide
      | some name => exact h name (by simp [Line.texts])
    have hfront : Terminal.Completes (brightRed ++ "unsupported " ++ kind.label) :=
      completes_worded (by decide) (by decide) hlabel
    exact (hfront.append (Terminal.completes_of_notMem (by decide))).append
      (Terminal.completes_of_notMem hname)

theorem after_reset {s : String} (h : Terminal.Completes s) (on : List (List Char)) :
    Terminal.after ⟨.text, on⟩ (s ++ reset) = ⟨.text, []⟩ := by
  obtain ⟨on', hs⟩ := h on
  rw [Terminal.after_append, hs]
  rfl

/-- At the end of a row all attributes are off. -/
theorem after_row (h : ∀ s ∈ l.texts, '\x1b' ∉ s.toList) (on : List (List Char)) :
    Terminal.after ⟨.text, on⟩ (row l) = ⟨.text, []⟩ := by
  have hicon := iconChar_notMem l
  have hindent : '\x1b' ∉ (indent (l.depth + 1) ++ icon l ++ " ").toList := by
    simp_all [indent, icon_toList, eq_comm]
  exact after_reset ((Terminal.completes_of_notMem hindent).append (completes_body h)) on

theorem after_headingRow (hname : '\x1b' ∉ r.moduleName.toList) (hpath : '\x1b' ∉ r.path.toList)
    (on : List (List Char)) : Terminal.after ⟨.text, on⟩ (headingRow r) = ⟨.text, []⟩ := by
  have hfront : Terminal.Completes (bold ++ brightGreen ++ "📦 " ++ r.moduleName) :=
    (((completes_code (by decide)).append (completes_code (by decide))).append
      (Terminal.completes_of_notMem (by decide))).append (Terminal.completes_of_notMem hname)
  have hmiddle : Terminal.Completes (bold ++ brightGreen ++ "📦 " ++ r.moduleName ++ reset ++ " ") :=
    (hfront.append (completes_code (by decide))).append (Terminal.completes_of_notMem (by decide))
  have hend := (((hmiddle.append (@completes_code dim (by decide))).append
    (@Terminal.completes_of_notMem "(" (by decide))).append
    (Terminal.completes_of_notMem hpath)).append (@Terminal.completes_of_notMem ")" (by decide))
  exact after_reset hend on

theorem after_noLinesRow (on : List (List Char)) :
    Terminal.after ⟨.text, on⟩ noLinesRow = ⟨.text, []⟩ := by
  have hfront : Terminal.Completes ("   " ++ dim) :=
    (Terminal.completes_of_notMem (by decide)).append (completes_code (by decide))
  exact after_reset (hfront.append (Terminal.completes_of_notMem (by decide))) on

theorem after_of_mem_rows (h : ∀ s ∈ r.texts, '\x1b' ∉ s.toList) {s : String} (hs : s ∈ rows r)
    (on : List (List Char)) : Terminal.after ⟨.text, on⟩ s = ⟨.text, []⟩ := by
  rcases List.mem_cons.1 hs with rfl | hs
  · exact after_headingRow (h _ (by simp [Report.texts])) (h _ (by simp [Report.texts])) on
  · split at hs
    · rw [List.mem_singleton.1 hs]
      exact after_noLinesRow on
    · obtain ⟨l, hl, rfl⟩ := List.mem_map.1 hs
      exact after_row (fun s hs => h s (Report.mem_texts_of_line hl hs)) on

/-- Rows that leave nothing on leave nothing on together. -/
theorem after_concat {rs : List String}
    (h : ∀ s ∈ rs, ∀ on, Terminal.after ⟨.text, on⟩ s = ⟨.text, []⟩) :
    Terminal.after ⟨.text, []⟩ (concat (rs.map (· ++ "\n"))) = ⟨.text, []⟩ := by
  induction rs with
  | nil => rfl
  | cons s rs ih =>
    obtain ⟨hs, hrs⟩ := List.forall_mem_cons.1 h
    rw [List.map_cons, concat, Terminal.after_append, Terminal.after_append, hs]
    exact ih hrs

/-- At the end of a report all attributes are off. -/
theorem after_module (h : ∀ s ∈ r.texts, '\x1b' ∉ s.toList) (on : List (List Char)) :
    Terminal.after ⟨.text, on⟩ (module r) = ⟨.text, []⟩ := by
  have hrows : ∀ s ∈ rows r, ∀ on, Terminal.after ⟨.text, on⟩ s = ⟨.text, []⟩ :=
    fun s hs => after_of_mem_rows h hs
  obtain ⟨hheading, hrest⟩ := List.forall_mem_cons.1 hrows
  -- only the heading can meet attributes from before
  rw [module_eq, rows, List.map_cons, concat, Terminal.after_append, Terminal.after_append,
    Terminal.after_append, hheading]
  have hlines := after_concat hrest
  exact congrArg (Terminal.after · "\n") hlines

/-! ## Nothing is lost -/

theorem newline_notMem_row (h : l.Legible) : '\n' ∉ (row l).toList := by
  have hicon : '\n' ∉ (icon l).toList := by
    have hchar := iconChar_notMem l
    simp_all [icon_toList, eq_comm]
  have hbody : '\n' ∉ (body l).toList := by
    have htexts : ∀ s ∈ l.texts, '\n' ∉ s.toList := fun s hs => (h.texts s hs).1
    cases l with
    | unsupported kind name =>
      have hlabel : '\n' ∉ kind.label.toList := by cases kind <;> decide
      cases name <;> simp_all [body, Line.texts, brightRed]
    | _ =>
      simp_all [body, Line.texts, brightYellow, bold, dim, reset, blue, brightMagenta, cyan]
  simp [row, indent, reset, hicon, hbody]

theorem newline_notMem_rows (h : r.Legible) : ∀ s ∈ rows r ++ ["", ""], '\n' ∉ s.toList := by
  have hname := (h.texts r.moduleName (by simp [Report.texts])).1
  have hpath := (h.texts r.path (by simp [Report.texts])).1
  have hheading : '\n' ∉ (headingRow r).toList := by
    simp [headingRow, bold, brightGreen, reset, dim, hname, hpath]
  have hlines : ∀ s ∈ if r.isEmpty then [noLinesRow] else r.lines.map row, '\n' ∉ s.toList := by
    split
    · rw [List.forall_mem_singleton]
      decide
    · exact List.forall_mem_map.2 fun l hl => newline_notMem_row (h.line hl)
  rw [List.forall_mem_append, rows, List.forall_mem_cons]
  exact ⟨⟨hheading, hlines⟩, by simp⟩

theorem rows_inj (hr : r.Legible) (hr' : r'.Legible) (h : module r = module r') :
    rows r = rows r' := by
  have hhead (r : Report) : (rows r ++ ["", ""]).head? ≠ some "" := by
    simp [rows, headingRow, bold]
  rw [module_eq, module_eq, concat_eq_join, concat_eq_join] at h
  have hrows := join_newline_inj (newline_notMem_rows hr) (newline_notMem_rows hr') (hhead r)
    (hhead r') h
  exact List.append_cancel_right hrows

theorem heading_toList (r : Report) : (headingRow r).toList =
    (bold ++ brightGreen ++ "📦 ").toList ++ (r.moduleName.toList ++
      '\x1b' :: (("[0m " ++ dim ++ "(").toList ++ (r.path.toList ++ (")" ++ reset).toList))) := by
  simp [headingRow, reset]

theorem headingRow_inj (hr : r.Legible) (hr' : r'.Legible) (h : headingRow r = headingRow r') :
    r.moduleName = r'.moduleName ∧ r.path = r'.path := by
  have hname := (hr.texts r.moduleName (by simp [Report.texts])).2
  have hname' := (hr'.texts r'.moduleName (by simp [Report.texts])).2
  have hchars := congrArg String.toList h
  rw [heading_toList, heading_toList] at hchars
  obtain ⟨hnames, hrest⟩ :=
    append_cons_inj_of_notMem_left hname hname' (List.append_cancel_left hchars)
  have hpaths := List.append_cancel_right (List.append_cancel_left hrest)
  exact ⟨String.toList_injective hnames, String.toList_injective hpaths⟩

/-- Behind its blanks a row starts with the icon of its line. -/
theorem dropWhile_row (l : Line) : (row l).toList.dropWhile (· = ' ') =
    iconChar l :: ' ' :: ((body l).toList ++ reset.toList) := by
  have hspace : iconChar l ≠ ' ' := fun he => iconChar_notMem l (by simp [he])
  have hrow : (row l).toList = List.replicate (3 * (l.depth + 1)) ' ' ++
      iconChar l :: ' ' :: ((body l).toList ++ reset.toList) := by
    simp [row, indent, icon_toList]
  rw [hrow, List.dropWhile_append_of_pos (by simp), List.dropWhile_cons_of_neg (by simpa using hspace)]

theorem row_ne_noLinesRow (l : Line) : row l ≠ noLinesRow := by
  intro h
  have hdrop := dropWhile_row l
  have hmarker : noLinesRow.toList.dropWhile (· = ' ') =
      '\x1b' :: ("[2m" ++ "no classes" ++ reset).toList := by decide
  rw [h, hmarker] at hdrop
  exact iconChar_notMem l (by simp [← (List.cons.inj hdrop).1])

theorem metadata_toList (key value : String) : (body (.metadata key value)).toList =
    dim.toList ++ ((key.toList ++ [':']) ++ '\x1b' :: ("[0m ".toList ++ value.toList)) := by
  simp [body, reset]

theorem unsupported_toList (kind : DefinitionKind) (name : Option String) :
    (body (.unsupported kind name)).toList = (brightRed ++ "unsupported ").toList ++
      (kind.label.toList ++ ' ' :: (name.getD "").toList) := by
  simp [body]

theorem metadata_inj {key key' value value' : String} (hk : '\x1b' ∉ key.toList)
    (hk' : '\x1b' ∉ key'.toList) (h : body (.metadata key value) = body (.metadata key' value')) :
    key = key' ∧ value = value' := by
  have hchars := congrArg String.toList h
  rw [metadata_toList, metadata_toList] at hchars
  have hends {key : String} (hk : '\x1b' ∉ key.toList) : '\x1b' ∉ key.toList ++ [':'] := by
    simp [hk]
  obtain ⟨hkeys, hvalues⟩ :=
    append_cons_inj_of_notMem_left (hends hk) (hends hk') (List.append_cancel_left hchars)
  exact ⟨String.toList_injective (List.append_cancel_right hkeys),
    String.toList_injective (List.append_cancel_left hvalues)⟩

theorem unsupported_inj {kind kind' : DefinitionKind} {name name' : Option String}
    (hn : name ≠ some "") (hn' : name' ≠ some "")
    (h : body (.unsupported kind name) = body (.unsupported kind' name')) :
    kind = kind' ∧ name = name' := by
  have hspace (kind : DefinitionKind) : ' ' ∉ kind.label.toList := by
    cases kind <;> decide
  have hchars := congrArg String.toList h
  rw [unsupported_toList, unsupported_toList] at hchars
  obtain ⟨hlabels, hnames⟩ :=
    append_cons_inj_of_notMem_left (hspace kind) (hspace kind') (List.append_cancel_left hchars)
  refine ⟨Line.label_inj (String.toList_injective hlabels), ?_⟩
  have hnames : name.getD "" = name'.getD "" := String.toList_injective hnames
  cases name <;> cases name' <;> simp_all

theorem eq_of_body_eq (hl : l.Legible) (hl' : l'.Legible) (hicon : iconChar l = iconChar l')
    (h : body l = body l') : l = l' := by
  cases l with
  | metadata key value =>
    cases l' with
    | metadata key' value' =>
      have hkey := (hl.texts key (by simp [Line.texts])).2
      have hkey' := (hl'.texts key' (by simp [Line.texts])).2
      obtain ⟨rfl, rfl⟩ := metadata_inj hkey hkey' h
      rfl
    | _ => simp [iconChar] at hicon
  | unsupported kind name =>
    cases l' with
    | unsupported kind' name' =>
      have hname : name ≠ some "" := fun he => hl.named kind (he ▸ rfl)
      have hname' : name' ≠ some "" := fun he => hl'.named kind' (he ▸ rfl)
      obtain ⟨rfl, rfl⟩ := unsupported_inj hname hname' h
      rfl
    | _ => simp [iconChar] at hicon
  -- the other kinds show one name, behind words that are the same in each row of the kind
  | header name =>
    cases l' with
    | header name' => simpa [body] using h
    | _ => simp [iconChar] at hicon
  | property name =>
    cases l' with
    | property name' => simpa [body] using h
    | _ => simp [iconChar] at hicon
  | constant name =>
    cases l' with
    | constant name' => simpa [body] using h
    | _ => simp [iconChar] at hicon
  | method name =>
    cases l' with
    | method name' => simpa [body] using h
    | _ => simp [iconChar] at hicon

/-- Legible lines are told apart by their rows. -/
theorem row_inj (hl : l.Legible) (hl' : l'.Legible) (h : row l = row l') : l = l' := by
  have hdrop := dropWhile_row l
  rw [h, dropWhile_row] at hdrop
  obtain ⟨hicon, hrest⟩ := List.cons.inj hdrop
  have hbody := List.append_cancel_right (List.cons.inj hrest).2
  exact (eq_of_body_eq hl' hl hicon (String.toList_injective hbody)).symm

theorem lines_eq_of_rows_eq (hr : r.Legible) (hr' : r'.Legible) (h : rows r = rows r') :
    r.lines = r'.lines := by
  have hmarked {ls : List Line} (h : [noLinesRow] = ls.map row) : False := by
    obtain ⟨l, -, hl⟩ := List.mem_map.1 (h ▸ List.mem_singleton_self noLinesRow)
    exact row_ne_noLinesRow l hl
  obtain ⟨-, hlines⟩ := List.cons.inj h
  split at hlines
  · next hempty =>
    split at hlines
    · next hempty' => rw [List.isEmpty_iff.1 hempty, List.isEmpty_iff.1 hempty']
    · exact (hmarked hlines).elim
  · split at hlines
    · exact (hmarked hlines.symm).elim
    · have hid := map_eq_of_map_eq (g := id) (fun _ _ => row_inj) (fun _ => hr.line)
        (fun _ => hr'.line) hlines
      rwa [List.map_id, List.map_id] at hid

/-- The report of a module for a terminal tells its name, its path and its lines. Each of its rows ends
with all attributes off, before the line end, whatever was on when it began, and so does the whole. -/
theorem module_determines_report :
    (∀ r r' : Report, r.Legible → r'.Legible → module r = module r' →
      r.moduleName = r'.moduleName ∧ r.path = r'.path ∧ r.lines = r'.lines) ∧
    ∀ r : Report, (∀ s ∈ r.texts, '\x1b' ∉ s.toList) →
      module r = concat ((rows r).map (· ++ "\n")) ++ "\n" ∧
      (∀ s ∈ rows r, ∀ on, Terminal.after ⟨.text, on⟩ s = ⟨.text, []⟩) ∧
      ∀ on, Terminal.after ⟨.text, on⟩ (module r) = ⟨.text, []⟩ := by
  refine ⟨fun r r' hr hr' h => ?_, fun r hr => ⟨module_eq r, fun s hs => ?_, after_module hr⟩⟩
  · have hrows := rows_inj hr hr' h
    obtain ⟨hname, hpath⟩ := headingRow_inj hr hr' (List.cons.inj hrows).1
    exact ⟨hname, hpath, lines_eq_of_rows_eq hr hr' hrows⟩
  · exact after_of_mem_rows hr hs

/-- A report whose texts could be taken for what stands around them. -/
def lookalikeReport (definitions : List Summary) : Report where
  path := "a) (b.json"
  moduleName := "[0m (a)"
  definitions := definitions
  lines := [.header "class A", .metadata "Name:" "[0m · B", .property "", .method "prop b",
    .unsupported .classDeclaration (some " class"), .unsupported .expressionStatement none]

theorem lookalikeReport_legible (definitions : List Summary) :
    (lookalikeReport definitions).Legible := by
  refine ⟨?_, fun kind => ?_⟩
  · change ∀ s ∈ (lookalikeReport []).texts, _
    decide
  · simp [lookalikeReport]

def documentedClass : Summary :=
  ⟨.classDeclaration, some "A", true⟩

/-- Definitions do not show, and bold that was on before is off at the end. -/
theorem module_lookalikeReport :
    (lookalikeReport []).Legible ∧ (lookalikeReport [documentedClass]).Legible ∧
    module (lookalikeReport []) = module (lookalikeReport [documentedClass]) ∧
    (lookalikeReport []).lines = (lookalikeReport [documentedClass]).lines ∧
    (∀ s ∈ (lookalikeReport []).texts, '\x1b' ∉ s.toList) ∧
    Terminal.after ⟨.text, [['1']]⟩ (module (lookalikeReport [])) = ⟨.text, []⟩ := by
  have hbare := lookalikeReport_legible []
  have hclass := lookalikeReport_legible [documentedClass]
  have hescapes : ∀ s ∈ (lookalikeReport []).texts, '\x1b' ∉ s.toList :=
    fun s hs => (hbare.texts s hs).2
  obtain ⟨-, -, hlines⟩ := module_determines_report.1 _ _ hbare hclass rfl
  obtain ⟨-, -, hended⟩ := module_determines_report.2 _ hescapes
  exact ⟨hbare, hclass, rfl, hlines, hescapes, hended _⟩

end Ansi

end TreeOutline
