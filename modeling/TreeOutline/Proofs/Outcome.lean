import TreeOutline.Command.Run
import TreeOutline.Proofs.Writing

/-!
Runs do all or nothing. A run first comes to its text, and until then all that it changes is what it
tells beside the output. It delivers the text once and last. So a run that fails leaves no trace but
its error, and one that does not leaves its text where it was asked for, and nothing else.
-/

namespace TreeOutline.Command

open Traversal

variable {survey : Survey} {machine : Machine} {fs : FileSystem} {i : Invocation} {w : World}
  {text : String}

/-- The text that an invocation comes to. -/
def rendered (survey : Survey) (machine : Machine) (fs : FileSystem) (i : Invocation) :
    Except Failure String :=
  match i.task with
  | .outline =>
    (scanned survey machine fs i.path i.given).map fun report => report.render (format i.given)
  | .definitions =>
    (collected machine fs i.path i.given).map fun (_, found) =>
      Summary.renderAll (found.map Definition.summary) (format i.given)

/-- What stands on the output after a text was printed. -/
def shown (text : String) : String :=
  if text = "" then "" else text ++ "\n"

/-- The invocation with another place for its text: a file, or the output. -/
def Invocation.delivering (i : Invocation) (output : Option String) : Invocation :=
  { i with given := { i.given with output := output } }

/-- Where the text goes does not change it. -/
theorem rendered_delivering (survey : Survey) (machine : Machine) (fs : FileSystem)
    (i : Invocation) (output : Option String) :
    rendered survey machine fs (i.delivering output) = rendered survey machine fs i :=
  rfl

/-! ## Acts -/

namespace Act

theorem run_bind {α β : Type} (act : Act α) (next : α → Act β) (w : World) :
    (act >>= next).run w =
      match act.run w with
      | (.ok a, w') => (next a).run w'
      | (.error failure, w') => (.error failure, w') := by
  change (match act.run w with | (a, w') => (ExceptT.bindCont next a).run w') = _
  rcases act.run w with ⟨failure | a, w'⟩ <;> rfl

@[simp] theorem run_lift {α : Type} (x : Except Failure α) (w : World) :
    (liftM x : Act α).run w = (x, w) :=
  rfl

@[simp] theorem run_files (w : World) : files.run w = (.ok w.files, w) :=
  rfl

@[simp] theorem run_print (text : String) (w : World) :
    (print text).run w = (.ok (), { w with output := w.output ++ text }) :=
  rfl

@[simp] theorem run_note (g : Given) (notes : List String) (w : World) :
    (note g notes).run w =
      (.ok (), { w with errors := w.errors ++ if g.verbose then printed notes else "" }) :=
  rfl

theorem run_write_of_ok {path : String} {written : FileSystem}
    (h : w.files.writeText path text = .ok written) :
    (write path text).run w = (.ok (), { w with files := written }) := by
  rw [write, run_bind, run_files]
  simp only [h]
  rfl

theorem run_write_of_error {path : String} {reason : IoError}
    (h : w.files.writeText path text = .error reason) :
    (write path text).run w = (.error (.write reason), w) := by
  rw [write, run_bind, run_files]
  simp only [h]
  rfl

end Act

/-! ## Whole runs -/

/-- A run without a text changes nothing. -/
theorem perform_of_error {failure : Failure} (h : rendered survey machine w.files i = .error failure) :
    (perform survey machine i).run w = (.error failure, w) := by
  unfold perform
  unfold rendered at h
  cases htask : i.task with
  | outline =>
    rw [htask] at h
    simp [outline, Act.run_bind, map_eq_error.1 h]
  | definitions =>
    rw [htask] at h
    simp [definitions, Act.run_bind, map_eq_error.1 h]

/-- A run with a text tells its notes and delivers the text. -/
theorem perform_of_ok (h : rendered survey machine w.files i = .ok text) :
    ∃ notes, (perform survey machine i).run w =
      (deliver i.given text).run { w with errors := w.errors ++ notes } := by
  unfold perform
  unfold rendered at h
  cases htask : i.task with
  | outline =>
    rw [htask] at h
    obtain ⟨report, hscan, rfl⟩ := map_eq_ok.1 h
    refine ⟨if i.given.verbose then printed (scanNotes report) else "", ?_⟩
    simp [outline, Act.run_bind, hscan]
  | definitions =>
    rw [htask] at h
    obtain ⟨⟨m, found⟩, hcollect, rfl⟩ := map_eq_ok.1 h
    refine ⟨if i.given.verbose then printed (collectNotes m found) else "", ?_⟩
    simp [definitions, Act.run_bind, hcollect]

theorem outcome_of_error {failure : Failure} (h : rendered survey machine fs i = .error failure) :
    (perform survey machine i).outcome fs = ⟨1, "", failure.message, fs⟩ := by
  rw [Act.outcome, perform_of_error h]
  simp

theorem outcome_of_printed (h : rendered survey machine fs i = .ok text)
    (houtput : i.given.output = none) :
    ∃ errors, (perform survey machine i).outcome fs = ⟨0, shown text, errors, fs⟩ := by
  obtain ⟨notes, hperform⟩ := perform_of_ok (w := ⟨"", "", fs⟩) h
  rw [Act.outcome, hperform, deliver, houtput, Act.run_print]
  exact ⟨notes, by simp [shown]⟩

theorem outcome_of_unwritten {path : String} {reason : IoError}
    (h : rendered survey machine fs i = .ok text) (houtput : i.given.output = some path)
    (hwrite : fs.writeText path text = .error reason) :
    ∃ errors, (perform survey machine i).outcome fs = ⟨1, "", errors, fs⟩ := by
  obtain ⟨notes, hperform⟩ := perform_of_ok (w := ⟨"", "", fs⟩) h
  rw [Act.outcome, hperform, deliver, houtput]
  dsimp only
  rw [Act.run_write_of_error hwrite]
  exact ⟨_, rfl⟩

theorem outcome_of_written {path : String} {written : FileSystem}
    (h : rendered survey machine fs i = .ok text) (houtput : i.given.output = some path)
    (hwrite : fs.writeText path text = .ok written) :
    ∃ errors, (perform survey machine i).outcome fs = ⟨0, "", errors, written⟩ := by
  obtain ⟨notes, hperform⟩ := perform_of_ok (w := ⟨"", "", fs⟩) h
  rw [Act.outcome, hperform, deliver, houtput]
  dsimp only
  rw [Act.run_write_of_ok hwrite]
  exact ⟨_, rfl⟩

/-! ## All or nothing -/

/-- What is left of a run that may come to a text, by its exit code and where the text is to go. -/
structure AllOrNothing (fs : FileSystem) (output : Option String) (text : Except Failure String)
    (left : Outcome) : Prop where
  code : left.code = 0 ∨ left.code = 1
  /-- A run fails without a text, and where it cannot write the text. -/
  failed : left.code = 1 ↔ (∃ failure, text = .error failure) ∨
    ∃ t path reason, text = .ok t ∧ output = some path ∧ fs.writeText path t = .error reason
  nothing : left.code = 1 → left.output = "" ∧ left.files = fs
  printed : left.code = 0 → output = none →
    left.files = fs ∧ ∃ t, text = .ok t ∧ left.output = shown t
  written : ∀ path, left.code = 0 → output = some path →
    left.output = "" ∧ ∃ t place, text = .ok t ∧ left.files.readText path = .ok t ∧
      fs.target path = .ok place ∧ fs.Stores place t.toUTF8 left.files

theorem allOrNothing_perform (survey : Survey) (machine : Machine) (fs : FileSystem)
    (i : Invocation) :
    AllOrNothing fs i.given.output (rendered survey machine fs i)
      ((perform survey machine i).outcome fs) := by
  cases htext : rendered survey machine fs i with
  | error failure =>
    rw [outcome_of_error htext]
    constructor <;> simp
  | ok text =>
    cases houtput : i.given.output with
    | none =>
      obtain ⟨errors, hleft⟩ := outcome_of_printed htext houtput
      rw [hleft]
      constructor <;> simp
    | some path =>
      cases hwrite : fs.writeText path text with
      | error reason =>
        obtain ⟨errors, hleft⟩ := outcome_of_unwritten htext houtput hwrite
        rw [hleft]
        constructor <;> simp [hwrite]
      | ok written =>
        obtain ⟨errors, hleft⟩ := outcome_of_written htext houtput hwrite
        obtain ⟨hread, place, htarget, hstores⟩ := FileSystem.writeText_eq_ok hwrite
        rw [hleft]
        constructor
        · exact .inl rfl
        · simp [hwrite]
        · simp
        · simp
        · rintro path' - hpath
          cases hpath
          exact ⟨rfl, text, place, rfl, hread, htarget, hstores⟩

/-- A run fails and leaves the output empty and the files as they were, or it leaves its text, in the
file that was asked for or on the output, and changes nothing else. The text is the same wherever it
is to go. -/
theorem runBy_allOrNothing {arguments : List String} (hread : read arguments = .ok i)
    (survey : Survey) (machine : Machine) (fs : FileSystem) :
    AllOrNothing fs i.given.output (rendered survey machine fs i) (runBy survey machine fs arguments) ∧
      ∀ output, rendered survey machine fs (i.delivering output) = rendered survey machine fs i := by
  refine ⟨?_, rendered_delivering survey machine fs i⟩
  rw [runBy, hread]
  exact allOrNothing_perform survey machine fs i

/-- A directory that holds one tree. -/
def lone : FileSystem :=
  ⟨[("a.json", .file "{}".toUTF8)], [], fun _ => 4096⟩

/-- Asks for the definitions of the tree, as JSON in a file. -/
def listing : Invocation :=
  ⟨.definitions, "a.json",
    { Given.nothing with path := some "a.json", format := some .json, output := some "out.json" }⟩

theorem rendered_listing (survey : Survey) (machine : Machine) :
    rendered survey machine lone listing = .ok "[]" := by
  have hfind : lone.find "a.json" = .ok (.file "{}".toUTF8) := rfl
  have hload : Module.load lone Settings.standard.maxFileSize "a.json" =
      .ok ⟨"a.json", "a", .object []⟩ := Module.load_empty hfind (by decide)
  have hcollected : collected machine lone "a.json" listing.given =
      (Module.load lone Settings.standard.maxFileSize "a.json").mapError (.load "a.json") >>=
        fun m => ((Definition.collect .standard m.root).mapError (.collect "a.json")).map
          fun found => (m, found) := rfl
  have hrendered : rendered survey machine lone listing =
      (collected machine lone "a.json" listing.given).map fun (_, found) =>
        Summary.renderAll (found.map Definition.summary) .json := rfl
  rw [hrendered, hcollected, hload]
  rfl

/-- The list is in the file, and the output is empty. -/
theorem runBy_listing :
    read ["definitions", "a.json", "--format=json", "-o", "out.json"] = .ok listing ∧
      ∃ left, left = run ⟨0, ""⟩ lone ["definitions", "a.json", "--format=json", "-o", "out.json"] ∧
        left.code = 0 ∧ left.output = "" ∧ left.files.readText "out.json" = .ok "[]" := by
  have hread : read ["definitions", "a.json", "--format=json", "-o", "out.json"] = .ok listing := by
    decide
  obtain ⟨hall, -⟩ := runBy_allOrNothing hread Scanner.reports ⟨⟨0, ""⟩, 1⟩ lone
  have htext := rendered_listing Scanner.reports ⟨⟨0, ""⟩, 1⟩
  rw [htext] at hall
  have hwrite : ∃ written, lone.writeText "out.json" "[]" = .ok written := ⟨_, rfl⟩
  have hcode : (runBy Scanner.reports ⟨⟨0, ""⟩, 1⟩ lone
      ["definitions", "a.json", "--format=json", "-o", "out.json"]).code = 0 := by
    refine hall.code.resolve_right fun h => ?_
    rcases hall.failed.1 h with ⟨failure, hfailure⟩ | ⟨t, path, reason, ht, hpath, hreason⟩
    · cases hfailure
    · cases ht
      cases hpath
      obtain ⟨written, hwritten⟩ := hwrite
      cases hwritten.symm.trans hreason
  obtain ⟨houtput, t, place, ht, hfile, -⟩ := hall.written _ hcode rfl
  cases ht
  exact ⟨hread, _, rfl, hcode, houtput, hfile⟩

end TreeOutline.Command
