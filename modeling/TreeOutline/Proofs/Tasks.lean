import TreeOutline.Proofs.Outcome
import TreeOutline.Proofs.Pool
import TreeOutline.Proofs.Statement

/-!
Two tasks for one file. An outline begins with what a list of definitions is, and adds the lines of the
definitions (`scanned_eq_bind`). So the two tell the same definitions, fail alike until these are found,
and only a class can set them apart.
-/

namespace TreeOutline.Command

open Recognizer (Table)
open Traversal

variable {survey : Survey} {fs : FileSystem} {path : String} {g g' : Given} {t : Table}

/-- What went wrong, whatever a run was doing. -/
inductive Cause where
  | rule (error : Recognizer.RuleError)
  | noRules
  | load (error : LoadError)
  | shape (path : String) (error : ShapeError)
  | pattern (error : Glob.PatternError)
  | walk (error : WalkError)
  | write (reason : IoError)
  deriving Repr, DecidableEq

def Cause.ofScanError : ScanError → Cause
  | .load error => .load error
  | .shape path error => .shape path error
  | .pattern error => .pattern error
  | .walk error => .walk error

/-- What went wrong when a run failed. -/
def Failure.cause : Failure → Cause
  | .rule error => .rule error
  | .noRules => .noRules
  | .scanner error => .ofScanError error
  | .scan _ error => .ofScanError error
  | .load _ error => .load error
  | .collect path error => .shape path error
  | .write reason => .write reason

/-- A failure of one task as the other one meets it. -/
def Failure.asScan : Failure → Failure
  | .load path error => .scan path (.load error)
  | .collect path error => .scan path (.shape path error)
  | failure => failure

theorem Failure.cause_asScan (failure : Failure) : failure.asScan.cause = failure.cause := by
  cases failure <;> rfl

/-- A scan tells at least what the other task tells. -/
theorem Failure.causes_asScan (failure : Failure) : failure.causes <:+ failure.asScan.causes := by
  cases failure with
  | collect path error => exact List.suffix_cons _ _
  | _ => exact List.suffix_refl _

/-- The same rules, and the same limit for the size of a file. -/
structure SameReading (g g' : Given) : Prop where
  recognize : g.recognize = g'.recognize
  noDefaultRecognizers : g.noDefaultRecognizers = g'.noDefaultRecognizers
  maxFileSize : g.maxFileSize = g'.maxFileSize

theorem SameReading.table_eq (h : SameReading g g') : table g = table g' := by
  rw [table, table, h.recognize, h.noDefaultRecognizers]

/-- The outline of a file that was read and searched for definitions. -/
def outlineFound (machine : Machine) (path : String) (o : Outline.Options)
    (found : Module × List Definition) : Except Failure ScanReport :=
  ((Outline.lines o found.2).mapError fun e => .scan path (.shape path e)).map fun ls =>
    .ofReports path [⟨found.1.path, found.1.name, found.2.map Definition.summary, ls⟩]
      (.ofReading machine.clock 1)

/-- A scan of a file finds the definitions and then outlines them. -/
theorem scanned_eq_bind
    (hsurvey : ∀ scanner : Scanner, scanner.Scans fs path (survey scanner fs path))
    (hpath : fs.directory? path = none) (hsame : SameReading g g') (htable : table g = .ok t)
    {ignore : Ignore} (hignore : Ignore.ofPatterns g.includeHidden g.ignore = .ok ignore)
    (machine machine' : Machine) :
    scanned survey machine fs path g =
      (collected machine' fs path g').mapError Failure.asScan >>=
        outlineFound machine path ⟨t, !g.hideUnsupported⟩ := by
  have hscanner : Scanner.ofSettings (settingsWith machine g t) =
      .ok ⟨settingsWith machine g t, ignore⟩ := by
    rw [Scanner.ofSettings]
    simp only [settingsWith, hignore]
  have hreports := (Scanner.scans_iff_of_file hpath).1 (hsurvey ⟨settingsWith machine g t, ignore⟩)
  have hlimit : (settingsWith machine' g' t).maxFileSize = (settingsWith machine g t).maxFileSize := by
    simp only [settingsWith, hsame.maxFileSize]
  rw [scanned, settings, htable, collected, settings, ← hsame.table_eq, htable]
  simp only [Except.map, bind, Except.bind, hscanner, Except.mapError, hreports, Scanner.outlineFile,
    hlimit, Module.outline, Outline.report]
  cases Module.load fs (settingsWith machine g t).maxFileSize path with
  | error e => rfl
  | ok m =>
    dsimp only [settingsWith]
    cases Definition.collect t m.root with
    | error e => rfl
    | ok found =>
      dsimp only [outlineFound]
      cases Outline.lines ⟨t, !g.hideUnsupported⟩ found <;> rfl

theorem scanned_of_table_error {stop : Failure} (htable : table g = .error stop)
    (machine : Machine) : scanned survey machine fs path g = .error stop := by
  rw [scanned, settings, htable]
  rfl

theorem collected_of_table_error {stop : Failure} (htable : table g = .error stop)
    (machine : Machine) : collected machine fs path g = .error stop := by
  rw [collected, settings, htable]
  rfl

section Agree

variable (hsurvey : ∀ scanner : Scanner, scanner.Scans fs path (survey scanner fs path))
  (hpath : fs.directory? path = none) (hsame : SameReading g g')
  (hignore : ∃ ignore, Ignore.ofPatterns g.includeHidden g.ignore = .ok ignore)
  {machine machine' : Machine}

include hsurvey hpath hsame hignore

/-- Both tasks stop at the rules, or the scan goes on from what the other one finds. -/
theorem scanned_cases (machine machine' : Machine) :
    (∃ stop, scanned survey machine fs path g = .error stop ∧
      collected machine' fs path g' = .error stop) ∨
    ∃ t, table g = .ok t ∧ scanned survey machine fs path g =
      (collected machine' fs path g').mapError Failure.asScan >>=
        outlineFound machine path ⟨t, !g.hideUnsupported⟩ := by
  obtain ⟨ignore, hignore⟩ := hignore
  cases htable : table g with
  | error stop =>
    exact .inl ⟨stop, scanned_of_table_error htable machine,
      collected_of_table_error (hsame.table_eq ▸ htable) machine'⟩
  | ok t => exact .inr ⟨t, rfl, scanned_eq_bind hsurvey hpath hsame htable hignore machine machine'⟩

theorem exists_collected_of_scanned {scan : ScanReport}
    (h : scanned survey machine fs path g = .ok scan) :
    ∃ report m found, scan.modules = [report] ∧ collected machine' fs path g' = .ok (m, found) ∧
      found.map Definition.summary = report.definitions := by
  rcases scanned_cases hsurvey hpath hsame hignore machine machine' with
    ⟨stop, hscanned, -⟩ | ⟨t, -, hscanned⟩
  · cases hscanned.symm.trans h
  · rw [hscanned] at h
    obtain ⟨⟨m, found⟩, hfound, h⟩ := bind_eq_ok.1 h
    obtain ⟨ls, -, rfl⟩ := map_eq_ok.1 h
    exact ⟨_, m, found, rfl, mapError_eq_ok.1 hfound, rfl⟩

theorem scanned_of_collected_error {failure : Failure}
    (h : collected machine' fs path g' = .error failure) :
    ∃ failure', scanned survey machine fs path g = .error failure' ∧
      failure'.cause = failure.cause ∧ failure.causes <:+ failure'.causes := by
  rcases scanned_cases hsurvey hpath hsame hignore machine machine' with
    ⟨stop, hscanned, hcollected⟩ | ⟨t, -, hscanned⟩
  · cases h.symm.trans hcollected
    exact ⟨failure, hscanned, rfl, List.suffix_refl _⟩
  · rw [hscanned, h]
    exact ⟨failure.asScan, rfl, failure.cause_asScan, failure.causes_asScan⟩

/-- Where there is a list and yet no report, a class is at fault. -/
theorem exists_class_of_scanned_error {m : Module} {found : List Definition} {failure : Failure}
    (h : collected machine' fs path g' = .ok (m, found))
    (hfailure : scanned survey machine fs path g = .error failure) :
    ∃ t e, table g = .ok t ∧ failure = .scan path (.shape path e) ∧
      Outline.lines ⟨t, !g.hideUnsupported⟩ found = .error e ∧
      ∃ d ∈ found, d.kind = .classDeclaration ∧ Outline.classLines t d = .error e := by
  rcases scanned_cases hsurvey hpath hsame hignore machine machine' with
    ⟨stop, -, hcollected⟩ | ⟨t, htable, hscanned⟩
  · cases hcollected.symm.trans h
  · rw [hscanned, h] at hfailure
    obtain ⟨e, hlines, rfl⟩ := mapError_eq_error.1 (map_eq_error.1 hfailure)
    exact ⟨t, e, htable, rfl, hlines, Outline.exists_class_of_lines_eq_error hlines⟩

/-- Two runs that print agree: where the outline is printed, so is the list of its definitions; where
there is no list, there is no outline, for the same reason; and if only the outline fails, the error
tells the fault of a class. -/
theorem outcomes_agree (houtput : g.output = none) (houtput' : g'.output = none)
    (machine machine' : Machine) {left right : Outcome}
    (hleft : left = (perform survey machine ⟨.outline, path, g⟩).outcome fs)
    (hright : right = (perform survey machine' ⟨.definitions, path, g'⟩).outcome fs) :
    (left.code = 0 → right.code = 0 ∧ ∃ (scan : ScanReport) (report : Report),
      scan.modules = [report] ∧
      left.output = shown (scan.render (format g)) ∧
      right.output = shown (Summary.renderAll report.definitions (format g'))) ∧
    (right.code = 1 → left.code = 1 ∧ ∃ failure failure' : Failure,
      right.errors = failure.message ∧ left.errors = failure'.message ∧
      failure'.cause = failure.cause) ∧
    (right.code = 0 → left.code = 1 → ∃ t e d, table g = .ok t ∧
      d.kind = DefinitionKind.classDeclaration ∧ Outline.classLines t d = .error e ∧
      left.errors = (Failure.scan path (.shape path e)).message) := by
  have hreport : rendered survey machine fs ⟨.outline, path, g⟩ =
      (scanned survey machine fs path g).map fun scan => scan.render (format g) := rfl
  have hlist : rendered survey machine' fs ⟨.definitions, path, g'⟩ =
      (collected machine' fs path g').map fun found =>
        Summary.renderAll (found.2.map Definition.summary) (format g') := rfl
  cases hscanned : scanned survey machine fs path g with
  | ok scan =>
    obtain ⟨report, m, found, hmodules, hcollected, hdefinitions⟩ :=
      @exists_collected_of_scanned _ _ _ _ _ hsurvey hpath hsame hignore machine machine' _ hscanned
    rw [hscanned] at hreport
    rw [hcollected] at hlist
    obtain ⟨errors, hprinted⟩ := outcome_of_printed hreport houtput
    obtain ⟨errors', hprinted'⟩ := outcome_of_printed hlist houtput'
    rw [hleft, hright, hprinted, hprinted']
    refine ⟨fun _ => ⟨rfl, scan, report, hmodules, rfl, ?_⟩, by simp, by simp⟩
    dsimp only
    rw [hdefinitions]
  | error failure' =>
    rw [hscanned] at hreport
    rw [hleft, outcome_of_error hreport]
    cases hcollected : collected machine' fs path g' with
    | error failure =>
      obtain ⟨stop, hstop, hcause, -⟩ :=
        scanned_of_collected_error hsurvey hpath hsame hignore hcollected
      cases hscanned.symm.trans hstop
      rw [hcollected] at hlist
      rw [hright, outcome_of_error hlist]
      exact ⟨by simp, fun _ => ⟨rfl, failure, failure', rfl, rfl, hcause⟩, by simp⟩
    | ok found =>
      obtain ⟨t, e, htable, rfl, -, d, -, hkind, hclass⟩ :=
        exists_class_of_scanned_error hsurvey hpath hsame hignore hcollected hscanned
      rw [hcollected] at hlist
      obtain ⟨errors', hprinted'⟩ := outcome_of_printed hlist houtput'
      rw [hright, hprinted']
      exact ⟨by simp, by simp, fun _ _ => ⟨t, e, d, htable, hkind, hclass, rfl⟩⟩

end Agree

/-- A list of definitions and an outline of one file agree. The report tells the listed definitions;
where there is no list, there is no report, for the same reason; and if there is a list and yet no
report, a class of the file is at fault. -/
theorem scanned_agrees_collected
    (hsurvey : ∀ scanner : Scanner, scanner.Scans fs path (survey scanner fs path))
    (hpath : fs.directory? path = none) (hsame : SameReading g g')
    (hignore : ∃ ignore, Ignore.ofPatterns g.includeHidden g.ignore = .ok ignore)
    (machine machine' : Machine) :
    (∀ scan, scanned survey machine fs path g = .ok scan →
      ∃ report m found, scan.modules = [report] ∧ collected machine' fs path g' = .ok (m, found) ∧
        found.map Definition.summary = report.definitions) ∧
    (∀ failure, collected machine' fs path g' = .error failure →
      ∃ failure', scanned survey machine fs path g = .error failure' ∧
        failure'.cause = failure.cause ∧ failure.causes <:+ failure'.causes) ∧
    ∀ m found failure, collected machine' fs path g' = .ok (m, found) →
      scanned survey machine fs path g = .error failure →
      ∃ t e, table g = .ok t ∧ failure = .scan path (.shape path e) ∧
        Outline.lines ⟨t, !g.hideUnsupported⟩ found = .error e ∧
        ∃ d ∈ found, d.kind = .classDeclaration ∧ Outline.classLines t d = .error e :=
  ⟨fun _ h => exists_collected_of_scanned hsurvey hpath hsame hignore h,
    fun _ h => scanned_of_collected_error hsurvey hpath hsame hignore h,
    fun _ _ _ h h' => exists_class_of_scanned_error hsurvey hpath hsame hignore h h'⟩

/-- A directory that holds one tree, of two bytes. -/
def smallTree : FileSystem :=
  ⟨[("a.json", .file "{}".toUTF8)], [], fun _ => 4096⟩

/-- Allows files of one byte, and leaves out some of those below a directory. -/
def thrifty : Given :=
  { Given.nothing with maxFileSize := some 1, ignore := ["*.bak"] }

/-- Both tasks refuse the tree for its size. -/
theorem scanned_smallTree :
    smallTree.directory? "a.json" = none ∧
      SameReading thrifty { thrifty with ignore := [], verbose := true } ∧
      (∃ ignore, Ignore.ofPatterns thrifty.includeHidden thrifty.ignore = .ok ignore) ∧
      ∃ failure, scanned Scanner.reports ⟨⟨0, ""⟩, 1⟩ smallTree "a.json" thrifty = .error failure ∧
        failure.cause = .load (.tooLarge "a.json" 2 1) ∧
        ["File too large: a.json is 2 bytes (limit 1)"] <:+ failure.causes := by
  have hsame : SameReading thrifty { thrifty with ignore := [], verbose := true } := ⟨rfl, rfl, rfl⟩
  have hignore : ∃ ignore, Ignore.ofPatterns thrifty.includeHidden thrifty.ignore = .ok ignore :=
    ⟨_, rfl⟩
  have hcollected :
      collected ⟨⟨1, ""⟩, 8⟩ smallTree "a.json" { thrifty with ignore := [], verbose := true } =
        .error (.load "a.json" (.tooLarge "a.json" 2 1)) := rfl
  obtain ⟨-, hfail, -⟩ := scanned_agrees_collected
    (fun scanner => scanner.scans_reports smallTree "a.json") rfl hsame hignore ⟨⟨0, ""⟩, 1⟩ ⟨⟨1, ""⟩, 8⟩
  obtain ⟨failure, hscanned, hcause, hcauses⟩ := hfail _ hcollected
  exact ⟨rfl, hsame, hignore, failure, hscanned, hcause, hcauses⟩

end TreeOutline.Command
