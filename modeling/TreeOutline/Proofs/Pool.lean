import Mathlib.Algebra.BigOperators.Group.List.Basic
import Mathlib.Algebra.Ring.Nat
import TreeOutline.Proofs.Traversal
import TreeOutline.Scan.Pool

/-!
Schedules do not show. Whatever order the threads of a pool take, it comes to an end, and then it has
failed just if outlining the files one after another does. If it has not, the reports are the same;
if it has, the error is that of some file. Going by the order of the files is one schedule of each
pool.
-/

namespace TreeOutline

open Scanner (outlineFile outlineFiles)
open Traversal

variable {s : Settings} {fs : FileSystem} {paths : List String}

theorem outlineFiles_eq_mapM (s : Settings) (fs : FileSystem) (paths : List String) :
    outlineFiles s fs paths = paths.mapM (outlineFile s fs) := by
  induction paths with
  | nil => rfl
  | cons path rest ih =>
    rw [outlineFiles, List.mapM_cons, ih]
    rfl

namespace Pool

/-- What a pool knows of its files is true of them. -/
structure Sound (s : Settings) (fs : FileSystem) (paths : List String) (p : Pool) : Prop where
  files : p.jobs.map Prod.fst = paths
  done : ∀ path report, (path, Slot.done report) ∈ p.jobs → outlineFile s fs path = .ok report
  dropped : ∀ path, (path, Slot.dropped) ∈ p.jobs → p.error ≠ none
  error : ∀ e, p.error = some e → ∃ path ∈ paths, outlineFile s fs path = .error e

/-- The steps that are left for a file, if it is not left out. -/
def stepsLeft : Slot → Nat
  | .waiting => 2
  | .running => 1
  | .done _ => 0
  | .dropped => 0

def work (p : Pool) : Nat :=
  (p.jobs.map fun job => stepsLeft job.2).sum

/-! ## Every step -/

variable {p q : Pool}

theorem sound_start (s : Settings) (fs : FileSystem) (paths : List String) :
    Sound s fs paths (start paths) := by
  refine ⟨by simp [start, Function.comp_def], ?_, ?_, ?_⟩
  · intro path report h
    simp [start] at h
  · intro path h
    simp [start] at h
  · intro e h
    cases h

theorem sound_step (h : Step s fs p q) (hp : Sound s fs paths p) : Sound s fs paths q := by
  obtain ⟨hfiles, hdone, hdropped, herror⟩ := hp
  cases h with
  | take _ hfree =>
    refine ⟨by simpa using hfiles, ?_, ?_, herror⟩
    · intro path report h
      exact hdone path report (by simpa using h)
    · intro path h
      exact hdropped path (by simpa using h)
  | @finish before path after error report hok =>
    refine ⟨by simpa using hfiles, ?_, ?_, herror⟩
    · intro path' report' h
      rcases List.mem_append.1 h with h | h
      · exact hdone path' report' (by simp [h])
      · rcases List.mem_cons.1 h with h | h
        · cases h
          exact hok
        · exact hdone path' report' (by simp [h])
    · intro path h
      exact hdropped path (by simpa using h)
  | @fail before path after error e hfail =>
    refine ⟨by simpa using hfiles, ?_, ?_, ?_⟩
    · intro path report h
      exact hdone path report (by simpa using h)
    · intro path _
      cases error <;> simp
    · intro e' he'
      cases error with
      | none =>
        cases he'
        have hmem : path ∈ paths := by
          rw [← hfiles]
          simp
        exact ⟨path, hmem, hfail⟩
      | some first => exact herror e' he'
  | leaveOut =>
    refine ⟨by simpa using hfiles, ?_, ?_, herror⟩
    · intro path report h
      exact hdone path report (by simpa using h)
    · intro path _
      simp

theorem work_start (paths : List String) : (start paths).work = 2 * paths.length := by
  induction paths with
  | nil => rfl
  | cons path paths ih =>
    simp only [work, start, List.map_cons, List.sum_cons, List.length_cons, stepsLeft] at ih ⊢
    omega

theorem work_step (h : Step s fs p q) : q.work + 1 ≤ p.work := by
  cases h
  all_goals
    simp only [work, stepsLeft, List.map_append, List.map_cons, List.sum_append, List.sum_cons]
    omega

/-- A pool with something left to do is not stuck: a thread is at work, or one is free. -/
theorem exists_step (hs : 0 < s.threads) (h : p.isFinished = false) : ∃ q, Step s fs p q := by
  obtain ⟨jobs, error⟩ := p
  by_cases hrun : ∃ path, (path, Slot.running) ∈ jobs
  · obtain ⟨path, hmem⟩ := hrun
    obtain ⟨before, after, rfl⟩ := List.append_of_mem hmem
    cases hfile : outlineFile s fs path with
    | ok report => exact ⟨_, .finish _ hfile⟩
    | error e => exact ⟨_, .fail _ hfile⟩
  · have hbusy : busy ⟨jobs, error⟩ = 0 := by
      apply List.countP_eq_zero.2
      rintro ⟨path, slot⟩ hmem hslot
      cases slot with
      | running => exact hrun ⟨path, hmem⟩
      | _ => cases hslot
    simp only [isFinished, List.all_eq_false] at h
    obtain ⟨⟨path, slot⟩, hmem, hslot⟩ := h
    cases slot with
    | waiting =>
      obtain ⟨before, after, rfl⟩ := List.append_of_mem hmem
      exact ⟨_, .take _ (by omega)⟩
    | running => exact absurd ⟨path, hmem⟩ hrun
    | done report => exact absurd rfl hslot
    | dropped => exact absurd rfl hslot

/-! ## Every run -/

variable {n : Nat}

theorem Reached.sound (h : Reached s fs paths n p) : Sound s fs paths p := by
  induction h with
  | start => exact sound_start s fs paths
  | step _ hstep ih => exact sound_step hstep ih

theorem Reached.work_le (h : Reached s fs paths n p) : n + p.work ≤ 2 * paths.length := by
  induction h with
  | start => simp [work_start]
  | step _ hstep ih =>
    have hwork := work_step hstep
    omega

/-- Without an error a finished pool has a report of every file. -/
theorem Sound.forall₂_reports {jobs : List (String × Slot)}
    (h : Sound s fs paths ⟨jobs, none⟩) (hdone : isFinished ⟨jobs, none⟩ = true) :
    List.Forall₂ (fun path report => outlineFile s fs path = .ok report) paths
      (jobs.filterMap fun job => job.2.report?) := by
  obtain ⟨rfl, hreport, hdropped, -⟩ := h
  simp only [isFinished, List.all_eq_true] at hdone
  induction jobs with
  | nil => exact .nil
  | cons job jobs ih =>
    obtain ⟨path, slot⟩ := job
    have hrest := ih (fun path report h => hreport path report (List.mem_cons_of_mem _ h))
      (fun path h => hdropped path (List.mem_cons_of_mem _ h))
      (fun job h => hdone job (List.mem_cons_of_mem _ h))
    have hslot := hdone (path, slot) List.mem_cons_self
    cases slot with
    | done report => exact .cons (hreport path report List.mem_cons_self) hrest
    | dropped => exact absurd rfl (hdropped path List.mem_cons_self)
    | waiting => cases hslot
    | running => cases hslot

theorem result_eq_ok {reports : List Report} (h : Sound s fs paths p) (hdone : p.isFinished = true)
    (hresult : p.result = .ok reports) : outlineFiles s fs paths = .ok reports := by
  obtain ⟨jobs, error⟩ := p
  cases error with
  | some e => cases hresult
  | none =>
    obtain rfl := Except.ok.inj hresult
    rw [outlineFiles_eq_mapM, mapM_eq_ok]
    exact h.forall₂_reports hdone

theorem result_eq_error {e : ScanError} (h : Sound s fs paths p) (hresult : p.result = .error e) :
    ∃ path ∈ paths, outlineFile s fs path = .error e := by
  obtain ⟨jobs, error⟩ := p
  cases error with
  | some first =>
    obtain rfl := Except.error.inj hresult
    exact h.error first rfl
  | none => cases hresult

/-! ## The run in the order of the files -/

/-- Files that were outlined, with their reports. -/
def outlined (files : List (String × Report)) : List (String × Slot) :=
  files.map fun file => (file.1, .done file.2)

theorem isSettled_concat {settled : List (String × Slot)}
    (h : ∀ job ∈ settled, job.2.isSettled = true) (path : String) :
    ∀ job ∈ settled ++ [(path, Slot.dropped)], job.2.isSettled = true := by
  intro job hjob
  rcases List.mem_append.1 hjob with hjob | hjob
  · exact h job hjob
  · rw [List.mem_singleton.1 hjob]
    rfl

/-- After an error, files that wait may all be left out. -/
theorem exists_finished_of_error {e : ScanError} {waiting : List String}
    {settled : List (String × Slot)} (hsettled : ∀ job ∈ settled, job.2.isSettled = true)
    (hp : Reached s fs paths n ⟨settled ++ (start waiting).jobs, some e⟩) :
    ∃ m q, Reached s fs paths m q ∧ q.isFinished = true ∧ q.result = .error e := by
  induction waiting generalizing settled n with
  | nil =>
    refine ⟨n, _, hp, ?_, rfl⟩
    simpa [isFinished, start] using hsettled
  | cons path rest ih =>
    have hnext : Reached s fs paths (n + 1)
        ⟨(settled ++ [(path, .dropped)]) ++ (start rest).jobs, some e⟩ := by
      rw [List.append_assoc]
      exact .step hp (.leaveOut settled)
    exact ih (isSettled_concat hsettled path) hnext

theorem busy_outlined (files : List (String × Report)) (waiting : List String) :
    busy ⟨outlined files ++ (start waiting).jobs, none⟩ = 0 := by
  apply List.countP_eq_zero.2
  intro job hjob
  rcases List.mem_append.1 hjob with hjob | hjob
  all_goals
    obtain ⟨file, -, rfl⟩ := List.mem_map.1 hjob
    simp [Slot.isRunning]

/-- One thread that takes file after file brings a pool to the end of the plain run. -/
theorem exists_finished (hs : 0 < s.threads) {files : List (String × Report)}
    {waiting : List String}
    (hp : Reached s fs paths n ⟨outlined files ++ (start waiting).jobs, none⟩) :
    ∃ m q, Reached s fs paths m q ∧ q.isFinished = true ∧
      q.result = (outlineFiles s fs waiting).map fun reports => files.map Prod.snd ++ reports := by
  induction waiting generalizing files n with
  | nil =>
    refine ⟨n, _, hp, ?_, ?_⟩
    · simp [isFinished, outlined, start, Slot.isSettled]
    · simp [result, outlined, start, outlineFiles, Except.map, Slot.report?,
        List.filterMap_map]
  | cons path rest ih =>
    have hfree : busy ⟨outlined files ++ (start (path :: rest)).jobs, none⟩ < s.threads := by
      rw [busy_outlined]
      exact hs
    have htaken := hp.step (.take (outlined files) hfree)
    rw [outlineFiles]
    cases hfile : outlineFile s fs path with
    | ok report =>
      have hnext : Reached s fs paths (n + 2)
          ⟨outlined (files ++ [(path, report)]) ++ (start rest).jobs, none⟩ := by
        have hdone := htaken.step (.finish (outlined files) hfile)
        simpa [outlined, start] using hdone
      obtain ⟨m, q, hq, hfinished, hresult⟩ := ih hnext
      refine ⟨m, q, hq, hfinished, ?_⟩
      rw [hresult]
      cases outlineFiles s fs rest with
      | error e => rfl
      | ok reports => simp [Except.map, bind, Except.bind]
    | error e =>
      have hsettled : ∀ job ∈ outlined files, job.2.isSettled = true := by
        intro job hjob
        obtain ⟨file, -, rfl⟩ := List.mem_map.1 hjob
        rfl
      have hnext : Reached s fs paths (n + 2)
          ⟨(outlined files ++ [(path, .dropped)]) ++ (start rest).jobs, some e⟩ := by
        rw [List.append_assoc]
        exact htaken.step (.fail (outlined files) hfile)
      exact exists_finished_of_error (isSettled_concat hsettled path) hnext

end Pool

/-! ## All schedules -/

/-- However many threads there are, going by the order of the files is among what they may do. -/
theorem outlines_outlineFiles (s : Settings) (fs : FileSystem) (paths : List String) :
    Outlines s fs paths (outlineFiles s fs paths) := by
  rcases Nat.lt_or_ge 1 s.threads with hs | hs
  · have hstart : Pool.Reached s fs paths 0 ⟨Pool.outlined [] ++ (Pool.start paths).jobs, none⟩ :=
      .start
    obtain ⟨m, q, hq, hfinished, hresult⟩ := Pool.exists_finished (by omega) hstart
    have hplain : q.result = outlineFiles s fs paths := by
      rw [hresult]
      cases outlineFiles s fs paths <;> rfl
    exact hplain ▸ .pooled hs hq hfinished
  · exact .inOrder hs

theorem outlines_of_le_one (hs : s.threads ≤ 1) {result : Except ScanError (List Report)} :
    Outlines s fs paths result ↔ result = outlineFiles s fs paths := by
  refine ⟨fun h => ?_, fun h => h ▸ .inOrder hs⟩
  cases h with
  | inOrder => rfl
  | pooled h => omega

theorem outlineFiles_eq_ok {reports : List Report} :
    outlineFiles s fs paths = .ok reports ↔
      List.Forall₂ (fun path report => outlineFile s fs path = .ok report) paths reports := by
  rw [outlineFiles_eq_mapM, mapM_eq_ok]

theorem outlineFiles_eq_error {e : ScanError} :
    outlineFiles s fs paths = .error e ↔ FirstError (outlineFile s fs) paths e := by
  rw [outlineFiles_eq_mapM, mapM_eq_error]

theorem exists_error_of_outlineFiles {e : ScanError} (h : outlineFiles s fs paths = .error e) :
    ∃ path ∈ paths, outlineFile s fs path = .error e := by
  obtain ⟨before, path, after, rfl, -, hpath⟩ := outlineFiles_eq_error.1 h
  exact ⟨path, by simp, hpath⟩

theorem not_error_of_outlineFiles {reports : List Report} (h : outlineFiles s fs paths = .ok reports)
    {path : String} (hpath : path ∈ paths) {e : ScanError} : outlineFile s fs path ≠ .error e := by
  intro he
  rw [outlineFiles_eq_mapM] at h
  obtain ⟨report, hreport⟩ := exists_mapM_eq_ok.1 ⟨reports, h⟩ path hpath
  cases he.symm.trans hreport

/-- What a schedule comes to, measured by the plain run. -/
theorem Outlines.agrees {result : Except ScanError (List Report)}
    (h : Outlines s fs paths result) :
    (∀ reports, result = .ok reports ↔ outlineFiles s fs paths = .ok reports) ∧
      ∀ e, result = .error e → ∃ path ∈ paths, outlineFile s fs path = .error e := by
  cases h with
  | inOrder => exact ⟨fun _ => Iff.rfl, fun _ => exists_error_of_outlineFiles⟩
  | @pooled _ n p hp hdone =>
    have hsound := hp.sound
    refine ⟨fun reports => ⟨fun h => ?_, fun h => ?_⟩, fun e => Pool.result_eq_error hsound⟩
    · exact Pool.result_eq_ok hsound hdone h
    · cases hresult : p.result with
      | ok reports' =>
        have hplain := Pool.result_eq_ok hsound hdone hresult
        rw [h] at hplain
        exact hplain.symm
      | error e =>
        obtain ⟨path, hpath, he⟩ := Pool.result_eq_error hsound hresult
        exact absurd he (not_error_of_outlineFiles h hpath)

/-- Files that can all be outlined come to their reports and nothing else. -/
theorem outlines_iff_of_ok {reports : List Report} (h : outlineFiles s fs paths = .ok reports)
    {result : Except ScanError (List Report)} :
    Outlines s fs paths result ↔ result = .ok reports := by
  refine ⟨fun hresult => ?_, ?_⟩
  · obtain ⟨hok, herror⟩ := hresult.agrees
    cases result with
    | ok reports' => exact ((hok reports').1 rfl).symm.trans h
    | error e =>
      obtain ⟨path, hpath, he⟩ := herror e rfl
      exact absurd he (not_error_of_outlineFiles h hpath)
  · rintro rfl
    exact h ▸ outlines_outlineFiles s fs paths

/-! ## Whole scans -/

namespace Scanner

variable {scanner : Scanner} {root : String} {place : Place} {result : Except ScanError (List Report)}

theorem scans_iff_of_file (hroot : fs.directory? root = none) :
    scanner.Scans fs root result ↔
      result = (outlineFile scanner.settings fs root).map fun report => [report] := by
  refine ⟨fun h => ?_, fun h => h ▸ .file hroot⟩
  cases h with
  | file => rfl
  | lost hplace => cases hroot.symm.trans hplace
  | walked hplace => cases hroot.symm.trans hplace

theorem scans_iff_of_lost {e : ScanError} (hroot : fs.directory? root = some place)
    (h : scanner.treeFiles fs root place = .error e) :
    scanner.Scans fs root result ↔ result = .error e := by
  refine ⟨fun hscans => ?_, fun heq => heq ▸ .lost hroot h⟩
  cases hscans with
  | file hnone => cases hroot.symm.trans hnone
  | lost hplace hlost =>
    cases hroot.symm.trans hplace
    cases h.symm.trans hlost
    rfl
  | walked hplace hwalked =>
    cases hroot.symm.trans hplace
    cases h.symm.trans hwalked

theorem scans_iff_of_walked (hroot : fs.directory? root = some place)
    (h : scanner.treeFiles fs root place = .ok paths) :
    scanner.Scans fs root result ↔ Outlines scanner.settings fs paths result := by
  refine ⟨fun hscans => ?_, .walked hroot h⟩
  cases hscans with
  | file hnone => cases hroot.symm.trans hnone
  | lost hplace hlost =>
    cases hroot.symm.trans hplace
    cases h.symm.trans hlost
  | walked hplace hwalked hresult =>
    cases hroot.symm.trans hplace
    cases h.symm.trans hwalked
    exact hresult

theorem reports_of_lost {e : ScanError} (hroot : fs.directory? root = some place)
    (h : scanner.treeFiles fs root place = .error e) : scanner.reports fs root = .error e := by
  simp only [reports, hroot, h]
  rfl

theorem reports_of_walked (hroot : fs.directory? root = some place)
    (h : scanner.treeFiles fs root place = .ok paths) :
    scanner.reports fs root = outlineFiles scanner.settings fs paths := by
  simp only [reports, hroot, h]
  rfl

/-- What a scan comes to when it goes by the order of the files is among what it may come to. -/
theorem scans_reports (scanner : Scanner) (fs : FileSystem) (root : String) :
    scanner.Scans fs root (scanner.reports fs root) := by
  cases hroot : fs.directory? root with
  | none =>
    simp only [reports, hroot]
    exact .file hroot
  | some place =>
    cases h : scanner.treeFiles fs root place with
    | error e =>
      rw [reports_of_lost hroot h]
      exact .lost hroot h
    | ok paths =>
      rw [reports_of_walked hroot h]
      exact .walked hroot h (outlines_outlineFiles scanner.settings fs paths)

end Scanner

section Agree

variable {fs' : FileSystem}

theorem outlineFiles_of_agree
    (hagree : ∀ path ∈ paths, outlineFile s fs' path = outlineFile s fs path) :
    outlineFiles s fs' paths = outlineFiles s fs paths := by
  induction paths with
  | nil => rfl
  | cons path rest ih =>
    rw [outlineFiles, outlineFiles, hagree path (by simp),
      ih fun path hpath => hagree path (List.mem_cons_of_mem _ hpath)]

theorem Pool.Step.of_agree {p q : Pool} (h : Step s fs p q)
    (hagree : ∀ path ∈ p.jobs.map Prod.fst, outlineFile s fs' path = outlineFile s fs path) :
    Step s fs' p q := by
  cases h with
  | take before hfree => exact .take before hfree
  | finish before hok => exact .finish before ((hagree _ (by simp)).trans hok)
  | fail before hfail => exact .fail before ((hagree _ (by simp)).trans hfail)
  | leaveOut before => exact .leaveOut before

theorem Pool.Reached.of_agree {n : Nat} {p : Pool} (h : Reached s fs paths n p)
    (hagree : ∀ path ∈ paths, outlineFile s fs' path = outlineFile s fs path) :
    Reached s fs' paths n p := by
  induction h with
  | start => exact .start
  | step hp hstep ih =>
    apply ih.step
    apply hstep.of_agree
    rw [hp.sound.files]
    exact hagree

/-- Files that are the same elsewhere may come to the same there. -/
theorem Outlines.of_agree {result : Except ScanError (List Report)} (h : Outlines s fs paths result)
    (hagree : ∀ path ∈ paths, outlineFile s fs' path = outlineFile s fs path) :
    Outlines s fs' paths result := by
  cases h with
  | inOrder hs =>
    rw [← outlineFiles_of_agree hagree]
    exact .inOrder hs
  | pooled hs hp hdone => exact .pooled hs (hp.of_agree hagree) hdone

end Agree

/-- One thread outlines file after file. With more of them no run of the pool goes on for ever or
gets stuck, and each comes to the reports of the plain run, or to an error if that fails. -/
theorem outlines_agree (s : Settings) (fs : FileSystem) (paths : List String) :
    (s.threads ≤ 1 → ∀ result, Outlines s fs paths result ↔
      (∃ reports, result = .ok reports ∧
        List.Forall₂ (fun path report => outlineFile s fs path = .ok report) paths reports) ∨
      ∃ e, result = .error e ∧ FirstError (outlineFile s fs) paths e) ∧
    (1 < s.threads →
      (∀ n p, Pool.Reached s fs paths n p →
        n ≤ 2 * paths.length ∧ (p.isFinished = true ∨ ∃ q, Pool.Step s fs p q)) ∧
      ∀ result, Outlines s fs paths result →
        ((∃ reports, result = .ok reports) ↔ ∃ reports, outlineFiles s fs paths = .ok reports) ∧
        (∀ reports plain, result = .ok reports → outlineFiles s fs paths = .ok plain →
          reports = plain ∧ Stats.ofReports reports = Stats.ofReports plain) ∧
        ∀ e, result = .error e → ∃ path ∈ paths, outlineFile s fs path = .error e) ∧
    Outlines s fs paths (outlineFiles s fs paths) := by
  refine ⟨fun hs result => ?_, fun hs => ⟨fun n p hp => ?_, fun result h => ?_⟩,
    outlines_outlineFiles s fs paths⟩
  · rw [outlines_of_le_one hs]
    simp only [← outlineFiles_eq_ok, ← outlineFiles_eq_error]
    cases outlineFiles s fs paths <;> simp [eq_comm]
  · have hwork := hp.work_le
    refine ⟨by omega, ?_⟩
    cases hdone : p.isFinished with
    | true => exact .inl rfl
    | false => exact .inr (Pool.exists_step (by omega) hdone)
  · obtain ⟨hok, herror⟩ := h.agrees
    refine ⟨exists_congr hok, fun reports plain hr hplain => ?_, herror⟩
    obtain rfl : reports = plain := Except.ok.inj (((hok reports).1 hr).symm.trans hplain)
    exact ⟨rfl, rfl⟩

theorem outlineFile_empty {path : String} (hfind : fs.find path = .ok (.file "{}".toUTF8))
    (hsize : 2 ≤ s.maxFileSize) :
    outlineFile s fs path = .ok ⟨path, Path.moduleName path, [], []⟩ := by
  rw [outlineFile, Module.load_empty hfind hsize]
  rfl

/-- A tree file, and a directory that is named like one. -/
def trapFiles : FileSystem :=
  ⟨[("a.json", .file "{}".toUTF8), ("b.json", .directory [])], [], fun _ => 4096⟩

def twoThreads : Settings :=
  .standard 2

/-- Two threads may come to the error of the later file, which one thread never does. -/
theorem outlines_trapFiles :
    (1 < twoThreads.threads ∧
      Outlines twoThreads trapFiles ["b.json", "c.json"] (.error (.load (.notFound "c.json"))) ∧
      ∃ path ∈ ["b.json", "c.json"],
        outlineFile twoThreads trapFiles path = .error (.load (.notFound "c.json"))) ∧
    (Settings.standard 1).threads ≤ 1 ∧
      Outlines (.standard 1) trapFiles ["a.json", "a.json"]
        (.ok [⟨"a.json", "a", [], []⟩, ⟨"a.json", "a", [], []⟩]) := by
  have hmissing : outlineFile twoThreads trapFiles "c.json" = .error (.load (.notFound "c.json")) :=
    rfl
  have hread : outlineFile (.standard 1) trapFiles "a.json" = .ok ⟨"a.json", "a", [], []⟩ :=
    outlineFile_empty rfl (by decide)
  have hlate : Outlines twoThreads trapFiles ["b.json", "c.json"]
      (.error (.load (.notFound "c.json"))) := by
    have htaken : Pool.Reached twoThreads trapFiles ["b.json", "c.json"] 1
        ⟨[("b.json", .waiting), ("c.json", .running)], none⟩ :=
      .step .start (.take [("b.json", .waiting)] (by decide))
    have hfailed := htaken.step (.fail [("b.json", .waiting)] hmissing)
    exact .pooled (by decide) (hfailed.step (.leaveOut [])) rfl
  refine ⟨⟨by decide, hlate, ?_⟩, by decide, ?_⟩
  · obtain ⟨-, hresults⟩ := (outlines_agree twoThreads trapFiles _).2.1 (by decide)
    exact (hresults _ hlate).2.2 _ rfl
  · have hresults := (outlines_agree (.standard 1) trapFiles ["a.json", "a.json"]).1 (by decide)
    exact (hresults _).2 (.inl ⟨_, rfl, .cons hread (.cons hread .nil)⟩)

end TreeOutline
