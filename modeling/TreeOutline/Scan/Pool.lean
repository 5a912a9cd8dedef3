import TreeOutline.Scan.Basic

/-!
Files outlined by several threads at a time. A thread takes any file that waits and outlines it. A
report is kept with its file, so the order in which files are done does not show. Of the errors only
the first that comes in is kept, and once there is one, files that wait may be left out.
-/

namespace TreeOutline

open Scanner (outlineFile outlineFiles)

inductive Slot where
  | waiting
  | running
  | done (report : Report)
  /-- The file has no report: it failed, or was left out after another one had failed. -/
  | dropped
  deriving Repr, DecidableEq

namespace Slot

def isRunning : Slot → Bool
  | .running => true
  | _ => false

def isSettled : Slot → Bool
  | .done _ => true
  | .dropped => true
  | _ => false

def report? : Slot → Option Report
  | .done report => some report
  | _ => none

end Slot

structure Pool where
  jobs : List (String × Slot)
  error : Option ScanError
  deriving Repr, DecidableEq

namespace Pool

def start (paths : List String) : Pool :=
  ⟨paths.map fun path => (path, .waiting), none⟩

def busy (p : Pool) : Nat :=
  p.jobs.countP fun job => job.2.isRunning

def isFinished (p : Pool) : Bool :=
  p.jobs.all fun job => job.2.isSettled

def result (p : Pool) : Except ScanError (List Report) :=
  match p.error with
  | some e => .error e
  | none => .ok (p.jobs.filterMap fun job => job.2.report?)

inductive Step (s : Settings) (fs : FileSystem) : Pool → Pool → Prop
  | take (before : List (String × Slot)) {path : String} {after : List (String × Slot)}
      {error : Option ScanError}
      (hfree : busy ⟨before ++ (path, .waiting) :: after, error⟩ < s.threads) :
    Step s fs ⟨before ++ (path, .waiting) :: after, error⟩
      ⟨before ++ (path, .running) :: after, error⟩
  | finish (before : List (String × Slot)) {path : String} {after : List (String × Slot)}
      {error : Option ScanError} {report : Report} (h : outlineFile s fs path = .ok report) :
    Step s fs ⟨before ++ (path, .running) :: after, error⟩
      ⟨before ++ (path, .done report) :: after, error⟩
  | fail (before : List (String × Slot)) {path : String} {after : List (String × Slot)}
      {error : Option ScanError} {e : ScanError} (h : outlineFile s fs path = .error e) :
    Step s fs ⟨before ++ (path, .running) :: after, error⟩
      ⟨before ++ (path, .dropped) :: after, error.or (some e)⟩
  | leaveOut (before : List (String × Slot)) {path : String} {after : List (String × Slot)}
      {e : ScanError} :
    Step s fs ⟨before ++ (path, .waiting) :: after, some e⟩
      ⟨before ++ (path, .dropped) :: after, some e⟩

/-- A pool that files may have come to after a number of steps. -/
inductive Reached (s : Settings) (fs : FileSystem) (paths : List String) : Nat → Pool → Prop
  | start : Reached s fs paths 0 (start paths)
  | step {n : Nat} {p q : Pool} (hp : Reached s fs paths n p) (h : Step s fs p q) :
    Reached s fs paths (n + 1) q

end Pool

/-- What outlining files may come to. One thread goes by the order of the files; where there are more
of them, any run of a pool will do. -/
inductive Outlines (s : Settings) (fs : FileSystem) (paths : List String) :
    Except ScanError (List Report) → Prop
  | inOrder (h : s.threads ≤ 1) : Outlines s fs paths (outlineFiles s fs paths)
  | pooled (h : 1 < s.threads) {n : Nat} {p : Pool} (hp : Pool.Reached s fs paths n p)
      (hdone : p.isFinished = true) : Outlines s fs paths p.result

/-- What a scan may come to, its files outlined by the threads of its settings. -/
inductive Scanner.Scans (scanner : Scanner) (fs : FileSystem) (root : String) :
    Except ScanError (List Report) → Prop
  | file (hroot : fs.directory? root = none) :
    Scans scanner fs root ((outlineFile scanner.settings fs root).map fun report => [report])
  | lost {place : Place} {e : ScanError} (hroot : fs.directory? root = some place)
      (h : scanner.treeFiles fs root place = .error e) : Scans scanner fs root (.error e)
  | walked {place : Place} {paths : List String} {result : Except ScanError (List Report)}
      (hroot : fs.directory? root = some place)
      (h : scanner.treeFiles fs root place = .ok paths)
      (hresult : Outlines scanner.settings fs paths result) : Scans scanner fs root result

end TreeOutline
