import TreeOutline.Scan.Settings

/-!
Scans of a file, or of all tree files below a directory, in path order. The first file that cannot
be outlined ends a scan.
-/

namespace TreeOutline

def version : String := "0.1.0"

def Module.outline (m : Module) (o : Outline.Options) : Except ShapeError Report :=
  Outline.report o m.path m.name m.root

structure Scanner where
  settings : Settings
  ignore : Ignore

namespace Scanner

def ofSettings (s : Settings) : Except ScanError Scanner :=
  match Ignore.ofPatterns s.includeHidden s.ignorePatterns with
  | .ok ignore => .ok ⟨s, ignore⟩
  | .error e => .error (.pattern e)

def outlineFile (s : Settings) (fs : FileSystem) (path : String) : Except ScanError Report :=
  match Module.load fs s.maxFileSize path with
  | .error e => .error (.load e)
  | .ok m =>
    match m.outline s.outline with
    | .ok report => .ok report
    | .error e => .error (.shape path e)

def outlineFiles (s : Settings) (fs : FileSystem) : List String → Except ScanError (List Report)
  | [] => .ok []
  | path :: rest => do
    let first ← outlineFile s fs path
    let others ← outlineFiles s fs rest
    .ok (first :: others)

def walk (scanner : Scanner) (fs : FileSystem) (root : String) : Walk where
  fs := fs.sorted
  root := root
  followLinks := scanner.settings.followLinks
  keeps := fun path => !scanner.ignore.ignores path

def treeFiles (scanner : Scanner) (fs : FileSystem) (root : String) (place : Place) :
    Except ScanError (List String) :=
  let walk := scanner.walk fs root
  match walk.files place with
  | .ok trails => .ok ((trails.map walk.path).filter Path.isTreeFile)
  | .error e => .error (.walk e)

/-- The reports of a scan. A root that is no directory is outlined as a file. -/
def reports (scanner : Scanner) (fs : FileSystem) (root : String) :
    Except ScanError (List Report) :=
  match fs.directory? root with
  | some place => do
    let paths ← scanner.treeFiles fs root place
    outlineFiles scanner.settings fs paths
  | none => do
    let report ← outlineFile scanner.settings fs root
    .ok [report]

end Scanner

def ScanReport.ofReports (root : String) (reports : List Report) (run : RunInfo) : ScanReport :=
  ⟨root, reports, .ofReports reports, run⟩

/-- What a clock shows of a scan: how long it took, and when it ended. -/
structure ClockReading where
  nanoseconds : Nat
  timestamp : String

def ClockReading.seconds (c : ClockReading) : Float :=
  (c.nanoseconds / 1000000000).toFloat + (c.nanoseconds % 1000000000).toFloat / 1e9

/-- How a scan of some files went. Where the clock did not move, all files count for one second. -/
def RunInfo.ofReading (c : ClockReading) (files : Nat) : RunInfo where
  milliseconds := c.nanoseconds / 1000000
  filesPerSecond := if 0 < c.seconds then files.toFloat / c.seconds else files.toFloat
  timestamp := c.timestamp
  toolVersion := version

end TreeOutline
