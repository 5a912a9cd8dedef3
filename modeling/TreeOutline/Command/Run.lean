import TreeOutline.Command.Arguments
import TreeOutline.Command.Failure
import TreeOutline.Scan.Basic

/-!
What an invocation does to the files, and what it prints. A run is a sequence of acts, each of which
may change what is printed and what the files hold, and may fail; what was changed before a failure
stays changed. So it matters that a run writes last.
-/

namespace TreeOutline.Command

open Recognizer (Table)

/-- What a run can change: what it has printed so far, and the files. -/
structure World where
  output : String
  errors : String
  files : FileSystem

abbrev Act (α : Type) := ExceptT Failure (StateM World) α

namespace Act

def print (text : String) : Act Unit :=
  modify fun w => { w with output := w.output ++ text }

def tell (text : String) : Act Unit :=
  modify fun w => { w with errors := w.errors ++ text }

def files : Act FileSystem := do
  return (← get).files

def write (path text : String) : Act Unit := do
  match (← files).writeText path text with
  | .ok written => modify fun w => { w with files := written }
  | .error reason => throw (.write reason)

end Act

/-- The rules that an invocation asks for, of which there must be one. -/
def table (g : Given) : Except Failure Table := do
  let start : Table := if g.noDefaultRecognizers then .empty else .standard
  let table ← (start.addTexts g.recognize).mapError .rule
  if table.isEmpty then .error .noRules else .ok table

structure Machine where
  clock : ClockReading
  processors : Nat

def settingsWith (machine : Machine) (g : Given) (table : Table) : Settings where
  outline := ⟨table, !g.hideUnsupported⟩
  ignorePatterns := g.ignore
  includeHidden := g.includeHidden
  followLinks := g.followSymlinks
  threads := g.threads.getD machine.processors
  maxFileSize := g.maxFileSize.getD Settings.standard.maxFileSize

def settings (machine : Machine) (g : Given) : Except Failure Settings :=
  (table g).map (settingsWith machine g)

def format (g : Given) : Format :=
  g.format.getD .text

/-- How a scanner comes to the reports below a root. -/
abbrev Survey := Scanner → FileSystem → String → Except ScanError (List Report)

def scanned (survey : Survey) (machine : Machine) (fs : FileSystem) (path : String) (g : Given) :
    Except Failure ScanReport := do
  let settings ← settings machine g
  let scanner ← (Scanner.ofSettings settings).mapError .scanner
  let reports ← (survey scanner fs path).mapError (.scan path)
  .ok (.ofReports path reports (.ofReading machine.clock reports.length))

def collected (machine : Machine) (fs : FileSystem) (path : String) (g : Given) :
    Except Failure (Module × List Definition) := do
  let settings ← settings machine g
  let m ← (Module.load fs settings.maxFileSize path).mapError (.load path)
  let found ← (Definition.collect settings.outline.table m.root).mapError (.collect path)
  .ok (m, found)

def scanNotes (s : ScanReport) : List String :=
  let outlined := "Outlined " ++ toString s.stats.modules ++ " module(s), "
    ++ toString s.stats.classes ++ " class(es) in " ++ toString s.run.milliseconds ++ "ms"
  let unsupported := "Note: " ++ toString s.stats.unsupported
    ++ " definition(s) have no outline support"
  if 0 < s.stats.unsupported then [outlined, unsupported] else [outlined]

def collectNotes (m : Module) (found : List Definition) : List String :=
  ["Collected " ++ toString found.length ++ " definition(s) in " ++ m.name]

/-- Lines that each end. -/
def printed : List String → String
  | [] => ""
  | line :: rest => line ++ "\n" ++ printed rest

def note (g : Given) (notes : List String) : Act Unit :=
  Act.tell (if g.verbose then printed notes else "")

/-- Writes a text to the output file, or prints it unless it is empty. -/
def deliver (g : Given) (text : String) : Act Unit :=
  match g.output with
  | some path => Act.write path text
  | none => Act.print (if text = "" then "" else text ++ "\n")

def outline (survey : Survey) (machine : Machine) (path : String) (g : Given) : Act Unit := do
  let report ← scanned survey machine (← Act.files) path g
  note g (scanNotes report)
  deliver g (report.render (format g))

def definitions (machine : Machine) (path : String) (g : Given) : Act Unit := do
  let (m, found) ← collected machine (← Act.files) path g
  note g (collectNotes m found)
  deliver g (Summary.renderAll (found.map Definition.summary) (format g))

def perform (survey : Survey) (machine : Machine) (i : Invocation) : Act Unit :=
  match i.task with
  | .outline => outline survey machine i.path i.given
  | .definitions => definitions machine i.path i.given

structure Outcome where
  code : Nat
  output : String
  errors : String
  files : FileSystem

def programName : String := "mta-classoutline"

def usage : String :=
  "Usage: " ++ programName ++ " [OPTIONS] <PATH>\n"
    ++ "       " ++ programName ++ " [OPTIONS] definitions <PATH>\n"

def stopped (fs : FileSystem) : Stop → Outcome
  | .usage e => ⟨2, "", "error: " ++ e.message ++ "\n\n" ++ usage, fs⟩
  | .version => ⟨0, programName ++ " " ++ version ++ "\n", "", fs⟩
  | .help => ⟨0, usage, "", fs⟩

/-- The outcome of the acts of a run. A failure is told last. -/
def Act.outcome (act : Act Unit) (fs : FileSystem) : Outcome :=
  match act.run ⟨"", "", fs⟩ with
  | (.ok _, w) => ⟨0, w.output, w.errors, w.files⟩
  | (.error failure, w) => ⟨1, w.output, w.errors ++ failure.message, w.files⟩

/-- Runs the program, its scans done by a survey. -/
def runBy (survey : Survey) (machine : Machine) (fs : FileSystem) (arguments : List String) :
    Outcome :=
  match read arguments with
  | .error stop => stopped fs stop
  | .ok i => (perform survey machine i).outcome fs

/-- Runs the program on a single processor. -/
def run (clock : ClockReading) (fs : FileSystem) (arguments : List String) : Outcome :=
  runBy Scanner.reports ⟨clock, 1⟩ fs arguments

end TreeOutline.Command
