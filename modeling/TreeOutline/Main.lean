import Std.Time.DateTime.Timestamp
import TreeOutline.Command.Run
import TreeOutline.Scan.Timestamp

/-!
The program. It records the files that an invocation can reach, runs the invocation on the record,
and writes what came of it. All that a run decides is decided in `Command.run`.
-/

namespace TreeOutline.Program

/-- A target that no directory holds, for the links that lead nowhere. -/
def nowhere : String := "\x00"

def placeOf (here : Place) (path : String) : Place :=
  let route := Route.ofPath path
  route.steps.foldl
    (fun place step =>
      if step = "." then place else if step = ".." then FileSystem.above place else place ++ [step])
    (if route.absolute then [] else here)

/-- The files recorded so far, and the links that were followed. -/
structure Record where
  files : FileSystem
  followed : List String

namespace Record

def put (r : Record) (path : String) (e : Entry) : Record :=
  { r with files := r.files.put (placeOf r.files.workingDirectory path) e }

def putDirectory (r : Record) (path : String) (size : Nat) : Record :=
  let place := placeOf r.files.workingDirectory path
  let files := r.files.put place (.directory [])
  let sizeAt := fun other => if other = place then size else files.directorySize other
  { r with files := { files with directorySize := sizeAt } }

/-- Records what is at a path, and what is below it and where its links lead. -/
partial def add (r : Record) (path : String) : IO Record := do
  let here ← IO.currentDir
  match ← (here / path).symlinkMetadata.toBaseIO with
  | .error _ => return r
  | .ok m =>
    match m.type with
    | .dir =>
      let entries ← (here / path).readDir
      entries.foldlM (fun r entry => r.add (Path.join path entry.fileName))
        (r.putDirectory path m.byteSize.toNat)
    | .file =>
      match ← (IO.FS.readBinFile path).toBaseIO with
      | .ok content => return r.put path (.file content)
      | .error _ => return r
    | .symlink =>
      match ← (IO.FS.realPath path).toBaseIO with
      | .error _ => return r.put path (.link nowhere)
      | .ok target =>
        let linked := r.put path (.link target.toString)
        if linked.followed.contains target.toString then return linked
        Record.add { linked with followed := target.toString :: linked.followed } target.toString
    | .other => return r

/-- Records whether there is a directory at a path, but not what it holds. -/
def addDirectory (r : Record) (path : String) : IO Record := do
  let here ← IO.currentDir
  let place := placeOf r.files.workingDirectory path
  if (r.files.at? place).isNone && (← (here / path).isDir) then
    return r.put path (.directory [])
  else return r

/-- Records what writing to a path depends on. -/
def addTarget (r : Record) (path : String) : IO Record := do
  let route := Route.ofPath path
  let parent := Text.join "/" route.steps.dropLast
  let above := if route.absolute then "/" ++ parent else if parent = "" then "." else parent
  let r ← r.addDirectory above
  r.addDirectory path

end Record

def record (i : Command.Invocation) : IO Record := do
  let here ← IO.currentDir
  let start : Record := ⟨.empty (placeOf [] here.toString), []⟩
  let r ← start.add i.path
  match i.given.output with
  | some path => r.addTarget path
  | none => return r

def run (arguments : List String) : IO UInt32 := do
  let start ← IO.monoNanosNow
  let invocation := Command.read arguments
  let files ←
    match invocation with
    | .ok i => (·.files) <$> record i
    | .error _ => pure (.empty [])
  let stop ← IO.monoNanosNow
  let now ← Std.Time.Timestamp.now
  let clock : ClockReading :=
    ⟨stop - start, Timestamp.text now.toNanosecondsSinceUnixEpoch.val.toNat⟩
  let outcome := Command.run clock files arguments
  if let (.ok i, 0) := (invocation, outcome.code) then
    if let some path := i.given.output then
      if let .ok text := outcome.files.readText path then IO.FS.writeFile path text
  IO.eprint outcome.errors
  IO.print outcome.output
  return outcome.code.toUInt32

end TreeOutline.Program

def main (arguments : List String) : IO UInt32 :=
  TreeOutline.Program.run arguments
