import TreeOutline.Keyed

/-!
A file system as a value: a tree of directories, files and links, the directory that relative paths
start from, and what the system gives as the sizes of directories. A place is the names that lead to an
entry from the top without any link.
-/

namespace TreeOutline

inductive Entry where
  | file (content : ByteArray)
  | directory (entries : List (String × Entry))
  | link (target : String)
  deriving Inhabited

abbrev Place := List String

structure FileSystem where
  entries : List (String × Entry)
  workingDirectory : Place
  directorySize : Place → Nat

namespace Entry

def entries : Entry → List (String × Entry)
  | .directory es => es
  | _ => []

def isDirectory : Entry → Bool
  | .directory _ => true
  | _ => false

def at? : Place → Entry → Option Entry
  | [], e => some e
  | name :: rest, e => (e.entries.lookup name).bind (at? rest)

/-- Puts an entry at a place, in place of what is there. Missing directories are made. -/
def put (new : Entry) : Place → Entry → Entry
  | [], _ => new
  | name :: rest, e =>
    let child := (e.entries.lookup name).getD (.directory [])
    .directory (Keyed.insert name (put new rest child) e.entries)

/-- Takes away the entry at a place, with all below it. -/
def remove : Place → Entry → Entry
  | [], e => e
  | [name], e => .directory (Keyed.erase name e.entries)
  | name :: rest, e =>
    match e.entries.lookup name with
    | some child => .directory (Keyed.insert name (remove rest child) e.entries)
    | none => e

theorem at?_put (new : Entry) (place : Place) (e : Entry) :
    at? place (put new place e) = some new := by
  induction place generalizing e with
  | nil => rfl
  | cons name rest ih => simp [at?, put, entries, Keyed.lookup_insert, ih]

mutual

def directories : Entry → Nat
  | .directory es => directoriesOf es + 1
  | _ => 0

def directoriesOf : List (String × Entry) → Nat
  | [] => 0
  | (_, e) :: rest => directories e + directoriesOf rest

end

mutual

def sorted : Entry → Entry
  | .directory es => .directory (sortedEntries es)
  | .file content => .file content
  | .link target => .link target

def sortedEntries : List (String × Entry) → List (String × Entry)
  | [] => []
  | (name, e) :: rest => Keyed.insert name (sorted e) (sortedEntries rest)

end

end Entry

namespace FileSystem

def top (fs : FileSystem) : Entry :=
  .directory fs.entries

def at? (fs : FileSystem) (place : Place) : Option Entry :=
  Entry.at? place fs.top

def put (fs : FileSystem) (place : Place) (new : Entry) : FileSystem :=
  { fs with entries := (Entry.put new place fs.top).entries }

def remove (fs : FileSystem) (place : Place) : FileSystem :=
  { fs with entries := (Entry.remove place fs.top).entries }

def sorted (fs : FileSystem) : FileSystem :=
  { fs with entries := Entry.sortedEntries fs.entries }

/-- A file system with nothing in it but the working directory. Where the sizes of directories are not
known, each counts as one block. -/
def empty (workingDirectory : Place) (directorySize : Place → Nat := fun _ => 4096) : FileSystem :=
  FileSystem.put ⟨[], workingDirectory, directorySize⟩ workingDirectory (.directory [])

end FileSystem

end TreeOutline
