import TreeOutline.Files.Basic
import TreeOutline.Files.Error
import TreeOutline.Text.Pieces

/-!
What paths lead to. A path is followed step by step, a link being replaced by the steps of its
target, up to a limit of links. A path that ends with a slash leads to a directory or nowhere.
-/

namespace TreeOutline

structure Route where
  absolute : Bool
  steps : List String
  /-- A slash stands behind the last step. -/
  closed : Bool

def Route.ofPath (path : String) : Route :=
  let pieces := (Text.pieces '/' path.toList).map String.ofList
  { absolute := path.toList.head? = some '/'
    steps := pieces.filter fun piece => piece ≠ ""
    closed := path.toList.getLast? = some '/' }

/-- Where a route ends: at a directory, at a file, or at a name that a directory does not hold. A
slash may still stand behind the last two. -/
inductive Found where
  | directory (place : Place)
  | file (place : Place) (content : ByteArray) (closed : Bool)
  | absent (place : Place) (closed : Bool)

namespace FileSystem

def linkLimit : Nat := 40

def nameLimit : Nat := 255

def pathLimit : Nat := 4095

/-- What to do at a link in a directory: it gets the target, the steps behind the link, and whether
a slash ends them. -/
abbrev Through := Place → String → List String → Bool → Except IoError Found

def above (place : Place) : Place :=
  place.dropLast

def follow (fs : FileSystem) (through : Through) (closed : Bool) :
    Place → List String → Except IoError Found
  | here, [] => .ok (.directory here)
  | here, step :: rest =>
    if step = "." then follow fs through closed here rest
    else if step = ".." then follow fs through closed (above here) rest
    else if nameLimit < step.utf8ByteSize then .error .nameTooLong
    else
      let place := here ++ [step]
      match fs.at? place with
      | some (.directory _) => follow fs through closed place rest
      | some (.file content) =>
        if rest.isEmpty then .ok (.file place content closed) else .error .notDirectory
      | some (.link target) => through here target rest closed
      | none => if rest.isEmpty then .ok (.absent place closed) else .error .notFound

theorem follow_name {fs : FileSystem} {through : Through} {closed : Bool} {here : Place}
    {name : String} {rest : List String} (hhere : ¬ name = ".") (habove : ¬ name = "..")
    (hlong : ¬ nameLimit < name.utf8ByteSize) :
    fs.follow through closed here (name :: rest) =
      match fs.at? (here ++ [name]) with
      | some (.directory _) => fs.follow through closed (here ++ [name]) rest
      | some (.file content) =>
        if rest.isEmpty then .ok (.file (here ++ [name]) content closed) else .error .notDirectory
      | some (.link target) => through here target rest closed
      | none =>
        if rest.isEmpty then .ok (.absent (here ++ [name]) closed) else .error .notFound := by
  rw [follow, if_neg hhere, if_neg habove]
  exact if_neg hlong

/-- Where a route from a directory leads, if no more than a number of links are on it. -/
def followRoute (fs : FileSystem) : (links : Nat) → Place → Route → Except IoError Found
  | 0, here, route =>
    fs.follow (fun _ _ _ _ => .error .tooManyLinks) route.closed
      (if route.absolute then [] else here) route.steps
  | links + 1, here, route =>
    fs.follow
      (fun here target rest closed =>
        let onward := Route.ofPath target
        let ends := if rest.isEmpty then closed || onward.closed else closed
        fs.followRoute links here ⟨onward.absolute, onward.steps ++ rest, ends⟩)
      route.closed (if route.absolute then [] else here) route.steps

/-- Why a path leads nowhere whatever the file system holds. -/
def unusable? (path : String) : Option IoError :=
  if path.toList.contains '\x00' then some .nulInPath
  else if path = "" then some .notFound
  else if pathLimit < path.utf8ByteSize then some .nameTooLong
  else none

def lookup (fs : FileSystem) (path : String) : Except IoError Found :=
  match unusable? path with
  | some e => .error e
  | none => fs.followRoute linkLimit fs.workingDirectory (Route.ofPath path)

inductive Source where
  | directory (place : Place)
  | file (content : ByteArray)

def find (fs : FileSystem) (path : String) : Except IoError Source :=
  match fs.lookup path with
  | .ok (.directory place) => .ok (.directory place)
  | .ok (.file _ content false) => .ok (.file content)
  | .ok (.file _ _ true) => .error .notDirectory
  | .ok (.absent _ _) => .error .notFound
  | .error e => .error e

def directory? (fs : FileSystem) (path : String) : Option Place :=
  match fs.find path with
  | .ok (.directory place) => some place
  | _ => none

def size (fs : FileSystem) (path : String) : Except IoError Nat :=
  match fs.find path with
  | .ok (.directory place) => .ok (fs.directorySize place)
  | .ok (.file content) => .ok content.size
  | .error e => .error e

def readText (fs : FileSystem) (path : String) : Except IoError String :=
  match fs.find path with
  | .ok (.directory _) => .error .isDirectory
  | .ok (.file content) =>
    match String.fromUTF8? content with
    | some text => .ok text
    | none => .error .notText
  | .error e => .error e

theorem readText_of_find {fs : FileSystem} {path text : String}
    (h : fs.find path = .ok (.file text.toUTF8)) : fs.readText path = .ok text := by
  have hread : String.fromUTF8? text.toUTF8 = some text := by
    rw [String.toUTF8_eq_toByteArray, String.fromUTF8?, dif_pos text.isValidUTF8]
    rfl
  rw [readText, h]
  simp only [hread]

/-- The place at which a path names a file to be written: that of a file, or of a new name in a
directory. A path with a slash at its end names no file. -/
def target (fs : FileSystem) (path : String) : Except IoError Place :=
  match fs.lookup path with
  | .ok (.file place _ false) => .ok place
  | .ok (.absent place false) =>
    -- a working directory that is gone takes no new names
    if ((fs.at? (above place)).map Entry.isDirectory) = some true then .ok place
    else .error .notFound
  | .ok _ => .error .isDirectory
  | .error e => .error e

def writeText (fs : FileSystem) (path text : String) : Except IoError FileSystem := do
  let place ← fs.target path
  .ok (fs.put place (.file text.toUTF8))

end FileSystem

end TreeOutline
