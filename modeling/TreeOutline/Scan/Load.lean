import TreeOutline.Files.Lookup
import TreeOutline.Json.Parser
import TreeOutline.Path

/-!
Syntax trees from files. A file that is too large is refused before it is read, and its text is all
that is looked at: any JSON value is a tree.
-/

namespace TreeOutline

inductive LoadError where
  | notFound (path : String)
  | unreadable (path : String) (reason : IoError)
  | tooLarge (path : String) (size limit : Nat)
  | malformed (path : String) (reason : Json.ParseError)
  deriving Repr, DecidableEq

namespace LoadError

def message : LoadError → String
  | .notFound path => "Input not found: " ++ path
  | .unreadable path reason => "Failed to read " ++ path ++ ": " ++ reason.message
  | .tooLarge path size limit =>
    "File too large: " ++ path ++ " is " ++ toString size ++ " bytes (limit " ++ toString limit
      ++ ")"
  | .malformed path reason => "Malformed JSON in " ++ path ++ ": " ++ reason.message

def causes : LoadError → List String
  | .unreadable _ reason => [reason.message]
  | .malformed _ reason => [reason.message]
  | .notFound _ => []
  | .tooLarge _ _ _ => []

def ofIoError (path : String) : IoError → LoadError
  | .notFound => .notFound path
  | reason => .unreadable path reason

end LoadError

/-- A tree, the path that it is from, and the name that it is reported under. -/
structure Module where
  path : String
  name : String
  root : Json
  deriving Repr

namespace Module

def ofText (path text : String) : Except LoadError Module :=
  match Json.parse text with
  | .ok root => .ok ⟨path, Path.moduleName path, root⟩
  | .error reason => .error (.malformed path reason)

def load (fs : FileSystem) (limit : Nat) (path : String) : Except LoadError Module :=
  match fs.size path with
  | .error reason => .error (.ofIoError path reason)
  | .ok size =>
    -- the size decides before anything is read
    if limit < size then .error (.tooLarge path size limit)
    else
      match fs.readText path with
      | .error reason => .error (.ofIoError path reason)
      | .ok text => ofText path text

theorem load_of_find {fs : FileSystem} {limit : Nat} {path text : String}
    (hfind : fs.find path = .ok (.file text.toUTF8)) (hsize : text.toUTF8.size ≤ limit) :
    load fs limit path = ofText path text := by
  rw [load, FileSystem.size, hfind]
  simp only [if_neg (Nat.not_lt.2 hsize), FileSystem.readText_of_find hfind]

/-- A tree without members takes two bytes. -/
theorem load_empty {fs : FileSystem} {limit : Nat} {path : String}
    (hfind : fs.find path = .ok (.file "{}".toUTF8)) (hsize : 2 ≤ limit) :
    load fs limit path = .ok ⟨path, Path.moduleName path, .object []⟩ := by
  have hparse : Json.parse "{}" = .ok (.object []) := by with_unfolding_all rfl
  rw [load_of_find hfind hsize, ofText, hparse]

end Module

end TreeOutline
