import TreeOutline.Text.Pieces

/-!
Paths as texts. A path is the pieces between its slashes; empty pieces and single dots at its end
name nothing, so `a/b/.` ends with the name `b`. A module is named by its path: without the
extension of the last name, and with dots in place of separators.
-/

namespace TreeOutline.Path

open Text (pieces cutLast joinChars)

/-- The last name of a path, the pieces before it, and whether the path ends with it. -/
structure Tail where
  before : List (List Char)
  name : List Char
  atEnd : Bool
  deriving Repr, DecidableEq

def isIdle (piece : List Char) : Bool :=
  piece = [] || piece = ['.']

def parentPiece : List Char := ['.', '.']

/-- The last name of a path, if it has one: the directory above has no name. -/
def tail? (path : List Char) : Option Tail :=
  let reversed := (pieces '/' path).reverse
  match reversed.dropWhile isIdle with
  | [] => none
  | name :: before =>
    if name = parentPiece then none
    else some ⟨before.reverse, name, before.length + 1 = reversed.length⟩

/-- A name cut at its last dot into stem and extension. A dot in the first place starts a hidden
name, not an extension. -/
def splitName (name : List Char) : List Char × Option (List Char) :=
  match cutLast '.' name with
  | some ([], _) => (name, none)
  | some (stem, extension) => (stem, some extension)
  | none => (name, none)

def fileName? (path : String) : Option String :=
  (tail? path.toList).map fun t => String.ofList t.name

def extension? (path : String) : Option String := do
  let t ← tail? path.toList
  (splitName t.name).2.map String.ofList

/-- The last name without its extension. The dot before the extension goes with it, unless nothing
but two dots are left at the end of the path: they name the directory above and stay. -/
def Tail.bareName (t : Tail) : List Char :=
  match splitName t.name with
  | (stem, some _) => if t.atEnd && stem = ['.'] then parentPiece else stem
  | (name, none) => name

def withoutExtension (path : List Char) : List Char :=
  match tail? path with
  | none => path
  | some t => joinChars '/' (t.before ++ [t.bareName])

/-- Either kind of slash separates the parts of a module name. -/
def isSeparator (c : Char) : Bool :=
  c = '/' || c = '\x5c'

def moduleName (path : String) : String :=
  String.ofList ((withoutExtension path.toList).map fun c => if isSeparator c then '.' else c)

/-- Whether a path looks like that of a tree file: its extension is `json` in any case. -/
def isTreeFile (path : String) : Bool :=
  match extension? path with
  | some extension => extension.toList.map Char.toLower = ['j', 's', 'o', 'n']
  | none => false

def join (directory name : String) : String :=
  match directory.toList.getLast? with
  | none => name
  | some '/' => directory ++ name
  | some _ => directory ++ "/" ++ name

theorem isSeparator_of_mem_moduleName {path : String} {c : Char}
    (h : c ∈ (moduleName path).toList) : isSeparator c = false := by
  simp only [moduleName, String.toList_ofList, List.mem_map] at h
  obtain ⟨d, -, rfl⟩ := h
  split
  · decide
  · next hd => simpa using hd

end TreeOutline.Path
