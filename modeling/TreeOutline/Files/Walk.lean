import TreeOutline.Files.Lookup
import TreeOutline.Path

/-!
The files below a directory, in the order of their names and of the names of the directories that
hold them. A test on the path from the root cuts off whole directories. Links are passed over or
followed; a link is followed before it is tested, so that one which leads nowhere, or to a directory
that the walk is in, ends the walk even if its name would be left out.
-/

namespace TreeOutline

inductive WalkError where
  | unusable (path : String) (reason : IoError)
  | loop (path ancestor : String)
  deriving Repr, DecidableEq

def WalkError.message : WalkError → String
  | .unusable path reason => "IO error for operation on " ++ path ++ ": " ++ reason.message
  | .loop path ancestor =>
    "File system loop found: " ++ path ++ " points to an ancestor " ++ ancestor

abbrev Trail := List String

def Trail.text (trail : Trail) : String :=
  Text.join "/" trail

structure Walk where
  fs : FileSystem
  /-- The path of the directory to walk. -/
  root : String
  followLinks : Bool
  /-- Whether the entry at a path from the root counts. -/
  keeps : String → Bool

namespace Walk

def path (w : Walk) (trail : Trail) : String :=
  if trail.isEmpty then w.root else Path.join w.root trail.text

abbrev Ancestor := Place × Trail

/-- How to go on at a link, given its trail and the directories that the walk is in. -/
abbrev Hop := Trail → List Ancestor → Except WalkError (List Trail)

def leaf (w : Walk) (trail : Trail) : List Trail :=
  if w.keeps trail.text then [trail] else []

mutual

def below (w : Walk) (hop : Hop) (trail : Trail) (place : Place) (ancestors : List Ancestor) :
    Entry → Except WalkError (List Trail)
  | .file _ => .ok (w.leaf trail)
  | .link _ => if w.followLinks then hop trail ancestors else .ok []
  | .directory es =>
    if w.keeps trail.text then belowAll w hop trail place ((place, trail) :: ancestors) es
    else .ok []

def belowAll (w : Walk) (hop : Hop) (trail : Trail) (place : Place) (ancestors : List Ancestor) :
    List (String × Entry) → Except WalkError (List Trail)
  | [] => .ok []
  | (name, e) :: rest => do
    let first ← below w hop (trail ++ [name]) (place ++ [name]) ancestors e
    let others ← belowAll w hop trail place ancestors rest
    .ok (first ++ others)

end

def entriesAt (w : Walk) (place : Place) : List (String × Entry) :=
  ((w.fs.at? place).getD (.directory [])).entries

/-- Follows a link. Each link that is followed on the way down leads to a directory that the walk is
not in yet, so that as many steps as there are directories are enough. -/
def follow (w : Walk) : Nat → Hop
  | 0, _, _ => .ok []
  | steps + 1, trail, ancestors =>
    match w.fs.find (w.path trail) with
    | .error reason => .error (.unusable (w.path trail) reason)
    | .ok (.file _) => .ok (w.leaf trail)
    | .ok (.directory place) =>
      match ancestors.find? fun ancestor => ancestor.1 = place with
      | some ancestor => .error (.loop (w.path trail) (w.path ancestor.2))
      | none =>
        if w.keeps trail.text then
          belowAll w (follow w steps) trail place ((place, trail) :: ancestors) (w.entriesAt place)
        else .ok []

def files (w : Walk) (place : Place) : Except WalkError (List Trail) :=
  belowAll w (follow w (w.fs.top.directories + 1)) [] place [(place, [])] (w.entriesAt place)

end Walk

end TreeOutline
