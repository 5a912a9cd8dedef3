import TreeOutline.Glob.Match
import TreeOutline.Glob.Parser
import TreeOutline.Path

/-!
Which entries a scan leaves out: hidden ones, unless they are asked for, what package and version
stores hold, and what the patterns of the user match. A path is ignored if any reason holds, so the
order and repetition of patterns do not matter.
-/

namespace TreeOutline

structure Ignore where
  includeHidden : Bool
  patterns : List (List Glob.Token)
  stores : List (List Glob.Token)

namespace Ignore

/-- Patterns for directories that are always left out, and for all that is in them. -/
def storePatterns : List String :=
  ["**/node_modules", "**/node_modules/**", "**/.git", "**/.git/**"]

def ofPatterns (includeHidden : Bool) (patterns : List String) :
    Except Glob.PatternError Ignore := do
  let globs ← patterns.mapM Glob.parse
  let stores ← storePatterns.mapM Glob.parse
  .ok ⟨includeHidden, globs, stores⟩

/-- What the patterns for one name at any depth are read as. -/
def nameTokens (name : String) : List (List Glob.Token) :=
  let letters := name.toList.map Glob.Token.literal
  [.leading :: letters, .leading :: letters ++ [.trailing]]

def storeTokens : List (List Glob.Token) :=
  ["node_modules", ".git"].flatMap nameTokens

theorem parse_storePatterns : storePatterns.mapM Glob.parse = .ok storeTokens :=
  rfl

def isHidden (path : String) : Bool :=
  match Path.fileName? path with
  | some name => name.toList.head? = some '.'
  | none => false

def ignores (i : Ignore) (path : String) : Bool :=
  (!i.includeHidden && isHidden path)
    || i.stores.any (fun g => Glob.isMatch g path)
    || i.patterns.any fun g => Glob.isMatch g path

end Ignore

end TreeOutline
