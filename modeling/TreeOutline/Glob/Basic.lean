/-!
Glob patterns over the bytes of a path. A pattern is a sequence of tokens; stars and question marks
match slashes too, and two stars stand for whole runs of components where they are a component of
their own. The branches of an alternation are patterns again.
-/

namespace TreeOutline.Glob

inductive Token where
  /-- The character itself. -/
  | literal (c : Char)
  /-- Any one byte. -/
  | any
  /-- Any bytes. -/
  | star
  /-- Two stars before the first slash: nothing, or anything up to a slash. -/
  | leading
  /-- A slash and two stars at the end: a slash and anything after it. -/
  | trailing
  /-- Two stars between slashes: a slash, or a slash, anything, and another slash. -/
  | between
  /-- One byte within, or outside of, the ranges between two characters. -/
  | oneOf (negated : Bool) (ranges : List (Char × Char))
  /-- What one of the branches matches. -/
  | alternatives (branches : List (List Token))
  deriving Repr, Inhabited

inductive Fault where
  | unclosedClass
  | invalidRange (first last : Char)
  | unopenedGroup
  | unclosedGroup
  | danglingEscape
  deriving Repr, DecidableEq

structure PatternError where
  pattern : String
  fault : Fault
  deriving Repr, DecidableEq

def Fault.message : Fault → String
  | .unclosedClass => "unclosed character class; missing ']'"
  | .invalidRange first last =>
    "invalid range; '" ++ String.singleton first ++ "' > '" ++ String.singleton last ++ "'"
  | .unopenedGroup =>
    "unopened alternate group; missing '\x7b' (maybe escape '\x7d' with '[\x7d]'?)"
  | .unclosedGroup =>
    "unclosed alternate group; missing '\x7d' (maybe escape '\x7b' with '[\x7b]'?)"
  | .danglingEscape => "dangling '\\'"

def PatternError.message (e : PatternError) : String :=
  "Invalid glob pattern: error parsing glob '" ++ e.pattern ++ "': " ++ e.fault.message

end TreeOutline.Glob
