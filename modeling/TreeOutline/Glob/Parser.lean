import TreeOutline.Glob.Basic

/-!
Patterns read from text, one character after another. Two stars are one token where they stand
alone between slashes, the ends of the pattern and the ends of a branch; elsewhere they are two
stars. A comma separates branches inside braces only.
-/

namespace TreeOutline.Glob

/-- A pattern that is read up to some place: the tokens of the open branch, latest first, and for
each open brace what came before it, latest first, with the branches already closed. -/
structure Progress where
  latest : List Token
  groups : List (List Token × List (List Token))

namespace Progress

def start : Progress := ⟨[], []⟩

def push (p : Progress) (t : Token) : Progress :=
  { p with latest := t :: p.latest }

def openGroup (p : Progress) : Progress :=
  ⟨[], (p.latest, []) :: p.groups⟩

def comma (p : Progress) : Progress :=
  match p.groups with
  | [] => p.push (.literal ',')
  | (before, branches) :: groups => ⟨[], (before, branches ++ [p.latest.reverse]) :: groups⟩

def closeGroup (p : Progress) : Except Fault Progress :=
  match p.groups with
  | [] => .error .unopenedGroup
  | (before, branches) :: groups =>
    .ok ⟨.alternatives (branches ++ [p.latest.reverse]) :: before, groups⟩

/-- Puts a token that spans components in place of the slash before it. After a run that is open to
both sides already, it adds nothing. -/
def widen (p : Progress) (t : Token) : Progress :=
  match p.latest with
  | .leading :: _ => p
  | .trailing :: _ => p
  | _ :: before => { p with latest := t :: before }
  | [] => p.push t

def startsComponent (p : Progress) (prev : Option Char) : Bool :=
  prev = some '/' || (!p.groups.isEmpty && (prev = some ',' || prev = some '\x7b'))

/-- The pattern with two stars, if they are a component between `prev` and `next`. -/
def component? (p : Progress) (prev next : Option Char) : Option Progress :=
  if p.latest.isEmpty then
    if next = none || next = some '/' then some (p.push .leading) else none
  else if p.startsComponent prev then
    match next with
    | none => some (p.widen .trailing)
    | some '/' => some (p.widen .between)
    | some c =>
      if !p.groups.isEmpty && (c = ',' || c = '\x7d') then some (p.widen .trailing) else none
  else none

def finish (p : Progress) : Except Fault (List Token) :=
  if p.groups.isEmpty then .ok p.latest.reverse else .error .unclosedGroup

end Progress

/-- A bracketed class that is read up to some place: its ranges, latest first, and whether a hyphen
waits for the end of a range. -/
structure ClassProgress where
  negated : Bool
  ranges : List (Char × Char)
  inRange : Bool

namespace ClassProgress

def start (negated : Bool) : ClassProgress := ⟨negated, [], false⟩

/-- A hyphen that waits for nothing stands for itself. -/
def finish (k : ClassProgress) : Token :=
  .oneOf k.negated (if k.inRange then k.ranges.reverse ++ [('-', '-')] else k.ranges.reverse)

/-- One more character of the class. -/
def add (k : ClassProgress) (c : Char) : Except Fault ClassProgress :=
  match k.ranges, k.inRange with
  | [], _ => .ok { k with ranges := [(c, c)] }
  | (first, _) :: before, true =>
    if c < first then .error (.invalidRange first c)
    else .ok { k with ranges := (first, c) :: before, inRange := false }
  | ranges, false =>
    if c = '-' then .ok { k with inRange := true }
    else .ok { k with ranges := (c, c) :: ranges }

end ClassProgress

mutual

/-- Reads on after the character `prev`. -/
def read (prev : Option Char) (p : Progress) : List Char → Except Fault Progress
  | [] => .ok p
  | '*' :: '*' :: cs =>
    match p.component? prev cs.head? with
    | none => read (some '*') ((p.push .star).push .star) cs
    | some q =>
      -- the slash behind the component belongs to its token
      match cs with
      | '/' :: rest => read (some '/') q rest
      | rest => read (some '*') q rest
  | '\x5c' :: cs =>
    match cs with
    | [] => .error .danglingEscape
    | c :: rest => read (some c) (p.push (.literal c)) rest
  | '[' :: cs =>
    match cs with
    | '!' :: rest => readClass p (.start true) rest
    | '^' :: rest => readClass p (.start true) rest
    | rest => readClass p (.start false) rest
  | c :: cs =>
    if c = '?' then read (some c) (p.push .any) cs
    else if c = '*' then read (some c) (p.push .star) cs
    else if c = '\x7b' then read (some c) p.openGroup cs
    else if c = ',' then read (some c) p.comma cs
    else if c = '\x7d' then
      match p.closeGroup with
      | .ok q => read (some c) q cs
      | .error e => .error e
    else read (some c) (p.push (.literal c)) cs

/-- Reads the rest of a class, whose first character may be a closing bracket, and what follows. -/
def readClass (p : Progress) (k : ClassProgress) : List Char → Except Fault Progress
  | [] => .error .unclosedClass
  | c :: cs =>
    if c = ']' && !k.ranges.isEmpty then read (some c) (p.push k.finish) cs
    else
      match k.add c with
      | .ok k => readClass p k cs
      | .error e => .error e

end

def tokens (pattern : List Char) : Except Fault (List Token) := do
  let p ← read none .start pattern
  p.finish

def parse (pattern : String) : Except PatternError (List Token) :=
  match tokens pattern.toList with
  | .ok ts => .ok ts
  | .error fault => .error ⟨pattern, fault⟩

end TreeOutline.Glob
