import TreeOutline.Yaml.Numeral

/-!
Strings as YAML scalars. A string is plain where that reads back as the same string, otherwise in
single quotes, or in double quotes if it holds what only an escape can show. A string with a line
feed is a literal block unless blanks stand where a block would lose them.
-/

namespace TreeOutline.Yaml

inductive Style where
  | plain
  | single
  | double
  | literal
  deriving Repr, DecidableEq

def isBreak (c : Char) : Bool :=
  c = '\n' || c = '\r' || c = '\u0085' || c = '\u2028' || c = '\u2029'

def isPrintable (c : Char) : Bool :=
  let n := c.toNat
  n = 0x0A || (0x20 ≤ n && n ≤ 0x7E) || (0xA0 ≤ n && n ≠ 0xFEFF && n ≠ 0xFFFE && n ≠ 0xFFFF)

/-- The characters that stand between words; the ends of a string count as such. -/
def isGap (c : Char) : Bool :=
  c = ' ' || c = '\t' || c = '\x00' || isBreak c

def startsWithGap : List Char → Bool
  | [] => true
  | c :: _ => isGap c

def indicators : List Char :=
  ['#', ',', '[', ']', '\x7b', '\x7d', '&', '*', '!', '|', '>', '\x27', '\x22', '%', '@', '\x60']

def startsOddly (s : List Char) : Bool :=
  s.take 3 = ['-', '-', '-'] || s.take 3 = ['.', '.', '.'] ||
    match s with
    | [] => false
    | c :: rest =>
      indicators.contains c || ((c = '?' || c = ':' || c = '-') && startsWithGap rest)

/-- Whether what follows `prev` in a string would be taken for the end of a key or for a comment. -/
def goesOnOddly : (prev : Char) → List Char → Bool
  | _, [] => false
  | prev, c :: rest =>
    (c = ':' && startsWithGap rest) || (c = '#' && isGap prev) || goesOnOddly c rest

def hasIndicator (s : List Char) : Bool :=
  startsOddly s ||
    match s with
    | [] => false
    | c :: rest => goesOnOddly c rest

def hasPair (first second : Char → Bool) : List Char → Bool
  | [] => false
  | [_] => false
  | c :: d :: rest => (first c && second d) || hasPair first second (d :: rest)

def isSpace (c : Char) : Bool := c = ' '

def atAnEnd (test : Char → Bool) (s : List Char) : Bool :=
  s.head?.any test || s.getLast?.any test

/-- A string that only double quotes can show. -/
def needsEscapes (s : List Char) : Bool :=
  s.any (fun c => !isPrintable c) || hasPair isSpace isBreak s

/-- A string that reads back from single quotes. -/
def allowsSingle (s : List Char) : Bool :=
  !needsEscapes s && !hasPair isBreak isSpace s

/-- A string that reads back as it stands. -/
def allowsPlain (s : List Char) : Bool :=
  allowsSingle s && !s.any isBreak && !atAnEnd isSpace s && !hasIndicator s

/-- A string that reads back from a literal block. -/
def allowsLiteral (s : List Char) : Bool :=
  !needsEscapes s && !s.getLast?.any isSpace

def words : List String :=
  ["null", "Null", "NULL", "~", "true", "True", "TRUE", "false", "False", "FALSE"]

def readsAsOther (s : List Char) : Bool :=
  s.isEmpty || words.any (fun w => w.toList = s) || isNumberLike s

def style (s : List Char) : Style :=
  if s.contains '\n' then if allowsLiteral s then .literal else .double
  else if !readsAsOther s && allowsPlain s then .plain
  else if allowsSingle s then .single
  else .double

def pad (depth : Nat) : List Char :=
  List.replicate depth ' '

/-- The text with blanks before each character that starts a line; the first one does so if
`fresh`. -/
def indented (depth : Nat) : (fresh : Bool) → List Char → List Char
  | _, [] => []
  | fresh, c :: rest =>
    if isBreak c then c :: indented depth true rest
    else (if fresh then pad depth else []) ++ c :: indented depth false rest

def singleQuoted (depth : Nat) (s : List Char) : List Char :=
  let inner := (indented depth false s).flatMap fun c => if c = '\x27' then [c, c] else [c]
  '\x27' :: inner ++ (if s.getLast?.any isBreak then pad depth else []) ++ ['\x27']

def hexDigits (width n : Nat) : List Char :=
  (List.range width).reverse.map fun i => (Json.hexDigit (n / Nat.pow 16 i % 16)).toUpper

def numberEscape (n : Nat) : List Char :=
  if n ≤ 0xFF then 'x' :: hexDigits 2 n
  else if n ≤ 0xFFFF then 'u' :: hexDigits 4 n
  else 'U' :: hexDigits 8 n

def letterEscapes : List (Nat × Char) :=
  [(0x00, '0'), (0x07, 'a'), (0x08, 'b'), (0x09, 't'), (0x0A, 'n'), (0x0B, 'v'), (0x0C, 'f'),
    (0x0D, 'r'), (0x1B, 'e'), (0x22, '\x22'), (0x5C, '\x5c'), (0x85, 'N'), (0x2028, 'L'),
    (0x2029, 'P')]

def escaped (c : Char) : List Char :=
  match letterEscapes.lookup c.toNat with
  | some letter => ['\x5c', letter]
  | none => if isPrintable c then [c] else '\x5c' :: numberEscape c.toNat

def doubleQuoted (s : List Char) : List Char :=
  '\x22' :: s.flatMap escaped ++ ['\x22']

/-- What a block's header says of the line ends at its end: none is kept, one, or all. -/
def chomping (s : List Char) : List Char :=
  match s.reverse with
  | [] => ['-']
  | last :: before =>
    if !isBreak last then ['-']
    else
      match before with
      | [] => ['+']
      | c :: _ => if isBreak c then ['+'] else []

/-- A literal block. Its header tells the depth if the first line cannot show it. It ends with a
line end. -/
def literalBlock (depth : Nat) (s : List Char) : List Char :=
  let hint := if s.head?.any fun c => c = ' ' || isBreak c then ['2'] else []
  '|' :: hint ++ chomping s ++ '\n' :: indented depth true s
    ++ (if s.getLast?.any isBreak then [] else ['\n'])

/-- A string with the line end that follows it; its further lines stand at `depth`. -/
def scalar (depth : Nat) (s : List Char) : List Char :=
  match style s with
  | .plain => s ++ ['\n']
  | .single => singleQuoted depth s ++ ['\n']
  | .double => doubleQuoted s ++ ['\n']
  | .literal => literalBlock depth s

end TreeOutline.Yaml
