import TreeOutline.Json.Number
import TreeOutline.Json.Text

/-!
Texts that a YAML reader takes for a number: integers of up to 128 bits in base two, eight, sixteen
and ten, and decimal numbers that are finite reals.
-/

namespace TreeOutline.Yaml

def digitsValue (base : Nat) (digits : List Char) : Nat :=
  digits.foldl (fun n c => n * base + (Json.hexValue? c).getD 0) 0

def isDigits (base : Nat) (s : List Char) : Bool :=
  !s.isEmpty && s.all fun c =>
    match Json.hexValue? c with
    | some n => n < base
    | none => false

def baseOf? (letter : Char) : Option Nat :=
  if letter = 'x' then some 16
  else if letter = 'o' then some 8
  else if letter = 'b' then some 2
  else none

def isBased (bound : Nat) (s : List Char) : Bool :=
  match s with
  | '0' :: letter :: digits =>
    match baseOf? letter with
    | some base => isDigits base digits && digitsValue base digits < bound
    | none => false
  | _ => false

def isBasedInteger (s : List Char) : Bool :=
  match s with
  | '+' :: digits => isBased (Nat.pow 2 128) digits
  | '-' :: digits => isBased (Nat.pow 2 127 + 1) digits
  | _ => isBased (Nat.pow 2 128) s

def unsigned (s : List Char) : List Char :=
  match s with
  | '+' :: rest => rest
  | '-' :: rest => rest
  | _ => s

structure Numeral where
  significand : Nat
  exponent : Int

/-- The least number that is too large for a real, being half way to the next power of two. -/
def realBound : Nat := Nat.pow 2 1024 - Nat.pow 2 970

/-- Whether a number has a finite real nearest to it. Counting its digits settles all but the
numbers close to the bound. -/
def Numeral.isFinite (n : Numeral) : Bool :=
  let places := (toString n.significand).length + n.exponent
  n.significand = 0 || places ≤ 300
    || (places ≤ 310
        && n.significand * Nat.pow 10 n.exponent.toNat < realBound * Nat.pow 10 (-n.exponent).toNat)

def exponent? (s : List Char) : Option Int :=
  let digits := unsigned s
  if isDigits 10 digits then
    let n : Int := digitsValue 10 digits
    some (if s.head? = some '-' then -n else n)
  else none

def exponentPart? (s : List Char) : Option Int :=
  match s with
  | [] => some 0
  | c :: rest => if c = 'e' || c = 'E' then exponent? rest else none

/-- What stands behind a point, if there is one: decimal places, and the rest. -/
def places (s : List Char) : List Char × List Char :=
  match s with
  | '.' :: rest => (rest.takeWhile Char.isDigit, rest.dropWhile Char.isDigit)
  | _ => ([], s)

def numeral? (s : List Char) : Option Numeral :=
  let whole := s.takeWhile Char.isDigit
  let (fraction, rest) := places (s.dropWhile Char.isDigit)
  if whole.isEmpty && fraction.isEmpty then none
  else
    (exponentPart? rest).map fun exponent =>
      ⟨digitsValue 10 (whole ++ fraction), exponent - fraction.length⟩

def isReal (s : List Char) : Bool :=
  match numeral? (unsigned s) with
  | some n => n.isFinite
  | none => false

def realWords : List String :=
  [".inf", ".Inf", ".INF", "+.inf", "+.Inf", "+.INF", "-.inf", "-.Inf", "-.INF", ".nan", ".NaN",
    ".NAN"]

/-- More than one digit with a zero in front: no number, but too much like one. -/
def isPaddedDigits (s : List Char) : Bool :=
  let digits := unsigned s
  1 < digits.length && digits.head? = some '0' && isDigits 10 digits

def isNumberLike (s : List Char) : Bool :=
  isBasedInteger s || isReal s || isPaddedDigits s || realWords.any fun w => w.toList = s

end TreeOutline.Yaml
