import TreeOutline.Json.Basic
import TreeOutline.Json.Error

/-!
Numbers in JSON text. The digits of the significand are gathered while they fit 64 bits; later
digits only count. A real is the significand, as a real, times or divided by one power of ten, so
that it is not always the real nearest to what is written.
-/

namespace TreeOutline.Json

def significandBound : Nat := Nat.pow 2 64

def exponentBound : Nat := Nat.pow 2 31

/-- The largest power of ten that is a finite real. -/
def largestPower : Nat := 308

def digitValue (c : Char) : Nat :=
  c.toNat - '0'.toNat

/-- Appends digits to `n` as long as the result stays below `bound`: the result, how many digits it
took, and the rest of the text. -/
def gather (bound : Nat) : (n count : Nat) → List Char → Nat × Nat × List Char
  | n, count, [] => (n, count, [])
  | n, count, c :: cs =>
    let next := n * 10 + digitValue c
    if c.isDigit && next < bound then gather bound next (count + 1) cs else (n, count, c :: cs)

def startsWithDigit : List Char → Bool
  | c :: _ => c.isDigit
  | [] => false

def powerOfTen (k : Nat) : Float :=
  Float.ofScientific 1 false k

/-- The quotient `x / 10^k`, by steps of the largest power. Once it is zero it stays zero. -/
def divideByPower (x : Float) (k : Nat) : Float :=
  if k ≤ largestPower then x / powerOfTen k
  else if x == 0 then x
  else divideByPower (x / powerOfTen largestPower) (k - largestPower)
termination_by k
decreasing_by simp [largestPower] at *; omega

def scaled (significand : Nat) (exponent : Int) : Option Float :=
  let x := significand.toUInt64.toFloat
  if exponent < 0 then some (divideByPower x (-exponent).toNat)
  else if exponent ≤ largestPower then
    let y := x * powerOfTen exponent.toNat
    if y.isInf then none else some y
  else if x == 0 then some x else none

def realNumber (negative : Bool) (significand : Nat) (exponent : Int) (rest : List Char) :
    Except Fault (Number × List Char) :=
  match scaled significand exponent with
  | some x => .ok (.real (if negative then -x else x), rest)
  | none => .error ⟨.outOfRange, bytes rest⟩

def exponentSign : List Char → Bool × List Char
  | '+' :: cs => (false, cs)
  | '-' :: cs => (true, cs)
  | cs => (false, cs)

/-- An exponent after its `e`. One that does not fit makes a number zero, or out of range. -/
def exponentPart (negative : Bool) (significand : Nat) (start : Int) (s : List Char) :
    Except Fault (Number × List Char) :=
  let (down, digits) := exponentSign s
  match digits with
  | [] => .error ⟨.endInValue, 0⟩
  | c :: cs =>
    if c.isDigit then
      match gather exponentBound (digitValue c) 0 cs with
      | (power, _, rest) =>
        if startsWithDigit rest then
          -- an exponent that does not fit makes the number zero, or too large
          if significand ≠ 0 && !down then .error ⟨.outOfRange, bytes rest - 1⟩
          else .ok (.real (if negative then -0.0 else 0.0), rest.dropWhile Char.isDigit)
        else realNumber negative significand (if down then start - power else start + power) rest
    else .error ⟨.badNumber, bytes digits - 1⟩

def realTail (negative : Bool) (significand : Nat) (exponent : Int) (s : List Char) :
    Except Fault (Number × List Char) :=
  match s with
  | 'e' :: cs => exponentPart negative significand exponent cs
  | 'E' :: cs => exponentPart negative significand exponent cs
  | _ => realNumber negative significand exponent s

def fractionPart (negative : Bool) (significand : Nat) (exponent : Int) (s : List Char) :
    Except Fault (Number × List Char) :=
  match gather significandBound significand 0 s with
  | (n, count, rest) =>
    if startsWithDigit rest then
      realTail negative n (exponent - count) (rest.dropWhile Char.isDigit)
    else if count = 0 then
      match rest with
      | [] => .error ⟨.endInValue, 0⟩
      | _ :: _ => .error ⟨.badNumber, bytes rest - 1⟩
    else realTail negative n (exponent - count) rest

/-- An integer that ends here. A negative one beyond 63 bits, and `-0`, are reals. -/
def wholeNumber (negative : Bool) (n : Nat) : Number :=
  if !negative then .natural n
  else if n = 0 || Nat.pow 2 63 < n then .real (-n.toUInt64.toFloat)
  else .negative n

def integerTail (negative : Bool) (n : Nat) (s : List Char) : Except Fault (Number × List Char) :=
  match s with
  | '.' :: cs => fractionPart negative n 0 cs
  | 'e' :: cs => exponentPart negative n 0 cs
  | 'E' :: cs => exponentPart negative n 0 cs
  | _ => .ok (wholeNumber negative n, s)

/-- A number without its sign. A leading zero stands alone. -/
def unsignedNumber (negative : Bool) (s : List Char) : Except Fault (Number × List Char) :=
  match s with
  | [] => .error ⟨.endInValue, 0⟩
  | c :: cs =>
    if c = '0' then
      if startsWithDigit cs then .error ⟨.badNumber, bytes cs - 1⟩ else integerTail negative 0 cs
    else if c.isDigit then
      match gather significandBound (digitValue c) 0 cs with
      | (n, _, rest) =>
        if startsWithDigit rest then
          -- later digits only count
          let more := rest.takeWhile Char.isDigit
          match rest.dropWhile Char.isDigit with
          | '.' :: after => fractionPart negative n more.length after
          | after => realTail negative n more.length after
        else integerTail negative n rest
    else .error ⟨.badNumber, bytes s - 1⟩

end TreeOutline.Json
