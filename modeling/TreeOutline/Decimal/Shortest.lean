/-!
The fewest decimal digits that read back as a given real. A positive real `m · 2^e` is what every
number of an interval around it rounds to. For one digit, two digits and so on the two neighbours
of the value on that decimal grid are tested; the first grid with a hit wins, of two hits the
nearer.
-/

namespace TreeOutline.Decimal

structure Digits where
  digits : Nat
  exponent : Int
  deriving Repr, DecidableEq

/-- A binary number `mantissa · 2^exponent`. Its gap below is half as wide as the one above if
`thinBelow`, which is so at the powers of two. -/
structure Binary where
  mantissa : Nat
  exponent : Int
  thinBelow : Bool
  deriving Repr, DecidableEq

/-- The numbers that round to a value, all over one denominator. Its ends count if `closed`. -/
structure Interval where
  low : Nat
  value : Nat
  high : Nat
  denominator : Nat
  closed : Bool

def Binary.ofFloat (x : Float) : Binary :=
  let bits := x.toBits.toNat
  let fraction := bits % Nat.pow 2 52
  let scale : Nat := bits / Nat.pow 2 52 % Nat.pow 2 11
  if scale = 0 then ⟨fraction, -1074, false⟩
  else ⟨fraction + Nat.pow 2 52, (scale : Int) - 1075, fraction = 0 && scale ≠ 1⟩

def isNegative (x : Float) : Bool :=
  Nat.pow 2 63 ≤ x.toBits.toNat

/-- Half a gap up and half a gap down; an even mantissa wins the ties at both ends. -/
def Binary.interval (b : Binary) : Interval :=
  let up := Nat.pow 2 (b.exponent - 2).toNat
  let m := 4 * b.mantissa
  { low := (m - if b.thinBelow then 1 else 2) * up
    value := m * up
    high := (m + 2) * up
    denominator := Nat.pow 2 (2 - b.exponent).toNat
    closed := b.mantissa % 2 = 0 }

def Interval.holds (i : Interval) (k : Int) (c : Nat) : Bool :=
  let point := c * Nat.pow 10 k.toNat * i.denominator
  let scale := Nat.pow 10 (-k).toNat
  (i.low * scale < point || (i.closed && i.low * scale == point))
    && (point < i.high * scale || (i.closed && point == i.high * scale))

/-- The nearer to the value of its two neighbours `c · 10^k` and `(c + 1) · 10^k`; a tie goes to
the even one. -/
def Interval.nearer (i : Interval) (k : Int) (c : Nat) : Nat :=
  let twice := 2 * i.value * Nat.pow 10 (-k).toNat
  let middle := (2 * c + 1) * (i.denominator * Nat.pow 10 k.toNat)
  if twice < middle then c
  else if middle < twice then c + 1
  else if c % 2 = 0 then c else c + 1

/-- A point of the grid `10^k` in the interval, if the value has such a neighbour. -/
def Interval.onGrid (i : Interval) (k : Int) : Option Nat :=
  let c := i.value * Nat.pow 10 (-k).toNat / (i.denominator * Nat.pow 10 k.toNat)
  match i.holds k c, i.holds k (c + 1) with
  | true, true => some (i.nearer k c)
  | true, false => some c
  | false, true => some (c + 1)
  | false, false => none

/-- How often ten goes into `n` until one digit is left. -/
def magnitude (n : Nat) : Nat :=
  if n < 10 then 0 else magnitude (n / 10) + 1

/-- The least number of tens that lift `n` up to `d`, if `fuel` of them do. -/
def shortfall : Nat → Nat → Nat → Nat
  | 0, _, _ => 0
  | fuel + 1, n, d => if d ≤ n then 0 else shortfall fuel (n * 10) d + 1

def Interval.leading (i : Interval) : Int :=
  if i.denominator ≤ i.value then (magnitude (i.value / i.denominator) : Int)
  else -(shortfall i.denominator.log2.succ i.value i.denominator : Int)

def Digits.strip (d : Digits) : Digits :=
  if h : 0 < d.digits ∧ d.digits % 10 = 0 then Digits.strip ⟨d.digits / 10, d.exponent + 1⟩ else d
termination_by d.digits
decreasing_by exact Nat.div_lt_self h.1 (by decide)

/-- The fewest digits that read back as the finite positive real `x`. Seventeen always do. -/
def shortest (x : Float) : Digits :=
  let i := (Binary.ofFloat x).interval
  let top := i.leading
  let hit := (List.range 17).findSome? fun (n : Nat) =>
    let k := top - (n : Int)
    (i.onGrid k).map fun c => (⟨c, k⟩ : Digits)
  (hit.getD ⟨0, 0⟩).strip

end TreeOutline.Decimal
