import TreeOutline.Decimal.Shortest

/-!
How the digits of a real are laid out, and reals at a fixed number of decimal places. Formats differ
in where the positional form ends and in the sign of a positive exponent; a `Layout` records that.
-/

namespace TreeOutline.Decimal

/-- Where the point may stand for the positional form, counted in digits from the left of the first
one, and whether a positive exponent shows its sign. -/
structure Layout where
  leftmost : Int
  rightmost : Int
  plus : Bool

/-- The digits with a point after the first `before` of them. -/
private def point (digits : String) (before : Nat) : String :=
  String.ofList (digits.toList.take before) ++ "." ++ String.ofList (digits.toList.drop before)

private def zeros (n : Nat) : String :=
  String.ofList (List.replicate n '0')

/-- Positional with at least one decimal place while the point stands within the layout's bounds,
otherwise one digit before the point and an exponent. -/
def Layout.digitsText (l : Layout) (d : Digits) : String :=
  let digits := toString d.digits
  let place := (digits.length : Int) + d.exponent
  if 0 ≤ d.exponent ∧ place ≤ l.rightmost then digits ++ zeros d.exponent.toNat ++ ".0"
  else if 0 < place ∧ place ≤ l.rightmost then point digits place.toNat
  else if l.leftmost ≤ place ∧ place ≤ 0 then "0." ++ zeros (-place).toNat ++ digits
  else
    let power := place - 1
    let sign := if l.plus && 0 ≤ power then "+" else ""
    let head := if digits.length = 1 then digits else point digits 1
    head ++ "e" ++ sign ++ toString power

/-- The text of a finite real; zero keeps its sign. -/
def Layout.text (l : Layout) (x : Float) : String :=
  let sign := if isNegative x then "-" else ""
  if (Binary.ofFloat x).mantissa = 0 then sign ++ "0.0"
  else sign ++ l.digitsText (shortest x)

/-- The quotient `n / d` rounded to the nearest integer, a tie going to the even one. -/
def roundDiv (n d : Nat) : Nat :=
  let q := n / d
  let twice := 2 * (n % d)
  if twice < d then q
  else if d < twice then q + 1
  else if q % 2 = 0 then q else q + 1

def fixed (places : Nat) (x : Float) : String :=
  let b := Binary.ofFloat x
  let scaled := b.mantissa * Nat.pow 2 b.exponent.toNat * Nat.pow 10 places
  let units := toString (roundDiv scaled (Nat.pow 2 (-b.exponent).toNat))
  let padded := zeros (places + 1 - units.length) ++ units
  (if isNegative x then "-" else "") ++ point padded (padded.length - places)

end TreeOutline.Decimal
