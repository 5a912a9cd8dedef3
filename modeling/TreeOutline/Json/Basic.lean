import TreeOutline.Keyed

/-!
JSON values. Numbers keep the three forms that a reader tells apart: natural numbers, negative
integers and real numbers. The members of an object are a list, so that a writer decides their
order; a reader sorts them by key and keeps the last value of a repeated key.
-/

namespace TreeOutline

/-- A number as it was written: without sign and fraction, with a sign only, or as a real. -/
inductive Json.Number where
  /-- The number `n`. -/
  | natural (n : Nat)
  /-- The number `-n`. -/
  | negative (n : Nat)
  | real (x : Float)
  deriving Repr, DecidableEq, Inhabited

inductive Json where
  | null
  | bool (b : Bool)
  | number (n : Json.Number)
  | string (s : String)
  | array (items : List Json)
  | object (members : List (String × Json))
  deriving Repr, Inhabited

namespace Json

def get? (key : String) : Json → Option Json
  | .object members => members.lookup key
  | _ => none

def asString? : Json → Option String
  | .string s => some s
  | _ => none

def asBool? : Json → Option Bool
  | .bool b => some b
  | _ => none

def asArray? : Json → Option (List Json)
  | .array items => some items
  | _ => none

theorem asString?_eq_some {v : Json} {s : String} : v.asString? = some s ↔ v = .string s := by
  cases v <;> simp [asString?]

theorem asArray?_eq_some {v : Json} {items : List Json} :
    v.asArray? = some items ↔ v = .array items := by
  cases v <;> simp [asArray?]

/-- Only a number that was written without sign, fraction and exponent counts. -/
def asNat? : Json → Option Nat
  | .number (.natural n) => some n
  | _ => none

/-- Any number, an integer being rounded to the nearest real. -/
def asFloat? : Json → Option Float
  | .number (.natural n) => some n.toUInt64.toFloat
  | .number (.negative n) => some (-n.toUInt64.toFloat)
  | .number (.real x) => some x
  | _ => none

def isNull : Json → Bool
  | .null => true
  | _ => false

def ofMembers (members : List (String × Json)) : Json :=
  .object (Keyed.ofList members)

end Json

end TreeOutline
