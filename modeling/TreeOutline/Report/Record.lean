import TreeOutline.Json.Basic

/-!
Records in JSON: fields of a value by name. A record is an object, in which unknown members do not
count, or an array that holds the fields in order, the last ones possibly left out.
-/

namespace TreeOutline.Json

abbrev Fields := String → Option Json

/-- The item that stands where `name` stands in `order`. -/
def atName (name : String) : (order : List String) → (items : List Json) → Option Json
  | key :: order, item :: items => if name = key then some item else atName name order items
  | _, _ => none

/-- The fields of a record whose fields have a fixed `order`. -/
def fields? (order : List String) : Json → Option Fields
  | .object members => some fun name => members.lookup name
  | .array items =>
    if items.length ≤ order.length then some fun name => atName name order items else none
  | _ => none

namespace Fields

def text? (f : Fields) (name : String) : Option String :=
  (f name).bind Json.asString?

def nat? (f : Fields) (name : String) : Option Nat :=
  (f name).bind Json.asNat?

/-- A text that may be missing or null; the outer `none` says that it is something else. -/
def optionalText? (f : Fields) (name : String) : Option (Option String) :=
  match f name with
  | none => some none
  | some .null => some none
  | some (.string s) => some (some s)
  | some _ => none

def flag? (f : Fields) (name : String) : Option Bool :=
  match f name with
  | none => some false
  | some v => v.asBool?

def list? {α : Type} (f : Fields) (name : String) (read : Json → Option α) : Option (List α) :=
  match f name with
  | none => some []
  | some v => v.asArray?.bind fun items => items.mapM read

end Fields

end TreeOutline.Json
