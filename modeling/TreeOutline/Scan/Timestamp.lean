/-!
Instants as text: a date of the Gregorian calendar and a time of day in UTC, with as many groups of
three decimal places as are needed.
-/

namespace TreeOutline.Timestamp

def padded (digits n : Nat) : String :=
  let text := toString n
  String.ofList (List.replicate (digits - text.length) '0') ++ text

/-- Year, month and day of the date a number of days after the first of January 1970. Years are
counted from March, so that the day that may be missing is the last one. -/
def date (days : Nat) : Nat × Nat × Nat :=
  let shifted := days + 719468
  let cycle := shifted / 146097
  let dayOfCycle := shifted % 146097
  let yearOfCycle :=
    (dayOfCycle - dayOfCycle / 1460 + dayOfCycle / 36524 - dayOfCycle / 146096) / 365
  let dayOfYear := dayOfCycle - (365 * yearOfCycle + yearOfCycle / 4 - yearOfCycle / 100)
  let fromMarch := (5 * dayOfYear + 2) / 153
  let day := dayOfYear - (153 * fromMarch + 2) / 5 + 1
  let year := yearOfCycle + 400 * cycle
  if fromMarch < 10 then (year, fromMarch + 3, day) else (year + 1, fromMarch - 9, day)

def fraction (nanoseconds : Nat) : String :=
  if nanoseconds = 0 then ""
  else if nanoseconds % 1000000 = 0 then "." ++ padded 3 (nanoseconds / 1000000)
  else if nanoseconds % 1000 = 0 then "." ++ padded 6 (nanoseconds / 1000)
  else "." ++ padded 9 nanoseconds

def text (nanoseconds : Nat) : String :=
  let seconds := nanoseconds / 1000000000
  let (year, month, day) := date (seconds / 86400)
  let clock := seconds % 86400
  padded 4 year ++ "-" ++ padded 2 month ++ "-" ++ padded 2 day ++ "T"
    ++ padded 2 (clock / 3600) ++ ":" ++ padded 2 (clock / 60 % 60) ++ ":" ++ padded 2 (clock % 60)
    ++ fraction (nanoseconds % 1000000000) ++ "+00:00"

/-- The last day of a leap February, and the day after it. -/
example : date 11016 = (2000, 2, 29) ∧ date 11017 = (2000, 3, 1) := by decide

end TreeOutline.Timestamp
