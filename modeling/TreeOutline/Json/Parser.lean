import TreeOutline.Json.Number
import TreeOutline.Json.Text

/-!
JSON values read from text. A value may open as many brackets as there is `room` for; the number of
steps is bounded by the length of the text. Each fault is found at the first byte that no JSON text
continues.
-/

namespace TreeOutline.Json

/-- How many brackets may be open at one place. -/
def maxDepth : Nat := 127

def isBlank (c : Char) : Bool :=
  c = ' ' || c = '\n' || c = '\t' || c = '\r'

def skipBlanks (s : List Char) : List Char :=
  s.dropWhile isBlank

/-- A fault at the next byte, which counts as read. -/
def faultAt (cause : Cause) (s : List Char) : Fault :=
  ⟨cause, bytes s - 1⟩

def word (value : Json) : (letters : List Char) → List Char → Except Fault (Json × List Char)
  | [], s => .ok (value, s)
  | _ :: _, [] => .error ⟨.endInValue, 0⟩
  | l :: ls, c :: cs => if c = l then word value ls cs else .error (faultAt .badWord (c :: cs))

def colon (s : List Char) : Except Fault (List Char) :=
  match skipBlanks s with
  | [] => .error ⟨.endInObject, 0⟩
  | c :: cs => if c = ':' then .ok cs else .error (faultAt .noColon (c :: cs))

mutual

def value : (fuel room : Nat) → List Char → Except Fault (Json × List Char)
  | 0, _, _ => .error ⟨.endInValue, 0⟩
  | fuel + 1, room, s =>
    match skipBlanks s with
    | [] => .error ⟨.endInValue, 0⟩
    | c :: cs =>
      if c = 'n' then word .null ['u', 'l', 'l'] cs
      else if c = 't' then word (.bool true) ['r', 'u', 'e'] cs
      else if c = 'f' then word (.bool false) ['a', 'l', 's', 'e'] cs
      else if c = '-' then
        match unsignedNumber true cs with
        | .error fault => .error fault
        | .ok (n, rest) => .ok (.number n, rest)
      else if c.isDigit then
        match unsignedNumber false (c :: cs) with
        | .error fault => .error fault
        | .ok (n, rest) => .ok (.number n, rest)
      else if c = '\x22' then
        match stringBody 0 [] cs with
        | .error fault => .error fault
        | .ok (text, rest) => .ok (.string text, rest)
      else if c = '[' then
        match room with
        | 0 => .error (faultAt .tooDeep (c :: cs))
        | room + 1 =>
          match items fuel room true cs with
          | .error fault => .error fault
          | .ok (vs, rest) => .ok (.array vs, rest)
      else if c = '\x7b' then
        match room with
        | 0 => .error (faultAt .tooDeep (c :: cs))
        | room + 1 =>
          match members fuel room true cs with
          | .error fault => .error fault
          | .ok (ms, rest) => .ok (ofMembers ms, rest)
      else .error (faultAt .noValue (c :: cs))

/-- The items of an array up to its closing bracket; unless it is the `first`, a comma stands before
an item. -/
def items : (fuel room : Nat) → (first : Bool) → List Char → Except Fault (List Json × List Char)
  | 0, _, _, _ => .error ⟨.endInList, 0⟩
  | fuel + 1, room, first, s =>
    match skipBlanks s with
    | [] => .error ⟨.endInList, 0⟩
    | c :: cs =>
      if c = ']' then .ok ([], cs)
      else if first then item fuel room (c :: cs)
      else if c = ',' then
        match skipBlanks cs with
        | [] => .error ⟨.endInValue, 0⟩
        | d :: ds =>
          if d = ']' then .error (faultAt .trailingComma (d :: ds)) else item fuel room (d :: ds)
      else .error (faultAt .noListSeparator (c :: cs))

def item : (fuel room : Nat) → List Char → Except Fault (List Json × List Char)
  | 0, _, _ => .error ⟨.endInList, 0⟩
  | fuel + 1, room, s =>
    match value fuel room s with
    | .error fault => .error fault
    | .ok (v, rest) =>
      match items fuel room false rest with
      | .error fault => .error fault
      | .ok (vs, rest) => .ok (v :: vs, rest)

def members : (fuel room : Nat) → (first : Bool) → List Char →
    Except Fault (List (String × Json) × List Char)
  | 0, _, _, _ => .error ⟨.endInObject, 0⟩
  | fuel + 1, room, first, s =>
    match skipBlanks s with
    | [] => .error ⟨.endInObject, 0⟩
    | c :: cs =>
      if c = '\x7d' then .ok ([], cs)
      else if first then
        if c = '\x22' then member fuel room cs else .error (faultAt .keyNotString (c :: cs))
      else if c = ',' then
        match skipBlanks cs with
        | [] => .error ⟨.endInValue, 0⟩
        | d :: ds =>
          if d = '\x22' then member fuel room ds
          else if d = '\x7d' then .error (faultAt .trailingComma (d :: ds))
          else .error (faultAt .keyNotString (d :: ds))
      else .error (faultAt .noObjectSeparator (c :: cs))

/-- A member after the opening quote of its key, and those after it. -/
def member : (fuel room : Nat) → List Char → Except Fault (List (String × Json) × List Char)
  | 0, _, _ => .error ⟨.endInObject, 0⟩
  | fuel + 1, room, s =>
    match stringBody 0 [] s with
    | .error fault => .error fault
    | .ok (key, rest) =>
      match colon rest with
      | .error fault => .error fault
      | .ok rest =>
        match value fuel room rest with
        | .error fault => .error fault
        | .ok (v, rest) =>
          match members fuel room false rest with
          | .error fault => .error fault
          | .ok (ms, rest) => .ok ((key, v) :: ms, rest)

end

/-- The steps that suffice for a text: three for each of its characters. -/
def enoughFuel (s : List Char) : Nat :=
  3 * s.length + 3

def document (s : List Char) : Except Fault Json :=
  match value (enoughFuel s) maxDepth s with
  | .error fault => .error fault
  | .ok (v, rest) =>
    match skipBlanks rest with
    | [] => .ok v
    | c :: cs => .error (faultAt .trailingText (c :: cs))

def parse (text : String) : Except ParseError Json :=
  match document text.toList with
  | .ok v => .ok v
  | .error fault => .error (fault.locate text.toList)

end TreeOutline.Json
