import TreeOutline.Json.Basic
import TreeOutline.Json.Error

/-!
Strings in JSON text. `quoted` writes one and `stringBody` reads one after its opening quote:
`stringBody_quoted` says that reading gives back what was written, whatever follows.
-/

namespace TreeOutline.Json

def hexDigit (n : Nat) : Char :=
  if n < 10 then Char.ofNat ('0'.toNat + n) else Char.ofNat ('a'.toNat + (n - 10))

def hexValue? (c : Char) : Option Nat :=
  if '0' ≤ c && c ≤ '9' then some (c.toNat - '0'.toNat)
  else if 'a' ≤ c && c ≤ 'f' then some (c.toNat - 'a'.toNat + 10)
  else if 'A' ≤ c && c ≤ 'F' then some (c.toNat - 'A'.toNat + 10)
  else none

/-- A character within quotes. Only the quote, the backslash and the control characters below the
space are written otherwise than as they are. -/
def escaped (c : Char) : List Char :=
  if c = '\x22' then ['\x5c', '\x22']
  else if c = '\x5c' then ['\x5c', '\x5c']
  else if c = '\x08' then ['\x5c', 'b']
  else if c = '\x0c' then ['\x5c', 'f']
  else if c = '\n' then ['\x5c', 'n']
  else if c = '\r' then ['\x5c', 'r']
  else if c = '\t' then ['\x5c', 't']
  else if c.toNat < 0x20 then
    ['\x5c', 'u', '0', '0', hexDigit (c.toNat / 16), hexDigit (c.toNat % 16)]
  else [c]

def quoted (s : String) : List Char :=
  '\x22' :: (s.toList.flatMap escaped ++ ['\x22'])

def simpleEscape? (c : Char) : Option Char :=
  if c = '\x22' || c = '\x5c' || c = '/' then some c
  else if c = 'b' then some '\x08'
  else if c = 'f' then some '\x0c'
  else if c = 'n' then some '\n'
  else if c = 'r' then some '\r'
  else if c = 't' then some '\t'
  else none

/-- The unit of four digits at the start of a text. Digits are counted in bytes. -/
def hexUnit (s : List Char) : Except Fault Nat :=
  if bytes (s.take 4) < 4 then .error ⟨.endInString, 0⟩
  else
    match s with
    | a :: b :: c :: d :: _ =>
      match hexValue? a, hexValue? b, hexValue? c, hexValue? d with
      | some a, some b, some c, some d => .ok (((a * 16 + b) * 16 + c) * 16 + d)
      | _, _, _, _ => .error ⟨.badEscape, bytes s - 4⟩
    | _ => .error ⟨.badEscape, bytes s - 4⟩

def isHighSurrogate (n : Nat) : Bool := 0xD800 ≤ n && n ≤ 0xDBFF

def isLowSurrogate (n : Nat) : Bool := 0xDC00 ≤ n && n ≤ 0xDFFF

/-- The second half of a pair whose first half is `high`, at the start of a text. -/
def lowHalf (high : Nat) (s : List Char) : Except Fault Char :=
  match s with
  | [] => .error ⟨.endInString, 0⟩
  | c :: cs =>
    if c = '\x5c' then
      match cs with
      | [] => .error ⟨.endInString, 0⟩
      | d :: ds =>
        if d = 'u' then
          match hexUnit ds with
          | .error fault => .error fault
          | .ok low =>
            if isLowSurrogate low then
              .ok (Char.ofNat ((high - 0xD800) * 0x400 + (low - 0xDC00) + 0x10000))
            else .error ⟨.loneSurrogate, bytes ds - 4⟩
        else .error ⟨.halfSurrogatePair, bytes cs - 1⟩
    else .error ⟨.halfSurrogatePair, bytes s - 1⟩

/-- The character of a `\u` escape, given what follows the `u`, and how many characters it takes. -/
def unicodeEscape (s : List Char) : Except Fault (Char × Nat) :=
  match hexUnit s with
  | .error fault => .error fault
  | .ok n =>
    if isLowSurrogate n then .error ⟨.loneSurrogate, bytes s - 4⟩
    else if isHighSurrogate n then
      match lowHalf n (s.drop 4) with
      | .error fault => .error fault
      | .ok c => .ok (c, 10)
    else .ok (Char.ofNat n, 4)

/-- The character of an escape, given what follows the backslash, and how many characters it
takes. -/
def escape (s : List Char) : Except Fault (Char × Nat) :=
  match s with
  | [] => .error ⟨.endInString, 0⟩
  | c :: cs =>
    if c = 'u' then
      match unicodeEscape cs with
      | .error fault => .error fault
      | .ok (d, n) => .ok (d, n + 1)
    else
      match simpleEscape? c with
      | some d => .ok (d, 1)
      | none => .error ⟨.badEscape, bytes s - 1⟩

/-- A string after its opening quote. The first `skip` characters belong to an escape that is
already read; `read` holds the characters so far, the last one first. -/
def stringBody : (skip : Nat) → (read : List Char) → List Char → Except Fault (String × List Char)
  | _, _, [] => .error ⟨.endInString, 0⟩
  | skip + 1, read, _ :: cs => stringBody skip read cs
  | 0, read, c :: cs =>
    if c = '\x22' then .ok (String.ofList read.reverse, cs)
    else if c = '\x5c' then
      match escape cs with
      | .error fault => .error fault
      | .ok (d, n) => stringBody n (d :: read) cs
    else if c.toNat < 0x20 then .error ⟨.controlCharacter, bytes cs⟩
    else stringBody 0 (c :: read) cs

theorem hexValue?_hexDigit {n : Nat} (h : n < 16) : hexValue? (hexDigit n) = some n := by
  have all : ∀ k : Fin 16, hexValue? (hexDigit k) = some k.val := by decide
  exact all ⟨n, h⟩

theorem utf8Size_hexDigit {n : Nat} (h : n < 16) : (hexDigit n).utf8Size = 1 := by
  have all : ∀ k : Fin 16, (hexDigit k).utf8Size = 1 := by decide
  exact all ⟨n, h⟩

theorem hexUnit_digits {a b : Nat} (ha : a < 16) (hb : b < 16) (rest : List Char) :
    hexUnit ('0' :: '0' :: hexDigit a :: hexDigit b :: rest) = .ok (a * 16 + b) := by
  have zeroSize : '0'.utf8Size = 1 := by decide
  have size : bytes ['0', '0', hexDigit a, hexDigit b] = 4 := by
    simp [bytes, zeroSize, utf8Size_hexDigit ha, utf8Size_hexDigit hb]
  have zero : hexValue? '0' = some 0 := by decide
  simp [hexUnit, size, zero, hexValue?_hexDigit ha, hexValue?_hexDigit hb]

theorem unicodeEscape_control {n : Nat} (h : n < 0x20) (rest : List Char) :
    unicodeEscape ('0' :: '0' :: hexDigit (n / 16) :: hexDigit (n % 16) :: rest)
      = .ok (Char.ofNat n, 4) := by
  have unit := hexUnit_digits (a := n / 16) (b := n % 16) (by omega) (by omega) rest
  have value : n / 16 * 16 + n % 16 = n := by omega
  rw [value] at unit
  have low : isLowSurrogate n = false := by simp [isLowSurrogate]; omega
  have high : isHighSurrogate n = false := by simp [isHighSurrogate]; omega
  simp [unicodeEscape, unit, low, high]

theorem stringBody_escaped (c : Char) (read rest : List Char) :
    stringBody 0 read (escaped c ++ rest) = stringBody 0 (c :: read) rest := by
  unfold escaped
  split
  · next h => subst h; rfl
  split
  · next h => subst h; rfl
  split
  · next h => subst h; rfl
  split
  · next h => subst h; rfl
  split
  · next h => subst h; rfl
  split
  · next h => subst h; rfl
  split
  · next h => subst h; rfl
  split
  · next h =>
    have unit := unicodeEscape_control h rest
    simp [stringBody, escape, unit, Char.ofNat_toNat]
  · next hq hb _ _ _ _ _ h => simp [stringBody, hq, hb, h]

theorem stringBody_quoted (s : List Char) (read rest : List Char) :
    stringBody 0 read (s.flatMap escaped ++ '\x22' :: rest)
      = .ok (String.ofList (read.reverse ++ s), rest) := by
  induction s generalizing read with
  | nil => simp [stringBody]
  | cons c s ih => simp [stringBody_escaped, ih]

end TreeOutline.Json
