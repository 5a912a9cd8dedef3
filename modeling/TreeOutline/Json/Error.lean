/-!
Why and where a text is no JSON. A fault is found with some bytes of the text unread; its line and
column follow from how many were read.
-/

namespace TreeOutline.Json

inductive Cause where
  | endInList
  | endInObject
  | endInString
  | endInValue
  | noColon
  | noListSeparator
  | noObjectSeparator
  | badWord
  | noValue
  | badEscape
  | badNumber
  | outOfRange
  | controlCharacter
  | keyNotString
  | loneSurrogate
  | halfSurrogatePair
  | trailingComma
  | trailingText
  | tooDeep
  deriving Repr, DecidableEq

/-- A cause, and the bytes of the text that were not yet read when it was found. -/
structure Fault where
  cause : Cause
  unread : Nat
  deriving Repr, DecidableEq

structure ParseError where
  cause : Cause
  line : Nat
  column : Nat
  deriving Repr, DecidableEq

def Cause.message : Cause → String
  | .endInList => "EOF while parsing a list"
  | .endInObject => "EOF while parsing an object"
  | .endInString => "EOF while parsing a string"
  | .endInValue => "EOF while parsing a value"
  | .noColon => "expected `:`"
  | .noListSeparator => "expected `,` or `]`"
  | .noObjectSeparator => "expected `,` or `\x7d`"
  | .badWord => "expected ident"
  | .noValue => "expected value"
  | .badEscape => "invalid escape"
  | .badNumber => "invalid number"
  | .outOfRange => "number out of range"
  | .controlCharacter => "control character (\\u0000-\\u001F) found while parsing a string"
  | .keyNotString => "key must be a string"
  | .loneSurrogate => "lone leading surrogate in hex escape"
  | .halfSurrogatePair => "unexpected end of hex escape"
  | .trailingComma => "trailing comma"
  | .trailingText => "trailing characters"
  | .tooDeep => "recursion limit exceeded"

def ParseError.message (e : ParseError) : String :=
  e.cause.message ++ " at line " ++ toString e.line ++ " column " ++ toString e.column

def bytes : List Char → Nat
  | [] => 0
  | c :: cs => c.utf8Size + bytes cs

/-- Line and column after the first `read` bytes, starting from a line and a column. -/
def position : List Char → (read line column : Nat) → Nat × Nat
  | [], _, line, column => (line, column)
  | c :: cs, read, line, column =>
    if read = 0 then (line, column)
    else if c = '\n' then position cs (read - 1) (line + 1) 0
    else if read ≤ c.utf8Size then (line, column + read)
    else position cs (read - c.utf8Size) line (column + c.utf8Size)

def Fault.locate (text : List Char) (fault : Fault) : ParseError :=
  let (line, column) := position text (bytes text - fault.unread) 1 0
  ⟨fault.cause, line, column⟩

end TreeOutline.Json
