import TreeOutline.Glob.Basic

/-!
Which texts a pattern matches. A token takes some bytes from the front of a text; what it may leave
is a list of remainders, and a pattern matches a text of which it can leave nothing.
-/

namespace TreeOutline.Glob

def charBytes (c : Char) : List UInt8 :=
  String.utf8EncodeChar c

def textBytes (text : String) : List UInt8 :=
  text.toList.flatMap charBytes

def slash : UInt8 := 47

def after (head s : List UInt8) : List (List UInt8) :=
  if head.isPrefixOf s then [s.drop head.length] else []

def ends : List UInt8 → List (List UInt8)
  | [] => [[]]
  | b :: s => (b :: s) :: ends s

def afterSlashes : List UInt8 → List (List UInt8)
  | [] => []
  | b :: s => if b = slash then s :: afterSlashes s else afterSlashes s

/-- The ranges of bytes that a range of characters stands for: all bytes of both characters, and
those between the last one of the first and the first one of the second. -/
def byteRanges (range : Char × Char) : List (UInt8 × UInt8) :=
  let (first, last) := range
  let lows := charBytes first
  if first = last then lows.map fun b => (b, b)
  else
    let highs := charBytes last
    (lows.dropLast ++ highs.tail).map (fun b => (b, b)) ++
      [(lows.getLastD 0, highs.headD 0)]

def inClass (ranges : List (Char × Char)) (b : UInt8) : Bool :=
  (ranges.flatMap byteRanges).any fun (low, high) => low ≤ b && b ≤ high

mutual

/-- Whether a token matches nothing but the empty text for lack of any content. -/
def Token.isVoid : Token → Bool
  | .alternatives branches => allVoid branches
  | _ => false

/-- Whether a branch is empty or made of such tokens only; it does not count as a branch. -/
def branchVoid : List Token → Bool
  | [] => true
  | t :: ts => t.isVoid && branchVoid ts

def allVoid : List (List Token) → Bool
  | [] => true
  | b :: bs => branchVoid b && allVoid bs

end

mutual

/-- What a token may leave of a text. -/
def Token.rests : Token → List UInt8 → List (List UInt8)
  | .literal c, s => after (charBytes c) s
  | .any, s => match s with
    | [] => []
    | _ :: rest => [rest]
  | .star, s => ends s
  | .leading, s => s :: afterSlashes s
  | .trailing, s => match s with
    | [] => []
    | b :: rest => if b = slash then ends rest else []
  | .between, s => match s with
    | [] => []
    | b :: rest => if b = slash then rest :: afterSlashes rest else []
  | .oneOf negated ranges, s => match s with
    | [] => []
    | b :: rest => if inClass ranges b = negated then [] else [rest]
  | .alternatives branches, s =>
    if allVoid branches then [s] else branchRests branches s

def seqRests : List Token → List (List UInt8) → List (List UInt8)
  | [], ss => ss
  | t :: ts, ss => seqRests ts (ss.flatMap t.rests).eraseDups

/-- What any of the branches that count may leave of a text. -/
def branchRests : List (List Token) → List UInt8 → List (List UInt8)
  | [], _ => []
  | b :: bs, s => if branchVoid b then branchRests bs s else seqRests b [s] ++ branchRests bs s

end

/-- Whether a pattern matches the whole of a text. Two stars alone match everything. -/
def isMatch (pattern : List Token) (path : String) : Bool :=
  match pattern with
  | [.leading] => true
  | ts => (seqRests ts [textBytes path]).contains []

end TreeOutline.Glob
