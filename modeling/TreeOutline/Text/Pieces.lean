/-!
Texts cut at a separator and put together again. A path is read as the pieces between its slashes,
a rule is cut at its first `=` and its last `.`, and reports are their lines joined by line ends.
-/

namespace TreeOutline.Text

/-- The pieces of a text between the occurrences of `sep`, one more than there are separators. -/
def pieces (sep : Char) : List Char → List (List Char)
  | [] => [[]]
  | c :: cs =>
    if c = sep then [] :: pieces sep cs
    else
      match pieces sep cs with
      | [] => [[c]]
      | p :: ps => (c :: p) :: ps

def cutFirst (sep : Char) : List Char → Option (List Char × List Char)
  | [] => none
  | c :: cs =>
    if c = sep then some ([], cs)
    else (cutFirst sep cs).map fun (before, after) => (c :: before, after)

def cutLast (sep : Char) : List Char → Option (List Char × List Char)
  | [] => none
  | c :: cs =>
    match cutLast sep cs with
    | some (before, after) => some (c :: before, after)
    | none => if c = sep then some ([], cs) else none

def joinChars (sep : Char) : List (List Char) → List Char
  | [] => []
  | [p] => p
  | p :: q :: ps => p ++ sep :: joinChars sep (q :: ps)

def join (sep : String) : List String → String
  | [] => ""
  | [p] => p
  | p :: q :: ps => p ++ sep ++ join sep (q :: ps)

theorem pieces_ne_nil (sep : Char) (s : List Char) : pieces sep s ≠ [] := by
  cases s with
  | nil => simp [pieces]
  | cons c cs =>
    unfold pieces
    split
    · simp
    · split <;> simp

/-- Cutting loses nothing: the pieces put together are the text. -/
theorem joinChars_pieces (sep : Char) (s : List Char) : joinChars sep (pieces sep s) = s := by
  induction s with
  | nil => rfl
  | cons c cs ih =>
    have hne := pieces_ne_nil sep cs
    unfold pieces
    split
    · next h =>
      subst h
      cases hp : pieces c cs with
      | nil => exact absurd hp hne
      | cons p ps => rw [hp] at ih; simp [joinChars, ih]
    · cases hp : pieces sep cs with
      | nil => exact absurd hp hne
      | cons p ps =>
        rw [hp] at ih
        cases ps with
        | nil => simpa [joinChars] using ih
        | cons q qs => simpa [joinChars] using ih

end TreeOutline.Text
