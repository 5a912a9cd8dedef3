import Mathlib.Data.List.Basic
import TreeOutline.Files.Walk
import TreeOutline.Proofs.Cut

/-!
Paths made of names. A path below a root reads back as the parts of the root and the names below it
(`components_join`), so different names give different paths, and paths are ordered as their names
are. Whether such a path is that of a tree file is told by its last name alone.
-/

namespace TreeOutline

/-! ## Pieces -/

namespace Text

variable {sep : Char}

theorem pieces_of_notMem {s : List Char} (h : sep ∉ s) : pieces sep s = [s] := by
  induction s with
  | nil => rfl
  | cons c cs ih =>
    obtain ⟨hc, hcs⟩ := not_or.1 (List.mem_cons.not.1 h)
    simp [pieces, Ne.symm hc, ih hcs]

theorem pieces_append_cons (before after : List Char) :
    pieces sep (before ++ sep :: after) = pieces sep before ++ pieces sep after := by
  induction before with
  | nil => simp [pieces]
  | cons c cs ih =>
    simp only [List.cons_append, pieces, ih]
    split
    · rfl
    · cases h : pieces sep cs with
      | nil => exact absurd h (pieces_ne_nil sep cs)
      | cons p ps => rfl

theorem notMem_of_mem_pieces {s p : List Char} (h : p ∈ pieces sep s) : sep ∉ p := by
  induction s generalizing p with
  | nil => simp_all [pieces]
  | cons c cs ih =>
    unfold pieces at h
    split at h
    · rcases List.mem_cons.1 h with rfl | h
      · exact List.not_mem_nil
      · exact ih h
    · next hc =>
      obtain ⟨q, qs, hpieces⟩ := List.exists_cons_of_ne_nil (pieces_ne_nil sep cs)
      rw [hpieces] at h ih
      rcases List.mem_cons.1 h with rfl | h
      · exact List.not_mem_cons_of_ne_of_not_mem (Ne.symm hc) (ih List.mem_cons_self)
      · exact ih (List.mem_cons_of_mem _ h)

theorem pieces_joined {names : List String} (hne : names ≠ [])
    (h : ∀ name ∈ names, '/' ∉ name.toList) :
    pieces '/' (join "/" names).toList = names.map String.toList := by
  induction names with
  | nil => contradiction
  | cons first rest ih =>
    have hfirst := h first (by simp)
    cases rest with
    | nil => simp [join, pieces_of_notMem hfirst]
    | cons second rest =>
      have ih := ih (by simp) fun name hname => h name (by simp [hname])
      have htext : (join "/" (first :: second :: rest)).toList =
          first.toList ++ '/' :: (join "/" (second :: rest)).toList := by
        simp [join]
      rw [htext, pieces_append_cons, pieces_of_notMem hfirst, ih]
      rfl

end Text

namespace Path

open Text (pieces pieces_append_cons pieces_joined pieces_ne_nil pieces_of_notMem cutLast
  cutLast_eq_some)

/-- A name that an entry of a directory can have. -/
structure IsName (name : String) : Prop where
  notEmpty : name ≠ ""
  notHere : name ≠ "."
  notAbove : name ≠ ".."
  noSlash : '/' ∉ name.toList

theorem IsName.isIdle_eq_false {name : String} (h : IsName name) : isIdle name.toList = false := by
  have hempty : name.toList ≠ [] := fun he => h.notEmpty (String.toList_injective he)
  have hhere : name.toList ≠ ['.'] := fun he => h.notHere (String.toList_injective he)
  simp [isIdle, hempty, hhere]

theorem IsName.ne_parentPiece {name : String} (h : IsName name) : name.toList ≠ parentPiece :=
  fun he => h.notAbove (String.toList_injective he)

/-! ## Paths below a root -/

/-- The parts of the root stay in front, but for an empty one behind its last slash. -/
theorem exists_pieces_join {root : String} (hroot : root ≠ "") (text : String) :
    ∃ front, front ≠ [] ∧ pieces '/' (join root text).toList = front ++ pieces '/' text.toList ∧
      (pieces '/' root.toList = front ∨ pieces '/' root.toList = front ++ [[]]) := by
  unfold join
  split
  · next hlast =>
    exact absurd (String.toList_injective (List.getLast?_eq_none_iff.1 hlast)) hroot
  · next hlast =>
    obtain ⟨before, hbefore⟩ := List.getLast?_eq_some_iff.1 hlast
    refine ⟨pieces '/' before, pieces_ne_nil _ _, ?_, .inr ?_⟩
    · rw [String.toList_append, hbefore, List.append_assoc]
      exact pieces_append_cons before text.toList
    · rw [hbefore]
      exact pieces_append_cons before []
  · refine ⟨pieces '/' root.toList, pieces_ne_nil _ _, ?_, .inl rfl⟩
    have htext : (root ++ "/" ++ text).toList = root.toList ++ '/' :: text.toList := by simp
    rw [htext, pieces_append_cons]

theorem head?_join {root : String} (hroot : root ≠ "") (text : String) :
    (join root text).toList.head? = root.toList.head? := by
  have hne : root.toList ≠ [] := fun he => hroot (String.toList_injective he)
  have hhead (s : List Char) : (root.toList ++ s).head? = root.toList.head? := by
    cases h : root.toList with
    | nil => exact absurd h hne
    | cons c cs => rfl
  unfold join
  split
  · next hlast => exact absurd (List.getLast?_eq_none_iff.1 hlast) hne
  · rw [String.toList_append]
    exact hhead _
  · rw [String.toList_append, String.toList_append, List.append_assoc]
    exact hhead _

/-- The parts of a path: what names an entry, the directory above, and at the front the top or the
directory that the path starts from. -/
def components (path : String) : List String :=
  let parts := pieces '/' path.toList
  let names := (parts.filter fun part => !isIdle part).map String.ofList
  if path.toList.head? = some '/' then "/" :: names
  else if parts.head? = some ['.'] then "." :: names
  else names

theorem components_join {root : String} {names : List String} (hroot : root ≠ "")
    (hne : names ≠ []) (hnames : ∀ name ∈ names, IsName name) :
    components (join root (Text.join "/" names)) = components root ++ names := by
  obtain ⟨front, hfront, hpieces, hcases⟩ := exists_pieces_join hroot (Text.join "/" names)
  rw [pieces_joined hne fun name hname => (hnames name hname).noSlash] at hpieces
  have hhead : (front ++ names.map String.toList).head? = (pieces '/' root.toList).head? := by
    obtain ⟨p, ps, rfl⟩ := List.exists_cons_of_ne_nil hfront
    rcases hcases with h | h <;> rw [h] <;> rfl
  have hfilter : (pieces '/' root.toList).filter (fun part => !isIdle part) =
      front.filter fun part => !isIdle part := by
    rcases hcases with h | h
    · rw [h]
    · rw [h, List.filter_append]
      simp [isIdle]
  have hkeep : ((names.map String.toList).filter fun part => !isIdle part).map String.ofList =
      names := by
    rw [List.filter_eq_self.2]
    · simp [Function.comp_def]
    · intro part hpart
      obtain ⟨name, hname, rfl⟩ := List.mem_map.1 hpart
      simp [(hnames name hname).isIdle_eq_false]
  unfold components
  simp only [hpieces, head?_join hroot, hhead, hfilter, List.filter_append, List.map_append, hkeep]
  split_ifs <;> rfl

/-! ## Extensions -/

/-- The name of a tree file: something, a dot, and `json` in any case. -/
def IsTreeName (name : String) : Prop :=
  ∃ stem extension, name.toList = stem ++ '.' :: extension ∧ stem ≠ [] ∧
    extension.map Char.toLower = ['j', 's', 'o', 'n']

theorem splitName_snd_eq_some {name extension : List Char} :
    (splitName name).2 = some extension ↔
      ∃ stem, name = stem ++ '.' :: extension ∧ '.' ∉ extension ∧ stem ≠ [] := by
  unfold splitName
  refine ⟨fun h => ?_, fun h => ?_⟩
  · split at h
    · cases h
    · next stem ext hne hcut =>
      obtain rfl : ext = extension := Option.some.inj h
      obtain ⟨rfl, hdot⟩ := cutLast_eq_some.1 hcut
      exact ⟨stem, rfl, hdot, fun hstem => hne (by rw [hstem])⟩
    · cases h
  · obtain ⟨stem, rfl, hdot, hstem⟩ := h
    rw [cutLast_eq_some.2 ⟨rfl, hdot⟩]
    cases stem with
    | nil => contradiction
    | cons c cs => rfl

theorem isTreeName_iff {name : String} :
    IsTreeName name ↔ ∃ extension, (splitName name.toList).2 = some extension ∧
      extension.map Char.toLower = ['j', 's', 'o', 'n'] := by
  simp only [splitName_snd_eq_some]
  refine ⟨fun h => ?_, fun h => ?_⟩
  · obtain ⟨stem, extension, hname, hstem, hjson⟩ := h
    refine ⟨extension, ⟨stem, hname, ?_, hstem⟩, hjson⟩
    intro hdot
    have hmem : Char.toLower '.' ∈ extension.map Char.toLower := List.mem_map_of_mem hdot
    rw [hjson] at hmem
    exact absurd hmem (by decide)
  · obtain ⟨extension, ⟨stem, hname, -, hstem⟩, hjson⟩ := h
    exact ⟨stem, extension, hname, hstem, hjson⟩

/-- Slashes behind the last name are no part of it. -/
theorem tail?_of_pieces {path : List Char} {front : List (List Char)} {name : String}
    (hname : IsName name) {slashes : Nat}
    (h : pieces '/' path = front ++ name.toList :: List.replicate slashes []) :
    tail? path = some ⟨front, name.toList, slashes = 0⟩ := by
  have hidle : ∀ piece ∈ List.replicate slashes ([] : List Char), isIdle piece = true := by
    intro piece hpiece
    rw [List.eq_of_mem_replicate hpiece]
    rfl
  unfold tail?
  simp [h, List.dropWhile_append_of_pos hidle, hname.isIdle_eq_false, hname.ne_parentPiece]

/-- Only the last name of a path tells whether it is that of a tree file. -/
theorem isTreeFile_join {root : String} {names : List String} (hroot : root ≠ "")
    (hne : names ≠ []) (hnames : ∀ name ∈ names, IsName name) :
    isTreeFile (join root (Text.join "/" names)) = true ↔ IsTreeName (names.getLast hne) := by
  obtain ⟨front, -, hpieces, -⟩ := exists_pieces_join hroot (Text.join "/" names)
  rw [pieces_joined hne fun name hname => (hnames name hname).noSlash] at hpieces
  have hlast : names.map String.toList =
      names.dropLast.map String.toList ++ [(names.getLast hne).toList] := by
    conv_lhs => rw [← List.dropLast_append_getLast hne]
    simp
  rw [hlast, ← List.append_assoc] at hpieces
  have htail := @tail?_of_pieces _ _ _ (hnames _ (List.getLast_mem hne)) 0 hpieces
  have hext : extension? (join root (Text.join "/" names)) =
      (splitName (names.getLast hne).toList).2.map String.ofList := by
    simp [extension?, htail]
  rw [isTreeName_iff, isTreeFile, hext]
  cases (splitName (names.getLast hne).toList).2 with
  | none => simp
  | some extension => simp

end Path

end TreeOutline
