import Mathlib.Data.List.Basic
import TreeOutline.Text.Pieces

/-!
Where texts can be cut again. A cut at the first separator is the one with no separator before it,
and a cut at the last separator is the one with none after it; so what stands on both sides of such
a separator can be told from the whole. So can pieces without a separator that were joined by it,
unless it is open whether there are any.
-/

namespace TreeOutline.Text

variable {sep : Char} {s before after before' after' : List Char}

/-! ## The first separator -/

theorem cutFirst_append (h : sep ∉ before) :
    cutFirst sep (before ++ sep :: after) = some (before, after) := by
  induction before with
  | nil => simp [cutFirst]
  | cons b bs ih =>
    rw [List.mem_cons, not_or] at h
    rw [List.cons_append, cutFirst, if_neg (Ne.symm h.1), ih h.2]
    rfl

theorem cutFirst_eq_some :
    cutFirst sep s = some (before, after) ↔ s = before ++ sep :: after ∧ sep ∉ before := by
  refine ⟨fun h => ?_, fun h => ?_⟩
  · induction s generalizing before with
    | nil => simp [cutFirst] at h
    | cons c cs ih =>
      rw [cutFirst] at h
      by_cases hc : c = sep
      · rw [if_pos hc] at h
        cases h
        exact ⟨by rw [hc]; rfl, by simp⟩
      · rw [if_neg hc] at h
        obtain ⟨⟨b, a⟩, hcs, h⟩ := Option.map_eq_some_iff.1 h
        cases h
        obtain ⟨rfl, hb⟩ := ih hcs
        exact ⟨rfl, by simp [Ne.symm hc, hb]⟩
  · obtain ⟨rfl, hb⟩ := h
    exact cutFirst_append hb

theorem cutFirst_eq_none : cutFirst sep s = none ↔ sep ∉ s := by
  induction s with
  | nil => simp [cutFirst]
  | cons c cs ih =>
    rw [List.mem_cons, not_or, ← ih, cutFirst]
    by_cases hc : c = sep
    · simp [hc]
    · simp [hc, Ne.symm hc]

theorem append_cons_inj_of_notMem_left {α : Type} {sep : α} {before after before' after' : List α}
    (hb : sep ∉ before) (hb' : sep ∉ before')
    (h : before ++ sep :: after = before' ++ sep :: after') : before = before' ∧ after = after' := by
  induction before generalizing before' with
  | nil =>
    rcases before' with _ | ⟨c, cs⟩
    · exact ⟨rfl, (List.cons.inj h).2⟩
    · obtain ⟨rfl, -⟩ := List.cons.inj h
      simp at hb'
  | cons b bs ih =>
    rcases before' with _ | ⟨c, cs⟩
    · obtain ⟨rfl, -⟩ := List.cons.inj h
      simp at hb
    · obtain ⟨rfl, hrest⟩ := List.cons.inj h
      have hb := List.not_mem_of_not_mem_cons hb
      have hb' := List.not_mem_of_not_mem_cons hb'
      obtain ⟨rfl, rfl⟩ := ih hb hb' hrest
      exact ⟨rfl, rfl⟩

/-! ## The last separator -/

theorem cutLast_eq_none : cutLast sep s = none ↔ sep ∉ s := by
  induction s with
  | nil => simp [cutLast]
  | cons c cs ih =>
    rw [List.mem_cons, not_or, ← ih, cutLast]
    cases cutLast sep cs with
    | none => simp [eq_comm]
    | some parts => simp

theorem cutLast_append (h : sep ∉ after) :
    cutLast sep (before ++ sep :: after) = some (before, after) := by
  induction before with
  | nil => simp [cutLast, cutLast_eq_none.2 h]
  | cons b bs ih => simp [cutLast, ih]

theorem cutLast_eq_some :
    cutLast sep s = some (before, after) ↔ s = before ++ sep :: after ∧ sep ∉ after := by
  refine ⟨fun h => ?_, fun h => ?_⟩
  · induction s generalizing before with
    | nil => simp [cutLast] at h
    | cons c cs ih =>
      rw [cutLast] at h
      cases hcs : cutLast sep cs with
      | none =>
        rw [hcs] at h
        by_cases hc : c = sep
        · rw [if_pos hc] at h
          cases h
          exact ⟨by rw [hc]; rfl, cutLast_eq_none.1 hcs⟩
        · simp [hc] at h
      | some parts =>
        rw [hcs] at h
        cases h
        obtain ⟨rfl, ha⟩ := ih hcs
        exact ⟨rfl, ha⟩
  · obtain ⟨rfl, ha⟩ := h
    exact cutLast_append ha

theorem append_cons_inj_of_notMem_right (ha : sep ∉ after) (ha' : sep ∉ after')
    (h : before ++ sep :: after = before' ++ sep :: after') :
    before = before' ∧ after = after' := by
  have hcut : cutLast sep (before ++ sep :: after) = some (before, after) :=
    cutLast_eq_some.2 ⟨rfl, ha⟩
  rw [h, cutLast_eq_some.2 ⟨rfl, ha'⟩] at hcut
  cases hcut
  exact ⟨rfl, rfl⟩

/-! ## Joined texts -/

theorem join_eq_intercalate (sep : String) (ps : List String) :
    join sep ps = sep.intercalate ps := by
  induction ps with
  | nil => simp [join]
  | cons p rest ih =>
    cases rest with
    | nil => simp [join]
    | cons q qs => rw [join, ih, String.intercalate_cons_cons]

theorem join_append (sep : String) {ps qs : List String} (hp : ps ≠ []) (hq : qs ≠ []) :
    join sep (ps ++ qs) = join sep ps ++ sep ++ join sep qs := by
  simp only [join_eq_intercalate]
  exact String.intercalate_append_of_ne_nil hp hq

/-- Pieces joined by a separator that none of them holds; the first piece shows that there are
any. -/
theorem intercalate_inj {α : Type} [DecidableEq α] {sep : α} {xs ys : List (List α)}
    (hx : ∀ x ∈ xs, sep ∉ x) (hy : ∀ y ∈ ys, sep ∉ y) (hx0 : xs.head? ≠ some [])
    (hy0 : ys.head? ≠ some []) (h : [sep].intercalate xs = [sep].intercalate ys) : xs = ys := by
  have hnil {zs : List (List α)} (hz0 : zs.head? ≠ some [])
      (hz : [sep].intercalate zs = []) : zs = [] := by
    cases zs with
    | nil => rfl
    | cons z zs =>
      cases zs with
      | nil => simp_all
      | cons z' zs => simp at hz
  by_cases hxs : xs = []
  · subst hxs
    exact (hnil hy0 h.symm).symm
  by_cases hys : ys = []
  · subst hys
    exact hnil hx0 h
  calc xs = ([sep].intercalate xs).splitOn sep := (List.splitOn_intercalate sep hx hxs).symm
    _ = ([sep].intercalate ys).splitOn sep := by rw [h]
    _ = ys := List.splitOn_intercalate sep hy hys

theorem join_newline_inj {xs ys : List String} (hx : ∀ x ∈ xs, '\n' ∉ x.toList)
    (hy : ∀ y ∈ ys, '\n' ∉ y.toList) (hx0 : xs.head? ≠ some "") (hy0 : ys.head? ≠ some "")
    (h : join "\n" xs = join "\n" ys) : xs = ys := by
  have hhead {zs : List String} (hz0 : zs.head? ≠ some "") :
      (zs.map String.toList).head? ≠ some [] := by
    cases zs with
    | nil => simp
    | cons z zs => simpa using hz0
  have h := congrArg String.toList h
  simp only [join_eq_intercalate, String.toList_intercalate] at h
  have hchars := intercalate_inj (List.forall_mem_map.2 hx) (List.forall_mem_map.2 hy)
    (hhead hx0) (hhead hy0) h
  exact List.map_injective_iff.2 (fun _ _ => String.toList_injective) hchars

end TreeOutline.Text
