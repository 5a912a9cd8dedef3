import Mathlib.Data.List.Basic
import TreeOutline.Files.Basic

/-!
What a file system holds, apart from the order in which its directories list it. A place shows a
file, a link or a directory (`FileSystem.view`). Sorting the listings, or listing the entries of a
directory in another order, leaves all views as they are; a new entry changes those below its place
only.
-/

namespace TreeOutline

/-! ## Sorted pairs -/

namespace Keyed

variable {α : Type} {pairs : List (String × α)} {key : String} {value : α}

/-- The keys go up, so that none stands twice. -/
def Sorted (pairs : List (String × α)) : Prop :=
  pairs.Pairwise fun a b => a.1 < b.1

theorem mem_of_lookup (h : pairs.lookup key = some value) : (key, value) ∈ pairs := by
  obtain ⟨before, after, rfl, -⟩ := List.lookup_eq_some_iff.1 h
  simp

theorem exists_lookup_of_mem (h : key ∈ pairs.map Prod.fst) :
    ∃ value, pairs.lookup key = some value := by
  obtain ⟨pair, hpair, rfl⟩ := List.mem_map.1 h
  apply Option.ne_none_iff_exists'.1
  intro hnone
  have hne := List.lookup_eq_none_iff.1 hnone pair hpair
  simp at hne

theorem Sorted.lookup_eq_some (hs : Sorted pairs) :
    pairs.lookup key = some value ↔ (key, value) ∈ pairs := by
  refine ⟨mem_of_lookup, fun h => ?_⟩
  obtain ⟨before, after, rfl⟩ := List.append_of_mem h
  refine List.lookup_eq_some_iff.2 ⟨before, after, rfl, fun pair hpair => ?_⟩
  obtain ⟨-, -, hlt⟩ := List.pairwise_append.1 hs
  have hlt := hlt pair hpair (key, value) (by simp)
  simpa using (String.ne_of_lt hlt).symm

theorem mem_insert {pair : String × α} (h : pair ∈ insert key value pairs) :
    pair = (key, value) ∨ pair ∈ pairs := by
  induction pairs with
  | nil => simpa [insert] using h
  | cons m rest ih =>
    obtain ⟨k, v⟩ := m
    unfold insert at h
    split at h
    · rcases List.mem_cons.1 h with h | h
      · exact .inl h
      · exact .inr (List.mem_cons_of_mem _ h)
    · split at h
      · simpa using h
      · rcases List.mem_cons.1 h with h | h
        · exact .inr (by simp [h])
        · rcases ih h with h | h
          · exact .inl h
          · exact .inr (List.mem_cons_of_mem _ h)

theorem Sorted.insert (hs : Sorted pairs) (key : String) (value : α) :
    Sorted (Keyed.insert key value pairs) := by
  induction pairs with
  | nil => exact List.pairwise_singleton ..
  | cons m rest ih =>
    obtain ⟨k, v⟩ := m
    obtain ⟨hfirst, hrest⟩ := List.pairwise_cons.1 hs
    unfold Keyed.insert
    split
    · next heq =>
      subst heq
      exact List.pairwise_cons.2 ⟨hfirst, hrest⟩
    · next hne =>
      split
      · next hlt =>
        refine List.pairwise_cons.2 ⟨fun pair hpair => ?_, hs⟩
        rcases List.mem_cons.1 hpair with rfl | hpair
        · exact hlt
        · exact String.lt_trans hlt (hfirst pair hpair)
      · next hge =>
        refine List.pairwise_cons.2 ⟨fun pair hpair => ?_, ih hrest⟩
        rcases mem_insert hpair with rfl | hpair
        · exact Std.lt_of_le_of_ne (String.not_lt.1 hge) (Ne.symm hne)
        · exact hfirst pair hpair

end Keyed

/-! ## Places -/

namespace Entry

theorem at?_append (place rest : Place) (e : Entry) :
    at? (place ++ rest) e = (at? place e).bind (at? rest) := by
  induction place generalizing e with
  | nil => rfl
  | cons name place ih =>
    rw [List.cons_append, at?, at?]
    cases e.entries.lookup name with
    | none => rfl
    | some child => exact ih child

theorem at?_cons_of_isSome {name : String} {rest : Place} {e x : Entry}
    (h : at? (name :: rest) e = some x) :
    ∃ es child, e = .directory es ∧ es.lookup name = some child ∧ at? rest child = some x := by
  rw [at?] at h
  obtain ⟨child, hchild, hx⟩ := Option.bind_eq_some_iff.1 h
  cases e with
  | directory es => exact ⟨es, child, rfl, hchild, hx⟩
  | file => cases hchild
  | link => cases hchild

/-- An entry without what it holds. -/
def bare : Entry → Entry
  | .directory _ => .directory []
  | e => e

theorem bare_eq_file {e : Entry} {content : ByteArray} :
    e.bare = .file content ↔ e = .file content := by
  cases e <;> simp [bare]

theorem bare_eq_link {e : Entry} {target : String} : e.bare = .link target ↔ e = .link target := by
  cases e <;> simp [bare]

theorem bare_eq_directory {e : Entry} : e.bare = .directory [] ↔ ∃ es, e = .directory es := by
  cases e <;> simp [bare]

/-! ## Sorted listings -/

theorem lookup_sortedEntries (es : List (String × Entry)) (name : String) :
    (sortedEntries es).lookup name = (es.lookup name).map sorted := by
  induction es with
  | nil => rfl
  | cons m rest ih =>
    obtain ⟨n, e⟩ := m
    rw [sortedEntries]
    by_cases h : name = n
    · subst h
      rw [Keyed.lookup_insert]
      simp
    · rw [Keyed.lookup_insert_of_ne h, ih]
      simp [List.lookup_cons, beq_eq_false_iff_ne.2 h]

theorem sorted_sortedEntries (es : List (String × Entry)) : Keyed.Sorted (sortedEntries es) := by
  induction es with
  | nil => exact List.Pairwise.nil
  | cons m rest ih => exact ih.insert m.1 (sorted m.2)

theorem at?_sorted (place : Place) (e : Entry) : at? place (sorted e) = (at? place e).map sorted := by
  induction place generalizing e with
  | nil => rfl
  | cons name rest ih =>
    cases e with
    | directory es =>
      rw [sorted, at?, at?]
      simp only [entries, lookup_sortedEntries]
      cases es.lookup name with
      | none => rfl
      | some child => exact ih child
    | file => rfl
    | link => rfl

theorem bare_sorted (e : Entry) : e.sorted.bare = e.bare := by
  cases e <;> simp [sorted, bare]

/-- Every directory from an entry down lists its names in order. -/
def Ordered (e : Entry) : Prop :=
  ∀ place es, at? place e = some (.directory es) → Keyed.Sorted es

theorem ordered_sorted (e : Entry) : e.sorted.Ordered := by
  intro place es h
  rw [at?_sorted] at h
  obtain ⟨x, -, hx⟩ := Option.map_eq_some_iff.1 h
  cases x with
  | directory es' =>
    rw [sorted] at hx
    cases hx
    exact sorted_sortedEntries es'
  | file => cases hx
  | link => cases hx

theorem Ordered.of_mem {es : List (String × Entry)} (h : (directory es).Ordered) {name : String}
    {e : Entry} (hmem : (name, e) ∈ es) : e.Ordered := by
  intro place es' hplace
  have hlookup := (h [] es rfl).lookup_eq_some.2 hmem
  apply h (name :: place)
  simp [at?, entries, hlookup, hplace]

/-- Every name below an entry is of one kind. -/
def AllNames (P : String → Prop) (e : Entry) : Prop :=
  ∀ place x, e.at? place = some x → ∀ name ∈ place, P name

theorem AllNames.of_mem {P : String → Prop} {es : List (String × Entry)}
    (h : (directory es).AllNames P) (hs : Keyed.Sorted es) {name : String} {e : Entry}
    (hmem : (name, e) ∈ es) : P name ∧ e.AllNames P := by
  have hat (place : Place) : at? (name :: place) (directory es) = at? place e := by
    rw [at?, entries, hs.lookup_eq_some.2 hmem]
    rfl
  refine ⟨h [name] e (hat []) name (by simp), fun place x hx n hn => ?_⟩
  exact h (name :: place) x ((hat place).trans hx) n (List.mem_cons_of_mem _ hn)

theorem AllNames.sorted {P : String → Prop} {e : Entry} (h : e.AllNames P) :
    e.sorted.AllNames P := by
  intro place x hx
  rw [at?_sorted] at hx
  obtain ⟨x', hx', -⟩ := Option.map_eq_some_iff.1 hx
  exact h place x' hx'

/-! ## Listings in another order -/

/-- The same entries, listed in another order by each directory. -/
inductive Reordered : Entry → Entry → Prop
  | file (content : ByteArray) : Reordered (.file content) (.file content)
  | link (target : String) : Reordered (.link target) (.link target)
  | directory {es es' : List (String × Entry)}
      (hnames : (es.map Prod.fst).Perm (es'.map Prod.fst))
      (hsame : ∀ name e e', (name, e) ∈ es → (name, e') ∈ es' → Reordered e e') :
    Reordered (.directory es) (.directory es')

theorem Reordered.bare_at? {e e' : Entry} (h : Reordered e e') (place : Place) :
    (at? place e').map bare = (at? place e).map bare := by
  induction h generalizing place with
  | file content => rfl
  | link target => rfl
  | @directory es es' hnames hsame ih =>
    cases place with
    | nil => rfl
    | cons name rest =>
      simp only [at?, entries]
      cases hl : es.lookup name with
      | some child =>
        have hmem := Keyed.mem_of_lookup hl
        have hname : name ∈ es'.map Prod.fst := hnames.mem_iff.1 (List.mem_map_of_mem hmem)
        obtain ⟨child', hl'⟩ := Keyed.exists_lookup_of_mem hname
        rw [hl']
        exact ih name child child' hmem (Keyed.mem_of_lookup hl') rest
      | none =>
        cases hl' : es'.lookup name with
        | none => rfl
        | some child' =>
          have hmem' := List.mem_map_of_mem (f := Prod.fst) (Keyed.mem_of_lookup hl')
          obtain ⟨child, hl''⟩ := Keyed.exists_lookup_of_mem (hnames.mem_iff.2 hmem')
          cases hl.symm.trans hl''

/-! ## New entries -/

theorem at?_put_append (new : Entry) (place rest : Place) (e : Entry) :
    at? (place ++ rest) (put new place e) = at? rest new := by
  rw [at?_append, at?_put]
  rfl

/-- An entry put into a directory changes no place but its own and those below. -/
theorem bare_at?_put {new e : Entry} {inner : Place} {name : String} {es : List (String × Entry)}
    (hdir : at? inner e = some (.directory es)) {place : Place}
    (hplace : ¬ (inner ++ [name]) <+: place) :
    (at? place (put new (inner ++ [name]) e)).map bare = (at? place e).map bare := by
  induction inner generalizing e place with
  | nil =>
    obtain rfl : e = .directory es := Option.some.inj hdir
    cases place with
    | nil => rfl
    | cons n rest =>
      have hne : n ≠ name := by
        rintro rfl
        exact hplace (by simp)
      simp [put, at?, entries, Keyed.lookup_insert_of_ne hne]
  | cons first inner ih =>
    obtain ⟨es', child, rfl, hchild, hinner⟩ := at?_cons_of_isSome hdir
    rw [List.cons_append] at hplace ⊢
    have hput : put new (first :: (inner ++ [name])) (.directory es') =
        .directory (Keyed.insert first (put new (inner ++ [name]) child) es') := by
      simp [put, entries, hchild]
    rw [hput]
    cases place with
    | nil => rfl
    | cons n rest =>
      simp only [at?, entries]
      by_cases hn : n = first
      · subst hn
        rw [Keyed.lookup_insert, hchild]
        apply ih hinner
        intro hrest
        exact hplace (List.cons_prefix_cons.2 ⟨rfl, hrest⟩)
      · rw [Keyed.lookup_insert_of_ne hn]

end Entry

/-! ## Views -/

namespace FileSystem

open Entry (bare)

/-- What a place shows. -/
def view (fs : FileSystem) (place : Place) : Option Entry :=
  (fs.at? place).map bare

variable {fs fs' : FileSystem} {place : Place}

theorem at?_eq_file {content : ByteArray} :
    fs.at? place = some (.file content) ↔ fs.view place = some (.file content) := by
  simp [view, Entry.bare_eq_file]

theorem at?_eq_link {target : String} :
    fs.at? place = some (.link target) ↔ fs.view place = some (.link target) := by
  simp [view, Entry.bare_eq_link]

theorem exists_at?_eq_directory :
    (∃ es, fs.at? place = some (.directory es)) ↔ fs.view place = some (.directory []) := by
  simp only [view, Option.map_eq_some_iff, Entry.bare_eq_directory]
  refine ⟨fun ⟨es, h⟩ => ⟨_, h, es, rfl⟩, fun ⟨e, h, es, he⟩ => ⟨es, he ▸ h⟩⟩

theorem top_sorted (fs : FileSystem) : fs.sorted.top = fs.top.sorted := by
  simp [top, sorted, Entry.sorted]

theorem view_sorted (fs : FileSystem) (place : Place) : fs.sorted.view place = fs.view place := by
  simp only [view, at?, top_sorted, Entry.at?_sorted, Option.map_map]
  congr 1
  funext e
  exact Entry.bare_sorted e

/-- The same files, listed in another order. -/
structure Reordered (fs fs' : FileSystem) : Prop where
  top : Entry.Reordered fs.top fs'.top
  workingDirectory : fs'.workingDirectory = fs.workingDirectory

theorem Reordered.view (h : Reordered fs fs') (place : Place) : fs'.view place = fs.view place :=
  h.top.bare_at? place

theorem top_put {new : Entry} (hplace : place ≠ []) :
    (fs.put place new).top = Entry.put new place fs.top := by
  cases place with
  | nil => contradiction
  | cons name rest => rfl

theorem at?_put_append {new : Entry} {rest : Place} (hplace : place ≠ []) :
    (fs.put place new).at? (place ++ rest) = Entry.at? rest new := by
  rw [at?, top_put hplace, Entry.at?_put_append]

theorem view_put {new : Entry} {name : String} {es : List (String × Entry)}
    (hdir : fs.at? place = some (.directory es)) {other : Place}
    (hother : ¬ (place ++ [name]) <+: other) :
    (fs.put (place ++ [name]) new).view other = fs.view other := by
  rw [view, at?, top_put (by simp)]
  exact Entry.bare_at?_put hdir hother

end FileSystem

end TreeOutline
