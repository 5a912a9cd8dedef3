import TreeOutline.Files.Lookup
import TreeOutline.Proofs.Listing
import TreeOutline.Proofs.Traversal

/-!
Files that are written. A text that is written to a path stands where the path leads, all other places
stay as they are, and the path leads to it from then on (`writeText_eq_ok`). So what was written is
what is read.
-/

namespace TreeOutline.FileSystem

variable {fs fs' : FileSystem} {place : Place} {content : ByteArray} {path text : String}
  {closed ends : Bool}

/-- The second file system is the first one with a file at the place. -/
structure Stores (fs : FileSystem) (place : Place) (content : ByteArray) (fs' : FileSystem) : Prop where
  stored : fs'.at? place = some (.file content)
  others : ∀ other, other ≠ place → fs'.view other = fs.view other
  workingDirectory : fs'.workingDirectory = fs.workingDirectory

/-- The lookup ends at the place, where a file is or may be. -/
def EndsAt (r : Except IoError Found) (place : Place) (ends : Bool) : Prop :=
  r = .ok (.absent place ends) ∨ ∃ content, r = .ok (.file place content ends)

/-- What a lookup finds is there, and what it misses is not. -/
def Shows (fs : FileSystem) : Except IoError Found → Prop
  | .ok (.absent place _) => place ≠ [] ∧ fs.at? place = none
  | .ok (.file place content _) => fs.at? place = some (.file content)
  | _ => True

/-! ## Where lookups end -/

theorem shows_follow {through : Through}
    (hthrough : ∀ here target rest closed', fs.Shows (through here target rest closed'))
    (closed : Bool) (here : Place) (steps : List String) :
    fs.Shows (fs.follow through closed here steps) := by
  fun_induction follow fs through closed here steps with
  | case2 | case3 | case5 | case6 => assumption
  | case8 => exact hthrough ..
  | case9 here step rest _ _ _ place hplace =>
    -- the last name is missing
    exact ⟨by simp [place], hplace⟩
  | case1 | case4 | case7 | case10 => trivial

theorem shows_followRoute (fs : FileSystem) (links : Nat) (here : Place) (route : Route) :
    fs.Shows (fs.followRoute links here route) := by
  induction links generalizing here route with
  | zero =>
    rw [followRoute]
    have hstop : fs.Shows (.error .tooManyLinks) := True.intro
    exact shows_follow (fun _ _ _ _ => hstop) _ _ _
  | succ links ih =>
    rw [followRoute]
    exact shows_follow (fun _ _ _ _ => ih _ _) _ _ _

theorem shows_lookup (fs : FileSystem) (path : String) : fs.Shows (fs.lookup path) := by
  unfold lookup
  split
  · trivial
  · exact shows_followRoute ..

/-- No directory and no link is at the place. -/
def Free (fs : FileSystem) (place : Place) : Prop :=
  fs.at? place = none ∨ ∃ content, fs.at? place = some (.file content)

theorem EndsAt.free {r : Except IoError Found} (h : EndsAt r place ends) (hr : fs.Shows r) :
    fs.Free place := by
  rcases h with rfl | ⟨content, rfl⟩
  · exact .inl hr.2
  · exact .inr ⟨content, hr⟩

/-- What is no file is not at the place, so it stays. -/
theorem Stores.view_eq (hs : Stores fs place content fs') (hfree : fs.Free place) {other : Place}
    {e : Entry} (hother : fs.at? other = some e) (he : ∀ old, e ≠ .file old) :
    fs'.view other = some e.bare := by
  have hne : other ≠ place := by
    rintro rfl
    rcases hfree with h | ⟨old, h⟩
    · cases h.symm.trans hother
    · exact he old (Option.some.inj (hother.symm.trans h))
  rw [hs.others _ hne, view, hother]
  rfl

/-- Steps that led to the place lead to the new file there. -/
theorem follow_stores (hs : Stores fs place content fs') (hfree : fs.Free place)
    {through through' : Through} {here : Place} {steps : List String}
    (hthrough : ∀ here target rest closed', EndsAt (through here target rest closed') place ends →
      through' here target rest closed' = .ok (.file place content ends))
    (h : EndsAt (fs.follow through closed here steps) place ends) :
    fs'.follow through' closed here steps = .ok (.file place content ends) := by
  fun_induction follow fs through closed here steps with
  | case2 here rest ih =>
    rw [follow, if_pos rfl]
    exact ih h
  | case3 here rest hhere ih =>
    rw [follow, if_neg hhere, if_pos rfl]
    exact ih h
  | case5 here name rest hhere habove hlong next es hnext ih =>
    obtain ⟨es', hnext'⟩ := exists_at?_eq_directory.2 (hs.view_eq hfree hnext (by simp))
    rw [follow_name hhere habove hlong, hnext']
    exact ih h
  | case8 here name rest hhere habove hlong next target hnext =>
    rw [follow_name hhere habove hlong, at?_eq_link.2 (hs.view_eq hfree hnext (by simp))]
    exact hthrough _ _ _ _ h
  | case6 here name rest hhere habove hlong next old hnext hrest =>
    -- the steps end at the place
    obtain ⟨rfl, rfl⟩ : next = place ∧ closed = ends := by simpa [EndsAt] using h
    rw [follow_name hhere habove hlong, hs.stored]
    exact if_pos hrest
  | case9 here name rest hhere habove hlong next hnext hrest =>
    obtain ⟨rfl, rfl⟩ : next = place ∧ closed = ends := by simpa [EndsAt] using h
    rw [follow_name hhere habove hlong, hs.stored]
    exact if_pos hrest
  | case1 | case4 | case7 | case10 => simp [EndsAt] at h

theorem followRoute_stores (hs : Stores fs place content fs') {links : Nat} {here : Place}
    {route : Route} (h : EndsAt (fs.followRoute links here route) place ends) :
    fs'.followRoute links here route = .ok (.file place content ends) := by
  have hfree := h.free (shows_followRoute ..)
  induction links generalizing here route with
  | zero =>
    rw [followRoute] at h ⊢
    exact follow_stores hs hfree (fun _ _ _ _ ht => by simp [EndsAt] at ht) h
  | succ links ih =>
    rw [followRoute] at h ⊢
    exact follow_stores hs hfree (fun _ _ _ _ ht => ih ht) h

theorem lookup_stores (hs : Stores fs place content fs') (h : EndsAt (fs.lookup path) place ends) :
    fs'.lookup path = .ok (.file place content ends) := by
  unfold lookup at h ⊢
  cases hunusable : unusable? path with
  | some e => simp [EndsAt, hunusable] at h
  | none =>
    rw [hunusable] at h
    dsimp only at h ⊢
    rw [hs.workingDirectory]
    exact followRoute_stores hs h

/-! ## Writing -/

/-- A file is written in a directory that is there. -/
theorem endsAt_of_target (h : fs.target path = .ok place) :
    EndsAt (fs.lookup path) place false ∧
      ∃ front name es, place = front ++ [name] ∧ fs.at? front = some (.directory es) := by
  have hshows := shows_lookup fs path
  unfold target at h
  split at h
  · next content hfound =>
    cases h
    rw [hfound] at hshows
    refine ⟨.inr ⟨content, hfound⟩, ?_⟩
    rcases List.eq_nil_or_concat place with rfl | ⟨front, name, rfl⟩
    · cases hshows
    · rw [Shows, List.concat_eq_append, at?, Entry.at?_append] at hshows
      obtain ⟨e, hfront, he⟩ := Option.bind_eq_some_iff.1 hshows
      obtain ⟨es, -, rfl, -, -⟩ := Entry.at?_cons_of_isSome he
      exact ⟨front, name, es, List.concat_eq_append .., hfront⟩
  · next hfound =>
    split at h
    · next hdir =>
      cases h
      rw [hfound] at hshows
      refine ⟨.inl hfound, place.dropLast, place.getLast hshows.1, ?_⟩
      obtain ⟨e, he, hdir⟩ := Option.map_eq_some_iff.1 hdir
      cases e with
      | directory es => exact ⟨es, (List.dropLast_append_getLast hshows.1).symm, he⟩
      | file => cases hdir
      | link => cases hdir
    · cases h
  · cases h
  · cases h

theorem stores_put {front : Place} {name : String} {es : List (String × Entry)}
    (hdir : fs.at? front = some (.directory es)) (hfree : fs.Free (front ++ [name]))
    (content : ByteArray) :
    Stores fs (front ++ [name]) content (fs.put (front ++ [name]) (.file content)) := by
  have hne : front ++ [name] ≠ [] := by simp
  refine ⟨?_, fun other hother => ?_, rfl⟩
  · simpa [Entry.at?] using @at?_put_append fs _ (.file content) [] hne
  · by_cases hbelow : front ++ [name] <+: other
    · -- below a file, and below a place where nothing is, there is nothing
      obtain ⟨rest, rfl⟩ := hbelow
      obtain ⟨first, rest, rfl⟩ := List.exists_cons_of_ne_nil (l := rest) (by simpa using hother)
      have hnone : fs.at? (front ++ [name] ++ first :: rest) = none := by
        rw [at?, Entry.at?_append, ← at?]
        rcases hfree with h | ⟨old, h⟩ <;> rw [h] <;> rfl
      rw [view, view, at?_put_append hne, hnone]
      rfl
    · exact view_put hdir hbelow

theorem readText_stores (hs : Stores fs place text.toUTF8 fs')
    (h : EndsAt (fs.lookup path) place false) : fs'.readText path = .ok text := by
  apply readText_of_find
  rw [find, lookup_stores hs h]

/-- Writing a text changes one place, to which the path leads. -/
theorem writeText_eq_ok (h : fs.writeText path text = .ok fs') :
    fs'.readText path = .ok text ∧
      ∃ place, fs.target path = .ok place ∧ Stores fs place text.toUTF8 fs' := by
  unfold writeText at h
  obtain ⟨place, htarget, h⟩ := Traversal.bind_eq_ok.1 h
  cases h
  obtain ⟨hends, front, name, es, rfl, hdir⟩ := endsAt_of_target htarget
  have hs := stores_put hdir (hends.free (shows_lookup fs path)) text.toUTF8
  exact ⟨readText_stores hs hends, _, htarget, hs⟩

end TreeOutline.FileSystem
