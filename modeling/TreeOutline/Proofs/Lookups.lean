import TreeOutline.Proofs.Listing
import TreeOutline.Proofs.PathNames

/-!
What paths lead to when files are added. A path that leads somewhere, or fails for another reason
than that something is missing, does not notice what else there is (`find_grows`). And a path below
a directory leads where its names do (`find_below`), so it never misses an entry that is there.
-/

namespace TreeOutline

namespace FileSystem

open Entry (bare)

variable {fs fs' : FileSystem} {place : Place} {path root : String}

/-! ## Files are added -/

/-- What one file system shows, the other shows too. -/
structure Grows (fs fs' : FileSystem) : Prop where
  view : ∀ place e, fs.view place = some e → fs'.view place = some e
  workingDirectory : fs'.workingDirectory = fs.workingDirectory

/-- A result that does not depend on something missing. -/
def Conclusive : Except IoError Found → Prop
  | .ok (.absent _ _) => False
  | .error .notFound => False
  | _ => True

theorem follow_grows (h : Grows fs fs') {through through' : Through}
    (hthrough : ∀ here target rest closed, Conclusive (through here target rest closed) →
      through' here target rest closed = through here target rest closed)
    (closed : Bool) (here : Place) (steps : List String)
    (hc : Conclusive (fs.follow through closed here steps)) :
    fs'.follow through' closed here steps = fs.follow through closed here steps := by
  have hview {place : Place} {e : Entry} (hplace : fs.at? place = some e) :
      fs'.view place = some e.bare :=
    h.view place e.bare (by rw [view, hplace]; rfl)
  fun_induction follow fs through closed here steps with
  | case1 here => rfl
  | case2 here rest ih =>
    rw [follow, if_pos rfl]
    exact ih hc
  | case3 here rest hhere ih =>
    rw [follow, if_neg hhere, if_pos rfl]
    exact ih hc
  | case4 here step rest hhere habove hlong =>
    rw [follow, if_neg hhere, if_neg habove, if_pos hlong]
  | case5 here step rest hhere habove hlong place es hplace ih =>
    obtain ⟨es', hplace'⟩ := exists_at?_eq_directory.2 (hview hplace)
    rw [follow_name hhere habove hlong, hplace']
    exact ih hc
  | case6 here step rest hhere habove hlong place content hplace hrest =>
    rw [follow_name hhere habove hlong, at?_eq_file.2 (hview hplace)]
    exact if_pos hrest
  | case7 here step rest hhere habove hlong place content hplace hrest =>
    rw [follow_name hhere habove hlong, at?_eq_file.2 (hview hplace)]
    exact if_neg hrest
  | case8 here step rest hhere habove hlong place target hplace =>
    rw [follow_name hhere habove hlong, at?_eq_link.2 (hview hplace)]
    exact hthrough _ _ _ _ hc
  | case9 => exact absurd hc id
  | case10 => exact absurd hc id

theorem followRoute_grows (h : Grows fs fs') (links : Nat) (here : Place) (route : Route)
    (hc : Conclusive (fs.followRoute links here route)) :
    fs'.followRoute links here route = fs.followRoute links here route := by
  induction links generalizing here route with
  | zero =>
    rw [followRoute] at hc
    rw [followRoute, followRoute]
    exact follow_grows h (fun _ _ _ _ _ => rfl) _ _ _ hc
  | succ links ih =>
    rw [followRoute] at hc
    rw [followRoute, followRoute]
    exact follow_grows h (fun here target rest closed hc => ih _ _ hc) _ _ _ hc

theorem find_grows (h : Grows fs fs') (hfound : fs.find path ≠ .error .notFound) :
    fs'.find path = fs.find path := by
  have hlookup : fs'.lookup path = fs.lookup path := by
    unfold lookup
    cases hunusable : unusable? path with
    | some e => rfl
    | none =>
      rw [h.workingDirectory]
      apply followRoute_grows h
      unfold Conclusive
      split
      · next hr => exact hfound (by simp [find, lookup, hunusable, hr])
      · next hr => exact hfound (by simp [find, lookup, hunusable, hr])
      · trivial
  rw [find, find, hlookup]

theorem find_congr (hview : ∀ place, fs'.view place = fs.view place)
    (hdirectory : fs'.workingDirectory = fs.workingDirectory) (path : String) :
    fs'.find path = fs.find path := by
  have hgrows : Grows fs fs' := ⟨fun place e he => (hview place).trans he, hdirectory⟩
  have hshrinks : Grows fs' fs := ⟨fun place e he => (hview place).symm.trans he, hdirectory.symm⟩
  by_cases hfound : fs.find path = .error .notFound
  · by_cases hfound' : fs'.find path = .error .notFound
    · rw [hfound, hfound']
    · exact (find_grows hshrinks hfound').symm
  · exact find_grows hgrows hfound

theorem directory?_eq_some : fs.directory? path = some place ↔
    fs.find path = .ok (.directory place) := by
  unfold directory?
  split <;> simp_all

/-! ## Paths below a directory -/

theorem follow_append {through : Through} {trail : Trail} {closed : Bool} {r : Except IoError Found}
    (hthrough : ∀ here target rest closed', through here target rest closed' = .ok (.directory place) →
      through here target (rest ++ trail) closed = r)
    (hend : fs.follow through closed place trail = r) {closed' : Bool} {here : Place}
    {steps : List String} (h : fs.follow through closed' here steps = .ok (.directory place)) :
    fs.follow through closed here (steps ++ trail) = r := by
  fun_induction follow fs through closed' here steps with
  | case1 here =>
    cases h
    exact hend
  | case2 here rest ih =>
    rw [List.cons_append, follow, if_pos rfl]
    exact ih h
  | case3 here rest hhere ih =>
    rw [List.cons_append, follow, if_neg hhere, if_pos rfl]
    exact ih h
  | case5 here step rest hhere habove hlong next es hnext ih =>
    rw [List.cons_append, follow_name hhere habove hlong, hnext]
    exact ih h
  | case8 here step rest hhere habove hlong next target hnext =>
    rw [List.cons_append, follow_name hhere habove hlong, hnext]
    exact hthrough _ _ _ _ h
  | case4 | case6 | case7 | case9 | case10 => cases h

/-- Steps behind those that lead to a directory go on from there. -/
theorem followRoute_append {trail : Trail} (htrail : trail ≠ []) {closed : Bool}
    {r : Except IoError Found}
    (hend : ∀ through : Through, fs.follow through closed place trail = r) {links : Nat}
    {here : Place} {route : Route}
    (h : fs.followRoute links here route = .ok (.directory place)) :
    fs.followRoute links here ⟨route.absolute, route.steps ++ trail, closed⟩ = r := by
  induction links generalizing here route with
  | zero =>
    rw [followRoute] at h ⊢
    exact follow_append (fun _ _ _ _ ht => by cases ht) (hend _) h
  | succ links ih =>
    rw [followRoute] at h ⊢
    refine follow_append (fun here target rest closed' ht => ?_) (hend _) h
    have hnext := ih ht
    have hrest : (rest ++ trail).isEmpty = false := by simp [htrail]
    dsimp only
    rw [hrest, ← List.append_assoc]
    exact hnext

/-- Where there are no links, names lead to what is there, unless one of them is too long. -/
theorem exists_follow_eq {trail : Trail} {here : Place} {e : Entry} (closed : Bool)
    (hnames : ∀ name ∈ trail, Path.IsName name)
    (hlinks : ∀ lead target, lead <+: trail → fs.at? (here ++ lead) ≠ some (.link target))
    (he : fs.at? (here ++ trail) = some e) :
    ∃ r, (∀ through : Through, fs.follow through closed here trail = r) ∧ Conclusive r := by
  induction trail generalizing here with
  | nil => exact ⟨.ok (.directory here), fun _ => rfl, trivial⟩
  | cons name rest ih =>
    have hname := hnames name (by simp)
    by_cases hlong : nameLimit < name.utf8ByteSize
    · refine ⟨.error .nameTooLong, fun through => ?_, trivial⟩
      rw [follow]
      simp [hname.notHere, hname.notAbove, hlong]
    have hstep := fun through : Through => follow.eq_2 fs through closed here name rest
    simp only [hname.notHere, hname.notAbove, hlong, if_false] at hstep
    rw [List.append_cons] at he
    cases hplace : fs.at? (here ++ [name]) with
    | none =>
      rw [at?, Entry.at?_append] at he
      rw [at?] at hplace
      rw [hplace] at he
      cases he
    | some x =>
      simp only [hplace] at hstep
      cases x with
      | directory es =>
        obtain ⟨r, hr, hc⟩ := ih (fun n hn => hnames n (List.mem_cons_of_mem _ hn))
          (fun lead target hlead hlink => hlinks (name :: lead) target
            (List.cons_prefix_cons.2 ⟨rfl, hlead⟩) (by rwa [List.append_cons])) he
        exact ⟨r, fun through => (hstep through).trans (hr through), hc⟩
      | file content =>
        refine ⟨if rest.isEmpty then .ok (.file (here ++ [name]) content closed)
          else .error .notDirectory, hstep, ?_⟩
        split <;> trivial
      | link target => exact absurd hplace (hlinks [name] target (by simp))

/-! ## Routes of paths below a root -/

theorem getLast?_join_ne {trail : Trail} (hroot : root ≠ "") (hne : trail ≠ [])
    (hnames : ∀ name ∈ trail, Path.IsName name) :
    (Path.join root trail.text).toList.getLast? ≠ some '/' := by
  intro hlast
  obtain ⟨before, hbefore⟩ := List.getLast?_eq_some_iff.1 hlast
  obtain ⟨front, -, hpieces, -⟩ := Path.exists_pieces_join hroot trail.text
  rw [Trail.text, Text.pieces_joined hne fun name hname => (hnames name hname).noSlash] at hpieces
  rw [Trail.text] at hbefore
  rw [hbefore, Text.pieces_append_cons] at hpieces
  -- the last piece would be empty, and it is a name
  have hend := congrArg List.getLast? hpieces
  rw [List.getLast?_append, List.getLast?_append, List.getLast?_map,
    List.getLast?_eq_some_getLast hne] at hend
  have hempty : (trail.getLast hne).toList = [] := by simpa [Text.pieces] using hend.symm
  exact (hnames _ (List.getLast_mem hne)).notEmpty (String.toList_injective hempty)

theorem ofPath_join {trail : Trail} (hroot : root ≠ "") (hne : trail ≠ [])
    (hnames : ∀ name ∈ trail, Path.IsName name) :
    Route.ofPath (Path.join root trail.text) =
      ⟨(Route.ofPath root).absolute, (Route.ofPath root).steps ++ trail, false⟩ := by
  obtain ⟨front, -, hpieces, hcases⟩ := Path.exists_pieces_join hroot trail.text
  have hlast := getLast?_join_ne hroot hne hnames
  rw [Trail.text] at hlast hpieces ⊢
  rw [Text.pieces_joined hne fun name hname => (hnames name hname).noSlash] at hpieces
  have hroots : ((Text.pieces '/' root.toList).map String.ofList).filter (fun piece => piece ≠ "") =
      (front.map String.ofList).filter fun piece => piece ≠ "" := by
    rcases hcases with h | h
    · rw [h]
    · rw [h, List.map_append, List.filter_append]
      simp
  have hkeep : trail.filter (fun piece => piece ≠ "") = trail := by
    apply List.filter_eq_self.2
    intro name hname
    simpa using (hnames name hname).notEmpty
  have hback : (trail.map String.toList).map String.ofList = trail := by simp [Function.comp_def]
  unfold Route.ofPath
  simp only [Path.head?_join hroot, hpieces, List.map_append, List.filter_append, hroots, hback, hkeep,
    hlast, decide_false]

theorem unusable?_join {trail : Trail} (hroot : root ≠ "") :
    unusable? (Path.join root trail.text) ≠ some .notFound := by
  have hne : Path.join root trail.text ≠ "" := by
    intro hempty
    have hhead := Path.head?_join hroot trail.text
    rw [hempty] at hhead
    exact hroot (String.toList_injective (List.head?_eq_none_iff.1 hhead.symm))
  unfold unusable?
  rw [if_neg hne]
  split_ifs <;> simp

/-- What is below a directory is not missed on the path that names it. -/
theorem find_below {trail : Trail} {e : Entry} (hroot : fs.directory? root = some place)
    (hne : trail ≠ []) (hnames : ∀ name ∈ trail, Path.IsName name)
    (hlinks : ∀ lead target, lead <+: trail → fs.at? (place ++ lead) ≠ some (.link target))
    (he : fs.at? (place ++ trail) = some e) :
    fs.find (Path.join root trail.text) ≠ .error .notFound := by
  have hfind := directory?_eq_some.1 hroot
  have hempty : root ≠ "" := by
    rintro rfl
    cases hfind
  have husable : unusable? root = none := by
    cases h : unusable? root with
    | none => rfl
    | some e => simp [find, lookup, h] at hfind
  have hfollow : fs.followRoute linkLimit fs.workingDirectory (Route.ofPath root) =
      .ok (.directory place) := by
    rw [find, lookup, husable] at hfind
    dsimp only at hfind
    split at hfind <;> simp_all
  obtain ⟨r, hr, hc⟩ := exists_follow_eq false hnames hlinks he
  have hpath := followRoute_append hne hr hfollow
  rw [← ofPath_join hempty hne hnames] at hpath
  unfold find lookup
  cases hjoin : unusable? (Path.join root trail.text) with
  | some reason =>
    have hreason := @unusable?_join root trail hempty
    rw [hjoin] at hreason
    simpa using hreason
  | none =>
    dsimp only
    rw [hpath]
    cases r with
    | error reason =>
      rintro h
      cases h
      exact hc
    | ok found =>
      cases found with
      | directory place => simp
      | file place content closed => cases closed <;> simp
      | absent place closed => exact absurd hc id

end FileSystem

end TreeOutline
