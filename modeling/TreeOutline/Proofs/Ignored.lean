import TreeOutline.Proofs.Lookups
import TreeOutline.Proofs.Pool
import TreeOutline.Proofs.TreeFiles

/-!
New entries that a scan leaves out. Where no links are followed, such an entry changes nothing, be it
a file, a link or a directory with whatever is in it. A walk that follows links follows one before it
looks at its name; so a link with an ignored name, in a directory that the walk is in, can end the
scan (`Walk.Fault`). That is all that it can do.
-/

namespace TreeOutline

open Scanner (outlineFile outlineFiles)

namespace Scanner

variable {scanner : Scanner} {fs fs' : FileSystem} {root name : String} {place : Place}
  {inner trail : Trail} {new : Entry}

/-- A new entry in a directory below the root, where there are no links so far. One of the names
that lead to it is ignored. -/
structure AddsIgnored (scanner : Scanner) (fs fs' : FileSystem) (root : String) (place : Place)
    (inner : Trail) (name : String) (new : Entry) : Prop where
  wellNamed : fs.WellNamed
  root : fs.directory? root = some place
  noLinks : ∀ trail target, fs.at? (place ++ trail) ≠ some (.link target)
  inside : ∃ es, fs.at? (place ++ inner) = some (.directory es)
  absent : fs.at? (place ++ (inner ++ [name])) = none
  put : fs' = fs.put (place ++ (inner ++ [name])) new
  ignored : ∃ lead, lead ≠ [] ∧ lead <+: inner ++ [name] ∧
    scanner.ignore.ignores (Trail.text lead) = true

/-- The walk of a scan comes to the new entry and follows it. -/
structure Follows (scanner : Scanner) (inner : Trail) (new : Entry) : Prop where
  followLinks : scanner.settings.followLinks = true
  link : ∃ target, new = .link target
  passes : scanner.Passes inner

/-! ## What changes -/

theorem AddsIgnored.view_eq (h : scanner.AddsIgnored fs fs' root place inner name new)
    {other : Place} (hother : ¬ (place ++ (inner ++ [name])) <+: other) :
    fs'.view other = fs.view other := by
  obtain ⟨es, hes⟩ := h.inside
  rw [← List.append_assoc] at hother
  rw [h.put, ← List.append_assoc]
  exact FileSystem.view_put hes hother

theorem AddsIgnored.grows (h : scanner.AddsIgnored fs fs' root place inner name new) :
    fs.Grows fs' := by
  refine ⟨fun other e he => ?_, by rw [h.put]; rfl⟩
  by_cases hother : (place ++ (inner ++ [name])) <+: other
  · obtain ⟨rest, rfl⟩ := hother
    have habsent := h.absent
    rw [FileSystem.at?] at habsent
    rw [FileSystem.view, FileSystem.at?, Entry.at?_append, habsent] at he
    cases he
  · exact (h.view_eq hother).trans he

theorem AddsIgnored.view_append (h : scanner.AddsIgnored fs fs' root place inner name new)
    (htrail : ¬ (inner ++ [name]) <+: trail) :
    fs'.view (place ++ trail) = fs.view (place ++ trail) := by
  apply h.view_eq
  rwa [List.prefix_append_right_inj]

theorem AddsIgnored.not_passes (h : scanner.AddsIgnored fs fs' root place inner name new)
    (htrail : (inner ++ [name]) <+: trail) : ¬ scanner.Passes trail := by
  intro hpasses
  obtain ⟨lead, hne, hlead, hignored⟩ := h.ignored
  rw [hpasses lead hne (hlead.trans htrail)] at hignored
  cases hignored

theorem AddsIgnored.meets_iff (h : scanner.AddsIgnored fs fs' root place inner name new) :
    scanner.Meets fs' place trail ↔ scanner.Meets fs place trail := by
  by_cases htrail : (inner ++ [name]) <+: trail
  · have hnot := h.not_passes htrail
    exact ⟨fun hmeets => absurd hmeets.passes hnot, fun hmeets => absurd hmeets.passes hnot⟩
  · exact meets_of_view_eq (h.view_append htrail)

/-! ## Links -/

theorem AddsIgnored.at?_append (h : scanner.AddsIgnored fs fs' root place inner name new)
    (way : Place) : fs'.at? (place ++ (inner ++ [name] ++ way)) = new.at? way := by
  have hne : place ++ (inner ++ [name]) ≠ [] := by simp
  rw [h.put, ← List.append_assoc place (inner ++ [name]) way]
  exact FileSystem.at?_put_append hne

/-- All links below the root are from the new entry down. -/
theorem AddsIgnored.prefix_of_link (h : scanner.AddsIgnored fs fs' root place inner name new)
    {target : String} (hlink : fs'.at? (place ++ trail) = some (.link target)) :
    (inner ++ [name]) <+: trail := by
  by_contra htrail
  rw [FileSystem.at?_eq_link, h.view_append htrail, ← FileSystem.at?_eq_link] at hlink
  exact h.noLinks trail target hlink

/-- The only link that a walk can come to is the new entry itself. -/
theorem AddsIgnored.eq_of_link (h : scanner.AddsIgnored fs fs' root place inner name new)
    {target : String} (hlink : fs'.at? (place ++ trail) = some (.link target))
    (hkept : ∀ lead, lead ≠ [] → lead <+: trail → lead ≠ trail →
      scanner.ignore.ignores (Trail.text lead) = false) :
    trail = inner ++ [name] ∧ scanner.ignore.ignores (Trail.text trail) = true ∧
      (∃ target, new = .link target) ∧ scanner.Passes inner := by
  have htrail := h.prefix_of_link hlink
  obtain ⟨lead, hne, hlead, hignored⟩ := h.ignored
  obtain rfl : lead = trail := by
    by_contra hproper
    rw [hkept lead hne (hlead.trans htrail) hproper] at hignored
    cases hignored
  obtain rfl := hlead.eq_of_length_le htrail.length_le
  refine ⟨rfl, hignored, ⟨target, ?_⟩, ?_⟩
  · have hnew := h.at?_append []
    rw [List.append_nil, hlink] at hnew
    exact (Option.some.inj hnew).symm
  · intro lead hne hlead
    apply hkept lead hne (hlead.trans (List.prefix_append _ _))
    rintro rfl
    have hlength := hlead.length_le
    rw [List.length_append, List.length_singleton] at hlength
    omega

theorem AddsIgnored.quiet (h : scanner.AddsIgnored fs fs' root place inner name new) :
    scanner.Quiet fs root place :=
  fun trail target _ hlink => absurd hlink (h.noLinks trail target)

/-- The new entry does not end the walk, if following it does not. -/
theorem AddsIgnored.quiet_of_no_fault (h : scanner.AddsIgnored fs fs' root place inner name new)
    (hfault : scanner.Follows inner new →
      ∀ err, ¬ (scanner.walk fs' root).Fault place (inner ++ [name]) err) :
    scanner.Quiet fs' root place := by
  intro trail target hne hlink hkept hfollow
  obtain ⟨rfl, hignored, hnew, hpasses⟩ := h.eq_of_link hlink hkept
  apply Walk.firstHop_eq_ok
  · simp [walk, hignored]
  · exact hfault ⟨hfollow, hnew, hpasses⟩

theorem AddsIgnored.treeFiles_eq (h : scanner.AddsIgnored fs fs' root place inner name new)
    (hfault : scanner.Follows inner new →
      ∀ err, ¬ (scanner.walk fs' root).Fault place (inner ++ [name]) err) :
    scanner.treeFiles fs' root place = scanner.treeFiles fs root place :=
  treeFiles_congr (files_walk_congr h.quiet (h.quiet_of_no_fault hfault) fun _ => h.meets_iff)

theorem AddsIgnored.treeFiles_eq_error (h : scanner.AddsIgnored fs fs' root place inner name new)
    (hfollows : scanner.Follows inner new) {err : WalkError}
    (hfault : (scanner.walk fs' root).Fault place (inner ++ [name]) err) :
    scanner.treeFiles fs' root place = .error (.walk err) := by
  obtain ⟨target, rfl⟩ := hfollows.link
  have hview (other : Place) : (scanner.walk fs' root).fs.view other = fs'.view other :=
    FileSystem.view_sorted fs' other
  have hlink : (scanner.walk fs' root).fs.at? (place ++ (inner ++ [name])) = some (.link target) := by
    have hnew := h.at?_append []
    rw [List.append_nil] at hnew
    rw [FileSystem.at?_eq_link, hview, ← FileSystem.at?_eq_link, hnew]
    rfl
  have hfiles : (scanner.walk fs' root).files place = .error err := by
    apply Walk.files_eq_error (ordered_walk scanner fs' root) (by simp) hlink _ _
      hfollows.followLinks hfault
    · -- nothing is below a link
      intro other target' hother
      rw [FileSystem.at?_eq_link, hview, ← FileSystem.at?_eq_link] at hother
      obtain ⟨way, rfl⟩ := h.prefix_of_link hother
      rw [h.at?_append way] at hother
      cases way with
      | nil => rw [List.append_nil]
      | cons name way => cases hother
    · intro lead hne hlead hproper
      have hinner : lead <+: inner := by
        rcases List.prefix_concat_iff.1 hlead with heq | hinner
        · exact absurd heq hproper
        · exact hinner
      simp [walk, hfollows.passes lead hne hinner]
  unfold treeFiles
  simp only [hfiles]

/-! ## Files -/

theorem outlineFile_congr {s : Settings} {path : String} (h : fs'.find path = fs.find path)
    (hsizes : fs'.directorySize = fs.directorySize) :
    outlineFile s fs' path = outlineFile s fs path := by
  unfold outlineFile Module.load FileSystem.size FileSystem.readText
  rw [h, hsizes]

theorem AddsIgnored.directory?_eq (h : scanner.AddsIgnored fs fs' root place inner name new) :
    fs'.directory? root = some place := by
  have hroot := h.root
  rw [FileSystem.directory?_eq_some] at hroot ⊢
  rw [FileSystem.find_grows h.grows (by rw [hroot]; simp), hroot]

/-- The files that a scan finds do not notice the new entry. -/
theorem AddsIgnored.agree (h : scanner.AddsIgnored fs fs' root place inner name new)
    {paths : List String} (hpaths : scanner.treeFiles fs root place = .ok paths) :
    ∀ path ∈ paths, outlineFile scanner.settings fs' path = outlineFile scanner.settings fs path := by
  intro path hpath
  obtain ⟨trails, hok, hmem, -⟩ := exists_treeFiles h.quiet
  obtain rfl := Except.ok.inj (hpaths.symm.trans hok)
  obtain ⟨trail, htrail, rfl⟩ := List.mem_map.1 (List.mem_of_mem_filter hpath)
  obtain ⟨hne, ⟨content, hfile⟩, -⟩ := (hmem trail).1 htrail
  have hfound := FileSystem.find_below h.root hne (isName_of_at? h.wellNamed hfile)
    (fun lead target _ => h.noLinks lead target) hfile
  refine outlineFile_congr (FileSystem.find_grows h.grows hfound) ?_
  rw [h.put]
  rfl

theorem Scans.of_agree {result : Except ScanError (List Report)}
    (h : scanner.Scans fs root result) (hroot : fs.directory? root = some place)
    (hroot' : fs'.directory? root = some place)
    (hfiles : scanner.treeFiles fs' root place = scanner.treeFiles fs root place)
    (hagree : ∀ paths, scanner.treeFiles fs root place = .ok paths → ∀ path ∈ paths,
      outlineFile scanner.settings fs' path = outlineFile scanner.settings fs path) :
    scanner.Scans fs' root result := by
  cases h with
  | file hnone => cases hroot.symm.trans hnone
  | lost hplace h =>
    cases hroot.symm.trans hplace
    exact .lost hroot' (hfiles.trans h)
  | walked hplace h hresult =>
    cases hroot.symm.trans hplace
    exact .walked hroot' (hfiles.trans h) (hresult.of_agree (hagree _ h))

/-- A new entry with an ignored name, or in an ignored directory, changes nothing, unless a walk that
follows links comes to it, and it is a link that leads nowhere or to a directory that the walk is in.
Then the scan ends with an error that names it. -/
theorem scans_of_addsIgnored (h : scanner.AddsIgnored fs fs' root place inner name new) :
    ((scanner.Follows inner new →
        ∀ err, ¬ (scanner.walk fs' root).Fault place (inner ++ [name]) err) →
      scanner.reports fs' root = scanner.reports fs root ∧
        ∀ result, scanner.Scans fs' root result ↔ scanner.Scans fs root result) ∧
    (scanner.Follows inner new →
      ∀ err, (scanner.walk fs' root).Fault place (inner ++ [name]) err →
        scanner.reports fs' root = .error (.walk err) ∧
          ∀ result, scanner.Scans fs' root result ↔ result = .error (.walk err)) := by
  have hroot' := h.directory?_eq
  refine ⟨fun hfault => ?_, fun hfollows err hfault => ?_⟩
  · have hfiles := h.treeFiles_eq hfault
    refine ⟨?_, fun result => ⟨fun hscans => ?_, fun hscans => ?_⟩⟩
    · cases hpaths : scanner.treeFiles fs root place with
      | error e => rw [reports_of_lost h.root hpaths, reports_of_lost hroot' (hfiles.trans hpaths)]
      | ok paths =>
        rw [reports_of_walked h.root hpaths, reports_of_walked hroot' (hfiles.trans hpaths)]
        exact outlineFiles_of_agree (h.agree hpaths)
    · apply hscans.of_agree hroot' h.root hfiles.symm
      intro paths hpaths path hpath
      exact (h.agree (hfiles.symm.trans hpaths) path hpath).symm
    · exact hscans.of_agree h.root hroot' hfiles fun paths hpaths => h.agree hpaths
  · have herror := h.treeFiles_eq_error hfollows hfault
    exact ⟨reports_of_lost hroot' herror, fun result => scans_iff_of_lost hroot' herror⟩

def linkScanner : Scanner :=
  ⟨{ Settings.standard 1 with followLinks := true }, ⟨false, [], Ignore.storeTokens⟩⟩

def oneFile : FileSystem :=
  ⟨[("p", .directory [("a.json", .file "{}".toUTF8)])], [], fun _ => 4096⟩

theorem addsIgnored_oneFile (new : Entry) :
    linkScanner.AddsIgnored oneFile (oneFile.put ["p", ".x"] new) "p" ["p"] [] ".x" new where
  wellNamed := by
    refine Entry.named_directory ?_
    simp only [oneFile, List.mem_singleton, forall_eq]
    refine ⟨⟨by decide, by decide, by decide, by decide⟩, Entry.named_directory ?_⟩
    simp only [List.mem_singleton, forall_eq]
    exact ⟨⟨by decide, by decide, by decide, by decide⟩, Entry.named_file _⟩
  root := rfl
  noLinks := by
    intro trail target h
    cases trail with
    | nil => cases h
    | cons name rest =>
      obtain ⟨es, child, hes, hchild, h⟩ := @Entry.at?_cons_of_isSome name rest
        (.directory [("a.json", .file "{}".toUTF8)]) _ h
      cases hes
      obtain ⟨-, rfl⟩ : name = "a.json" ∧ child = .file "{}".toUTF8 := by
        simpa using Keyed.mem_of_lookup hchild
      cases rest <;> cases h
  inside := ⟨_, rfl⟩
  absent := rfl
  put := rfl
  ignored := ⟨[".x"], by simp, by simp, rfl⟩

/-- A hidden link that leads nowhere ends a scan that goes well without it. -/
theorem reports_danglingLink :
    linkScanner.AddsIgnored oneFile (oneFile.put ["p", ".x"] (.link "gone")) "p" ["p"] [] ".x"
      (.link "gone") ∧
    linkScanner.reports oneFile "p" = .ok [⟨"p/a.json", "p.a", [], []⟩] ∧
    linkScanner.reports (oneFile.put ["p", ".x"] (.link "gone")) "p" =
      .error (.walk (.unusable "p/.x" .notFound)) ∧
    linkScanner.reports (oneFile.put ["p", ".x"] (.link "gone")) "p" ≠
      linkScanner.reports oneFile "p" := by
  have hfiles : linkScanner.treeFiles oneFile "p" ["p"] = .ok ["p/a.json"] := rfl
  have hread : outlineFile linkScanner.settings oneFile "p/a.json" =
      .ok ⟨"p/a.json", "p.a", [], []⟩ := outlineFile_empty rfl (by decide)
  have hwithout : linkScanner.reports oneFile "p" = .ok [⟨"p/a.json", "p.a", [], []⟩] := by
    rw [reports_of_walked rfl hfiles, outlineFiles, hread]
    rfl
  have hwith : linkScanner.reports (oneFile.put ["p", ".x"] (.link "gone")) "p" =
      .error (.walk (.unusable "p/.x" .notFound)) := rfl
  refine ⟨addsIgnored_oneFile _, hwithout, hwith, ?_⟩
  rw [hwithout, hwith]
  simp

/-- A hidden link to a file does not show, and one to the directory that it is in does. -/
theorem scans_hiddenLinks :
    (linkScanner.AddsIgnored oneFile (oneFile.put ["p", ".x"] (.link "a.json")) "p" ["p"] [] ".x"
        (.link "a.json") ∧
      (linkScanner.Follows [] (.link "a.json") → ∀ err,
        ¬ (linkScanner.walk (oneFile.put ["p", ".x"] (.link "a.json")) "p").Fault ["p"] [".x"] err) ∧
      linkScanner.reports (oneFile.put ["p", ".x"] (.link "a.json")) "p" =
        linkScanner.reports oneFile "p") ∧
    linkScanner.AddsIgnored oneFile (oneFile.put ["p", ".x"] (.link ".")) "p" ["p"] [] ".x"
        (.link ".") ∧
      linkScanner.Follows [] (.link ".") ∧
      (linkScanner.walk (oneFile.put ["p", ".x"] (.link ".")) "p").Fault ["p"] [".x"]
        (.loop "p/.x" "p") ∧
      linkScanner.reports (oneFile.put ["p", ".x"] (.link ".")) "p" =
        .error (.walk (.loop "p/.x" "p")) := by
  have hfile : (linkScanner.walk (oneFile.put ["p", ".x"] (.link "a.json")) "p").fs.find "p/.x" =
      .ok (.file "{}".toUTF8) := rfl
  have hnofault : linkScanner.Follows [] (.link "a.json") → ∀ err,
      ¬ (linkScanner.walk (oneFile.put ["p", ".x"] (.link "a.json")) "p").Fault ["p"] [".x"] err := by
    rintro - err (h | ⟨-, h⟩)
    · cases hfile.symm.trans h
    · cases hfile.symm.trans h
  have hfollows : linkScanner.Follows [] (.link ".") := by
    refine ⟨rfl, ⟨".", rfl⟩, fun lead hne hlead => ?_⟩
    exact absurd (List.prefix_nil.1 hlead) hne
  have hfault : (linkScanner.walk (oneFile.put ["p", ".x"] (.link ".")) "p").Fault ["p"] [".x"]
      (.loop "p/.x" "p") :=
    @Walk.Fault.loop _ ["p"] [".x"] [] List.nil_prefix rfl
  have hsame := (scans_of_addsIgnored (addsIgnored_oneFile (.link "a.json"))).1 hnofault
  have herror := (scans_of_addsIgnored (addsIgnored_oneFile (.link "."))).2 hfollows _ hfault
  exact ⟨⟨addsIgnored_oneFile _, hnofault, hsame.1⟩, addsIgnored_oneFile _, hfollows, hfault, herror.1⟩

end Scanner

end TreeOutline
