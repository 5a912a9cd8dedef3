import Mathlib.Data.List.Sort
import TreeOutline.Proofs.Lookups
import TreeOutline.Proofs.Walk

/-!
Which files a scan takes. Without links it takes each file below the root that has the name of a
tree file and no ignored name on its trail, and takes them by the order of their paths. The order in
which directories list their entries does not matter. The order of the paths is kept through links too.
-/

namespace TreeOutline

/-- Every name below an entry is one that a path can write. -/
def Entry.Named (e : Entry) : Prop :=
  ∀ place x, e.at? place = some x → ∀ name ∈ place, Path.IsName name

theorem Entry.named_file (content : ByteArray) : (Entry.file content).Named := by
  intro place x h
  cases place with
  | nil => simp
  | cons name rest => cases h

theorem Entry.named_link (target : String) : (Entry.link target).Named := by
  intro place x h
  cases place with
  | nil => simp
  | cons name rest => cases h

theorem Entry.named_directory {es : List (String × Entry)}
    (h : ∀ entry ∈ es, Path.IsName entry.1 ∧ entry.2.Named) : (Entry.directory es).Named := by
  intro place x hx name hname
  cases place with
  | nil => cases hname
  | cons first rest =>
    obtain ⟨es', child, hes, hchild, hx⟩ := Entry.at?_cons_of_isSome hx
    cases hes
    obtain ⟨hfirst, hnamed⟩ := h _ (Keyed.mem_of_lookup hchild)
    rcases List.mem_cons.1 hname with rfl | hname
    · exact hfirst
    · exact hnamed rest x hx name hname

/-- Every entry has a name that a path can write. -/
def FileSystem.WellNamed (fs : FileSystem) : Prop :=
  fs.top.Named

namespace Scanner

variable {scanner : Scanner} {fs fs' : FileSystem} {root : String} {place : Place} {trail : Trail}

/-- Neither the last name of a trail is ignored, nor any above it. -/
def Passes (scanner : Scanner) (trail : Trail) : Prop :=
  ∀ lead, lead ≠ [] → lead <+: trail → scanner.ignore.ignores (Trail.text lead) = false

/-- The trail of a file that a scan goes by. -/
structure Meets (scanner : Scanner) (fs : FileSystem) (place : Place) (trail : Trail) : Prop where
  notRoot : trail ≠ []
  file : ∃ content, fs.at? (place ++ trail) = some (.file content)
  passes : scanner.Passes trail

/-! ## The walk of a scan -/

theorem ordered_walk (scanner : Scanner) (fs : FileSystem) (root : String) :
    (scanner.walk fs root).fs.top.Ordered := by
  rw [walk, FileSystem.top_sorted]
  exact Entry.ordered_sorted fs.top

theorem reaches_walk : (scanner.walk fs root).Reaches place trail ↔ scanner.Meets fs place trail := by
  have hfile (content : ByteArray) : fs.sorted.at? (place ++ trail) = some (.file content) ↔
      fs.at? (place ++ trail) = some (.file content) := by
    rw [FileSystem.at?_eq_file, FileSystem.at?_eq_file, FileSystem.view_sorted]
  have hkeeps (text : String) : (scanner.walk fs root).keeps text = true ↔
      scanner.ignore.ignores text = false := by
    simp [walk]
  constructor
  · rintro ⟨hne, ⟨content, hcontent⟩, hkept⟩
    refine ⟨hne, ⟨content, (hfile content).1 hcontent⟩, ?_⟩
    intro lead hlne hlead
    exact (hkeeps _).1 (hkept lead hlne hlead)
  · rintro ⟨hne, ⟨content, hcontent⟩, hpasses⟩
    refine ⟨hne, ⟨content, (hfile content).2 hcontent⟩, ?_⟩
    intro lead hlne hlead
    exact (hkeeps _).2 (hpasses lead hlne hlead)

/-- The links that a scan comes to, if it follows links, lead to nothing that counts. -/
def Quiet (scanner : Scanner) (fs : FileSystem) (root : String) (place : Place) : Prop :=
  ∀ trail target, trail ≠ [] → fs.at? (place ++ trail) = some (.link target) →
    (∀ lead, lead ≠ [] → lead <+: trail → lead ≠ trail →
      scanner.ignore.ignores (Trail.text lead) = false) →
    scanner.settings.followLinks = true →
    (scanner.walk fs root).firstHop trail (Walk.entered place trail.dropLast) = .ok []

theorem files_walk (h : scanner.Quiet fs root place) :
    ∃ trails, (scanner.walk fs root).files place = .ok trails ∧
      (∀ t, t ∈ trails ↔ scanner.Meets fs place t) ∧ trails.Pairwise (· < ·) := by
  obtain ⟨trails, htrails, hmem, hsorted⟩ := Walk.files_eq_ok (ordered_walk scanner fs root)
    (fun trail target hne hlink hkept hfollow => by
      refine h trail target hne ?_ (fun lead hlne hlead hproper => ?_) hfollow
      · rw [FileSystem.at?_eq_link, ← FileSystem.view_sorted]
        exact FileSystem.at?_eq_link.1 hlink
      · simpa [walk] using hkept lead hlne hlead hproper)
  exact ⟨trails, htrails, fun t => (hmem t).trans reaches_walk, hsorted⟩

/-- What a scan meets determines its files. -/
theorem files_walk_congr {scanner' : Scanner} (h : scanner.Quiet fs root place)
    (h' : scanner'.Quiet fs' root place)
    (hmeets : ∀ t, scanner'.Meets fs' place t ↔ scanner.Meets fs place t) :
    (scanner'.walk fs' root).files place = (scanner.walk fs root).files place := by
  obtain ⟨trails, htrails, hmem, hsorted⟩ := files_walk h
  obtain ⟨trails', htrails', hmem', hsorted'⟩ := files_walk h'
  have heq : trails' = trails := List.Pairwise.eq_of_mem_iff hsorted' hsorted fun t => by
    rw [hmem', hmem, hmeets]
  rw [htrails', htrails, heq]

theorem treeFiles_congr (hfiles : (scanner.walk fs' root).files place =
    (scanner.walk fs root).files place) :
    scanner.treeFiles fs' root place = scanner.treeFiles fs root place := by
  have hpath : (scanner.walk fs' root).path = (scanner.walk fs root).path := rfl
  unfold treeFiles
  simp only [hfiles, hpath]

/-! ## The files of a scan -/

/-- The trail of a file that a scan takes. -/
structure Takes (scanner : Scanner) (fs : FileSystem) (place : Place) (trail : Trail) : Prop where
  file : ∃ content, fs.at? (place ++ trail) = some (.file content)
  name : ∃ name, trail.getLast? = some name ∧ Path.IsTreeName name
  passes : scanner.Passes trail

theorem isName_of_at? {e : Entry} (hfs : fs.WellNamed) (h : fs.at? (place ++ trail) = some e) :
    ∀ name ∈ trail, Path.IsName name :=
  fun name hname => hfs _ _ h name (List.mem_append_right _ hname)

theorem ne_empty_of_directory? (hroot : fs.directory? root = some place) : root ≠ "" := by
  rintro rfl
  cases hroot

theorem meets_and_isTreeFile (hfs : fs.WellNamed) (hroot : root ≠ "") :
    scanner.Meets fs place trail ∧ Path.isTreeFile (Path.join root trail.text) = true ↔
      scanner.Takes fs place trail := by
  refine ⟨fun h => ?_, fun h => ?_⟩
  · obtain ⟨⟨hne, ⟨content, hfile⟩, hpasses⟩, htree⟩ := h
    have hname := (Path.isTreeFile_join hroot hne (isName_of_at? hfs hfile)).1 htree
    exact ⟨⟨content, hfile⟩, ⟨_, List.getLast?_eq_some_getLast hne, hname⟩, hpasses⟩
  · obtain ⟨⟨content, hfile⟩, ⟨name, hlast, hname⟩, hpasses⟩ := h
    have hne : trail ≠ [] := by
      rintro rfl
      cases hlast
    rw [List.getLast?_eq_some_getLast hne] at hlast
    cases hlast
    exact ⟨⟨hne, ⟨content, hfile⟩, hpasses⟩,
      (Path.isTreeFile_join hroot hne (isName_of_at? hfs hfile)).2 hname⟩

/-- The paths of trails below a root that have the name of a tree file. -/
def treePaths (root : String) (trails : List Trail) : List String :=
  (trails.map fun trail => Path.join root trail.text).filter Path.isTreeFile

theorem path_walk (hne : trail ≠ []) :
    (scanner.walk fs root).path trail = Path.join root trail.text := by
  simp [Walk.path, hne, walk]

theorem exists_treeFiles (h : scanner.Quiet fs root place) :
    ∃ trails, scanner.treeFiles fs root place = .ok (treePaths root trails) ∧
      (∀ t, t ∈ trails ↔ scanner.Meets fs place t) ∧ trails.Pairwise (· < ·) := by
  obtain ⟨trails, htrails, hmem, hsorted⟩ := files_walk h
  refine ⟨trails, ?_, hmem, hsorted⟩
  have hpath : trails.map (scanner.walk fs root).path = trails.map fun t => Path.join root t.text := by
    apply List.map_congr_left
    intro t ht
    exact path_walk ((hmem t).1 ht).notRoot
  unfold treeFiles treePaths
  simp only [htrails, hpath]

/-- Paths below one root are ordered as their trails are. -/
theorem components_lt {t u : Trail} (hroot : root ≠ "") (ht : t ≠ []) (hu : u ≠ [])
    (htn : ∀ name ∈ t, Path.IsName name) (hun : ∀ name ∈ u, Path.IsName name) (h : t < u) :
    Path.components (Path.join root t.text) < Path.components (Path.join root u.text) := by
  rw [Trail.text, Trail.text, Path.components_join hroot ht htn, Path.components_join hroot hu hun]
  exact List.append_left_lt h

/-- The files of a scan are in the order of their paths, be links followed or not. -/
theorem pairwise_treeFiles (hfs : fs.WellNamed) (hroot : root ≠ "") {paths : List String}
    (h : scanner.treeFiles fs root place = .ok paths) :
    paths.Pairwise fun p q => Path.components p < Path.components q := by
  rw [treeFiles] at h
  cases hfiles : (scanner.walk fs root).files place with
  | error e =>
    rw [hfiles] at h
    cases h
  | ok trails =>
    rw [hfiles] at h
    cases h
    have hnames : (scanner.walk fs root).fs.top.AllNames Path.IsName := by
      rw [walk, FileSystem.top_sorted]
      exact Entry.AllNames.sorted hfs
    obtain ⟨hascends, hne⟩ := Walk.files_ascends (ordered_walk scanner fs root) hnames hfiles
    have hisName : ∀ t ∈ trails, ∀ name ∈ t, Path.IsName name := by
      intro t ht
      obtain ⟨way, rfl, hway⟩ := hascends.leads t ht
      exact hway
    apply List.Pairwise.filter
    rw [List.pairwise_map]
    apply hascends.sorted.imp_of_mem
    intro t u ht hu hlt
    rw [path_walk (hne t ht), path_walk (hne u hu)]
    exact components_lt hroot (hne t ht) (hne u hu) (hisName t ht) (hisName u hu) hlt

/-- Sorting the files of a scan by their paths changes nothing. -/
theorem mergeSort_treeFiles (hfs : fs.WellNamed) (hroot : root ≠ "") {paths : List String}
    (h : scanner.treeFiles fs root place = .ok paths) :
    paths.mergeSort (fun p q => ¬ Path.components q < Path.components p) = paths := by
  apply List.mergeSort_of_pairwise
  apply (pairwise_treeFiles hfs hroot h).imp
  intro p q hlt
  exact decide_eq_true (List.lt_asymm hlt)

theorem trail_eq_of_path_eq {t u : Trail} (hroot : root ≠ "") (ht : t ≠ []) (hu : u ≠ [])
    (htn : ∀ name ∈ t, Path.IsName name) (hun : ∀ name ∈ u, Path.IsName name)
    (h : Path.join root t.text = Path.join root u.text) : t = u := by
  have hcomponents := congrArg Path.components h
  rw [Trail.text, Trail.text, Path.components_join hroot ht htn,
    Path.components_join hroot hu hun] at hcomponents
  exact List.append_cancel_left hcomponents

theorem meets_of_view_eq (hview : fs'.view (place ++ trail) = fs.view (place ++ trail)) :
    scanner.Meets fs' place trail ↔ scanner.Meets fs place trail := by
  have hfile (content : ByteArray) : fs'.at? (place ++ trail) = some (.file content) ↔
      fs.at? (place ++ trail) = some (.file content) := by
    rw [FileSystem.at?_eq_file, FileSystem.at?_eq_file, hview]
  constructor
  · rintro ⟨hne, ⟨content, hcontent⟩, hpasses⟩
    exact ⟨hne, ⟨content, (hfile content).1 hcontent⟩, hpasses⟩
  · rintro ⟨hne, ⟨content, hcontent⟩, hpasses⟩
    exact ⟨hne, ⟨content, (hfile content).2 hcontent⟩, hpasses⟩

section Paths

variable {trails : List Trail} {path : String} (hroot : root ≠ "")
  (hmem : ∀ t, t ∈ trails ↔ scanner.Meets fs place t)

include hroot hmem

theorem mem_treePaths (hfs : fs.WellNamed) : path ∈ treePaths root trails ↔
    ∃ trail, scanner.Takes fs place trail ∧ path = Path.join root (Trail.text trail) := by
  simp only [treePaths, List.mem_filter, List.mem_map]
  constructor
  · rintro ⟨⟨t, ht, rfl⟩, htree⟩
    exact ⟨t, (meets_and_isTreeFile hfs hroot).1 ⟨(hmem t).1 ht, htree⟩, rfl⟩
  · rintro ⟨t, htakes, rfl⟩
    obtain ⟨hmeets, htree⟩ := (meets_and_isTreeFile hfs hroot).2 htakes
    exact ⟨⟨t, (hmem t).2 hmeets, rfl⟩, htree⟩

theorem notMem_treePaths (hfs : fs.WellNamed) {e : Entry} (hne : trail ≠ [])
    (he : fs.at? (place ++ trail) = some e) (hother : ∀ content, e ≠ .file content) :
    Path.join root trail.text ∉ treePaths root trails := by
  intro hpath
  obtain ⟨t, htakes, heq⟩ := (mem_treePaths hroot hmem hfs).1 hpath
  obtain ⟨⟨htne, ⟨content, hfile⟩, -⟩, -⟩ := (meets_and_isTreeFile hfs hroot).2 htakes
  obtain rfl := trail_eq_of_path_eq hroot hne htne (isName_of_at? hfs he) (isName_of_at? hfs hfile) heq
  exact hother content (Option.some.inj (he.symm.trans hfile))

end Paths

/-- A scan that follows no links succeeds in finding its files: those that count, each once, in the
order of their paths, however the directories list their entries. -/
theorem treeFiles_exact (hfs : fs.WellNamed) (hfollow : scanner.settings.followLinks = false)
    (hroot : fs.directory? root = some place) :
    ∃ paths, scanner.treeFiles fs root place = .ok paths ∧
      (∀ path, path ∈ paths ↔
        ∃ trail, scanner.Takes fs place trail ∧ path = Path.join root (Trail.text trail)) ∧
      paths.Pairwise (fun p q => Path.components p < Path.components q) ∧
      (∀ trail e, trail ≠ [] → fs.at? (place ++ trail) = some e → (∀ content, e ≠ .file content) →
        Path.join root (Trail.text trail) ∉ paths) ∧
      ∀ fs', fs.Reordered fs' →
        fs'.directory? root = some place ∧ scanner.treeFiles fs' root place = .ok paths := by
  have hquiet (fs : FileSystem) : scanner.Quiet fs root place := by
    intro trail target _ _ _ hon
    rw [hfollow] at hon
    cases hon
  have hempty := ne_empty_of_directory? hroot
  obtain ⟨trails, hok, hmem, -⟩ := exists_treeFiles (hquiet fs)
  refine ⟨treePaths root trails, hok, fun path => mem_treePaths hempty hmem hfs,
    pairwise_treeFiles hfs hempty hok, ?_, ?_⟩
  · intro trail e hne he hfile
    exact notMem_treePaths hempty hmem hfs hne he hfile
  · intro fs' hreordered
    have hview := hreordered.view
    constructor
    · rw [FileSystem.directory?_eq_some] at hroot ⊢
      rw [FileSystem.find_congr hview hreordered.workingDirectory, hroot]
    · rw [← hok]
      apply treeFiles_congr
      apply files_walk_congr (hquiet fs) (hquiet fs')
      intro t
      exact meets_of_view_eq (hview _)

def plainScanner : Scanner :=
  ⟨Settings.standard 1, ⟨false, [], Ignore.storeTokens⟩⟩

/-- A directory whose own name is one to leave out, with all that may stand beside a tree file. -/
def oddFiles : FileSystem :=
  ⟨[("node_modules", .directory
    [("link.json", .link "a.json"), ("a.json", .file "{}".toUTF8), ("x.json", .directory []),
      ("a", .directory [("x.JSON", .file "[]".toUTF8)]),
      (".git", .directory [("c.json", .file "{}".toUTF8)])])], [], fun _ => 4096⟩

theorem wellNamed_oddFiles : oddFiles.WellNamed := by
  have hname {name : String} (h : name ≠ "" ∧ name ≠ "." ∧ name ≠ ".." ∧ '/' ∉ name.toList) :
      Path.IsName name := ⟨h.1, h.2.1, h.2.2.1, h.2.2.2⟩
  refine Entry.named_directory ?_
  simp only [oddFiles, List.mem_singleton, forall_eq]
  refine ⟨hname (by decide), Entry.named_directory ?_⟩
  simp only [List.forall_mem_cons, List.not_mem_nil, false_imp_iff, implies_true, and_true]
  refine ⟨⟨hname (by decide), Entry.named_link _⟩, ⟨hname (by decide), Entry.named_file _⟩,
    ⟨hname (by decide), Entry.named_directory (by simp)⟩,
    ⟨hname (by decide), Entry.named_directory ?_⟩, hname (by decide), Entry.named_directory ?_⟩
  · simpa using ⟨hname (by decide), Entry.named_file _⟩
  · simpa using ⟨hname (by decide), Entry.named_file _⟩

/-- The file is taken whose extension is in capitals; the link and the directory are not. -/
theorem treeFiles_oddFiles :
    oddFiles.WellNamed ∧ plainScanner.settings.followLinks = false ∧
    oddFiles.directory? "node_modules" = some ["node_modules"] ∧
    ∃ paths, plainScanner.treeFiles oddFiles "node_modules" ["node_modules"] = .ok paths ∧
      "node_modules/a/x.JSON" ∈ paths ∧ "node_modules/link.json" ∉ paths ∧
      "node_modules/x.json" ∉ paths := by
  have hroot : oddFiles.directory? "node_modules" = some ["node_modules"] := rfl
  obtain ⟨paths, hok, hmem, -, hother, -⟩ :=
    @treeFiles_exact plainScanner _ _ _ wellNamed_oddFiles rfl hroot
  refine ⟨wellNamed_oddFiles, rfl, hroot, paths, hok, (hmem _).2 ⟨["a", "x.JSON"], ?_, rfl⟩,
    hother ["link.json"] _ (by simp) rfl (by simp), hother ["x.json"] _ (by simp) rfl (by simp)⟩
  refine ⟨⟨_, rfl⟩, ⟨"x.JSON", rfl, ['x'], ['J', 'S', 'O', 'N'], rfl, by simp, rfl⟩, ?_⟩
  intro lead hne hlead
  obtain ⟨rest, rfl, rfl | rfl⟩ : ∃ rest, lead = "a" :: rest ∧ (rest = [] ∨ rest = ["x.JSON"]) := by
    simpa [List.prefix_cons_iff, hne] using hlead
  all_goals cbv

end Scanner

end TreeOutline
