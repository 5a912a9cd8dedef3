import TreeOutline.Proofs.Pool

/-!
What a limit for the size of files changes. What becomes of a file is told by what its path leads to,
one fault after the other (`Outlined`). A limit only refuses what is larger, whatever is in it; all
else comes out the same under a higher one, and so does a scan that refuses nothing.
-/

namespace TreeOutline

open Scanner (outlineFile outlineFiles)

/-- The settings with another limit for the size of a file. -/
def Settings.withLimit (s : Settings) (limit : Nat) : Settings :=
  { s with maxFileSize := limit }

/-- The scanner with another limit for the size of a file. -/
def Scanner.withLimit (scanner : Scanner) (limit : Nat) : Scanner :=
  { scanner with settings := scanner.settings.withLimit limit }

variable {s : Settings} {fs : FileSystem} {path : String} {limit : Nat}
  {result : Except ScanError Report}

/-- A path leads to a text in a file that is not too large. -/
structure HoldsText (s : Settings) (fs : FileSystem) (path text : String) (content : ByteArray) :
    Prop where
  find : fs.find path = .ok (.file content)
  size : content.size ≤ s.maxFileSize
  text : String.fromUTF8? content = some text

/-- What becomes of the file at a path. -/
inductive Outlined (s : Settings) (fs : FileSystem) (path : String) :
    Except ScanError Report → Prop
  | missing (h : fs.find path = .error .notFound) :
    Outlined s fs path (.error (.load (.notFound path)))
  | unusable {reason : IoError} (h : fs.find path = .error reason) (hreason : reason ≠ .notFound) :
    Outlined s fs path (.error (.load (.unreadable path reason)))
  | tooLarge {size : Nat} (h : fs.size path = .ok size) (hsize : s.maxFileSize < size) :
    Outlined s fs path (.error (.load (.tooLarge path size s.maxFileSize)))
  | directory {place : Place} (h : fs.find path = .ok (.directory place))
    (hsize : fs.directorySize place ≤ s.maxFileSize) :
    Outlined s fs path (.error (.load (.unreadable path .isDirectory)))
  | notText {content : ByteArray} (h : fs.find path = .ok (.file content))
    (hsize : content.size ≤ s.maxFileSize) (htext : String.fromUTF8? content = none) :
    Outlined s fs path (.error (.load (.unreadable path .notText)))
  | malformed {text : String} {content : ByteArray} {reason : Json.ParseError}
    (h : HoldsText s fs path text content) (hparse : Json.parse text = .error reason) :
    Outlined s fs path (.error (.load (.malformed path reason)))
  | misshapen {text : String} {content : ByteArray} {root : Json} {e : ShapeError}
    (h : HoldsText s fs path text content) (hparse : Json.parse text = .ok root)
    (hreport : Outline.report s.outline path (Path.moduleName path) root = .error e) :
    Outlined s fs path (.error (.shape path e))
  | reported {text : String} {content : ByteArray} {root : Json} {report : Report}
    (h : HoldsText s fs path text content) (hparse : Json.parse text = .ok root)
    (hreport : Outline.report s.outline path (Path.moduleName path) root = .ok report) :
    Outlined s fs path (.ok report)

/-! ## One file -/

theorem size_of_find_file {content : ByteArray} (h : fs.find path = .ok (.file content)) :
    fs.size path = .ok content.size := by
  rw [FileSystem.size, h]

theorem size_of_find_directory {place : Place} (h : fs.find path = .ok (.directory place)) :
    fs.size path = .ok (fs.directorySize place) := by
  rw [FileSystem.size, h]

theorem outlineFile_of_find_error {reason : IoError} (h : fs.find path = .error reason) :
    outlineFile s fs path = .error (.load (.ofIoError path reason)) := by
  rw [outlineFile, Module.load, FileSystem.size, h]

theorem outlineFile_of_too_large {size : Nat} (h : fs.size path = .ok size)
    (hsize : s.maxFileSize < size) :
    outlineFile s fs path = .error (.load (.tooLarge path size s.maxFileSize)) := by
  rw [outlineFile, Module.load, h]
  simp only [if_pos hsize]

theorem outlineFile_of_read_error {size : Nat} {reason : IoError} (h : fs.size path = .ok size)
    (hsize : size ≤ s.maxFileSize) (hread : fs.readText path = .error reason) :
    outlineFile s fs path = .error (.load (.ofIoError path reason)) := by
  rw [outlineFile, Module.load, h]
  simp only [if_neg (Nat.not_lt.2 hsize), hread]

theorem outlineFile_of_holdsText {text : String} {content : ByteArray}
    (h : HoldsText s fs path text content) :
    outlineFile s fs path =
      match Json.parse text with
      | .error reason => .error (.load (.malformed path reason))
      | .ok root =>
        (Outline.report s.outline path (Path.moduleName path) root).mapError (.shape path) := by
  have hread : fs.readText path = .ok text := by
    rw [FileSystem.readText, h.find]
    simp only [h.text]
  rw [outlineFile, Module.load, size_of_find_file h.find]
  simp only [if_neg (Nat.not_lt.2 h.size), hread, Module.ofText]
  cases Json.parse text with
  | error reason => rfl
  | ok root =>
    simp only [Module.outline]
    cases Outline.report s.outline path (Path.moduleName path) root <;> rfl

theorem ofIoError_eq {reason : IoError} (h : reason ≠ .notFound) :
    LoadError.ofIoError path reason = .unreadable path reason := by
  cases reason with
  | notFound => contradiction
  | _ => rfl

theorem Outlined.eq (h : Outlined s fs path result) : outlineFile s fs path = result := by
  cases h with
  | missing h => exact outlineFile_of_find_error h
  | unusable h hreason => rw [outlineFile_of_find_error h, ofIoError_eq hreason]
  | tooLarge h hsize => exact outlineFile_of_too_large h hsize
  | directory h hsize =>
    have hread : fs.readText path = .error .isDirectory := by
      rw [FileSystem.readText, h]
    exact outlineFile_of_read_error (size_of_find_directory h) hsize hread
  | notText h hsize htext =>
    have hread : fs.readText path = .error .notText := by
      rw [FileSystem.readText, h]
      simp only [htext]
    exact outlineFile_of_read_error (size_of_find_file h) hsize hread
  | malformed h hparse => rw [outlineFile_of_holdsText h, hparse]
  | misshapen h hparse hreport =>
    rw [outlineFile_of_holdsText h, hparse]
    simp only [hreport]
    rfl
  | reported h hparse hreport =>
    rw [outlineFile_of_holdsText h, hparse]
    simp only [hreport]
    rfl

/-- Some fault is met, or there is a report. -/
theorem exists_outlined (s : Settings) (fs : FileSystem) (path : String) :
    ∃ result, Outlined s fs path result := by
  cases hfind : fs.find path with
  | error reason =>
    by_cases hreason : reason = .notFound
    · exact ⟨_, .missing (hreason ▸ hfind)⟩
    · exact ⟨_, .unusable hfind hreason⟩
  | ok source =>
    cases source with
    | directory place =>
      by_cases hsize : s.maxFileSize < fs.directorySize place
      · exact ⟨_, .tooLarge (size_of_find_directory hfind) hsize⟩
      · exact ⟨_, .directory hfind (Nat.not_lt.1 hsize)⟩
    | file content =>
      by_cases hsize : s.maxFileSize < content.size
      · exact ⟨_, .tooLarge (size_of_find_file hfind) hsize⟩
      · cases htext : String.fromUTF8? content with
        | none => exact ⟨_, .notText hfind (Nat.not_lt.1 hsize) htext⟩
        | some text =>
          have hread : HoldsText s fs path text content := ⟨hfind, Nat.not_lt.1 hsize, htext⟩
          cases hparse : Json.parse text with
          | error reason => exact ⟨_, .malformed hread hparse⟩
          | ok root =>
            cases hreport : Outline.report s.outline path (Path.moduleName path) root with
            | error e => exact ⟨_, .misshapen hread hparse hreport⟩
            | ok report => exact ⟨_, .reported hread hparse hreport⟩

theorem outlined_iff : Outlined s fs path result ↔ outlineFile s fs path = result := by
  refine ⟨Outlined.eq, fun h => ?_⟩
  obtain ⟨result', h'⟩ := exists_outlined s fs path
  rwa [← h, h'.eq]

/-- The file is refused for its size and nothing else. -/
theorem outlineFile_eq_tooLarge {p : String} {size l : Nat} :
    outlineFile s fs path = .error (.load (.tooLarge p size l)) ↔
      p = path ∧ l = s.maxFileSize ∧ fs.size path = .ok size ∧ s.maxFileSize < size := by
  refine ⟨fun h => ?_, fun h => ?_⟩
  · cases outlined_iff.2 h with
    | tooLarge hsize hlarge => exact ⟨rfl, rfl, hsize, hlarge⟩
  · obtain ⟨rfl, rfl, hsize, hlarge⟩ := h
    exact outlineFile_of_too_large hsize hlarge

/-! ## Two limits -/

/-- What is not too large comes out the same under a higher limit. -/
theorem outlineFile_withLimit (hlimit : s.maxFileSize ≤ limit)
    (hsize : ∀ size, fs.size path = .ok size → size ≤ s.maxFileSize) :
    outlineFile (s.withLimit limit) fs path = outlineFile s fs path := by
  have hread {text : String} {content : ByteArray} (h : HoldsText s fs path text content) :
      HoldsText (s.withLimit limit) fs path text content :=
    ⟨h.find, Nat.le_trans h.size hlimit, h.text⟩
  obtain ⟨result, h⟩ := exists_outlined s fs path
  rw [h.eq]
  apply Outlined.eq
  cases h with
  | missing h => exact .missing h
  | unusable h hreason => exact .unusable h hreason
  | tooLarge h hlarge => exact absurd (hsize _ h) (Nat.not_le.2 hlarge)
  | directory h hsmall => exact .directory h (Nat.le_trans hsmall hlimit)
  | notText h hsmall htext => exact .notText h (Nat.le_trans hsmall hlimit) htext
  | malformed h hparse => exact .malformed (hread h) hparse
  | misshapen h hparse hreport => exact .misshapen (hread h) hparse hreport
  | reported h hparse hreport => exact .reported (hread h) hparse hreport

/-- A file is refused for its size, or the higher limit makes no difference to it. -/
theorem outlineFile_tooLarge_or_withLimit (hlimit : s.maxFileSize ≤ limit) :
    (∃ size, outlineFile s fs path = .error (.load (.tooLarge path size s.maxFileSize))) ∨
      outlineFile (s.withLimit limit) fs path = outlineFile s fs path := by
  by_cases hlarge : ∃ size, fs.size path = .ok size ∧ s.maxFileSize < size
  · obtain ⟨size, hsize, hlarge⟩ := hlarge
    exact .inl ⟨size, outlineFile_of_too_large hsize hlarge⟩
  · exact .inr (outlineFile_withLimit hlimit fun size hsize =>
      Nat.not_lt.1 fun hlt => hlarge ⟨size, hsize, hlt⟩)

theorem outlineFile_withLimit_of_ok (hlimit : s.maxFileSize ≤ limit) {report : Report}
    (h : outlineFile s fs path = .ok report) :
    outlineFile (s.withLimit limit) fs path = .ok report := by
  rcases outlineFile_tooLarge_or_withLimit hlimit with ⟨size, hlarge⟩ | hsame
  · cases h.symm.trans hlarge
  · exact hsame.trans h

/-! ## Scans under two limits -/

variable {paths : List String} {reports : List Report} {scanner : Scanner} {root : String}

theorem outlineFiles_withLimit (hlimit : s.maxFileSize ≤ limit)
    (h : outlineFiles s fs paths = .ok reports) :
    outlineFiles (s.withLimit limit) fs paths = .ok reports :=
  outlineFiles_eq_ok.2 ((outlineFiles_eq_ok.1 h).imp fun _ _ => outlineFile_withLimit_of_ok hlimit)

namespace Scanner

/-- A limit has no part in which files are found. -/
theorem treeFiles_withLimit (scanner : Scanner) (limit : Nat) (fs : FileSystem) (root : String)
    (place : Place) :
    (scanner.withLimit limit).treeFiles fs root place = scanner.treeFiles fs root place :=
  rfl

/-- What a scan comes to without an error is all that it comes to under a higher limit. -/
theorem Scans.withLimit (hlimit : scanner.settings.maxFileSize ≤ limit)
    (h : scanner.Scans fs root (.ok reports)) {result : Except ScanError (List Report)} :
    (scanner.withLimit limit).Scans fs root result ↔ result = .ok reports := by
  cases hroot : fs.directory? root with
  | none =>
    rw [scans_iff_of_file hroot] at h ⊢
    cases hfile : outlineFile scanner.settings fs root with
    | error e =>
      rw [hfile] at h
      cases h
    | ok report =>
      have hfile' := outlineFile_withLimit_of_ok hlimit hfile
      rw [hfile] at h
      rw [h]
      change result = (outlineFile (scanner.settings.withLimit limit) fs root).map _ ↔ _
      rw [hfile']
  | some place =>
    cases hpaths : scanner.treeFiles fs root place with
    | error e => cases (scans_iff_of_lost hroot hpaths).1 h
    | ok paths =>
      have hplain := (((scans_iff_of_walked hroot hpaths).1 h).agrees.1 reports).1 rfl
      rw [scans_iff_of_walked hroot ((treeFiles_withLimit scanner limit fs root place).trans hpaths)]
      exact outlines_iff_of_ok (outlineFiles_withLimit hlimit hplain)

theorem ofSettings_eq_ok : ofSettings s = .ok scanner ↔ scanner.settings = s ∧
    Ignore.ofPatterns s.includeHidden s.ignorePatterns = .ok scanner.ignore := by
  rw [ofSettings]
  cases Ignore.ofPatterns s.includeHidden s.ignorePatterns with
  | error e => simp
  | ok ignore =>
    obtain ⟨settings, ignore'⟩ := scanner
    simp [eq_comm]

theorem ofSettings_withLimit (h : ofSettings s = .ok scanner) (limit : Nat) :
    ofSettings (s.withLimit limit) = .ok (scanner.withLimit limit) := by
  obtain ⟨rfl, hignore⟩ := ofSettings_eq_ok.1 h
  exact ofSettings_eq_ok.2 ⟨rfl, hignore⟩

end Scanner

/-- A file is refused just if what its path leads to is larger than the limit. All other files, for
better or worse, come out as under a higher limit, and the first fault tells how. So a scan without an
error is the same under a higher limit. -/
theorem outlineFile_limited (s : Settings) (fs : FileSystem) (path : String) {limit : Nat}
    (hlimit : s.maxFileSize ≤ limit) :
    (∀ p size l, outlineFile s fs path = .error (.load (.tooLarge p size l)) ↔
      p = path ∧ l = s.maxFileSize ∧ fs.size path = .ok size ∧ s.maxFileSize < size) ∧
    ((∃ size, outlineFile s fs path = .error (.load (.tooLarge path size s.maxFileSize))) ∨
      outlineFile (s.withLimit limit) fs path = outlineFile s fs path) ∧
    (∀ result, outlineFile s fs path = result ↔ Outlined s fs path result) ∧
    ∀ scanner, Scanner.ofSettings s = .ok scanner →
      ∃ larger, Scanner.ofSettings (s.withLimit limit) = .ok larger ∧
        ∀ root reports, scanner.Scans fs root (.ok reports) →
          ∀ result, larger.Scans fs root result ↔ result = .ok reports := by
  refine ⟨fun _ _ _ => outlineFile_eq_tooLarge, outlineFile_tooLarge_or_withLimit hlimit,
    fun _ => outlined_iff.symm, fun scanner hscanner => ?_⟩
  refine ⟨_, Scanner.ofSettings_withLimit hscanner limit, fun root reports h result => ?_⟩
  obtain ⟨rfl, -⟩ := Scanner.ofSettings_eq_ok.1 hscanner
  exact h.withLimit hlimit

/-- A directory with a file of two bytes, and with a directory that is named like a tree file. -/
def twoByteFiles : FileSystem :=
  ⟨[("p", .directory [("a.json", .file "{}".toUTF8), ("b.json", .directory [])])], [],
    fun _ => 4096⟩

def twoByteLimit : Settings :=
  { Settings.standard 1 with maxFileSize := 2 }

def twoByteScanner : Scanner :=
  ⟨twoByteLimit, ⟨false, [], Ignore.storeTokens⟩⟩

/-- A file may be as large as the limit. A directory is too large before it is no file. -/
theorem outlineFile_twoByteFiles :
    twoByteLimit.maxFileSize ≤ 5000 ∧
    outlineFile twoByteLimit twoByteFiles "p/b.json" =
      .error (.load (.tooLarge "p/b.json" 4096 2)) ∧
    outlineFile (twoByteLimit.withLimit 5000) twoByteFiles "p/b.json" =
      .error (.load (.unreadable "p/b.json" .isDirectory)) ∧
    ∃ larger, Scanner.ofSettings (twoByteLimit.withLimit 5000) = .ok larger ∧
      ∀ result, larger.Scans twoByteFiles "p" result ↔ result = .ok [⟨"p/a.json", "p.a", [], []⟩] := by
  have hsmall : twoByteLimit.maxFileSize ≤ 5000 := by decide
  have hdirectory : twoByteFiles.find "p/b.json" = .ok (.directory ["p", "b.json"]) := rfl
  obtain ⟨htooLarge, -, -, hscans⟩ := outlineFile_limited twoByteLimit twoByteFiles "p/b.json" hsmall
  obtain ⟨-, -, hfault, -⟩ :=
    outlineFile_limited (twoByteLimit.withLimit 5000) twoByteFiles "p/b.json" (Nat.le_refl _)
  have hscanner : Scanner.ofSettings twoByteLimit = .ok twoByteScanner :=
    Scanner.ofSettings_eq_ok.2 ⟨rfl, rfl⟩
  have hpaths : twoByteScanner.treeFiles twoByteFiles "p" ["p"] = .ok ["p/a.json"] := rfl
  have hread : outlineFile twoByteLimit twoByteFiles "p/a.json" =
      .ok ⟨"p/a.json", "p.a", [], []⟩ := outlineFile_empty rfl (by decide)
  obtain ⟨larger, hlarger, hsame⟩ := hscans _ hscanner
  refine ⟨hsmall, (htooLarge _ _ _).2 ⟨rfl, rfl, rfl, by decide⟩,
    (hfault _).2 (.directory hdirectory (by decide)), larger, hlarger, hsame "p" _ ?_⟩
  have hfiles : outlineFiles twoByteLimit twoByteFiles ["p/a.json"] =
      .ok [⟨"p/a.json", "p.a", [], []⟩] := outlineFiles_eq_ok.2 (.cons hread .nil)
  exact (Scanner.scans_iff_of_walked rfl hpaths).2 ((outlines_iff_of_ok hfiles).2 rfl)

end TreeOutline
