import TreeOutline.Proofs.PathNames

/-!
Names of modules. The path of a module names its directories and its file, whatever slashes stand
behind; the name of the module is these names with dots between them, the last one without its
extension. A name of two dots and an extension at the very end of a path keeps both dots: they would
name the directory above, which has no extension to lose.
-/

namespace TreeOutline

namespace Text

theorem map_joinChars (f : Char → Char) (sep : Char) (ps : List (List Char)) :
    (joinChars sep ps).map f = joinChars (f sep) (ps.map (List.map f)) := by
  fun_induction joinChars sep ps with
  | case1 => rfl
  | case2 p => rfl
  | case3 p q ps ih => simpa [joinChars] using ih

theorem toList_join_singleton (sep : Char) (ps : List String) :
    (join (String.singleton sep) ps).toList = joinChars sep (ps.map String.toList) := by
  fun_induction join (String.singleton sep) ps with
  | case1 => rfl
  | case2 p => rfl
  | case3 p q ps ih => simp [joinChars, ih]

theorem pieces_replicate (sep : Char) (n : Nat) :
    pieces sep (List.replicate n sep) = List.replicate (n + 1) [] := by
  induction n with
  | zero => rfl
  | succ n ih => rw [List.replicate_succ, pieces, if_pos rfl, ih, ← List.replicate_succ]

/-- Each separator at the end of a text makes one empty piece. -/
theorem pieces_append_replicate (sep : Char) (s : List Char) (n : Nat) :
    pieces sep (s ++ List.replicate n sep) = pieces sep s ++ List.replicate n [] := by
  cases n with
  | zero => simp
  | succ n => rw [List.replicate_succ, pieces_append_cons, pieces_replicate]

end Text

namespace Path

open Text (pieces joinChars cutLast cutLast_eq_some cutLast_eq_none)

variable {front : List String} {name last stem : String} {absolute : Bool} {slashes : Nat}

/-- The path of names, which may start from the top and have slashes behind. -/
def ofNames (absolute : Bool) (names : List String) (slashes : Nat) : String :=
  (if absolute then "/" else "") ++ Text.join "/" names ++
    String.ofList (List.replicate slashes '/')

/-- Names with dots between them, and one in front if they start from the top. A backslash in a name
becomes a dot too. -/
def dotted (absolute : Bool) (names : List String) : String :=
  (if absolute then "." else "") ++
    String.ofList ((Text.join "." names).toList.map fun c => if c = '\x5c' then '.' else c)

/-- What a name is without its extension, which starts at its last dot. A dot in the first place starts
none. -/
inductive HasStem : String → String → Prop
  | cut {stem extension : String} (hstem : stem ≠ "") (hdot : '.' ∉ extension.toList) :
    HasStem (stem ++ "." ++ extension) stem
  | whole {name : String} (hdot : '.' ∉ name.toList.tail) : HasStem name name

/-! ## Extensions -/

theorem splitName_cut {stem extension : List Char} (hstem : stem ≠ []) (hdot : '.' ∉ extension) :
    splitName (stem ++ '.' :: extension) = (stem, some extension) := by
  rw [splitName, cutLast_eq_some.2 ⟨rfl, hdot⟩]
  cases stem with
  | nil => contradiction
  | cons c cs => rfl

theorem splitName_whole {name : List Char} (hdot : '.' ∉ name.tail) :
    splitName name = (name, none) := by
  cases name with
  | nil => rfl
  | cons c cs =>
    by_cases hc : c = '.'
    · have hcut : cutLast '.' (c :: cs) = some ([], cs) := cutLast_eq_some.2 ⟨by rw [hc]; rfl, hdot⟩
      rw [splitName, hcut]
    · have hcut : cutLast '.' (c :: cs) = none :=
        cutLast_eq_none.2 (List.not_mem_cons_of_ne_of_not_mem (Ne.symm hc) hdot)
      rw [splitName, hcut]

theorem HasStem.splitName_fst (h : HasStem name stem) : (splitName name.toList).1 = stem.toList := by
  cases h with
  | @cut stem extension hstem hdot =>
    have hne : stem.toList ≠ [] := fun he => hstem (String.toList_injective he)
    have hname : (stem ++ "." ++ extension).toList = stem.toList ++ '.' :: extension.toList := by
      simp
    rw [hname, splitName_cut hne hdot]
  | whole hdot => rw [splitName_whole hdot]

theorem HasStem.unique {other : String} (h : HasStem name stem) (h' : HasStem name other) :
    other = stem :=
  String.toList_injective (h'.splitName_fst.symm.trans h.splitName_fst)

theorem exists_hasStem (name : String) : ∃ stem, HasStem name stem := by
  cases hcut : cutLast '.' name.toList with
  | none =>
    have hdot := cutLast_eq_none.1 hcut
    exact ⟨name, .whole fun h => hdot (List.mem_of_mem_tail h)⟩
  | some parts =>
    obtain ⟨before, after⟩ := parts
    obtain ⟨hname, hdot⟩ := cutLast_eq_some.1 hcut
    by_cases hbefore : before = []
    · refine ⟨name, .whole ?_⟩
      rwa [hname, hbefore]
    · have hwritten : name = String.ofList before ++ "." ++ String.ofList after := by
        apply String.toList_injective
        simp [hname]
      refine ⟨String.ofList before, ?_⟩
      rw [hwritten]
      refine .cut (fun he => hbefore ?_) (by simpa using hdot)
      simpa using congrArg String.toList he

theorem HasStem.noSlash (h : HasStem name stem) (hname : '/' ∉ name.toList) :
    '/' ∉ stem.toList := by
  cases h with
  | cut => simp_all
  | whole => exact hname

/-- The last name as it stands in the name of a module. -/
def lastPart (slashes : Nat) (stem : String) : String :=
  if slashes = 0 ∧ stem = "." then ".." else stem

theorem bareName_eq (hname : IsName name) (h : HasStem name stem) (before : List (List Char)) :
    Tail.bareName ⟨before, name.toList, slashes = 0⟩ = (lastPart slashes stem).toList := by
  cases h with
  | @cut stem extension hstem hdot =>
    have hne : stem.toList ≠ [] := fun he => hstem (String.toList_injective he)
    have hwritten : (stem ++ "." ++ extension).toList = stem.toList ++ '.' :: extension.toList := by
      simp
    have hdots : stem.toList = ['.'] ↔ stem = "." :=
      ⟨fun he => String.toList_injective he, fun he => by rw [he]; rfl⟩
    simp only [Tail.bareName, hwritten, splitName_cut hne hdot, lastPart, Bool.and_eq_true,
      decide_eq_true_eq, hdots]
    split_ifs <;> rfl
  | whole hdot =>
    simp [Tail.bareName, splitName_whole hdot, lastPart, hname.notHere]

/-! ## Whole paths -/

theorem pieces_ofNames (hfront : ∀ name ∈ front, IsName name) (hlast : IsName last) :
    pieces '/' (ofNames absolute (front ++ [last]) slashes).toList =
      (if absolute then [[]] else []) ++ front.map String.toList ++
        last.toList :: List.replicate slashes [] := by
  have hnames : ∀ name ∈ front ++ [last], '/' ∉ name.toList := by
    intro name hname
    rcases List.mem_append.1 hname with hname | hname
    · exact (hfront name hname).noSlash
    · rw [List.mem_singleton.1 hname]
      exact hlast.noSlash
  have hjoined := Text.pieces_joined (by simp) hnames
  cases absolute with
  | false => simp [ofNames, Text.pieces_append_replicate, hjoined]
  | true =>
    have htop (s : List Char) : pieces '/' ('/' :: s) = [] :: pieces '/' s := by
      rw [pieces, if_pos rfl]
    simp [ofNames, htop, Text.pieces_append_replicate, hjoined]

theorem withoutExtension_ofNames (hfront : ∀ name ∈ front, IsName name) (hlast : IsName last)
    (hstem : HasStem last stem) :
    withoutExtension (ofNames absolute (front ++ [last]) slashes).toList =
      (if absolute then ['/'] else []) ++
        joinChars '/' ((front ++ [lastPart slashes stem]).map String.toList) := by
  have htail := tail?_of_pieces hlast (@pieces_ofNames front last absolute slashes hfront hlast)
  rw [withoutExtension, htail]
  simp only [bareName_eq hlast hstem]
  cases absolute with
  | false => simp
  | true => cases front <;> simp [joinChars]

theorem noSlash_lastPart (hlast : IsName last) (hstem : HasStem last stem) :
    '/' ∉ (lastPart slashes stem).toList := by
  unfold lastPart
  split
  · decide
  · exact hstem.noSlash hlast.noSlash

/-- Where no name holds a slash, turning both kinds of slashes into dots puts dots between the names. -/
theorem map_joinChars_names {names : List String} (h : ∀ name ∈ names, '/' ∉ name.toList) :
    (joinChars '/' (names.map String.toList)).map (fun c => if isSeparator c then '.' else c) =
      (Text.join "." names).toList.map fun c => if c = '\x5c' then '.' else c := by
  have hjoin : (Text.join "." names).toList = joinChars '.' (names.map String.toList) :=
    Text.toList_join_singleton '.' names
  rw [hjoin, Text.map_joinChars, Text.map_joinChars, List.map_map, List.map_map]
  refine congrArg (joinChars '.') (List.map_congr_left fun name hname => ?_)
  refine List.map_congr_left fun c hc => ?_
  have hslash : c ≠ '/' := fun he => h name hname (he ▸ hc)
  simp [isSeparator, hslash]

theorem moduleName_ofNames (hfront : ∀ name ∈ front, IsName name) (hlast : IsName last)
    (hstem : HasStem last stem) :
    moduleName (ofNames absolute (front ++ [last]) slashes) =
      dotted absolute (front ++ [lastPart slashes stem]) := by
  have hnames : ∀ name ∈ front ++ [lastPart slashes stem], '/' ∉ name.toList := by
    intro name hname
    rcases List.mem_append.1 hname with hname | hname
    · exact (hfront name hname).noSlash
    · rw [List.mem_singleton.1 hname]
      exact noSlash_lastPart hlast hstem
  rw [moduleName, withoutExtension_ofNames hfront hlast hstem, List.map_append,
    map_joinChars_names hnames, String.ofList_append, dotted]
  cases absolute <;> rfl

/-- The name of a module is the names on its path with dots between them, and a dot in front if the
path starts from the top. Only the last name loses an extension, and where that would leave a single
dot at the end of the path, two are left. No slash of either kind stays. -/
theorem moduleName_exact (hfront : ∀ name ∈ front, IsName name) (hlast : IsName last)
    (absolute : Bool) (slashes : Nat) :
    (∃ stem, HasStem last stem ∧ (∀ other, HasStem last other → other = stem) ∧
      moduleName (ofNames absolute (front ++ [last]) slashes) =
        dotted absolute (front ++ [if slashes = 0 ∧ stem = "." then ".." else stem])) ∧
    ∀ c ∈ (moduleName (ofNames absolute (front ++ [last]) slashes)).toList,
      c ≠ '/' ∧ c ≠ '\x5c' := by
  refine ⟨?_, fun c hc => ?_⟩
  · obtain ⟨stem, hstem⟩ := exists_hasStem last
    exact ⟨stem, hstem, fun other => hstem.unique, moduleName_ofNames hfront hlast hstem⟩
  · simpa [isSeparator] using isSeparator_of_mem_moduleName hc

/-- A hidden file below directories with dots and backslashes in their names. -/
theorem moduleName_hiddenCard :
    (∀ name ∈ ["lib.d", "a\x5cb"], IsName name) ∧ IsName ".card.tar.json" ∧
    moduleName "/lib.d/a\x5cb/.card.tar.json//" = ".lib.d.a.b..card.tar" := by
  have hfront : ∀ name ∈ ["lib.d", "a\x5cb"], IsName name := by
    simp only [List.forall_mem_cons]
    exact ⟨⟨by decide, by decide, by decide, by decide⟩, ⟨by decide, by decide, by decide, by decide⟩,
      by simp⟩
  have hlast : IsName ".card.tar.json" := ⟨by decide, by decide, by decide, by decide⟩
  have hstem : HasStem ".card.tar.json" ".card.tar" :=
    @HasStem.cut ".card.tar" "json" (by decide) (by decide)
  obtain ⟨⟨stem, -, honly, hname⟩, -⟩ := moduleName_exact hfront hlast true 2
  obtain rfl := honly _ hstem
  exact ⟨hfront, hlast, hname⟩

/-- Without its extension the name would be one dot, and two are left. -/
theorem moduleName_twoDots :
    IsName "..json" ∧ HasStem "..json" "." ∧ (∀ other, HasStem "..json" other → other = ".") ∧
    ofNames false ["..json"] 0 = "..json" ∧ moduleName "..json" = ".." ∧
    moduleName "..json" ≠ dotted false ["."] := by
  have hstem : HasStem "..json" "." := @HasStem.cut "." "json" (by decide) (by decide)
  exact ⟨⟨by decide, by decide, by decide, by decide⟩, hstem, fun other => hstem.unique, rfl, rfl,
    by decide⟩

end Path

end TreeOutline
