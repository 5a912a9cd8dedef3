import Mathlib.Data.List.TakeWhile
import TreeOutline.Ignore
import TreeOutline.Proofs.PathNames
import TreeOutline.Proofs.Traversal

/-!
Names that are left out of every scan. The patterns for the stores are glob patterns over bytes, which
mean that some name of the path is that of a store: no other character has the byte of a slash in it,
and a run of literals between two slashes matches a whole name (`any_nameTokens_iff`). With what
is hidden, and what the patterns of the user match, this tells exactly which paths made of names are
left out (`ignores_exact`).
-/

namespace TreeOutline

open Text Traversal

namespace Glob

/-! ## Bytes -/

theorem slash_mem_charBytes {c : Char} : slash ∈ charBytes c ↔ c = '/' := by
  have hbyte (n : Nat) : slash = UInt8.ofNat n ↔ n % 256 = 47 := by
    rw [← UInt8.toNat_inj, UInt8.toNat_ofNat']
    exact eq_comm
  have hchar : c = '/' ↔ c.val.toNat = 47 := by
    rw [← Char.toNat_inj]
    rfl
  unfold charBytes String.utf8EncodeChar
  rw [hchar]
  dsimp only
  split_ifs <;> simp only [List.mem_cons, List.not_mem_nil, or_false, hbyte] <;> omega

theorem slash_notMem_bytes {s : List Char} (h : '/' ∉ s) : slash ∉ s.flatMap charBytes := by
  intro hmem
  obtain ⟨c, hc, hslash⟩ := List.mem_flatMap.1 hmem
  rw [slash_mem_charBytes.1 hslash] at hc
  exact h hc

theorem bytes_inj {s t : List Char} (h : s.flatMap charBytes = t.flatMap charBytes) : s = t := by
  have hencode : s.utf8Encode = t.utf8Encode := congrArg List.toByteArray h
  have hdecode := congrArg ByteArray.utf8Decode? hencode
  rw [List.utf8Decode?_utf8Encode, List.utf8Decode?_utf8Encode] at hdecode
  simpa using hdecode

/-! ## Tokens -/

variable {s r : List UInt8} {ss : List (List UInt8)}

theorem mem_after {head : List UInt8} : r ∈ after head s ↔ s = head ++ r := by
  unfold after
  split
  · next h =>
    obtain ⟨t, rfl⟩ := List.isPrefixOf_iff_prefix.1 h
    simp [eq_comm]
  · next h =>
    refine ⟨fun hr => absurd hr (List.not_mem_nil), fun hr => ?_⟩
    exact absurd (List.isPrefixOf_iff_prefix.2 ⟨r, hr.symm⟩) h

theorem seqRests_append (ts us : List Token) (ss : List (List UInt8)) :
    seqRests (ts ++ us) ss = seqRests us (seqRests ts ss) := by
  induction ts generalizing ss with
  | nil => rfl
  | cons t ts ih => rw [List.cons_append, seqRests, seqRests, ih]

/-- Literals take their bytes from the front of a text. -/
theorem mem_seqRests_literals (cs : List Char) :
    r ∈ seqRests (cs.map .literal) ss ↔ cs.flatMap charBytes ++ r ∈ ss := by
  induction cs generalizing ss with
  | nil => rfl
  | cons c cs ih =>
    rw [List.map_cons, seqRests, ih, List.mem_eraseDups, List.mem_flatMap]
    simp only [Token.rests, mem_after, List.flatMap_cons, List.append_assoc, exists_eq_right]

theorem nil_mem_ends (s : List UInt8) : [] ∈ ends s := by
  induction s with
  | nil => exact List.mem_singleton_self _
  | cons b s ih => exact List.mem_cons_of_mem _ ih

theorem nil_mem_rests_trailing : [] ∈ Token.trailing.rests s ↔ ∃ rest, s = slash :: rest := by
  cases s with
  | nil => simp [Token.rests]
  | cons b rest => by_cases h : b = slash <;> simp [Token.rests, h, nil_mem_ends]

/-! ## Whole names -/

variable {name x t : List UInt8}

/-- The name stands in a text between its start or a slash and its end or a slash. -/
def StandsIn (name s : List UInt8) : Prop :=
  name ∈ Token.leading.rests s ∨ ∃ rest, name ++ slash :: rest ∈ Token.leading.rests s

theorem afterSlashes_append (h : slash ∉ x) : afterSlashes (x ++ t) = afterSlashes t := by
  induction x with
  | nil => rfl
  | cons b x ih =>
    obtain ⟨hb, hx⟩ := not_or.1 (List.mem_cons.not.1 h)
    rw [List.cons_append, afterSlashes, if_neg (Ne.symm hb), ih hx]

theorem standsIn_of_notMem (h : slash ∉ x) : StandsIn name x ↔ name = x := by
  have hrests : Token.leading.rests x = [x] := by
    have hnil := afterSlashes_append (t := []) h
    rw [List.append_nil] at hnil
    rw [Token.rests, hnil]
    rfl
  unfold StandsIn
  rw [hrests]
  refine ⟨fun hs => ?_, fun hs => .inl (List.mem_singleton.2 hs)⟩
  rcases hs with hs | ⟨rest, hs⟩
  · exact List.mem_singleton.1 hs
  · rw [← List.mem_singleton.1 hs] at h
    simp at h

theorem standsIn_append (hname : slash ∉ name) (h : slash ∉ x) :
    StandsIn name (x ++ slash :: t) ↔ name = x ∨ StandsIn name t := by
  have hrests : Token.leading.rests (x ++ slash :: t) =
      (x ++ slash :: t) :: Token.leading.rests t := by
    rw [Token.rests, afterSlashes_append h, afterSlashes, if_pos rfl, Token.rests]
  -- the name has no slash, so from the start it cannot reach beyond the first one
  have hfirst : name ≠ x ++ slash :: t := by
    rintro rfl
    simp at hname
  have hrest : (∃ rest, name ++ slash :: rest = x ++ slash :: t) ↔ name = x := by
    refine ⟨fun hs => ?_, fun hs => ⟨t, by rw [hs]⟩⟩
    obtain ⟨rest, hs⟩ := hs
    exact (append_cons_inj_of_notMem_left hname h hs).1
  unfold StandsIn
  rw [hrests]
  simp only [List.mem_cons, hfirst, false_or, exists_or, hrest]
  exact or_left_comm

/-- A name without a slash stands in a text of joined pieces if it is one of them. -/
theorem standsIn_joined {cs : List Char} (hcs : '/' ∉ cs) {ps : List (List Char)} (hne : ps ≠ [])
    (hps : ∀ p ∈ ps, '/' ∉ p) :
    StandsIn (cs.flatMap charBytes) ((joinChars '/' ps).flatMap charBytes) ↔ cs ∈ ps := by
  have heq (p : List Char) : cs.flatMap charBytes = p.flatMap charBytes ↔ cs = p :=
    ⟨bytes_inj, fun h => by rw [h]⟩
  induction ps with
  | nil => contradiction
  | cons p rest ih =>
    have hp := slash_notMem_bytes (hps p List.mem_cons_self)
    rcases rest with _ | ⟨q, rest⟩
    · rw [joinChars, standsIn_of_notMem hp, heq, List.mem_singleton]
    · have ih := ih (List.cons_ne_nil _ _) fun p hp => hps p (List.mem_cons_of_mem _ hp)
      have hjoin : (joinChars '/' (p :: q :: rest)).flatMap charBytes =
          p.flatMap charBytes ++ slash :: (joinChars '/' (q :: rest)).flatMap charBytes := by
        rw [joinChars, List.flatMap_append, List.flatMap_cons]
        rfl
      rw [hjoin, standsIn_append (slash_notMem_bytes hcs) hp, heq, List.mem_cons]
      exact or_congr_right ih

theorem isMatch_leading {ts : List Token} (hne : ts ≠ []) (path : String) :
    isMatch (.leading :: ts) path = true ↔
      [] ∈ seqRests ts (Token.leading.rests (textBytes path)).eraseDups := by
  obtain ⟨t, ts, rfl⟩ := List.exists_cons_of_ne_nil hne
  change (seqRests (.leading :: t :: ts) [textBytes path]).contains [] = true ↔ _
  rw [List.contains_iff_mem, seqRests, List.flatMap_singleton]

end Glob

namespace Path

variable {path : String}

/-- Where all parts of a path are names, the path has no other parts but idle ones. -/
theorem components_eq (h : ∀ name ∈ components path, IsName name) :
    components path =
      ((pieces '/' path.toList).filter fun part => !isIdle part).map String.ofList := by
  unfold components at h ⊢
  dsimp only at h ⊢
  split_ifs at h ⊢
  · exact absurd (h "/" List.mem_cons_self).noSlash (by decide)
  · exact absurd rfl (h "." List.mem_cons_self).notHere
  · rfl

theorem mem_components_iff (h : ∀ name ∈ components path, IsName name) {name : String}
    (hname : IsName name) : name ∈ components path ↔ name.toList ∈ pieces '/' path.toList := by
  rw [components_eq h, List.mem_map]
  refine ⟨fun hmem => ?_, fun hmem => ?_⟩
  · obtain ⟨part, hpart, rfl⟩ := hmem
    rw [String.toList_ofList]
    exact List.mem_of_mem_filter hpart
  · refine ⟨name.toList, List.mem_filter.2 ⟨hmem, ?_⟩, String.ofList_toList⟩
    rw [hname.isIdle_eq_false]
    rfl

theorem fileName?_eq (h : ∀ name ∈ components path, IsName name) :
    fileName? path = (components path).getLast? := by
  have hlast : ((pieces '/' path.toList).filter fun part => !isIdle part).getLast? =
      ((pieces '/' path.toList).reverse.dropWhile isIdle).head? := by
    rw [List.getLast?_eq_head?_reverse, ← List.filter_reverse, List.head?_filter,
      List.find?_not_eq_head?_dropWhile]
  unfold fileName? tail?
  rw [components_eq h, List.getLast?_map, hlast]
  cases hd : (pieces '/' path.toList).reverse.dropWhile isIdle with
  | nil => simp [hd]
  | cons part before =>
    have hmem : String.ofList part ∈ components path := by
      rw [hd] at hlast
      rw [components_eq h]
      exact List.mem_map_of_mem (List.mem_of_getLast? hlast)
    have hne : part ≠ parentPiece := by
      have hne := (h _ hmem).ne_parentPiece
      rwa [String.toList_ofList] at hne
    simp [hd, hne]

end Path

namespace Ignore

open Glob TreeOutline.Path

/-- The two patterns for the name of a store match the paths in which it is a whole name. -/
theorem any_nameTokens_iff {name : String} (hname : IsName name) (path : String) :
    (nameTokens name).any (fun g => isMatch g path) = true ↔
      name.toList ∈ pieces '/' path.toList := by
  have hne : name.toList.map Token.literal ≠ [] := fun h =>
    hname.notEmpty (String.toList_injective (List.map_eq_nil_iff.1 h))
  have hwhole : isMatch (.leading :: name.toList.map .literal) path = true ↔
      name.toList.flatMap charBytes ∈ Token.leading.rests (textBytes path) := by
    rw [isMatch_leading hne, mem_seqRests_literals, List.append_nil, List.mem_eraseDups]
  have hbelow : isMatch (.leading :: name.toList.map .literal ++ [.trailing]) path = true ↔
      ∃ rest, name.toList.flatMap charBytes ++ slash :: rest ∈
        Token.leading.rests (textBytes path) := by
    rw [List.cons_append, isMatch_leading (List.append_ne_nil_of_left_ne_nil hne _),
      seqRests_append, seqRests, seqRests, List.mem_eraseDups, List.mem_flatMap]
    simp only [nil_mem_rests_trailing, mem_seqRests_literals, List.mem_eraseDups]
    refine ⟨fun h => ?_, fun h => ?_⟩
    · obtain ⟨_, hmem, rest, rfl⟩ := h
      exact ⟨rest, hmem⟩
    · obtain ⟨rest, hmem⟩ := h
      exact ⟨slash :: rest, hmem, rest, rfl⟩
  have hjoined := standsIn_joined hname.noSlash (pieces_ne_nil '/' path.toList) fun p hp =>
    notMem_of_mem_pieces hp
  rw [joinChars_pieces] at hjoined
  rw [← hjoined, StandsIn, nameTokens, List.any_cons, List.any_cons, List.any_nil, Bool.or_false,
    Bool.or_eq_true]
  exact or_congr hwhole hbelow

theorem isHidden_iff {path : String} (h : ∀ name ∈ components path, IsName name) :
    isHidden path = true ↔
      ∃ name, (components path).getLast? = some name ∧ name.toList.head? = some '.' := by
  unfold isHidden
  rw [fileName?_eq h]
  cases (components path).getLast? with
  | none => simp
  | some name => simp

/-! ## Patterns of the user -/

variable {includeHidden : Bool} {patterns : List String} {i : Ignore}

theorem ofPatterns_eq_ok :
    ofPatterns includeHidden patterns = .ok i ↔
      ∃ globs, List.Forall₂ (fun pattern glob => Glob.parse pattern = .ok glob) patterns globs ∧
        i = ⟨includeHidden, globs, storeTokens⟩ := by
  unfold ofPatterns
  simp only [parse_storePatterns, bind_eq_ok, mapM_eq_ok, Except.ok.injEq, exists_eq_left',
    @eq_comm _ i]

theorem exists_ofPatterns_eq_ok :
    (∃ i, ofPatterns includeHidden patterns = .ok i) ↔
      ∀ pattern ∈ patterns, ∃ glob, Glob.parse pattern = .ok glob := by
  rw [← exists_mapM_eq_ok]
  simp only [ofPatterns_eq_ok, mapM_eq_ok]
  refine ⟨fun h => ?_, fun h => ?_⟩
  · obtain ⟨_, globs, hglobs, -⟩ := h
    exact ⟨globs, hglobs⟩
  · obtain ⟨globs, hglobs⟩ := h
    exact ⟨_, globs, hglobs, rfl⟩

/-- The pattern is valid and matches the path. -/
def Matches (pattern path : String) : Prop :=
  ∃ glob, Glob.parse pattern = .ok glob ∧ isMatch glob path = true

theorem any_isMatch_iff {globs : List (List Token)} {path : String}
    (h : List.Forall₂ (fun pattern glob => Glob.parse pattern = .ok glob) patterns globs) :
    (globs.any fun g => isMatch g path) = true ↔ ∃ pattern ∈ patterns, Matches pattern path := by
  induction h with
  | nil => simp
  | @cons pattern glob _ _ hglob _ ih =>
    have hmatches : Matches pattern path ↔ isMatch glob path = true := by
      simp [Matches, hglob]
    rw [List.any_cons, Bool.or_eq_true, ih, List.exists_mem_cons_iff, hmatches]

/-! ## What is left out -/

/-- A path of these names is left out whatever the patterns: one of them is the name of a store, or
the last one is hidden and hidden names are not asked for. -/
def Reserved (includeHidden : Bool) (names : List String) : Prop :=
  ("node_modules" ∈ names ∨ ".git" ∈ names) ∨
    includeHidden = false ∧ ∃ name, names.getLast? = some name ∧ name.toList.head? = some '.'

theorem any_storeTokens_iff {path : String} (hpath : ∀ name ∈ components path, IsName name) :
    (storeTokens.any fun g => isMatch g path) = true ↔
      "node_modules" ∈ components path ∨ ".git" ∈ components path := by
  have hmodules : IsName "node_modules" := ⟨by decide, by decide, by decide, by decide⟩
  have hgit : IsName ".git" := ⟨by decide, by decide, by decide, by decide⟩
  rw [mem_components_iff hpath hmodules, mem_components_iff hpath hgit,
    ← any_nameTokens_iff hmodules, ← any_nameTokens_iff hgit, storeTokens, List.flatMap_cons,
    List.flatMap_cons, List.flatMap_nil, List.append_nil, List.any_append, Bool.or_eq_true]

theorem ignores_iff (h : ofPatterns includeHidden patterns = .ok i) {path : String}
    (hpath : ∀ name ∈ components path, IsName name) :
    i.ignores path = true ↔
      Reserved includeHidden (components path) ∨ ∃ pattern ∈ patterns, Matches pattern path := by
  obtain ⟨globs, hglobs, rfl⟩ := ofPatterns_eq_ok.1 h
  have hhidden : (!includeHidden && isHidden path) = true ↔ includeHidden = false ∧
      ∃ name, (components path).getLast? = some name ∧ name.toList.head? = some '.' := by
    rw [Bool.and_eq_true, Bool.not_eq_true', isHidden_iff hpath]
  unfold ignores Reserved
  rw [Bool.or_eq_true, Bool.or_eq_true, hhidden, any_storeTokens_iff hpath, any_isMatch_iff hglobs]
  exact or_congr_left or_comm

/-- Names that only look like those of stores, and are hidden at most where hidden names are asked
for. -/
theorem not_reserved_of_lookalikes {names : List String}
    (h : ∀ name ∈ names, name ∈ ["my_node_modules", "node_modules.json", "a.git"] ∨
      includeHidden = true ∧ name = ".github") : ¬ Reserved includeHidden names := by
  rintro ((hmem | hmem) | ⟨rfl, name, hlast, hhead⟩)
  · exact absurd (h _ hmem) (by simp)
  · exact absurd (h _ hmem) (by simp)
  · rcases h name (List.mem_of_getLast? hlast) with hname | ⟨hhidden, -⟩
    · simp only [List.mem_cons, List.not_mem_nil, or_false] at hname
      rcases hname with rfl | rfl | rfl <;> exact absurd hhead (by decide)
    · cases hhidden

/-- A path made of names is left out for a name in it, for being hidden, or for a pattern that matches
it. So patterns count as a set, and more of them leave out more. -/
theorem ignores_exact (h : ofPatterns includeHidden patterns = .ok i) {path : String}
    (hpath : ∀ name ∈ components path, IsName name) :
    (i.ignores path = true ↔
      Reserved includeHidden (components path) ∨ ∃ pattern ∈ patterns, Matches pattern path) ∧
    (∀ fewer, fewer ⊆ patterns → ∃ j, ofPatterns includeHidden fewer = .ok j ∧
      (j.ignores path = true → i.ignores path = true) ∧
      (patterns ⊆ fewer → j.ignores path = i.ignores path)) ∧
    (patterns = [] →
      (∀ name ∈ components path, name ∈ ["my_node_modules", "node_modules.json", "a.git"] ∨
        includeHidden = true ∧ name = ".github") → i.ignores path = false) := by
  refine ⟨ignores_iff h hpath, fun fewer hfewer => ?_, ?_⟩
  · have hvalid := exists_ofPatterns_eq_ok.1 ⟨i, h⟩
    obtain ⟨j, hj⟩ := exists_ofPatterns_eq_ok.2 fun pattern hp => hvalid pattern (hfewer hp)
    have hmono : j.ignores path = true → i.ignores path = true := by
      rw [ignores_iff hj hpath, ignores_iff h hpath]
      exact Or.imp_right fun ⟨pattern, hp, hmatches⟩ => ⟨pattern, hfewer hp, hmatches⟩
    refine ⟨j, hj, hmono, fun hmore => Bool.eq_iff_iff.2 ⟨hmono, ?_⟩⟩
    rw [ignores_iff hj hpath, ignores_iff h hpath]
    exact Or.imp_right fun ⟨pattern, hp, hmatches⟩ => ⟨pattern, hmore hp, hmatches⟩
  · rintro rfl hnames
    rw [← Bool.not_eq_true, ignores_iff h hpath]
    rintro (hreserved | ⟨pattern, hp, -⟩)
    · exact not_reserved_of_lookalikes hnames hreserved
    · cases hp

/-- A file below a version store is left out even where hidden files are asked for and no pattern
matches, whatever else stands between its slashes. -/
theorem ignores_storeFile :
    components "src//.git/./config.json" = ["src", ".git", "config.json"] ∧
    ∃ i, ofPatterns true ["**/fixtures/**"] = .ok i ∧
      i.ignores "src//.git/./config.json" = true := by
  have hcomponents : components "src//.git/./config.json" = ["src", ".git", "config.json"] := by
    decide
  have hnames : ∀ name ∈ components "src//.git/./config.json", IsName name := by
    rw [hcomponents]
    simp only [List.forall_mem_cons]
    exact ⟨⟨by decide, by decide, by decide, by decide⟩, ⟨by decide, by decide, by decide, by decide⟩,
      ⟨by decide, by decide, by decide, by decide⟩, by simp⟩
  have hparse : ∃ i, ofPatterns true ["**/fixtures/**"] = .ok i := ⟨_, rfl⟩
  obtain ⟨i, hi⟩ := hparse
  refine ⟨hcomponents, i, hi, (ignores_exact hi hnames).1.2 (.inl ?_)⟩
  rw [hcomponents]
  exact .inl (.inr (by simp))

end Ignore

end TreeOutline
