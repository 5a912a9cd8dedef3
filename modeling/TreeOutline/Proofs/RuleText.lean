import Mathlib.Data.List.TakeWhile
import TreeOutline.Proofs.Callee

/-!
The grammar of rule texts. A text writes a rule (`Writes`), or lacks something that one needs
(`Lacks`), and reading it tells which (`parse_exact`). Blanks are told by the Unicode property, and
so is the case of the kind; yet a kind is written in ASCII letters only, since no other character
has one of its letters as lower case.
-/

namespace TreeOutline

/-! ## Blanks -/

namespace Text

/-- The text is `core` between blanks. -/
def Padded (s core : List Char) : Prop :=
  ∃ before after, s = before ++ core ++ after ∧ (∀ c ∈ before, isBlank c = true) ∧
    ∀ c ∈ after, isBlank c = true

/-- The text is `core` between blanks, and `core` has no blank at its ends. -/
structure Trimmed (s core : List Char) : Prop where
  padded : Padded s core
  first : ∀ c ∈ core.head?, isBlank c = false
  last : ∀ c ∈ core.getLast?, isBlank c = false

variable {s core : List Char}

theorem dropWhile_eq_self {p : Char → Bool} (h : ∀ c ∈ s.head?, p c = false) :
    s.dropWhile p = s := by
  rw [List.dropWhile_eq_self_iff]
  intro hl
  rw [h s[0] (List.head?_eq_getElem? ▸ List.getElem?_eq_getElem hl)]
  exact Bool.false_ne_true

theorem head?_dropWhile {p : Char → Bool} : ∀ c ∈ (s.dropWhile p).head?, p c = false := by
  intro c hc
  have hhead := List.head?_dropWhile_not p s
  rwa [Option.mem_def.1 hc] at hhead

theorem trim_of_padded (h : Padded s core) : trim s = trim core := by
  obtain ⟨before, after, rfl, hbefore, hafter⟩ := h
  unfold trim
  rw [List.append_assoc, List.dropWhile_append_of_pos hbefore, List.dropWhile_append]
  split
  · next hblank =>
    -- the core is blank as well, and so is all the text
    rw [List.isEmpty_iff.1 hblank, List.dropWhile_eq_nil_iff.2 hafter]
  · rw [List.reverse_append, List.dropWhile_append_of_pos]
    intro c hc
    exact hafter c (List.mem_reverse.1 hc)

theorem trimmed_trim (s : List Char) : Trimmed s (trim s) := by
  have hsplit : s.dropWhile isBlank =
      trim s ++ ((s.dropWhile isBlank).reverse.takeWhile isBlank).reverse := by
    rw [trim, ← List.reverse_append, List.takeWhile_append_dropWhile, List.reverse_reverse]
  constructor
  · refine ⟨s.takeWhile isBlank, ((s.dropWhile isBlank).reverse.takeWhile isBlank).reverse, ?_,
      fun c hc => List.mem_takeWhile_imp hc, fun c hc => ?_⟩
    · rw [List.append_assoc, ← hsplit, List.takeWhile_append_dropWhile]
    · exact List.mem_takeWhile_imp (List.mem_reverse.1 hc)
  · intro c hc
    have hmem : c ∈ (s.dropWhile isBlank).head? := by
      rw [hsplit, List.head?_append, Option.mem_def.1 hc]
      rfl
    exact head?_dropWhile c hmem
  · intro c hc
    rw [trim, List.getLast?_reverse] at hc
    exact head?_dropWhile c hc

theorem trim_eq_iff : trim s = core ↔ Trimmed s core := by
  refine ⟨fun h => h ▸ trimmed_trim s, fun h => ?_⟩
  have hlast : ∀ c ∈ core.reverse.head?, isBlank c = false := by
    rw [List.head?_reverse]
    exact h.last
  rw [trim_of_padded h.padded, trim, dropWhile_eq_self h.first, dropWhile_eq_self hlast,
    List.reverse_reverse]

theorem notMem_of_padded {c : Char} (hc : isBlank c = false) (h : Padded s core) :
    c ∈ s ↔ c ∈ core := by
  obtain ⟨before, after, rfl, hbefore, hafter⟩ := h
  have hnot {blanks : List Char} (hall : ∀ d ∈ blanks, isBlank d = true) : c ∉ blanks := by
    intro hmem
    rw [hall c hmem] at hc
    cases hc
  simp [hnot hbefore, hnot hafter]

/-! ## Case -/

/-- The word is the label, any of its letters being a capital one. -/
def Spells (word label : List Char) : Prop :=
  List.Forall₂ (fun c l => c = l ∨ c = l.toUpper) word label

theorem isLower_iff {l : Char} : l.isLower = true ↔ 'a'.val ≤ l.val ∧ l.val ≤ 'z'.val := by
  change (decide ('a'.val ≤ l.val) && decide (l.val ≤ 'z'.val)) = true ↔ _
  rw [Bool.and_eq_true, decide_eq_true_eq, decide_eq_true_eq]

theorem toLower_eq_iff {c l : Char} (hl : l.isLower = true) :
    c.toLower = l ↔ c = l ∨ c = l.toUpper := by
  have hup : ('a'.val - 'A'.val : UInt32) = 32 := rfl
  have hdown : ('A'.val - 'a'.val : UInt32) = 4294967264 := rfl
  have hsmall : 'a'.val ≤ l.val ∧ l.val ≤ 'z'.val := isLower_iff.1 hl
  have hbounds : 97 ≤ l.val.toNat ∧ l.val.toNat ≤ 122 := by
    simpa [UInt32.le_iff_toNat_le] using hsmall
  have hcapital : (c.val ≥ 'A'.val ∧ c.val ≤ 'Z'.val) ↔ 65 ≤ c.val.toNat ∧ c.val.toNat ≤ 90 := by
    simp [UInt32.le_iff_toNat_le]
  unfold Char.toLower Char.toUpper
  rw [dif_pos hsmall]
  split
  · next h =>
    rw [hcapital] at h
    simp only [Char.ext_iff, hup, hdown, ← UInt32.toNat_inj, UInt32.toNat_add, UInt32.reduceToNat]
    omega
  · next h =>
    rw [hcapital] at h
    simp only [Char.ext_iff, hdown, ← UInt32.toNat_inj, UInt32.toNat_add, UInt32.reduceToNat]
    omega

theorem toNat_lt_of_isLower {l : Char} (hl : l.isLower = true) : l.toNat < 128 := by
  have hle : l.val.toNat ≤ 122 := UInt32.le_iff_toNat_le.1 (isLower_iff.1 hl).2
  change l.val.toNat < 128
  omega

theorem toNat_lt_of_toLower {c : Char} (h : c.toLower.toNat < 128) : c.toNat < 128 := by
  unfold Char.toLower at h
  split at h
  · next hcapital =>
    have hle : c.val.toNat ≤ 90 := UInt32.le_iff_toNat_le.1 hcapital.2
    change c.val.toNat < 128
    omega
  · exact h

/-- Only ASCII characters have a lower case in ASCII, if it is not that of the sign for kelvin. -/
theorem lowerChar_eq_toLower {c : Char} (h : ∀ d ∈ lowerChar c, d.toNat < 128 ∧ d ≠ 'k') :
    lowerChar c = [c.toLower] := by
  rcases Nat.lt_or_ge c.toNat 128 with hc | hc
  · exact lowerChar_ascii hc
  · rcases lowerChar_beyond hc with hk | ⟨d, hd, hbeyond⟩
    · exact absurd rfl (h 'k' (by rw [hk]; exact List.mem_singleton_self _)).2
    · exact absurd (h d hd).1 (Nat.not_lt.2 hbeyond)

/-- Words of small letters other than k are spelled in ASCII letters only. -/
theorem lower_eq_iff {word label : List Char} (hlabel : ∀ l ∈ label, l.isLower = true ∧ l ≠ 'k') :
    lower word = label ↔ Spells word label := by
  refine ⟨fun h => ?_, fun h => ?_⟩
  -- a character may have more than one in lower case, so the word tells where the label is cut
  · induction word generalizing label with
    | nil =>
      subst h
      exact .nil
    | cons c word ih =>
      subst h
      have hc : lowerChar c = [c.toLower] := by
        refine lowerChar_eq_toLower fun d hd => ?_
        obtain ⟨hd, hk⟩ := hlabel d (List.mem_append_left _ hd)
        exact ⟨toNat_lt_of_isLower hd, hk⟩
      have hlower : lower (c :: word) = c.toLower :: lower word := by
        rw [lower, List.flatMap_cons, hc]
        rfl
      rw [hlower] at hlabel ⊢
      obtain ⟨hl, -⟩ := hlabel _ List.mem_cons_self
      have hrest := fun l hl => hlabel l (List.mem_cons_of_mem _ hl)
      exact .cons ((toLower_eq_iff hl).1 rfl) (ih hrest rfl)
  · induction h with
    | nil => rfl
    | @cons c l word label hc _ ih =>
      obtain ⟨hl, -⟩ := hlabel l List.mem_cons_self
      have hc : c.toLower = l := (toLower_eq_iff hl).2 hc
      have hascii : c.toNat < 128 := toNat_lt_of_toLower (hc ▸ toNat_lt_of_isLower hl)
      have ih : lower word = label := ih fun l hl => hlabel l (List.mem_cons_of_mem _ hl)
      rw [lower, List.flatMap_cons, lowerChar_ascii hascii, hc, ← ih]
      rfl

end Text

/-! ## Rules -/

namespace Recognizer

open Text Traversal

/-- The text has its first `=` between two parts which, without the blanks around them, are `callee`
and `word`. -/
def Halves (text callee word : String) : Prop :=
  ∃ left right, text = left ++ "=" ++ right ∧ '=' ∉ left.toList ∧
    Trimmed left.toList callee.toList ∧ Trimmed right.toList word.toList

/-- The text writes the rule. -/
def Writes (text : String) (rule : Rule) : Prop :=
  ∃ word, Halves text (rule.scope ++ "." ++ rule.member) word ∧ rule.scope ≠ "" ∧
    rule.member ≠ "" ∧ '.' ∉ rule.member.toList ∧ Spells word.toList rule.kind.label.toList

/-- What keeps a text from writing a rule. -/
inductive Lacks (text : String) : RuleCause → Prop
  | noKind (h : '=' ∉ text.toList) : Lacks text .noKind
  | noDot {callee word : String} (h : Halves text callee word) (hdot : '.' ∉ callee.toList) :
    Lacks text .noDot
  | emptyName {scope member word : String} (h : Halves text (scope ++ "." ++ member) word)
    (hdot : '.' ∉ member.toList) (hempty : scope = "" ∨ member = "") : Lacks text .emptyName
  | badKind {scope member word : String} (h : Halves text (scope ++ "." ++ member) word)
    (hdot : '.' ∉ member.toList) (hscope : scope ≠ "") (hmember : member ≠ "")
    (hkind : ∀ kind : Kind, ¬ Spells word.toList kind.label.toList) : Lacks text .badKind

theorem ofLabel?_eq_some {word : List Char} {kind : Kind} :
    Kind.ofLabel? word = some kind ↔ Spells word kind.label.toList := by
  have hlabel : ∀ l ∈ kind.label.toList, l.isLower = true ∧ l ≠ 'k' := by
    have hall : (kind.label.toList.all fun l => l.isLower && l != 'k') = true := by
      cases kind <;> rfl
    simpa using hall
  rw [← lower_eq_iff hlabel]
  unfold Kind.ofLabel?
  refine ⟨fun h => ?_, fun h => ?_⟩
  · split_ifs at h with hclass hinterface
    · cases h
      exact hclass
    · cases h
      exact hinterface
  · rw [h]
    cases kind <;> rfl

theorem ofLabel?_eq_none {word : List Char} :
    Kind.ofLabel? word = none ↔ ∀ kind : Kind, ¬ Spells word kind.label.toList := by
  simp only [Option.eq_none_iff_forall_ne_some, ne_eq, ofLabel?_eq_some]

theorem halves_iff {text callee word : String} :
    Halves text callee word ↔ ∃ left right, cutFirst '=' text.toList = some (left, right) ∧
      trim left = callee.toList ∧ trim right = word.toList := by
  simp only [cutFirst_eq_some, trim_eq_iff]
  refine ⟨fun h => ?_, fun h => ?_⟩
  · obtain ⟨left, right, rfl, hleft, hcallee, hword⟩ := h
    exact ⟨left.toList, right.toList, ⟨by simp, hleft⟩, hcallee, hword⟩
  · obtain ⟨left, right, ⟨htext, hleft⟩, hcallee, hword⟩ := h
    refine ⟨String.ofList left, String.ofList right, String.toList_injective ?_, ?_⟩
    · simpa using htext
    · simpa using ⟨hleft, hcallee, hword⟩

/-! ## Reading -/

variable {text callee word : String} {rule : Rule} {cause : RuleCause}

theorem parse_eq_ok_iff : Rule.parse text = .ok rule ↔ Writes text rule := by
  rw [Rule.parse_eq_ok, Rule.read_eq_ok]
  simp only [cutLast_eq_some, ofLabel?_eq_some]
  refine ⟨fun h => ?_, fun h => ?_⟩
  · obtain ⟨left, right, hcut, ⟨hcallee, hdot⟩, hscope, hmember, hkind⟩ := h
    have hhalves : Halves text (rule.scope ++ "." ++ rule.member) (String.ofList (trim right)) :=
      halves_iff.2 ⟨left, right, hcut, by simp [hcallee], by simp⟩
    exact ⟨_, hhalves, hscope, hmember, hdot, by simpa using hkind⟩
  · obtain ⟨word, hhalves, hscope, hmember, hdot, hkind⟩ := h
    obtain ⟨left, right, hcut, hcallee, hword⟩ := halves_iff.1 hhalves
    exact ⟨left, right, hcut, ⟨by simp [hcallee], hdot⟩, hscope, hmember, hword ▸ hkind⟩

/-- Where the callee has a dot, it is read as what stands before and after its last one. -/
theorem read_of_halves {scope member : String} (h : Halves text (scope ++ "." ++ member) word)
    (hdot : '.' ∉ member.toList) :
    Rule.read text.toList =
      if scope = "" ∨ member = "" then .error .emptyName
      else
        match Kind.ofLabel? word.toList with
        | none => .error .badKind
        | some kind => .ok ⟨scope, member, kind⟩ := by
  obtain ⟨left, right, hcut, hcallee, hword⟩ := halves_iff.1 h
  have hlast : cutLast '.' (trim left) = some (scope.toList, member.toList) :=
    cutLast_eq_some.2 ⟨by simp [hcallee], hdot⟩
  unfold Rule.read
  rw [hcut]
  dsimp only
  rw [hlast]
  dsimp only
  rw [String.ofList_toList, String.ofList_toList, hword]
  exact if_congr (or_congr String.toList_eq_nil_iff String.toList_eq_nil_iff) rfl rfl

theorem read_eq_error_iff : Rule.read text.toList = .error cause ↔ Lacks text cause := by
  refine ⟨fun h => ?_, fun h => ?_⟩
  · unfold Rule.read at h
    split at h
    · next hcut =>
      cases h
      exact .noKind (cutFirst_eq_none.1 hcut)
    · next left right hcut =>
      have hhalves {callee : String} (hcallee : trim left = callee.toList) :
          Halves text callee (String.ofList (trim right)) :=
        halves_iff.2 ⟨left, right, hcut, hcallee, by simp⟩
      split at h
      · next hlast =>
        cases h
        exact .noDot (hhalves (String.toList_ofList).symm) (by simpa using cutLast_eq_none.1 hlast)
      · next scope member hlast =>
        obtain ⟨hcallee, hdot⟩ := cutLast_eq_some.1 hlast
        have hhalves : Halves text (String.ofList scope ++ "." ++ String.ofList member) _ :=
          hhalves (by simp [hcallee])
        split at h
        · next hempty =>
          cases h
          exact .emptyName hhalves (by simpa using hdot) (by simpa using hempty)
        · next hempty =>
          rw [not_or] at hempty
          split at h
          · next hkind =>
            cases h
            exact .badKind hhalves (by simpa using hdot) (by simpa using hempty.1)
              (by simpa using hempty.2) (by simpa using ofLabel?_eq_none.1 hkind)
          · cases h
  · cases h with
    | noKind h => rw [Rule.read, cutFirst_eq_none.2 h]
    | noDot h hdot =>
      obtain ⟨left, right, hcut, hcallee, -⟩ := halves_iff.1 h
      unfold Rule.read
      rw [hcut]
      dsimp only
      rw [hcallee, cutLast_eq_none.2 hdot]
    | emptyName h hdot hempty => rw [read_of_halves h hdot, if_pos hempty]
    | badKind h hdot hscope hmember hkind =>
      rw [read_of_halves h hdot, if_neg (not_or.2 ⟨hscope, hmember⟩), ofLabel?_eq_none.2 hkind]

theorem parse_eq_error_iff {e : RuleError} :
    Rule.parse text = .error e ↔ e.text = text ∧ Lacks text e.cause := by
  rw [← read_eq_error_iff]
  unfold Rule.parse
  obtain ⟨text', cause⟩ := e
  cases Rule.read text.toList with
  | ok rule => simp
  | error c => simp [eq_comm]

/-! ## Other texts of a rule -/

/-- Nothing but the callee and the word between the blanks is read. -/
theorem read_congr {text' : String} (h : Halves text callee word) (h' : Halves text' callee word) :
    Rule.read text.toList = Rule.read text'.toList := by
  obtain ⟨left, right, hcut, hcallee, hword⟩ := halves_iff.1 h
  obtain ⟨left', right', hcut', hcallee', hword'⟩ := halves_iff.1 h'
  unfold Rule.read
  rw [hcut, hcut']
  dsimp only
  rw [hcallee, hcallee', hword, hword']

theorem halves_of_padded {left right x y : String} (hx : '=' ∉ x.toList)
    (hleft : Padded left.toList x.toList) (hright : Padded right.toList y.toList) :
    Halves (left ++ "=" ++ right) (String.ofList (trim x.toList)) (String.ofList (trim y.toList)) := by
  refine ⟨left, right, rfl, fun hmem => ?_, ?_, ?_⟩
  · exact hx ((notMem_of_padded (by decide) hleft).1 hmem)
  · rw [String.toList_ofList, ← trim_eq_iff, trim_of_padded hleft]
  · rw [String.toList_ofList, ← trim_eq_iff, trim_of_padded hright]

theorem writes_text (h : Writes text rule) : Writes rule.text rule := by
  obtain ⟨word, ⟨left, right, rfl, hleft, hcallee, -⟩, hscope, hmember, hdot, -⟩ := h
  -- the callee stands in the part before the first `=`, so it has none
  have hnot : '=' ∉ (rule.scope ++ "." ++ rule.member).toList := fun hmem =>
    hleft ((notMem_of_padded (by decide) hcallee.padded).2 hmem)
  have hself (s : List Char) : Padded s s := ⟨[], [], by simp, by simp, by simp⟩
  have hlabel : Trimmed rule.kind.label.toList rule.kind.label.toList :=
    ⟨hself _, by cases rule.kind <;> exact fun _ hc => Option.some.inj hc ▸ rfl,
      by cases rule.kind <;> exact fun _ hc => Option.some.inj hc ▸ rfl⟩
  refine ⟨rule.kind.label, ⟨_, _, rfl, hnot, ⟨hself _, hcallee.first, hcallee.last⟩, hlabel⟩, hscope,
    hmember, hdot, ?_⟩
  exact List.forall₂_same.2 fun l _ => .inl rfl

/-- A text is read as a rule exactly if it writes the rule, and else as what it lacks. The text that a
rule has of its own is read as that rule again, and blanks around the callee and the kind of a rule
may be put there or taken away. -/
theorem parse_exact (text : String) :
    (∀ rule, Rule.parse text = .ok rule ↔ Writes text rule) ∧
    (∀ e, Rule.parse text = .error e ↔ e.text = text ∧ Lacks text e.cause) ∧
    (∀ rule, Rule.parse text = .ok rule → Rule.parse rule.text = .ok rule) ∧
    (∀ (left right left' right' callee word : String) (rule : Rule),
      text = left ++ "=" ++ right → '=' ∉ callee.toList →
      Padded left.toList callee.toList → Padded left'.toList callee.toList →
      Padded right.toList word.toList → Padded right'.toList word.toList →
      Rule.parse text = .ok rule → Rule.parse (left' ++ "=" ++ right') = .ok rule) := by
  refine ⟨fun rule => parse_eq_ok_iff, fun e => parse_eq_error_iff, fun rule h => ?_, ?_⟩
  · exact parse_eq_ok_iff.2 (writes_text (parse_eq_ok_iff.1 h))
  · intro left right left' right' callee word rule htext hcallee hleft hleft' hright hright' h
    subst htext
    rw [Rule.parse_eq_ok] at h ⊢
    rw [← h]
    exact read_congr (halves_of_padded hcallee hleft' hright') (halves_of_padded hcallee hleft hright)

theorem parse_paddedRule :
    Rule.parse "\u2003a..B =\tInterFace\n" = .ok ⟨"a.", "B", .interfaceCall⟩ ∧
      Rule.parse "a..B=interface" = .ok ⟨"a.", "B", .interfaceCall⟩ ∧
      Rule.parse "a..B= InterFace" = .ok ⟨"a.", "B", .interfaceCall⟩ := by
  have hparse : Rule.parse "\u2003a..B =\tInterFace\n" = .ok ⟨"a.", "B", .interfaceCall⟩ := by decide
  obtain ⟨-, -, hrewrite, hblanks⟩ := parse_exact "\u2003a..B =\tInterFace\n"
  refine ⟨hparse, hrewrite _ hparse, ?_⟩
  exact hblanks "\u2003a..B " "\tInterFace\n" "a..B" " InterFace" "a..B" "InterFace" _ rfl (by decide)
    ⟨['\u2003'], [' '], rfl, List.forall_mem_singleton.2 rfl, List.forall_mem_singleton.2 rfl⟩
    ⟨[], [], rfl, List.forall_mem_nil _, List.forall_mem_nil _⟩
    ⟨['\t'], ['\n'], rfl, List.forall_mem_singleton.2 rfl, List.forall_mem_singleton.2 rfl⟩
    ⟨[' '], [], rfl, List.forall_mem_singleton.2 rfl, List.forall_mem_nil _⟩ hparse

end Recognizer

end TreeOutline
