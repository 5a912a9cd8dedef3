import Mathlib.Data.List.Infix
import TreeOutline.Proofs.Listing
import TreeOutline.Proofs.PathNames
import TreeOutline.Proofs.Traversal
import TreeOutline.Scan.Basic

/-!
What a walk finds. Its files come by the order of their trails, whatever links it follows
(`files_ascends`). If these lead to nothing that counts, it finds the files all of whose names count
(`files_eq_ok`). A link that leads nowhere, or to
a directory that the walk is in, ends it even if its own name does not count (`files_eq_error`,
`Fault`).
-/

namespace TreeOutline

namespace Walk

open Traversal

variable {w : Walk} {hop : Hop} {place : Place} {trail t : Trail} {name : String} {e : Entry}
  {es : List (String × Entry)} {P : String → Prop}

/-- The directories that a walk from a place is in when it looks at what is in the last one. -/
def entered (place : Place) (trail : Trail) : List Ancestor :=
  trail.inits.reverse.map fun lead => (place ++ lead, lead)

theorem entered_concat (place : Place) (trail : Trail) (name : String) :
    entered place (trail ++ [name]) =
      (place ++ (trail ++ [name]), trail ++ [name]) :: entered place trail := by
  simp [entered, List.inits_append]

/-! ## Below one entry -/

/-- The names on a way down from a trail count. -/
def Kept (w : Walk) (trail : Trail) (way : Place) : Prop :=
  ∀ lead, lead <+: way → w.keeps (Trail.text (trail ++ lead)) = true

theorem kept_cons {way : Place} :
    w.Kept trail (name :: way) ↔ w.keeps trail.text = true ∧ w.Kept (trail ++ [name]) way := by
  unfold Kept
  refine ⟨fun h => ⟨?_, fun lead hlead => ?_⟩, fun h lead hlead => ?_⟩
  · have hnil := h [] (by simp)
    rwa [List.append_nil] at hnil
  · have hcons := h (name :: lead) (List.cons_prefix_cons.2 ⟨rfl, hlead⟩)
    rwa [List.append_assoc]
  · rcases List.prefix_cons_iff.1 hlead with rfl | ⟨lead', rfl, hlead'⟩
    · rw [List.append_nil]
      exact h.1
    · have htail := h.2 lead' hlead'
      rwa [List.append_assoc] at htail

/-- The trail of a file that counts, from an entry down. -/
def Finds (w : Walk) (trail : Trail) (e : Entry) (t : Trail) : Prop :=
  ∃ way content, t = trail ++ way ∧ e.at? way = some (.file content) ∧ w.Kept trail way

theorem finds_file {content : ByteArray} :
    w.Finds trail (.file content) t ↔ t = trail ∧ w.keeps trail.text = true := by
  refine ⟨fun h => ?_, fun h => ?_⟩
  · obtain ⟨way, content', rfl, hfile, hkept⟩ := h
    cases way with
    | nil =>
      have hnil := hkept [] (by simp)
      rw [List.append_nil] at hnil ⊢
      exact ⟨rfl, hnil⟩
    | cons name way => cases hfile
  · obtain ⟨rfl, hkeeps⟩ := h
    refine ⟨[], content, by simp, rfl, fun lead hlead => ?_⟩
    rw [List.prefix_nil.1 hlead, List.append_nil]
    exact hkeeps

theorem not_finds_link {target : String} : ¬ w.Finds trail (.link target) t := by
  rintro ⟨way, content, rfl, hfile, -⟩
  cases way <;> cases hfile

theorem finds_directory (hs : Keyed.Sorted es) :
    w.Finds trail (.directory es) t ↔
      w.keeps trail.text = true ∧ ∃ name e, (name, e) ∈ es ∧ w.Finds (trail ++ [name]) e t := by
  refine ⟨fun h => ?_, fun h => ?_⟩
  · obtain ⟨way, content, rfl, hfile, hkept⟩ := h
    cases way with
    | nil => cases hfile
    | cons name way =>
      obtain ⟨es', child, hes, hchild, hfile⟩ := Entry.at?_cons_of_isSome hfile
      cases hes
      obtain ⟨hkeeps, hkept⟩ := kept_cons.1 hkept
      exact ⟨hkeeps, name, child, Keyed.mem_of_lookup hchild, way, content, by simp, hfile, hkept⟩
  · obtain ⟨hkeeps, name, child, hmem, way, content, rfl, hfile, hkept⟩ := h
    refine ⟨name :: way, content, by simp, ?_, kept_cons.2 ⟨hkeeps, hkept⟩⟩
    rw [Entry.at?, Entry.entries, hs.lookup_eq_some.2 hmem]
    exact hfile

/-- Each link that a walk would follow below an entry leads to nothing that counts. -/
def Quiet (w : Walk) (hop : Hop) (place : Place) (trail : Trail) (e : Entry) : Prop :=
  ∀ way target, e.at? way = some (.link target) →
    (∀ lead, lead <+: way → lead ≠ way → w.keeps (Trail.text (trail ++ lead)) = true) →
    w.followLinks = true → hop (trail ++ way) (entered place (trail ++ way).dropLast) = .ok []

theorem Quiet.of_mem (h : w.Quiet hop place trail (.directory es)) (hs : Keyed.Sorted es)
    (hkeeps : w.keeps trail.text = true) (hmem : (name, e) ∈ es) :
    w.Quiet hop place (trail ++ [name]) e := by
  intro way target hlink hkept hfollow
  have hway : Entry.at? (name :: way) (.directory es) = some (.link target) := by
    rw [Entry.at?, Entry.entries, hs.lookup_eq_some.2 hmem]
    exact hlink
  have hhop := h (name :: way) target hway ?_ hfollow
  · simpa using hhop
  · intro lead hlead hne
    rcases List.prefix_cons_iff.1 hlead with rfl | ⟨lead', rfl, hlead'⟩
    · rwa [List.append_nil]
    · have htail := hkept lead' hlead' fun heq => hne (by rw [heq])
      rwa [List.append_assoc] at htail

/-! ## The order of trails -/

/-- Trails that lead on from one trail, in order and by names of one kind. -/
structure Ascends (P : String → Prop) (trail : Trail) (ts : List Trail) : Prop where
  leads : ∀ t ∈ ts, ∃ way, t = trail ++ way ∧ ∀ name ∈ way, P name
  sorted : ts.Pairwise (· < ·)

theorem ascends_nil : Ascends P trail [] :=
  ⟨by simp, .nil⟩

theorem ascends_leaf : Ascends P trail (w.leaf trail) := by
  unfold leaf
  split
  · exact ⟨fun t ht => ⟨[], by simpa using ht, by simp⟩, List.pairwise_singleton ..⟩
  · exact ascends_nil

/-- Trails through one name, and then trails through later ones. -/
theorem Ascends.append {ts us : List Trail} (hts : Ascends P (trail ++ [name]) ts) (hname : P name)
    (hus : Ascends P trail us)
    (hlater : ∀ u ∈ us, ∃ name' way, u = trail ++ name' :: way ∧ name < name') :
    Ascends P trail (ts ++ us) := by
  refine ⟨fun t ht => ?_, List.pairwise_append.2 ⟨hts.sorted, hus.sorted, fun t ht u hu => ?_⟩⟩
  · rcases List.mem_append.1 ht with ht | ht
    · obtain ⟨way, rfl, hway⟩ := hts.leads t ht
      exact ⟨name :: way, by simp, List.forall_mem_cons.2 ⟨hname, hway⟩⟩
    · exact hus.leads t ht
  · obtain ⟨way, rfl, -⟩ := hts.leads t ht
    obtain ⟨name', way', rfl, hlt⟩ := hlater u hu
    rw [List.append_assoc]
    apply List.append_left_lt
    exact List.cons_lt_cons_iff.2 (.inl hlt)

mutual

theorem below_ascends
    (hhop : ∀ trail ancestors ts, hop trail ancestors = .ok ts → Ascends P trail ts) :
    ∀ (e : Entry), e.Ordered → e.AllNames P → ∀ trail place ancestors ts,
      below w hop trail place ancestors e = .ok ts → Ascends P trail ts
  | .file content, _, _, trail, place, ancestors, ts, h => by
    rw [below] at h
    cases h
    exact ascends_leaf
  | .link target, _, _, trail, place, ancestors, ts, h => by
    rw [below] at h
    split at h
    · exact hhop _ _ _ h
    · cases h
      exact ascends_nil
  | .directory es, hordered, hnames, trail, place, ancestors, ts, h => by
    rw [below] at h
    split at h
    · exact (belowAll_ascends hhop es (hordered [] es rfl)
        (fun n x hx => ⟨hnames.of_mem (hordered [] es rfl) hx, hordered.of_mem hx⟩) _ _ _ _ h).1
    · cases h
      exact ascends_nil

theorem belowAll_ascends
    (hhop : ∀ trail ancestors ts, hop trail ancestors = .ok ts → Ascends P trail ts) :
    ∀ (es : List (String × Entry)), Keyed.Sorted es →
      (∀ name e, (name, e) ∈ es → (P name ∧ e.AllNames P) ∧ e.Ordered) →
      ∀ trail place ancestors ts, belowAll w hop trail place ancestors es = .ok ts →
        Ascends P trail ts ∧ ∀ t ∈ ts, ∃ name e way, (name, e) ∈ es ∧ t = trail ++ name :: way
  | [], _, _, trail, place, ancestors, ts, h => by
    rw [belowAll] at h
    cases h
    exact ⟨ascends_nil, by simp⟩
  | (name, e) :: rest, hs, hes, trail, place, ancestors, ts, h => by
    obtain ⟨hfirst, hrest⟩ := List.pairwise_cons.1 hs
    obtain ⟨⟨hname, hnames⟩, hordered⟩ := hes name e List.mem_cons_self
    rw [belowAll] at h
    obtain ⟨first, hbelow, h⟩ := bind_eq_ok.1 h
    obtain ⟨others, hothers, h⟩ := bind_eq_ok.1 h
    cases h
    have hascends := below_ascends hhop e hordered hnames _ _ _ _ hbelow
    obtain ⟨hascends', hfrom⟩ := belowAll_ascends hhop rest hrest
      (fun n x hx => hes n x (List.mem_cons_of_mem _ hx)) _ _ _ _ hothers
    refine ⟨hascends.append hname hascends' fun u hu => ?_, fun t ht => ?_⟩
    · obtain ⟨n, x, way, hx, rfl⟩ := hfrom u hu
      exact ⟨n, way, rfl, hfirst (n, x) hx⟩
    · rcases List.mem_append.1 ht with ht | ht
      · obtain ⟨way, rfl, -⟩ := hascends.leads t ht
        exact ⟨name, e, way, List.mem_cons_self, by simp⟩
      · obtain ⟨n, x, way, hx, rfl⟩ := hfrom t ht
        exact ⟨n, x, way, List.mem_cons_of_mem _ hx, rfl⟩

end

/-! ## What a quiet walk finds -/

mutual

theorem below_eq_ok (trail : Trail) (name : String) : ∀ (e : Entry), e.Ordered →
    w.Quiet hop place (trail ++ [name]) e →
    ∃ ts, below w hop (trail ++ [name]) (place ++ (trail ++ [name])) (entered place trail) e = .ok ts ∧
      ∀ t, t ∈ ts ↔ w.Finds (trail ++ [name]) e t
  | .file content, _, _ => by
    refine ⟨w.leaf (trail ++ [name]), by rw [below], fun t => ?_⟩
    rw [finds_file]
    unfold leaf
    split <;> simp_all
  | .link target, _, hquiet => by
    refine ⟨[], ?_, fun t => ?_⟩
    · rw [below]
      split
      · next hfollow =>
        have hhop := hquiet [] target rfl ?_ hfollow
        · simpa using hhop
        · intro lead hlead hne
          exact absurd (List.prefix_nil.1 hlead) hne
      · rfl
    · simp [not_finds_link]
  | .directory es, hordered, hquiet => by
    have hs : Keyed.Sorted es := hordered [] es rfl
    rw [below]
    by_cases hkeeps : w.keeps (Trail.text (trail ++ [name])) = true
    · rw [if_pos hkeeps, ← entered_concat]
      obtain ⟨ts, hts, hmem⟩ := belowAll_eq_ok (trail ++ [name]) es hs fun n e hne =>
        ⟨hordered.of_mem hne, hquiet.of_mem hs hkeeps hne⟩
      refine ⟨ts, hts, fun t => ?_⟩
      rw [hmem, finds_directory hs]
      simp [hkeeps]
    · rw [if_neg hkeeps]
      refine ⟨[], rfl, fun t => ?_⟩
      rw [finds_directory hs]
      simp [hkeeps]

theorem belowAll_eq_ok (trail : Trail) : ∀ (es : List (String × Entry)), Keyed.Sorted es →
    (∀ name e, (name, e) ∈ es → e.Ordered ∧ w.Quiet hop place (trail ++ [name]) e) →
    ∃ ts, belowAll w hop trail (place ++ trail) (entered place trail) es = .ok ts ∧
      ∀ t, t ∈ ts ↔ ∃ name e, (name, e) ∈ es ∧ w.Finds (trail ++ [name]) e t
  | [], _, _ => ⟨[], by rw [belowAll], by simp⟩
  | (name, e) :: rest, hs, hes => by
    obtain ⟨-, hrest⟩ := List.pairwise_cons.1 hs
    obtain ⟨hordered, hquiet⟩ := hes name e (by simp)
    obtain ⟨ts, hts, hmem⟩ := below_eq_ok trail name e hordered hquiet
    obtain ⟨us, hus, hmem'⟩ := belowAll_eq_ok trail rest hrest fun n x hx =>
      hes n x (List.mem_cons_of_mem _ hx)
    refine ⟨ts ++ us, ?_, fun t => ?_⟩
    · rw [belowAll, List.append_assoc, hts, hus]
      rfl
    · rw [List.mem_append, hmem, hmem']
      simp only [List.mem_cons, Prod.mk.injEq]
      refine ⟨fun h => ?_, fun h => ?_⟩
      · rcases h with h | ⟨n, x, hx, h⟩
        · exact ⟨name, e, .inl ⟨rfl, rfl⟩, h⟩
        · exact ⟨n, x, .inr hx, h⟩
      · obtain ⟨n, x, ⟨rfl, rfl⟩ | hx, h⟩ := h
        · exact .inl h
        · exact .inr ⟨n, x, hx, h⟩

end

/-! ## Links that end a walk -/

theorem quiet_of_no_link (h : ∀ way target, e.at? way ≠ some (.link target)) :
    w.Quiet hop place trail e :=
  fun way target hlink => absurd hlink (h way target)

/-- The only links of the entries of a directory are below one of them. -/
theorem belowAll_eq_error {err : WalkError} (hs : Keyed.Sorted es) (hmem : (name, e) ∈ es)
    (hordered : ∀ n x, (n, x) ∈ es → x.Ordered)
    (hother : ∀ n x, (n, x) ∈ es → n ≠ name → ∀ way target, x.at? way ≠ some (.link target))
    (herror : below w hop (trail ++ [name]) (place ++ (trail ++ [name])) (entered place trail) e =
      .error err) :
    belowAll w hop trail (place ++ trail) (entered place trail) es = .error err := by
  induction es with
  | nil => cases hmem
  | cons m rest ih =>
    obtain ⟨n, x⟩ := m
    obtain ⟨hfirst, hrest⟩ := List.pairwise_cons.1 hs
    rw [belowAll, List.append_assoc]
    rcases List.mem_cons.1 hmem with heq | hmem
    · cases heq
      rw [herror]
      rfl
    · have hne : n ≠ name := String.ne_of_lt (hfirst (name, e) hmem)
      have hno := hother n x (by simp) hne
      obtain ⟨ts, hts, -⟩ := below_eq_ok trail n x (hordered n x (by simp)) (quiet_of_no_link hno)
      rw [hts, ih hrest hmem (fun n x hx => hordered n x (List.mem_cons_of_mem _ hx))
        fun n x hx => hother n x (List.mem_cons_of_mem _ hx)]
      rfl

theorem below_eq_error {way : Place} {target : String} {err : WalkError} (hordered : e.Ordered)
    (hlink : e.at? way = some (.link target))
    (honly : ∀ other target, e.at? other = some (.link target) → other = way)
    (hkept : ∀ lead, lead <+: way → lead ≠ way →
      w.keeps (Trail.text (trail ++ [name] ++ lead)) = true)
    (hfollow : w.followLinks = true)
    (hhop : hop (trail ++ [name] ++ way) (entered place (trail ++ [name] ++ way).dropLast) =
      .error err) :
    below w hop (trail ++ [name]) (place ++ (trail ++ [name])) (entered place trail) e =
      .error err := by
  induction way generalizing trail name e with
  | nil =>
    obtain rfl : e = .link target := Option.some.inj hlink
    rw [below, if_pos hfollow]
    simpa using hhop
  | cons n rest ih =>
    obtain ⟨es, child, rfl, hchild, hlink⟩ := Entry.at?_cons_of_isSome hlink
    have hs : Keyed.Sorted es := hordered [] es rfl
    have hmem := Keyed.mem_of_lookup hchild
    have hkeeps : w.keeps (Trail.text (trail ++ [name])) = true := by
      have hnil := hkept [] (by simp) (by simp)
      rwa [List.append_nil] at hnil
    have hdown {m : String} {x : Entry} (hx : (m, x) ∈ es) {other : Place} {t : String}
        (ht : x.at? other = some (.link t)) : m :: other = n :: rest := by
      apply honly (m :: other) t
      rw [Entry.at?, Entry.entries, hs.lookup_eq_some.2 hx]
      exact ht
    rw [below, if_pos hkeeps, ← entered_concat]
    apply belowAll_eq_error hs hmem fun m x hx => hordered.of_mem hx
    · intro m x hx hne other t ht
      exact hne (List.cons.inj (hdown hx ht)).1
    · apply ih (hordered.of_mem hmem) hlink
      · intro other t ht
        exact (List.cons.inj (hdown hmem ht)).2
      · intro lead hlead hne
        have htail := hkept (n :: lead) (List.cons_prefix_cons.2 ⟨rfl, hlead⟩)
          fun heq => hne (List.cons.inj heq).2
        simpa using htail
      · simpa using hhop

/-! ## Below a place -/

/-- The trail of a file below a place, all of whose names count. -/
structure Reaches (w : Walk) (place : Place) (trail : Trail) : Prop where
  notRoot : trail ≠ []
  file : ∃ content, w.fs.at? (place ++ trail) = some (.file content)
  kept : ∀ lead, lead ≠ [] → lead <+: trail → w.keeps (Trail.text lead) = true

theorem sorted_entriesAt (hw : w.fs.top.Ordered) : Keyed.Sorted (w.entriesAt place) := by
  unfold entriesAt
  cases h : w.fs.at? place with
  | none => exact .nil
  | some e =>
    cases e with
    | directory es => exact hw place es h
    | file => exact .nil
    | link => exact .nil

theorem mem_entriesAt (hw : w.fs.top.Ordered) :
    (name, e) ∈ w.entriesAt place ↔ w.fs.at? (place ++ [name]) = some e := by
  rw [← (sorted_entriesAt hw).lookup_eq_some, FileSystem.at?, Entry.at?_append, entriesAt,
    FileSystem.at?]
  cases h : Entry.at? place w.fs.top with
  | none => simp [Entry.entries]
  | some e₀ => simp [Entry.at?]

theorem at?_of_mem_entriesAt (hw : w.fs.top.Ordered) (hmem : (name, e) ∈ w.entriesAt place)
    (way : Place) : w.fs.at? (place ++ name :: way) = e.at? way := by
  have hplace := (mem_entriesAt hw).1 hmem
  rw [FileSystem.at?] at hplace
  rw [List.append_cons, FileSystem.at?, Entry.at?_append, hplace]
  rfl

theorem ordered_of_mem_entriesAt (hw : w.fs.top.Ordered) (hmem : (name, e) ∈ w.entriesAt place) :
    e.Ordered :=
  fun way es hes => hw (place ++ name :: way) es ((at?_of_mem_entriesAt hw hmem way).trans hes)

theorem allNames_of_mem_entriesAt (hw : w.fs.top.Ordered) (hnames : w.fs.top.AllNames P)
    (hmem : (name, e) ∈ w.entriesAt place) : P name ∧ e.AllNames P := by
  refine ⟨hnames _ _ ((mem_entriesAt hw).1 hmem) name (by simp), fun way x hx n hn => ?_⟩
  exact hnames _ _ ((at?_of_mem_entriesAt hw hmem way).trans hx) n (by simp [hn])

/-- The entries of any directory, through whatever link a walk came to it. -/
theorem belowAll_entriesAt_ascends (hw : w.fs.top.Ordered) (hnames : w.fs.top.AllNames P)
    (hhop : ∀ trail ancestors ts, hop trail ancestors = .ok ts → Ascends P trail ts)
    {ancestors : List Ancestor} {ts : List Trail}
    (h : belowAll w hop trail place ancestors (w.entriesAt place) = .ok ts) :
    Ascends P trail ts ∧
      ∀ t ∈ ts, ∃ name e way, (name, e) ∈ w.entriesAt place ∧ t = trail ++ name :: way :=
  belowAll_ascends hhop _ (sorted_entriesAt hw) (fun _ _ hmem =>
    ⟨allNames_of_mem_entriesAt hw hnames hmem, ordered_of_mem_entriesAt hw hmem⟩) _ _ _ _ h

theorem follow_ascends (hw : w.fs.top.Ordered) (hnames : w.fs.top.AllNames P) (steps : Nat) :
    ∀ trail ancestors ts, w.follow steps trail ancestors = .ok ts → Ascends P trail ts := by
  induction steps with
  | zero =>
    intro trail ancestors ts h
    cases h
    exact ascends_nil
  | succ steps ih =>
    intro trail ancestors ts h
    rw [follow] at h
    split at h
    · cases h
    · cases h
      exact ascends_leaf
    · split at h
      · cases h
      · split at h
        · exact (belowAll_entriesAt_ascends hw hnames ih h).1
        · cases h
          exact ascends_nil

/-- The files of a walk are in order, be links followed or not. -/
theorem files_ascends (hw : w.fs.top.Ordered) (hnames : w.fs.top.AllNames P) {ts : List Trail}
    (h : w.files place = .ok ts) : Ascends P [] ts ∧ ∀ t ∈ ts, t ≠ [] := by
  obtain ⟨hascends, hfrom⟩ := belowAll_entriesAt_ascends hw hnames (follow_ascends hw hnames _) h
  refine ⟨hascends, fun t ht => ?_⟩
  obtain ⟨name, e, way, -, rfl⟩ := hfrom t ht
  simp

theorem exists_mem_entriesAt {x : Entry} {way : Place} (hw : w.fs.top.Ordered)
    (h : w.fs.at? (place ++ name :: way) = some x) :
    ∃ e, (name, e) ∈ w.entriesAt place ∧ e.at? way = some x := by
  rw [List.append_cons, FileSystem.at?, Entry.at?_append] at h
  obtain ⟨e, he, hx⟩ := Option.bind_eq_some_iff.1 h
  exact ⟨e, (mem_entriesAt hw).2 he, hx⟩

theorem finds_below (hw : w.fs.top.Ordered) :
    (∃ name e, (name, e) ∈ w.entriesAt place ∧ w.Finds [name] e t) ↔ w.Reaches place t := by
  refine ⟨fun h => ?_, fun h => ?_⟩
  · obtain ⟨name, e, hmem, way, content, rfl, hfile, hkept⟩ := h
    refine ⟨by simp, ⟨content, ?_⟩, fun lead hne hlead => ?_⟩
    · exact (at?_of_mem_entriesAt hw hmem way).trans hfile
    · rcases List.prefix_cons_iff.1 hlead with rfl | ⟨lead', rfl, hlead'⟩
      · contradiction
      · exact hkept lead' hlead'
  · obtain ⟨hne, ⟨content, hfile⟩, hkept⟩ := h
    obtain ⟨name, way, rfl⟩ := List.exists_cons_of_ne_nil hne
    obtain ⟨e, he, hfile⟩ := exists_mem_entriesAt hw hfile
    refine ⟨name, e, he, way, content, rfl, hfile, fun lead hlead => ?_⟩
    exact hkept (name :: lead) (by simp) (List.cons_prefix_cons.2 ⟨rfl, hlead⟩)

/-- How a walk goes on at the first link that it comes to. -/
def firstHop (w : Walk) : Hop :=
  w.follow (w.fs.top.directories + 1)

/-- A walk whose links come to nothing ends with the files that it reaches, in order. -/
theorem files_eq_ok (hw : w.fs.top.Ordered)
    (hquiet : ∀ trail target, trail ≠ [] → w.fs.at? (place ++ trail) = some (.link target) →
      (∀ lead, lead ≠ [] → lead <+: trail → lead ≠ trail → w.keeps (Trail.text lead) = true) →
      w.followLinks = true → w.firstHop trail (entered place trail.dropLast) = .ok []) :
    ∃ ts, w.files place = .ok ts ∧ (∀ t, t ∈ ts ↔ w.Reaches place t) ∧ ts.Pairwise (· < ·) := by
  have hchildren : ∀ name e, (name, e) ∈ w.entriesAt place →
      e.Ordered ∧ w.Quiet w.firstHop place ([] ++ [name]) e := by
    intro name e hmem
    refine ⟨ordered_of_mem_entriesAt hw hmem, ?_⟩
    intro way target hlink hkept hfollow
    apply hquiet (name :: way) target (by simp) ((at?_of_mem_entriesAt hw hmem way).trans hlink) _
      hfollow
    intro lead hne hlead hproper
    rcases List.prefix_cons_iff.1 hlead with rfl | ⟨lead', rfl, hlead'⟩
    · contradiction
    · exact hkept lead' hlead' fun heq => hproper (by rw [heq])
  obtain ⟨ts, hts, hmem⟩ :=
    @belowAll_eq_ok w w.firstHop place [] _ (sorted_entriesAt hw) hchildren
  have hfiles : w.files place = .ok ts := by
    simpa [files, entered, firstHop] using hts
  have hnames : w.fs.top.AllNames fun _ => True := fun _ _ _ _ _ => trivial
  exact ⟨ts, hfiles, fun t => (hmem t).trans (finds_below hw),
    (files_ascends hw hnames hfiles).1.sorted⟩

/-- Why the link at a trail ends a walk: it leads nowhere, or to a directory that the walk is in. -/
inductive Fault (w : Walk) (place : Place) (trail : Trail) : WalkError → Prop
  | unusable {reason : IoError} (h : w.fs.find (w.path trail) = .error reason) :
    Fault w place trail (.unusable (w.path trail) reason)
  | loop {lead : Trail} (hlead : lead <+: trail.dropLast)
      (h : w.fs.find (w.path trail) = .ok (.directory (place ++ lead))) :
    Fault w place trail (.loop (w.path trail) (w.path lead))

theorem find?_entered {lead : Trail} (h : lead <+: trail) :
    ((entered place trail).find? fun ancestor => ancestor.1 = place ++ lead) =
      some (place ++ lead, lead) := by
  have hmem : lead ∈ trail.inits.reverse := by simpa using h
  have hfind : (trail.inits.reverse.find? fun other => other = lead) = some lead := by
    obtain ⟨before, after, hsplit, hbefore⟩ := List.eq_append_cons_of_mem hmem
    rw [hsplit, List.find?_append, List.find?_eq_none.2]
    · simp
    · intro other hother heq
      rw [decide_eq_true_eq] at heq
      exact hbefore (heq ▸ hother)
  rw [entered, List.find?_map]
  simp only [Function.comp_def, List.append_cancel_left_eq, hfind, Option.map_some]

theorem find?_entered_eq_none {other : Place} (h : ∀ lead, lead <+: trail → other ≠ place ++ lead) :
    ((entered place trail).find? fun ancestor => ancestor.1 = other) = none := by
  apply List.find?_eq_none.2
  intro ancestor hmem heq
  obtain ⟨lead, hlead, rfl⟩ := List.mem_map.1 hmem
  rw [decide_eq_true_eq] at heq
  exact h lead (by simpa using hlead) heq.symm

theorem firstHop_eq_error {err : WalkError} (h : w.Fault place trail err) :
    w.firstHop trail (entered place trail.dropLast) = .error err := by
  unfold firstHop
  cases h with
  | unusable h => rw [follow, h]
  | loop hlead h => simp only [follow, h, find?_entered hlead]

theorem firstHop_eq_ok (hkeeps : w.keeps trail.text = false) (h : ∀ err, ¬ w.Fault place trail err) :
    w.firstHop trail (entered place trail.dropLast) = .ok [] := by
  unfold firstHop
  rw [follow]
  cases hfind : w.fs.find (w.path trail) with
  | error reason => exact absurd (.unusable hfind) (h _)
  | ok source =>
    cases source with
    | file content => simp [leaf, hkeeps]
    | directory other =>
      have hnone := @find?_entered_eq_none place trail.dropLast other fun lead hlead heq =>
        h _ (.loop hlead (heq ▸ hfind))
      simp [hnone, hkeeps]

/-- A walk that comes to a single link ends with that link's fault. -/
theorem files_eq_error {target : String} {err : WalkError} (hw : w.fs.top.Ordered)
    (hne : trail ≠ []) (hlink : w.fs.at? (place ++ trail) = some (.link target))
    (honly : ∀ other target, w.fs.at? (place ++ other) = some (.link target) → other = trail)
    (hkept : ∀ lead, lead ≠ [] → lead <+: trail → lead ≠ trail → w.keeps (Trail.text lead) = true)
    (hfollow : w.followLinks = true) (hfault : w.Fault place trail err) :
    w.files place = .error err := by
  obtain ⟨name, way, rfl⟩ := List.exists_cons_of_ne_nil hne
  obtain ⟨e, hmem, hlink⟩ := exists_mem_entriesAt hw hlink
  have hdown {m : String} {x : Entry} (hx : (m, x) ∈ w.entriesAt place) {other : Place} {t : String}
      (ht : x.at? other = some (.link t)) : m :: other = name :: way :=
    honly (m :: other) t ((at?_of_mem_entriesAt hw hx other).trans ht)
  have herror : below w w.firstHop ([] ++ [name]) (place ++ ([] ++ [name])) (entered place []) e =
      .error err := by
    apply below_eq_error (ordered_of_mem_entriesAt hw hmem) hlink _ _ hfollow
      (firstHop_eq_error hfault)
    · intro other t ht
      exact (List.cons.inj (hdown hmem ht)).2
    · intro lead hlead hproper
      exact hkept (name :: lead) (by simp) (List.cons_prefix_cons.2 ⟨rfl, hlead⟩)
        fun heq => hproper (List.cons.inj heq).2
  have hall := belowAll_eq_error (sorted_entriesAt hw) hmem
    (fun n x hx => ordered_of_mem_entriesAt hw hx)
    (fun m x hx hother other t ht => hother (List.cons.inj (hdown hx ht)).1) herror
  simpa [files, entered, firstHop] using hall

end Walk

end TreeOutline
