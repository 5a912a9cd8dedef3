import TreeOutline.Outline.ClassBody
import TreeOutline.Proofs.Traversal

/-!
The lines of one class. A part that is read from a member fits its key, and the lines of the parts
say which names are declared: a property line stands for each of them, a constant or method line for
none of them, in either spelling.
-/

namespace TreeOutline.ClassBody

open Node (Member Shape)
open Traversal

/-- Keys that describe a class, or declare its properties, name no constant and no method. -/
def Part.KeyFits : Part → Prop
  | .metadata key _ => key ∈ metadataKeys
  | .declared _ => True
  | .plain key _ => key ∉ metadataKeys ∧ key ≠ propertiesKey

theorem keyFits_ofMember {m : Member} {p : Part} (h : Part.ofMember m = .ok p) : p.KeyFits := by
  unfold Part.ofMember at h
  split at h
  · next hkey =>
    cases h
    exact hkey
  · next hkey =>
    split at h
    · obtain ⟨names, -, rfl⟩ := map_eq_ok.1 h
      trivial
    · next hprop =>
      cases h
      exact ⟨hkey, hprop⟩

theorem keyFits_parts {arguments : List Json} {ps : List Part} (h : parts arguments = .ok ps) :
    ∀ p ∈ ps, p.KeyFits := by
  intro p hp
  obtain ⟨ms, -, hps⟩ := bind_eq_ok.1 h
  obtain ⟨m, -, hm⟩ := exists_of_mem_right (mapM_eq_ok.1 hps) hp
  exact keyFits_ofMember hm

theorem isDeclared_eq_false {declared : List String} {name : String} :
    isDeclared declared name = false ↔ name ∉ declared ∧ hyphenated name ∉ declared := by
  simp [isDeclared]

/-! ## Lines of a part -/

variable {declared : List String} {ps : List Part} {p : Part} {l : Line} {key name value : String}

/-- A class gives no header and no line of a definition without an outline. -/
theorem depth_pos_of_mem_partLines (h : l ∈ p.lines declared) : 0 < l.depth := by
  cases p with
  | metadata k v => cases v <;> simp_all [Part.lines, Line.depth]
  | declared names =>
    obtain ⟨n, -, rfl⟩ := List.mem_map.1 h
    simp [Line.depth]
  | plain k shape =>
    simp only [Part.lines] at h
    split at h
    · cases h
    · cases shape <;> simp_all [Line.depth]

theorem metadata_mem_partLines :
    Line.metadata key value ∈ p.lines declared ↔ p = .metadata key (some value) := by
  cases p with
  | metadata k v => cases v <;> simp [Part.lines, eq_comm]
  | declared names => simp [Part.lines]
  | plain k shape =>
    simp only [Part.lines]
    split
    · simp
    · cases shape <;> simp

theorem property_mem_partLines : Line.property name ∈ p.lines declared ↔ name ∈ p.names := by
  cases p with
  | metadata k v => cases v <;> simp [Part.lines, Part.names]
  | declared names => simp [Part.lines, Part.names]
  | plain k shape =>
    simp only [Part.lines, Part.names]
    split
    · simp
    · cases shape <;> simp

theorem plain_of_mem_partLines (h : l ∈ p.lines declared)
    (hl : l = .constant name ∨ l = .method name) :
    (∃ shape, p = .plain name shape) ∧ isDeclared declared name = false := by
  cases p with
  | metadata k v => rcases hl with rfl | rfl <;> cases v <;> simp [Part.lines] at h
  | declared names => rcases hl with rfl | rfl <;> simp [Part.lines] at h
  | plain k shape =>
    simp only [Part.lines] at h
    split at h
    · cases h
    · next hd =>
      have hk : name = k := by rcases hl with rfl | rfl <;> cases shape <;> simp_all
      subst hk
      exact ⟨⟨shape, rfl⟩, by simpa using hd⟩

/-! ## Lines of a class -/

theorem depth_pos_of_mem_lines (h : l ∈ lines ps) : 0 < l.depth := by
  obtain ⟨p, -, hp⟩ := List.mem_flatMap.1 h
  exact depth_pos_of_mem_partLines hp

theorem metadata_mem_lines :
    Line.metadata key value ∈ lines ps ↔ Part.metadata key (some value) ∈ ps := by
  simp only [lines, List.mem_flatMap, metadata_mem_partLines, exists_eq_right]

theorem property_mem_lines :
    Line.property name ∈ lines ps ↔ name ∈ ps.flatMap Part.names := by
  simp only [lines, List.mem_flatMap, property_mem_partLines]

/-- A constant or a method comes from a plain member whose name no property has. -/
theorem plain_of_mem_lines (h : l ∈ lines ps) (hl : l = .constant name ∨ l = .method name) :
    (∃ shape, Part.plain name shape ∈ ps) ∧
      name ∉ ps.flatMap Part.names ∧ hyphenated name ∉ ps.flatMap Part.names := by
  obtain ⟨p, hp, hmem⟩ := List.mem_flatMap.1 h
  obtain ⟨⟨shape, rfl⟩, hd⟩ := plain_of_mem_partLines hmem hl
  exact ⟨⟨shape, hp⟩, isDeclared_eq_false.1 hd⟩

end TreeOutline.ClassBody
