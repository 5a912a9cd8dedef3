import TreeOutline.Proofs.ClassBody
import TreeOutline.Proofs.Statement
import TreeOutline.Scan.Basic

/-!
Reports without what is unsupported. Whether definitions without an outline are told decides about
their own lines and nothing else: no class has such a line, and no such definition fails. So the
report that does not tell them is the other report with these lines taken out (`outline_unreported`),
and the two fail alike.
-/

namespace TreeOutline

open Outline Traversal

/-- The lines that are not about a definition without an outline. -/
def supported (ls : List Line) : List Line :=
  ls.filter fun l => !l.isUnsupported

theorem supported_append (ls₁ ls₂ : List Line) :
    supported (ls₁ ++ ls₂) = supported ls₁ ++ supported ls₂ :=
  List.filter_append ls₁ ls₂

/-! ## One definition -/

namespace Outline

theorem isUnsupported_eq_false_of_depth {l : Line} (h : 0 < l.depth) : l.isUnsupported = false := by
  cases l with
  | unsupported kind name => exact absurd h (Nat.lt_irrefl 0)
  | _ => rfl

theorem supported_initLines {name : String} {i : Node.Init} {ls : List Line}
    (h : initLines name i = .ok ls) : supported ls = ls := by
  cases i with
  | classCall site =>
    obtain ⟨ps, -, rfl⟩ := map_eq_ok.1 h
    refine List.filter_eq_self.2 fun l hl => ?_
    rcases List.mem_cons.1 hl with rfl | hl
    · rfl
    · rw [isUnsupported_eq_false_of_depth (ClassBody.depth_pos_of_mem_lines hl)]
      rfl
  | interfaceCall site => cases h
  | other => cases h

theorem map_supported_classLines (table : Recognizer.Table) (d : Definition) :
    (classLines table d).map supported = classLines table d := by
  cases h : classLines table d with
  | error e => rfl
  | ok ls =>
    rw [classLines_eq] at h
    obtain ⟨declarator, -, h⟩ := bind_eq_ok.1 h
    obtain ⟨name, -, h⟩ := bind_eq_ok.1 h
    exact congrArg Except.ok (supported_initLines h)

theorem definitionLines_unreported (o : Options) (d : Definition) :
    definitionLines { o with reportUnsupported := false } d =
      (definitionLines { o with reportUnsupported := true } d).map supported := by
  unfold definitionLines
  cases d.kind with
  | classDeclaration => exact (map_supported_classLines o.table d).symm
  | _ => rfl

/-! ## All definitions -/

theorem lines_unreported (o : Options) (ds : List Definition) :
    lines { o with reportUnsupported := false } ds =
      (lines { o with reportUnsupported := true } ds).map supported := by
  induction ds with
  | nil => rfl
  | cons d ds ih =>
    rw [lines, lines, definitionLines_unreported, ih]
    cases definitionLines { o with reportUnsupported := true } d with
    | error e => rfl
    | ok first =>
      cases lines { o with reportUnsupported := true } ds with
      | error e => rfl
      | ok others => exact congrArg Except.ok (supported_append first others).symm

/-- Where unsupported definitions are not told, an outline has the error it has where they are, or the
same report but for their lines. -/
theorem outline_unreported (o : Options) (m : Module) :
    m.outline { o with reportUnsupported := false } =
      (m.outline { o with reportUnsupported := true }).map fun r =>
        { r with lines := supported r.lines } := by
  unfold Module.outline report
  dsimp only
  cases Definition.collect o.table m.root with
  | error e => rfl
  | ok ds =>
    simp only [bind, Except.bind, lines_unreported]
    cases lines { o with reportUnsupported := true } ds <;> rfl

end Outline

end TreeOutline
