import TreeOutline.Report.Basic
import TreeOutline.Text.Pieces

/-!
Reports as indented text: definitions at the margin, what describes a class four spaces in, members
eight. Reports of several modules stand under headings.
-/

namespace TreeOutline

/-- Four spaces for each depth. -/
def indent (depth : Nat) : String :=
  String.ofList (List.replicate (4 * depth) ' ')

/-- A line without what ends it. -/
def Line.text (l : Line) : String :=
  indent l.depth ++
    match l with
    | .header name => name
    | .metadata key value => key ++ ": " ++ value
    | .property name => "prop: " ++ name
    | .constant name => "constant: " ++ name
    | .method name => "method: " ++ name
    | .unsupported kind (some name) => name ++ " (unsupported " ++ kind.label ++ ")"
    | .unsupported kind none => "(unsupported " ++ kind.label ++ ")"

def Report.text (r : Report) : String :=
  Text.join "\n" (r.lines.map Line.text)

def Report.block (r : Report) : String :=
  "# " ++ r.moduleName ++ "\n" ++ r.text

/-- The modules that have lines, under headings if there is more than one module. -/
def ScanReport.text (s : ScanReport) : String :=
  let full := s.modules.filter fun r => !r.isEmpty
  if s.modules.length ≤ 1 then
    match full with
    | r :: _ => r.text
    | [] => ""
  else Text.join "\n\n" (full.map Report.block)

end TreeOutline
