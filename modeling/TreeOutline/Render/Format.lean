import TreeOutline.Render.Ansi
import TreeOutline.Render.Counts
import TreeOutline.Render.Text
import TreeOutline.Report.Serial
import TreeOutline.Yaml.Printer

/-!
The formats that reports are rendered in.
-/

namespace TreeOutline

inductive Format where
  | text
  | json
  | yaml
  | ansi
  | counts
  deriving Repr, DecidableEq

namespace Format

def all : List Format :=
  [.text, .json, .yaml, .ansi, .counts]

def label : Format → String
  | .text => "text"
  | .json => "json"
  | .yaml => "yaml"
  | .ansi => "ansi"
  | .counts => "summary"

def ofLabel? (label : String) : Option Format :=
  all.find? fun f => f.label = label

end Format

def Report.render (r : Report) : Format → String
  | .text => r.text
  | .json => r.toJson.pretty
  | .yaml => Yaml.render r.toJson
  | .ansi => Ansi.module r
  | .counts => Counts.module r

def ScanReport.render (s : ScanReport) : Format → String
  | .text => s.text
  | .json => s.toJson.pretty
  | .yaml => Yaml.render s.toJson
  | .ansi => Ansi.scan s
  | .counts => Counts.scan s

/-- A list of definitions in a format: one to a line in the formats for reading. -/
def Summary.renderAll (definitions : List Summary) : Format → String
  | .json => (Json.array (definitions.map Summary.toJson)).pretty
  | .yaml => Yaml.render (.array (definitions.map Summary.toJson))
  | _ => Text.join "\n" (definitions.map Summary.display)

end TreeOutline
