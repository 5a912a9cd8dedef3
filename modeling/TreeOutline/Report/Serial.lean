import TreeOutline.Report.Basic
import TreeOutline.Report.Record

/-!
Reports as JSON values and back. Members stand in a fixed order when written and in any order when
read; an absent name, an empty list of definitions and what else may be missing are left out.
-/

namespace TreeOutline

def DefinitionKind.tag : DefinitionKind → String
  | .classDeclaration => "class_declaration"
  | .interfaceDeclaration => "interface_declaration"
  | .constantDeclaration => "constant_declaration"
  | .expressionStatement => "expression_statement"
  | .functionDeclaration => "function_declaration"

def DefinitionKind.ofTag? (tag : String) : Option DefinitionKind :=
  DefinitionKind.all.find? fun kind => kind.tag = tag

/-- A member for a name that is left out if there is none. -/
def nameMember : Option String → List (String × Json)
  | some name => [("name", .string name)]
  | none => []

namespace Summary

def toJson (s : Summary) : Json :=
  .object (("kind", .string s.kind.tag) :: nameMember s.name
    ++ [("documented", .bool s.documented)])

def ofJson? (v : Json) : Option Summary := do
  let f ← v.fields? ["kind", "name", "documented"]
  let kind ← (f.text? "kind").bind DefinitionKind.ofTag?
  let name ← f.optionalText? "name"
  let documented ← f.flag? "documented"
  some ⟨kind, name, documented⟩

end Summary

namespace Line

def tag : Line → String
  | .header _ => "class_header"
  | .metadata _ _ => "metadata"
  | .property _ => "property"
  | .constant _ => "constant"
  | .method _ => "method"
  | .unsupported _ _ => "unsupported"

def members : Line → List (String × Json)
  | .header name => [("name", .string name)]
  | .metadata key value => [("key", .string key), ("value", .string value)]
  | .property name => [("name", .string name)]
  | .constant name => [("name", .string name)]
  | .method name => [("name", .string name)]
  | .unsupported kind name => ("kind", .string kind.tag) :: nameMember name

def toJson (l : Line) : Json :=
  .object (("line", .string l.tag) :: l.members)

def named? (line : String → Line) (v : Json) : Option Line := do
  let f ← v.fields? ["name"]
  (f.text? "name").map line

def ofFields? (tag : String) (v : Json) : Option Line :=
  if tag = "class_header" then named? .header v
  else if tag = "metadata" then do
    let f ← v.fields? ["key", "value"]
    some (.metadata (← f.text? "key") (← f.text? "value"))
  else if tag = "property" then named? .property v
  else if tag = "constant" then named? .constant v
  else if tag = "method" then named? .method v
  else if tag = "unsupported" then do
    let f ← v.fields? ["kind", "name"]
    let kind ← (f.text? "kind").bind DefinitionKind.ofTag?
    some (.unsupported kind (← f.optionalText? "name"))
  else none

def ofJson? (v : Json) : Option Line :=
  match v with
  | .object _ => do
    let tag ← (v.get? "line").bind Json.asString?
    ofFields? tag v
  | .array (first :: rest) => do
    let tag ← first.asString?
    ofFields? tag (.array rest)
  | _ => none

end Line

namespace Report

/-- The list of definitions is left out if it is empty. -/
def definitionsMember : List Summary → List (String × Json)
  | [] => []
  | ds => [("definitions", .array (ds.map Summary.toJson))]

def toJson (r : Report) : Json :=
  .object ([("path", .string r.path), ("module_name", .string r.moduleName)]
    ++ definitionsMember r.definitions ++ [("lines", .array (r.lines.map Line.toJson))])

def ofJson? (v : Json) : Option Report := do
  let f ← v.fields? ["path", "module_name", "definitions", "lines"]
  let path ← f.text? "path"
  let moduleName ← f.text? "module_name"
  let definitions ← f.list? "definitions" Summary.ofJson?
  let lines ← f.list? "lines" Line.ofJson?
  some ⟨path, moduleName, definitions, lines⟩

end Report

namespace Stats

/-- The counts with their names, in order. -/
def named (s : Stats) : List (String × Nat) :=
  [("total_modules", s.modules), ("total_definitions", s.definitions),
    ("class_declarations", s.classes), ("interface_declarations", s.interfaces),
    ("constant_declarations", s.constantDeclarations), ("expression_statements", s.expressions),
    ("properties", s.properties), ("constants", s.constants), ("methods", s.methods),
    ("unsupported", s.unsupported)]

def toJson (s : Stats) : Json :=
  .object (s.named.map fun (name, n) => (name, .number (.natural n)))

def ofJson? (v : Json) : Option Stats := do
  let f ← v.fields? (zero.named.map Prod.fst)
  some {
    modules := ← f.nat? "total_modules"
    definitions := ← f.nat? "total_definitions"
    classes := ← f.nat? "class_declarations"
    interfaces := ← f.nat? "interface_declarations"
    constantDeclarations := ← f.nat? "constant_declarations"
    expressions := ← f.nat? "expression_statements"
    properties := ← f.nat? "properties"
    constants := ← f.nat? "constants"
    methods := ← f.nat? "methods"
    unsupported := ← f.nat? "unsupported" }

end Stats

namespace RunInfo

def toJson (r : RunInfo) : Json :=
  .object [("scan_duration_ms", .number (.natural r.milliseconds)),
    ("files_per_second", .number (.real r.filesPerSecond)), ("timestamp", .string r.timestamp),
    ("tool_version", .string r.toolVersion)]

/-- The rate may be any number. -/
def ofJson? (v : Json) : Option RunInfo := do
  let f ← v.fields? ["scan_duration_ms", "files_per_second", "timestamp", "tool_version"]
  let milliseconds ← f.nat? "scan_duration_ms"
  let filesPerSecond ← (f "files_per_second").bind Json.asFloat?
  let timestamp ← f.text? "timestamp"
  let toolVersion ← f.text? "tool_version"
  some ⟨milliseconds, filesPerSecond, timestamp, toolVersion⟩

end RunInfo

def ScanReport.toJson (s : ScanReport) : Json :=
  .object [("root", .string s.root), ("modules", .array (s.modules.map Report.toJson)),
    ("stats", s.stats.toJson), ("metadata", s.run.toJson)]

end TreeOutline
