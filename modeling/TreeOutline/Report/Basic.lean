import TreeOutline.Report.Line

/-!
Reports of single modules and of whole scans, and the counts over them. Counting is a sum over the
modules, so it does not depend on their order.
-/

namespace TreeOutline

structure Report where
  path : String
  moduleName : String
  definitions : List Summary
  lines : List Line
  deriving Repr, DecidableEq

namespace Report

def isEmpty (r : Report) : Bool :=
  r.lines.isEmpty

def count (kind : DefinitionKind) (r : Report) : Nat :=
  r.definitions.countP fun d => d.kind = kind

end Report

/-- Counts over module reports. -/
structure Stats where
  modules : Nat
  definitions : Nat
  classes : Nat
  interfaces : Nat
  constantDeclarations : Nat
  expressions : Nat
  properties : Nat
  constants : Nat
  methods : Nat
  unsupported : Nat
  deriving Repr, DecidableEq

namespace Stats

def zero : Stats := ⟨0, 0, 0, 0, 0, 0, 0, 0, 0, 0⟩

def add (a b : Stats) : Stats where
  modules := a.modules + b.modules
  definitions := a.definitions + b.definitions
  classes := a.classes + b.classes
  interfaces := a.interfaces + b.interfaces
  constantDeclarations := a.constantDeclarations + b.constantDeclarations
  expressions := a.expressions + b.expressions
  properties := a.properties + b.properties
  constants := a.constants + b.constants
  methods := a.methods + b.methods
  unsupported := a.unsupported + b.unsupported

instance : Add Stats := ⟨add⟩

def ofReport (r : Report) : Stats where
  modules := 1
  definitions := r.definitions.length
  classes := r.count .classDeclaration
  interfaces := r.count .interfaceDeclaration
  constantDeclarations := r.count .constantDeclaration
  expressions := r.count .expressionStatement
  properties := r.lines.countP Line.isProperty
  constants := r.lines.countP Line.isConstant
  methods := r.lines.countP Line.isMethod
  unsupported := r.lines.countP Line.isUnsupported

def ofReports : List Report → Stats
  | [] => zero
  | r :: rs => ofReport r + ofReports rs

end Stats

structure RunInfo where
  milliseconds : Nat
  filesPerSecond : Float
  timestamp : String
  toolVersion : String
  deriving Repr, DecidableEq

/-- The reports of a scan, in path order. -/
structure ScanReport where
  root : String
  modules : List Report
  stats : Stats
  run : RunInfo
  deriving Repr, DecidableEq

end TreeOutline
