import TreeOutline.Decimal.Layout
import TreeOutline.Report.Basic
import TreeOutline.Render.Ansi

/-!
Reports as counts: for a scan the totals, for a module what it defines.
-/

namespace TreeOutline.Counts

def entry (name value : String) : String :=
  name ++ ": " ++ value ++ "\n"

def count (name : String) (n : Nat) : String :=
  entry name (toString n)

/-- The count of definitions without an outline is left out if it is zero. -/
def scan (s : ScanReport) : String :=
  "Class Outline Results\n" ++ "=====================\n\n"
    ++ entry "Root" s.root
    ++ count "Modules" s.stats.modules
    ++ count "Definitions" s.stats.definitions
    ++ "\nDefinition Breakdown:\n"
    ++ count "  Classes" s.stats.classes
    ++ count "  Interfaces" s.stats.interfaces
    ++ count "  Constants" s.stats.constantDeclarations
    ++ count "  Expressions" s.stats.expressions
    ++ "\nClass Members:\n"
    ++ count "  Properties" s.stats.properties
    ++ count "  Constants" s.stats.constants
    ++ count "  Methods" s.stats.methods
    ++ (if 0 < s.stats.unsupported then "\n" ++ count "Unsupported definitions" s.stats.unsupported
        else "")
    ++ "\n" ++ entry "Scan Duration" (toString s.run.milliseconds ++ "ms")
    ++ entry "Processing Speed" (Decimal.fixed 2 s.run.filesPerSecond ++ " files/sec")

def module (r : Report) : String :=
  entry "File" r.path ++ entry "Module" r.moduleName
    ++ count "Definitions" r.definitions.length
    ++ "\nDefinitions:\n"
    ++ Ansi.concat (r.definitions.map fun d => "  " ++ d.display ++ "\n")

end TreeOutline.Counts
