import TreeOutline.Decimal.Layout
import TreeOutline.Report.Basic

/-!
Reports for a terminal: lines with colours and icons. Each line that switches an attribute on ends
with all attributes off.
-/

namespace TreeOutline.Ansi

def reset : String := "\x1b[0m"
def bold : String := "\x1b[1m"
def dim : String := "\x1b[2m"
def blue : String := "\x1b[34m"
def cyan : String := "\x1b[36m"
def brightRed : String := "\x1b[91m"
def brightGreen : String := "\x1b[92m"
def brightYellow : String := "\x1b[93m"
def brightMagenta : String := "\x1b[95m"
def onBlue : String := "\x1b[44m"

def icon : Line → String
  | .header _ => "🔷"
  | .metadata _ _ => "·"
  | .property _ => "📌"
  | .constant _ => "🔒"
  | .method _ => "🔹"
  | .unsupported _ _ => "⚠"

def body : Line → String
  | .header name => brightYellow ++ "class " ++ bold ++ name
  | .metadata key value => dim ++ key ++ ":" ++ reset ++ " " ++ value
  | .property name => blue ++ "prop " ++ name
  | .constant name => brightMagenta ++ "constant " ++ name
  | .method name => cyan ++ "method " ++ name
  | .unsupported kind name =>
    brightRed ++ "unsupported " ++ kind.label ++ " " ++ name.getD ""

def indent (depth : Nat) : String :=
  String.ofList (List.replicate (3 * depth) ' ')

def line (l : Line) : String :=
  indent (l.depth + 1) ++ icon l ++ " " ++ body l ++ reset ++ "\n"

def heading (r : Report) : String :=
  bold ++ brightGreen ++ "📦 " ++ r.moduleName ++ reset ++ " " ++ dim ++ "(" ++ r.path ++ ")"
    ++ reset ++ "\n"

/-- What stands in place of the lines of a module that has none. -/
def noLines : String :=
  "   " ++ dim ++ "no classes" ++ reset ++ "\n"

def concat : List String → String
  | [] => ""
  | s :: rest => s ++ concat rest

def module (r : Report) : String :=
  heading r ++ (if r.isEmpty then noLines else "") ++ concat (r.lines.map line) ++ "\n"

def scan (s : ScanReport) : String :=
  "\n" ++ bold ++ onBlue ++ "  Class Outline Results  " ++ reset ++ reset ++ "\n\n"
    ++ bold ++ "Root:" ++ reset ++ " " ++ s.root ++ "\n\n"
    ++ bold ++ "Modules:" ++ reset ++ " " ++ toString s.stats.modules ++ "  "
    ++ bold ++ "Classes:" ++ reset ++ " " ++ toString s.stats.classes ++ "  "
    ++ bold ++ "Interfaces:" ++ reset ++ " " ++ toString s.stats.interfaces ++ "\n\n"
    ++ concat (s.modules.map module)
    ++ "\n" ++ dim ++ "Scan completed in " ++ toString s.run.milliseconds ++ "ms ("
    ++ Decimal.fixed 2 s.run.filesPerSecond ++ " files/sec)" ++ reset ++ "\n"

end TreeOutline.Ansi
