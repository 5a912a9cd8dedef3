import TreeOutline.Render.Format

/-!
The options of the command line and what an invocation gave for them. An option counts once on each
side of the subcommand, except for lists, and its value must make sense.
-/

namespace TreeOutline.Command

inductive Key where
  | format
  | output
  | recognize
  | ignore
  | threads
  | maxFileSize
  deriving Repr, DecidableEq

inductive Flag where
  | noDefaultRecognizers
  | verbose
  | hideUnsupported
  | followSymlinks
  | includeHidden
  deriving Repr, DecidableEq

inductive OptionName where
  | key (k : Key)
  | flag (f : Flag)
  | version
  | help
  deriving Repr, DecidableEq

def longNames : List (String × OptionName) :=
  [("format", .key .format), ("output", .key .output), ("recognize", .key .recognize),
    ("ignore", .key .ignore), ("threads", .key .threads), ("max-file-size", .key .maxFileSize),
    ("no-default-recognizers", .flag .noDefaultRecognizers), ("verbose", .flag .verbose),
    ("hide-unsupported", .flag .hideUnsupported), ("follow-symlinks", .flag .followSymlinks),
    ("include-hidden", .flag .includeHidden), ("version", .version), ("help", .help)]

def shortNames : List (Char × OptionName) :=
  [('f', .key .format), ('o', .key .output), ('v', .flag .verbose), ('V', .version), ('h', .help)]

/-- Whether an option may stand behind the subcommand too. -/
def OptionName.isGlobal : OptionName → Bool
  | .key .format => true
  | .key .output => true
  | .key .recognize => true
  | .flag .noDefaultRecognizers => true
  | .flag .verbose => true
  | .help => true
  | _ => false

inductive UsageError where
  | unknownOption (option : String)
  | unexpectedValue (option : String)
  | missingValue (option : String)
  | invalidValue (option value : String)
  | repeated (option : String)
  | unexpectedArgument (argument : String)
  | emptyPath
  | missingPath
  deriving Repr, DecidableEq

def UsageError.message : UsageError → String
  | .unknownOption option => "unknown option '" ++ option ++ "'"
  | .unexpectedValue option => "option '" ++ option ++ "' takes no value"
  | .missingValue option => "option '" ++ option ++ "' needs a value"
  | .invalidValue option value => "invalid value '" ++ value ++ "' for option '" ++ option ++ "'"
  | .repeated option => "option '" ++ option ++ "' given more than once"
  | .unexpectedArgument argument => "unexpected argument '" ++ argument ++ "'"
  | .emptyPath => "a path must not be empty"
  | .missingPath => "a path is needed"

inductive Stop where
  | usage (error : UsageError)
  | version
  | help
  deriving Repr, DecidableEq

def OptionName.label (o : OptionName) : String :=
  match longNames.find? fun entry => entry.2 = o with
  | some (name, _) => "--" ++ name
  | none => ""

/-- What the arguments on one side of the subcommand gave. -/
structure Given where
  path : Option String
  format : Option Format
  output : Option String
  recognize : List String
  ignore : List String
  threads : Option Nat
  maxFileSize : Option Nat
  noDefaultRecognizers : Bool
  verbose : Bool
  hideUnsupported : Bool
  followSymlinks : Bool
  includeHidden : Bool
  deriving Repr, DecidableEq

namespace Given

def nothing : Given where
  path := none
  format := none
  output := none
  recognize := []
  ignore := []
  threads := none
  maxFileSize := none
  noDefaultRecognizers := false
  verbose := false
  hideUnsupported := false
  followSymlinks := false
  includeHidden := false

def once (o : OptionName) (already : Bool) (g : Given) : Except Stop Given :=
  if already then .error (.usage (.repeated o.label)) else .ok g

def setFlag (g : Given) (f : Flag) : Except Stop Given :=
  match f with
  | .noDefaultRecognizers =>
    once (.flag f) g.noDefaultRecognizers { g with noDefaultRecognizers := true }
  | .verbose => once (.flag f) g.verbose { g with verbose := true }
  | .hideUnsupported => once (.flag f) g.hideUnsupported { g with hideUnsupported := true }
  | .followSymlinks => once (.flag f) g.followSymlinks { g with followSymlinks := true }
  | .includeHidden => once (.flag f) g.includeHidden { g with includeHidden := true }

/-- A count of 64 bits, which may have a plus sign. -/
def count? (value : List Char) : Option Nat :=
  let digits :=
    match value with
    | '+' :: rest => rest
    | _ => value
  if Yaml.isDigits 10 digits && Yaml.digitsValue 10 digits < Nat.pow 2 64 then
    some (Yaml.digitsValue 10 digits)
  else none

def setValue (g : Given) (k : Key) (value : String) : Except Stop Given :=
  let invalid : Except Stop Given := .error (.usage (.invalidValue (OptionName.key k).label value))
  match k with
  | .recognize => .ok { g with recognize := g.recognize ++ [value] }
  | .ignore => .ok { g with ignore := g.ignore ++ [value] }
  | .output =>
    if value = "" then invalid else once (.key k) g.output.isSome { g with output := some value }
  | .format =>
    match Format.ofLabel? value with
    | some f => once (.key k) g.format.isSome { g with format := some f }
    | none => invalid
  | .threads =>
    match count? value.toList with
    | some n => once (.key k) g.threads.isSome { g with threads := some n }
    | none => invalid
  | .maxFileSize =>
    match count? value.toList with
    | some n => once (.key k) g.maxFileSize.isSome { g with maxFileSize := some n }
    | none => invalid

def setPath (g : Given) (path : String) : Except Stop Given :=
  if g.path.isSome then .error (.usage (.unexpectedArgument path))
  else if path = "" then .error (.usage .emptyPath)
  else .ok { g with path := some path }

/-- What holds behind the subcommand: its own options, and those before it that it does not give. -/
def override (outer inner : Given) : Given :=
  { outer with
    path := inner.path
    format := inner.format <|> outer.format
    output := inner.output <|> outer.output
    recognize := if inner.recognize.isEmpty then outer.recognize else inner.recognize
    noDefaultRecognizers := inner.noDefaultRecognizers || outer.noDefaultRecognizers
    verbose := inner.verbose || outer.verbose }

end Given

end TreeOutline.Command
