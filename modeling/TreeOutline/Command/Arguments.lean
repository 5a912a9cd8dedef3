import TreeOutline.Command.Options

/-!
Invocations read from arguments. Words are paths, or the subcommand; options have a long name behind
two hyphens or a short one behind one hyphen, where several may stand together. After two hyphens
alone all that follows is words, and none of them the subcommand.
-/

namespace TreeOutline.Command

inductive Task where
  | outline
  | definitions
  deriving Repr, DecidableEq

structure Invocation where
  task : Task
  path : String
  given : Given
  deriving Repr, DecidableEq

def definitionsWord : String := "definitions"

def helpWord : String := "help"

/-- Arguments that are read up to some place: the option that waits for a value, and whether all
that follows is words. -/
structure Progress where
  given : Given
  waiting : Option Key
  wordsOnly : Bool

namespace Progress

def start : Progress := ⟨.nothing, none, false⟩

/-- The option with a name, if it may stand on this side of the subcommand. -/
def known? (task : Task) (o : Option OptionName) : Option OptionName :=
  o.filter fun name => task = .outline || name.isGlobal

def bare (p : Progress) : OptionName → Except Stop Progress
  | .key k => .ok { p with waiting := some k }
  | .flag f => (p.given.setFlag f).map fun g => { p with given := g }
  | .version => .error .version
  | .help => .error .help

def valued (p : Progress) (o : OptionName) (value : String) : Except Stop Progress :=
  match o with
  | .key k => (p.given.setValue k value).map fun g => { p with given := g, waiting := none }
  | _ => .error (.usage (.unexpectedValue o.label))

/-- An option by its long name. A value may follow an equals sign. -/
def long (p : Progress) (task : Task) (text : List Char) : Except Stop Progress :=
  let (name, value) :=
    match Text.cutFirst '=' text with
    | some (name, value) => (String.ofList name, some (String.ofList value))
    | none => (String.ofList text, none)
  match known? task (longNames.lookup name), value with
  | none, _ => .error (.usage (.unknownOption ("--" ++ name)))
  | some o, some value => p.valued o value
  | some o, none => p.bare o

/-- Options by their short names. What stands behind the name of one with a value is its value. -/
def short (p : Progress) (task : Task) : List Char → Except Stop Progress
  | [] => .ok p
  | c :: rest =>
    match known? task (shortNames.lookup c), rest with
    | none, _ => .error (.usage (.unknownOption (String.ofList ['-', c])))
    | some (.key k), '=' :: value => p.valued (.key k) (String.ofList value)
    | some (.key k), d :: more => p.valued (.key k) (String.ofList (d :: more))
    | some o, rest =>
      match p.bare o with
      | .ok q => short q task rest
      | .error stop => .error stop

/-- A word is the value of the option that waits for one, or a path. -/
def word (p : Progress) (text : String) : Except Stop Progress :=
  match p.waiting with
  | some k => p.valued (.key k) text
  | none => (p.given.setPath text).map fun g => { p with given := g }

def settled (p : Progress) : Except Stop Progress :=
  match p.waiting with
  | some k => .error (.usage (.missingValue (OptionName.key k).label))
  | none => .ok p

def step (task : Task) (p : Progress) (argument : String) : Except Stop Progress :=
  if p.wordsOnly then p.word argument
  else
    match argument.toList with
    | ['-', '-'] => p.settled.map fun q => { q with wordsOnly := true }
    | '-' :: '-' :: text => do
      let q ← p.settled
      q.long task text
    | '-' :: c :: text => do
      let q ← p.settled
      q.short task (c :: text)
    | _ => p.word argument

def finish (p : Progress) (task : Task) (outer : Given) : Except Stop Invocation := do
  let q ← p.settled
  let given :=
    match task with
    | .outline => q.given
    | .definitions => outer.override q.given
  match given.path with
  | some path => .ok ⟨task, path, given⟩
  | none => .error (.usage .missingPath)

def expectsWord (p : Progress) : Bool :=
  !p.wordsOnly && p.waiting.isNone

end Progress

/-- Help can be asked for the subcommands only. -/
def helpOn : List String → Stop
  | [] => .help
  | [topic] =>
    if topic = definitionsWord || topic = helpWord then .help
    else .usage (.unexpectedArgument topic)
  | _ :: topic :: _ => .usage (.unexpectedArgument topic)

/-- Reads on after some arguments before the subcommand. -/
def readFrom (p : Progress) : List String → Except Stop Invocation
  | [] => p.finish .outline .nothing
  | argument :: rest =>
    -- the subcommand counts only where a word may stand
    if p.expectsWord && argument = definitionsWord then do
      let inner ← rest.foldlM (Progress.step .definitions) .start
      inner.finish .definitions p.given
    else if p.expectsWord && argument = helpWord then .error (helpOn rest)
    else
      match p.step .outline argument with
      | .ok q => readFrom q rest
      | .error stop => .error stop

def read (arguments : List String) : Except Stop Invocation :=
  readFrom .start arguments

end TreeOutline.Command
