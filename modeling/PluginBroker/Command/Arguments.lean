import PluginBroker.Numeral
import PluginBroker.Plugin

/-! The arguments of the command line: options, then the name of a command, then further options.
The options for the configuration and for the log may stand on either side, and so may the one for
help, which puts an end to reading. -/

namespace PluginBroker

/-- What the command line asks for. -/
inductive Command where
  /-- The fingerprints of the root contracts, as JSON or as a table. -/
  | fingerprints (json : Bool)
  | connected (requester owner : PluginId)
  | checkConfig
deriving DecidableEq

structure Invocation where
  command : Command
  configPath? : Option String
  logFilter? : Option String
deriving DecidableEq

namespace Arguments

inductive Name where
  | fingerprints
  | connected
  | checkConfig
deriving DecidableEq

end Arguments

/-- What help is asked for. -/
inductive Topic where
  | program
  | command (name : Arguments.Name)
  /-- Asking for help. -/
  | help
deriving DecidableEq

/-- What the topic is about, in one line. -/
def Topic.summary : Topic → String
  | program => "ctxbroker - plugin context broker tooling"
  | command .fingerprints => "Print the fingerprints of the built-in root contracts"
  | command .connected => "Check whether one plugin may access another's contexts"
  | command .checkConfig => "Validate the configuration file"
  | help => "Print this message or the help of the given subcommand(s)"

inductive Request where
  | version
  | help (topic : Topic)
  | invocation (i : Invocation)
deriving DecidableEq

namespace Arguments

def Name.ofWord? (s : String) : Option Name :=
  if s = "fingerprints" then some .fingerprints
  else if s = "connected" then some .connected
  else if s = "check-config" then some .checkConfig
  else none

inductive Field where
  | config
  | logLevel
  | source
  | target
deriving DecidableEq

/-- The values of the options on one side of the command's name. -/
structure Settings where
  config? : Option String := none
  logLevel? : Option String := none
  source? : Option PluginId := none
  target? : Option PluginId := none
  json : Bool := false
deriving DecidableEq

inductive Shape where
  /-- Two dashes alone. -/
  | stop
  /-- Two dashes and a name, with a value if there is an equals sign. -/
  | long (name : List Char) (value? : Option (List Char))
  /-- A dash and a letter, with what follows the letter. -/
  | short (letter : Char) (rest : List Char)
  /-- Anything else; a dash alone is no option. -/
  | plain
deriving DecidableEq

def Shape.ofChars : List Char → Shape
  | ['-', '-'] => .stop
  | '-' :: '-' :: cs =>
    match cs.span (· ≠ '=') with
    | (name, []) => .long name none
    | (name, _ :: value) => .long name (some value)
  | '-' :: c :: cs => .short c cs
  | _ => .plain

/-- A number of at most 64 bits in decimal, perhaps after a plus sign. -/
def number? (s : String) : Option UInt64 :=
  let digits := match s.toList with
    | '+' :: cs => cs
    | cs => cs
  (Numeral.value? 10 digits).bind Numeral.toUInt64?

namespace Settings

/-- Gives a value to an option that has none yet.  A path is not empty, and a plugin is a number. -/
def set? (s : Settings) (field : Field) (value : String) : Option Settings :=
  match field with
  | .config => if s.config?.isSome || value.isEmpty then none else some { s with config? := value }
  | .logLevel => if s.logLevel?.isSome then none else some { s with logLevel? := value }
  | .source =>
    if s.source?.isSome then none
    else (number? value).map fun n => { s with source? := some ⟨n⟩ }
  | .target =>
    if s.target?.isSome then none
    else (number? value).map fun n => { s with target? := some ⟨n⟩ }

def setJson? (s : Settings) : Option Settings :=
  if s.json then none else some { s with json := true }

end Settings

/-- The option of a long name, before any command or after a given one. -/
def field? (command? : Option Name) (name : List Char) : Option Field :=
  if name = "config".toList then some .config
  else if name = "log-level".toList then some .logLevel
  else if command? = some .connected ∧ name = "from".toList then some .source
  else if command? = some .connected ∧ name = "to".toList then some .target
  else none

/-- The value that follows the letter of an option, after an equals sign or at once. -/
def attached? : List Char → Option String
  | [] => none
  | '=' :: cs => some (String.ofList cs)
  | cs => some (String.ofList cs)

/-- How the options on one side end. -/
inductive Ending where
  | finished
  | version
  /-- The option for help. -/
  | help
  /-- The word for help, with what follows it. -/
  | helpOn (words : List String)
  | command (name : Name) (rest : List String)

/-- The options on one side of the command's name.  An option without a value takes the next
argument, which has to be plain; after two dashes nothing may follow. -/
def readSide (command? : Option Name) (waiting : Option Field) (s : Settings) :
    List String → Option (Settings × Ending)
  | [] => if waiting.isNone then some (s, .finished) else none
  | a :: rest =>
    let give (field : Field) (value? : Option String) :=
      match value? with
      | some value => (s.set? field value).bind fun s => readSide command? none s rest
      | none => readSide command? (some field) s rest
    match waiting, Shape.ofChars a.toList with
    | some field, .plain => (s.set? field a).bind fun s => readSide command? none s rest
    | some _, _ => none
    | none, .plain =>
      if command?.isSome then none
      else if a = "help" then some (s, .helpOn rest)
      else (Name.ofWord? a).map fun n => (s, .command n rest)
    | none, .stop => if command?.isSome && rest.isEmpty then some (s, .finished) else none
    | none, .short letter cs =>
      if letter = 'c' then give .config (attached? cs)
      else if letter = 'h' then some (s, .help)
      else if letter = 'V' ∧ command? = none then some (s, .version)
      else none
    | none, .long name value? =>
      match field? command? name with
      | some field => give field (value?.map String.ofList)
      | none =>
        if value?.isSome then none
        else if name = "help".toList then some (s, .help)
        else if name = "version".toList ∧ command? = none then some (s, .version)
        else if name = "json".toList ∧ command? = some .fingerprints then
          s.setJson?.bind fun s => readSide command? none s rest
        else none

def command? (s : Settings) : Name → Option Command
  | .fingerprints => some (.fingerprints s.json)
  | .connected =>
    match s.source?, s.target? with
    | some a, some b => some (.connected a b)
    | _, _ => none
  | .checkConfig => some .checkConfig

/-- What help is about after the word for it: the program, or one thing that the program can do. -/
def topic? : List String → Option Topic
  | [] => some .program
  | [word] => if word = "help" then some .help else (Name.ofWord? word).map .command
  | _ => none

end Arguments

/-- What the arguments ask for; `none` if they are not well-formed.  A setting after the command's
name counts for more than one before it. -/
def Request.ofArgs? (args : List String) : Option Request :=
  match Arguments.readSide none none {} args with
  | some (_, .version) => some .version
  | some (_, .help) => some (.help .program)
  | some (_, .helpOn words) => (Arguments.topic? words).map .help
  | some (before, .command name rest) =>
    match Arguments.readSide (some name) none {} rest with
    | some (_, .help) => some (.help (.command name))
    | some (after, .finished) =>
      (Arguments.command? after name).map fun c =>
        .invocation ⟨c, after.config? <|> before.config?, after.logLevel? <|> before.logLevel?⟩
    | _ => none
  | _ => none

end PluginBroker
