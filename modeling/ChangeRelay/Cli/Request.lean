import ChangeRelay.Config.Startup

/-!
# Command lines

What the words of a command line ask for. Words are read from left to right: the first that asks
for help, or that is wrong, decides. A command has its options after it; the format of log lines
may also be chosen before it.
-/

namespace ChangeRelay.Cli

/-- How log lines are written. -/
inductive LogFormat where
  | text
  | json
deriving DecidableEq, Repr

/-- What the program can be told to do. -/
inductive Command where
  /-- Start all streams and run until interrupted. -/
  | run
  /-- Check a configuration file. -/
  | validate
deriving DecidableEq, Repr

namespace Command

def word : Command → String
  | .run => "run"
  | .validate => "validate"

def summary : Command → String
  | .run => "Start all configured streams and run until interrupted"
  | .validate => "Parse and validate a configuration file, then exit"

def ofWord? : String → Option Command
  | "run" => some .run
  | "validate" => some .validate
  | _ => none

end Command

/-- What help is about. -/
inductive Topic where
  | program
  | command (c : Command)
  /-- Help itself. -/
  | help
deriving DecidableEq, Repr

/-- What a command line asks for. -/
inductive Request where
  | act (c : Command) (config : String) (format : LogFormat)
  | help (topic : Topic)
  | version
deriving DecidableEq, Repr

/-- Why a command line is refused. -/
inductive UsageFault where
  | missingCommand
  | unknownCommand (word : String)
  | unexpected (word : String)
  | missingValue (option : String)
  | needlessValue (option : String)
  | badFormat (value : String)
  | repeated (option : String)
  | missingConfig
deriving DecidableEq, Repr

def UsageFault.message : UsageFault → String
  | .missingCommand => "a command is required"
  | .unknownCommand w => s!"unrecognized command '{w}'"
  | .unexpected w => s!"unexpected argument '{w}'"
  | .missingValue o => s!"a value is required for '{o}'"
  | .needlessValue o => s!"'{o}' takes no value"
  | .badFormat v => s!"invalid log format '{v}': expected text or json"
  | .repeated o => s!"'{o}' cannot be used multiple times"
  | .missingConfig => "'--config' is required"

/-- Options that take a value. -/
inductive Setting where
  | config
  | logFormat
deriving DecidableEq, Repr

def Setting.word : Setting → String
  | .config => "--config"
  | .logFormat => "--log-format"

/-- The options given at one level: before a command, or after it. -/
structure Given where
  config : Option String := none
  format : Option LogFormat := none
  /-- A fault in a value that was a word of its own. It counts once the next option is read, or
  the words are at their end. -/
  late : Option UsageFault := none

/-- Takes the value of an option. -/
def Given.take (g : Given) (s : Setting) (value : String) : Except UsageFault Given :=
  match s with
  | .config =>
    if value = "" then .error (.missingValue s.word)
    else if g.config.isSome then .error (.repeated s.word)
    else .ok { g with config := some value }
  | .logFormat =>
    match value with
    | "text" | "json" =>
      if g.format.isSome then .error (.repeated s.word)
      else .ok { g with format := some (if value = "json" then .json else .text) }
    | _ => .error (.badFormat value)

/-- Takes a value that is a word of its own. -/
def Given.takeLate (g : Given) (s : Setting) (value : String) : Given :=
  match g.take s value with
  | .ok g => g
  | .error e => { g with late := some e }

/-- Brings up a fault that was put off. -/
def Given.settle (g : Given) : Except UsageFault Unit :=
  match g.late with
  | some e => .error e
  | none => .ok ()

/-- What a word is at its level. -/
inductive Word where
  | plain
  /-- Nothing but plain words may follow, and there is nothing they could be. -/
  | separator
  | help
  | version
  | attached (s : Setting) (value : String)
  /-- The value is the next word. -/
  | wanting (s : Setting)
  | wrong (e : UsageFault)

/-- A long option, without its dashes. -/
def Word.ofLong (level : Option Command) (word : String) (body : List Char) : Word :=
  let name := String.ofList (body.takeWhile (· ≠ '='))
  let value? := match body.dropWhile (· ≠ '=') with
    | _ :: value => some (String.ofList value)
    | [] => none
  let plainOption (w : Word) : Word := if value?.isSome then .wrong (.needlessValue word) else w
  let setting (s : Setting) : Word := match value? with
    | some value => .attached s value
    | none => .wanting s
  match name, level with
  | "help", _ => plainOption .help
  | "version", none => plainOption .version
  | "log-format", _ => setting .logFormat
  | "config", some _ => setting .config
  | _, _ => .wrong (.unexpected word)

/-- Short options behind one dash: the first letter decides. -/
def Word.ofShort (level : Option Command) (word : String) : List Char → Word
  | 'h' :: _ => .help
  | 'V' :: _ => if level.isNone then .version else .wrong (.unexpected word)
  | 'c' :: rest =>
    if level.isNone then .wrong (.unexpected word)
    else match rest with
      | [] => .wanting .config
      | '=' :: value => .attached .config (String.ofList value)
      | value => .attached .config (String.ofList value)
  | _ => .wrong (.unexpected word)

/-- What a word is; the level is the command it follows, if any. A lone dash is a plain word. -/
def Word.of (level : Option Command) (word : String) : Word :=
  match word.toList with
  | ['-', '-'] => .separator
  | '-' :: '-' :: body => .ofLong level word body
  | ['-'] => .plain
  | '-' :: letters => .ofShort level word letters
  | _ => .plain

/-- A command with its options, at the end of its words. -/
def Given.finish (c : Command) (outer : Option LogFormat) (g : Given) :
    Except UsageFault Request := do
  g.settle
  match g.config with
  | none => .error .missingConfig
  | some config => return .act c config ((g.format.or outer).getD .text)

/-- What follows a separator has to be nothing. -/
def endOfWords : List String → Except UsageFault Unit
  | [] => .ok ()
  | w :: _ => .error (.unexpected w)

/-- The words after a command. -/
def Request.ofOptions (c : Command) (outer : Option LogFormat) (g : Given) :
    List String → Except UsageFault Request
  | [] => g.finish c outer
  | w :: rest =>
    match Word.of (some c) w, rest with
    | .separator, rest => do
      endOfWords rest
      g.finish c outer
    | .plain, _ => .error (.unexpected w)
    | .wrong e, _ => .error e
    | .help, _ | .version, _ => do
      g.settle
      return .help (.command c)
    | .attached s value, rest => do
      g.settle
      ofOptions c outer (← g.take s value) rest
    | .wanting s, [] => .error (.missingValue s.word)
    | .wanting s, value :: rest => do
      g.settle
      match Word.of (some c) value with
      | .plain => ofOptions c outer (g.takeLate s value) rest
      | _ => .error (.missingValue s.word)

/-- The words after the command that asks for help. -/
def Request.ofTopic : List String → Except UsageFault Request
  | [] => .ok (.help .program)
  | ["help"] => .ok (.help .help)
  | [w] =>
    match Command.ofWord? w with
    | some c => .ok (.help (.command c))
    | none => .error (.unknownCommand w)
  | w :: v :: _ =>
    .error (.unknownCommand (if (Command.ofWord? w).isSome || w = "help" then v else w))

/-- The words up to a command. What was put off comes after the words of the command. -/
def Request.ofWords (g : Given) : List String → Except UsageFault Request
  | [] => do
    g.settle
    .error .missingCommand
  | w :: rest =>
    match Word.of none w, rest with
    | .separator, rest => do
      endOfWords rest
      .error .missingCommand
    | .plain, rest =>
      if w = "help" then ofTopic rest
      else
        match Command.ofWord? w with
        | none => .error (.unknownCommand w)
        | some c => do
          let request ← ofOptions c g.format {} rest
          match request with
          | .act _ _ _ => g.settle
          | _ => .ok ()
          return request
    | .wrong e, _ => .error e
    | .help, _ => do
      g.settle
      return .help .program
    | .version, _ => do
      g.settle
      return .version
    | .attached s value, rest => do
      g.settle
      ofWords (← g.take s value) rest
    | .wanting s, [] => .error (.missingValue s.word)
    | .wanting s, value :: rest => do
      g.settle
      match Word.of none value with
      | .plain => ofWords (g.takeLate s value) rest
      | _ => .error (.missingValue s.word)

/-- What a command line asks for. -/
def Request.ofArgs (args : List String) : Except UsageFault Request := ofWords {} args

/-! ## Answers -/

def programName : String := "directory-replicator"

def versionText : String := programName ++ " 0.1.0"

def programSummary : String := "Replicate a directory change feed into a key-value store"

def helpSummary : String := "Print this message or the help of the given subcommand(s)"

/-- The lines of a help text. -/
def Topic.lines : Topic → List String
  | .program => [programSummary, "", s!"Usage: {programName} [OPTIONS] <COMMAND>", "", "Commands:",
      s!"  run       {Command.run.summary}", s!"  validate  {Command.validate.summary}",
      s!"  help      {helpSummary}", "", "Options:",
      "      --log-format <LOG_FORMAT>  Log output format [possible values: text, json]",
      "  -h, --help                     Print help",
      "  -V, --version                  Print version"]
  | .command c => [c.summary, "", s!"Usage: {programName} {c.word} [OPTIONS] --config <CONFIG>", "",
      "Options:", "  -c, --config <CONFIG>",
      "      --log-format <LOG_FORMAT>  Log output format [possible values: text, json]",
      "  -h, --help                     Print help"]
  | .help => [helpSummary, "", s!"Usage: {programName} help [COMMAND]..."]

/-- How a command ends. -/
def Command.perform (around : Surroundings) (path : String) : Command → Ending
  | .run => Configuration.runCommand around path
  | .validate => Configuration.validateCommand around path

/-- What the process leaves behind: its exit code, and what it printed besides log lines. -/
structure Outcome where
  exitCode : Nat
  printed : List String := []
deriving DecidableEq, Repr

/-- What comes of a command line. -/
def outcome (around : Surroundings) (args : List String) : Outcome :=
  match Request.ofArgs args with
  | .error _ => { exitCode := 2 }
  | .ok (.help topic) => { exitCode := 0, printed := topic.lines }
  | .ok .version => { exitCode := 0, printed := [versionText] }
  | .ok (.act c path _) => { exitCode := (c.perform around path).exitCode }

end ChangeRelay.Cli
