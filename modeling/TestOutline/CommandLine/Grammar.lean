/-!
The grammar of the command line: a subcommand, then options and operands in any order. Words are
read from left to right, and the first thing that is wrong or asks for help decides.
-/

namespace TestOutline.CommandLine

inductive Switch where
  | verbose
  | debug
  | json
  | force
deriving DecidableEq, Repr

namespace Switch

def long : Switch → String
  | verbose => "verbose"
  | debug => "debug"
  | json => "json"
  | force => "force"

def short? : Switch → Option Char
  | verbose => some 'v'
  | debug => some 'd'
  | json => none
  | force => some 'f'

end Switch

inductive Subcommand where
  | analyze
  | pattern
  | command
  | init
deriving DecidableEq, Repr

namespace Subcommand

def all : List Subcommand :=
  [analyze, pattern, command, init]

def names : Subcommand → List String
  | analyze => ["analyze", "a"]
  | pattern => ["pattern", "p"]
  | command => ["command", "c"]
  | init => ["init"]

def ofName? (name : String) : Option Subcommand :=
  all.find? (name ∈ ·.names)

def switches : Subcommand → List Switch
  | analyze => [.verbose]
  | pattern => []
  | command => [.debug, .json]
  | init => [.force]

def takesTarget (subcommand : Subcommand) : Bool :=
  subcommand ≠ init

def takesDirectory (subcommand : Subcommand) : Bool :=
  subcommand = init

end Subcommand

inductive Request where
  | analyze (target : String) (verbose : Bool)
  | pattern (target : String)
  | command (target : String) (debug json : Bool)
  | init (directory : Option String) (force : Bool)
deriving DecidableEq, Repr

inductive Notice where
  | help
  | version
  | usageError
deriving DecidableEq, Repr

inductive Form where
  | terminator
  | long (name : String) (value : Option String)
  | short (letters : List Char)
  | plain
deriving DecidableEq, Repr

def Form.ofWord (word : String) : Form :=
  match word.toList with
  | ['-', '-'] => .terminator
  | '-' :: '-' :: rest =>
    .long (.ofList (rest.takeWhile (· ≠ '=')))
      (if '=' ∈ rest then some (.ofList (rest.dropWhile (· ≠ '=')).tail) else none)
  | '-' :: letter :: letters => .short (letter :: letters)
  | _ => .plain

structure Arguments where
  switches : List Switch := []
  directory : Option String := none
  target : Option String := none
deriving DecidableEq, Repr

namespace Arguments

def give (arguments : Arguments) (switch : Switch) : Except Notice Arguments :=
  if switch ∈ arguments.switches then .error .usageError
  else .ok { arguments with switches := switch :: arguments.switches }

def giveDirectory (arguments : Arguments) (directory : String) : Except Notice Arguments :=
  match arguments.directory with
  | none => .ok { arguments with directory := some directory }
  | some _ => .error .usageError

def giveOperand (subcommand : Subcommand) (arguments : Arguments) (word : String) :
    Except Notice Arguments :=
  if subcommand.takesTarget && arguments.target.isNone then
    .ok { arguments with target := some word }
  else .error .usageError

def giveLetter (subcommand : Subcommand) (arguments : Arguments) (letter : Char) :
    Except Notice Arguments :=
  if letter = 'h' then .error .help
  else match subcommand.switches.find? (·.short? = some letter) with
    | some switch => arguments.give switch
    | none => .error .usageError

def withTarget (arguments : Arguments) (make : String → Request) : Except Notice Request :=
  match arguments.target with
  | some target => .ok (make target)
  | none => .error .usageError

def request (arguments : Arguments) : Subcommand → Except Notice Request
  | .init => .ok (.init arguments.directory (.force ∈ arguments.switches))
  | .analyze => arguments.withTarget (.analyze · (.verbose ∈ arguments.switches))
  | .pattern => arguments.withTarget .pattern
  | .command =>
    arguments.withTarget
      (.command · (.debug ∈ arguments.switches) (.json ∈ arguments.switches))

end Arguments

/-- What the next word may be. -/
inductive Phase where
  | anything
  | directory
  | operand
deriving DecidableEq, Repr

structure Reading where
  arguments : Arguments := {}
  phase : Phase := .anything
deriving DecidableEq, Repr

namespace Reading

def advance (arguments : Except Notice Arguments) (phase : Phase) : Except Notice Reading :=
  arguments.map ({ arguments := ·, phase })

def readLong (subcommand : Subcommand) (arguments : Arguments) (name : String)
    (value : Option String) : Except Notice Reading :=
  if name = "cwd" && subcommand.takesDirectory then
    match value with
    | some directory => advance (arguments.giveDirectory directory) .anything
    | none => .ok { arguments, phase := .directory }
  else if value.isSome then .error .usageError
  else if name = "help" then .error .help
  else match subcommand.switches.find? (·.long = name) with
    | some switch => advance (arguments.give switch) .anything
    | none => .error .usageError

def step (subcommand : Subcommand) (reading : Reading) (word : String) : Except Notice Reading :=
  let arguments := reading.arguments
  match reading.phase, Form.ofWord word with
  | .operand, _ => advance (arguments.giveOperand subcommand word) .operand
  | .directory, .plain => advance (arguments.giveDirectory word) .anything
  | .directory, _ => .error .usageError
  | .anything, .plain => advance (arguments.giveOperand subcommand word) .anything
  | .anything, .terminator => .ok { arguments, phase := .operand }
  | .anything, .short letters =>
    advance (letters.foldlM (Arguments.giveLetter subcommand) arguments) .anything
  | .anything, .long name value => readLong subcommand arguments name value

def finish (reading : Reading) : Except Notice Arguments :=
  if reading.phase = .directory then .error .usageError else .ok reading.arguments

end Reading

def parseArguments (subcommand : Subcommand) (words : List String) : Except Notice Request := do
  let reading ← words.foldlM (Reading.step subcommand) {}
  (← reading.finish).request subcommand

def parseHelpTopic : List String → Notice
  | [] => .help
  | [topic] => if (Subcommand.ofName? topic).isSome || topic = "help" then .help else .usageError
  | _ => .usageError

/-- The options in front of a subcommand ask for something else, whatever follows. -/
def noticeOf (form : Form) : Notice :=
  match form with
  | .short ('h' :: _) => .help
  | .short ('V' :: _) => .version
  | .long "help" none => .help
  | .long "version" none => .version
  | _ => .usageError

def parse : List String → Except Notice Request
  | [] => .error .usageError
  | word :: words =>
    match Subcommand.ofName? word with
    | some subcommand => parseArguments subcommand words
    | none => .error (if word = "help" then parseHelpTopic words else noticeOf (.ofWord word))

end TestOutline.CommandLine
