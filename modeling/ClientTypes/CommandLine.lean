import ClientTypes.Config.Decode
import ClientTypes.Error
import ClientTypes.Graph.Decode
import ClientTypes.Report
import ClientTypes.Text.Split

/-!
# The command line

Options are written `--name value` or `--name=value`, each at most once. A value on its own may not
look like an option. The inputs are read in the order project, configuration, contract, and the
first fault is reported.

## Main definitions

* `Invocation.parse` — what some arguments ask for
* `CommandLine.run` — the outcome of some arguments, with files read by a given function
-/

namespace ClientTypes

/-- What a run of the program is asked to do. -/
structure Options where
  project : String
  config : Option String := none
  contract : Option String := none
  policy : Option Policy := none
  format : Format := .summary
deriving DecidableEq, Repr, Inhabited

/-- What the arguments ask for. -/
inductive Invocation where
  | run (options : Options)
  | version
  | help
  /-- The arguments are not understood. -/
  | misuse
deriving DecidableEq, Repr, Inhabited

def Format.ofName? : String → Option Format
  | "summary" => some .summary
  | "json" => some .json
  | "preview" => some .preview
  | _ => none

namespace Invocation

/-- Options that take a value. -/
def optionNames : List String := ["ir", "config", "contract", "policy", "format", "log-level"]

/-- Whether a value suits an option: a path is not empty, a choice is one of its alternatives. -/
def accepts (name value : String) : Bool :=
  match name with
  | "ir" | "config" => value != ""
  | "policy" => (Policy.ofName? value).isSome
  | "format" => (Format.ofName? value).isSome
  | _ => true

/-- Whether an argument has the form of an option; a single dash is a value. -/
def looksLikeOption (arg : String) : Bool :=
  match arg.toList with
  | '-' :: _ :: _ => true
  | _ => false

/-- The invocation with the given options, the project among them. -/
def ofOptions (given : List (String × String)) : Invocation :=
  match given.lookup "ir" with
  | none => misuse
  | some project => run {
      project
      config := given.lookup "config"
      contract := given.lookup "contract"
      policy := (given.lookup "policy").bind Policy.ofName?
      format := ((given.lookup "format").bind Format.ofName?).getD .summary }

/-- Adds an option that has not been given before. -/
def add? (given : List (String × String)) (name value : String) :
    Option (List (String × String)) :=
  if optionNames.contains name && accepts name value && (given.lookup name).isNone then
    some ((name, value) :: given)
  else none

/-- An argument as it is meant. -/
inductive Arg where
  /-- An option with its value attached. -/
  | attached (name value : String)
  /-- An option whose value follows, or a flag. -/
  | long (name : String)
  | short (flag : Char)
  /-- The mark after which no options come. -/
  | ending
  | value (text : String)
deriving DecidableEq, Repr, Inhabited

def Arg.ofString (arg : String) : Arg :=
  match arg.toList with
  | ['-', '-'] => ending
  | '-' :: '-' :: cs =>
    match cs.dropWhile (· != '=') with
    | '=' :: text => attached (String.ofList (cs.takeWhile (· != '='))) (String.ofList text)
    | _ => long (String.ofList cs)
  | '-' :: flag :: _ => short flag
  | _ => value arg

/-- Reads arguments from left to right after the options that have been given; what asks for the
version or for help ends the reading. -/
def parseFrom (given : List (String × String)) : List String → Invocation
  | [] => ofOptions given
  | arg :: args =>
    match Arg.ofString arg with
    | .attached name value =>
      match add? given name value with
      | some given => parseFrom given args
      | none => misuse
    | .long "version" | .short 'V' => version
    | .long "help" | .short 'h' => help
    | .long name =>
      match args with
      | [] => misuse
      | value :: args =>
        if looksLikeOption value then misuse
        else match add? given name value with
          | some given => parseFrom given args
          | none => misuse
    | .ending => if args.isEmpty then ofOptions given else misuse
    | .short _ | .value _ => misuse

def parse (args : List String) : Invocation := parseFrom [] args

end Invocation

/-- What a run ends with. -/
structure Outcome where
  code : Nat
  stdout : String := ""
  stderr : String := ""
deriving DecidableEq, Repr, Inhabited

namespace CommandLine

/-- What is printed for the version. -/
def versionText : String := "clientgen 0.1.0\n"

def usageText : String :=
  "Usage: clientgen --ir <PATH> [--config <PATH>] [--contract <NAME>] [--policy <POLICY>] " ++
  "[--format <FORMAT>] [--log-level <LEVEL>]\n"

/-- The configuration that a text makes, under a policy that overrides it. -/
def configure (text : Option String) (policy : Option Policy) : Except Error Config :=
  match text with
  | none => let config : Config := {}; .ok { config with policy := policy.getD config.policy }
  | some text =>
    match Config.parse? text with
    | none => .error .malformedConfig
    | some config => .ok { config with policy := policy.getD config.policy }

/-- The contracts that are asked for: one, or all. -/
def selected (project : Project) (name : Option String) : Except Error (List Contract) :=
  match name with
  | none => .ok project.contracts
  | some name =>
    match project.contract? name with
    | some c => .ok [c]
    | none => .error (.unknownContract name)

variable {m : Type → Type} [Monad m]

/-- The text of a file that must be readable. -/
def readInput (read : String → m (Except FileFault String)) (path : String) :
    ExceptT Error m String := do
  match ← read path with
  | .ok text => return text
  | .error fault => throw (.unreadable path fault)

/-- The report that the options ask for. -/
def report (read : String → m (Except FileFault String)) (o : Options) :
    ExceptT Error m String := do
  let text ← readInput read o.project
  let some project := Project.parse? text | throw .malformedProject
  let configText ← o.config.mapM (readInput read)
  let config ← configure configText o.policy
  let contracts ← selected project o.contract
  return (generate project config contracts).report o.format

/-- The outcome of some arguments. -/
def run (read : String → m (Except FileFault String)) (args : List String) : m Outcome := do
  match Invocation.parse args with
  | .misuse => return { code := 2, stderr := usageText }
  | .version => return { code := 0, stdout := versionText }
  | .help => return { code := 0, stdout := usageText }
  | .run options =>
    match ← (report read options).run with
    | .ok text => return { code := 0, stdout := text }
    | .error e => return { code := 1, stderr := e.message ++ "\n" }

end CommandLine

end ClientTypes
