import MutationTester.CommandLine.Command
import MutationTester.Display.Report
import MutationTester.Storage.Loading
import MutationTester.Storage.State
import MutationTester.Testing.Campaign

/-!
# Carrying out commands

A command writes to two channels and ends with an exit code: zero if all is well, one if
mutants have survived, two if there is nothing to work on, three if the work fails, and more
if it cannot even be begun: 101 if the program gives up, 134 if its process is aborted.
-/

set_option autoImplicit false

namespace MutationTester.CommandLine

/-- What a command leaves: its exit code, its output, and what it writes on errors. -/
structure Reply where
  code : Nat
  output : String
  errors : String
  deriving DecidableEq

/-- What commands take as given: whether styles are shown, and the configuration that settings
are added to. -/
structure Context where
  styled : Bool
  defaults : Config

namespace Reply

/-- A command that ends with lines of output. -/
def lines (code : Nat) (output : List String) : Reply := ⟨code, Display.unlines output, ""⟩

/-- A command that ends with an error. -/
def error (styled : Bool) (code : Nat) (message : String) : Reply :=
  ⟨code, "", Display.unlines [Display.errorLine styled message]⟩

end Reply

/-- The exit code for a failure. -/
def exitCode : Failure → Nat
  | .moduleLoad .. => 2
  | .noTests .. => 2
  | _ => 3

/-- What is said where a report is needed and none is kept. -/
def noPreviousRun (styled : Bool) : Reply :=
  .error styled 2 "No previous run found. Run `irmut run` first."

/-- What is said at the end of a run. -/
def runReply (styled : Bool) (s : RunSettings) (r : Report) : Reply :=
  let code := if 0 < r.survived then 1 else 0
  if s.quiet then .lines code []
  else if s.json then .lines code [r.toJson.toText]
  else .lines code (Display.reportLines styled r)

/-- The campaign that the settings of a run ask for. -/
def RunSettings.campaign (s : RunSettings) (defaults : Config) (p : Program) :
    Except Violation (Except Failure Report) :=
  let config := s.config defaults
  (Campaign.runInMemory p (Sandbox.ofKind config.sandbox) {} config ()).1

/-- What is said when a run cannot be begun. -/
def unbegunReply : Violation → Reply
  | .tooManyWorkers .aborted => ⟨134, "", Display.unlines ["memory allocation failed"]⟩
  | _ => ⟨101, "", Display.unlines [Capacity.refusal]⟩

/-- What is said of a survivor. -/
def detailReply (styled : Bool) (reference : String) (json : Bool) (r : Report) : Reply :=
  match r.survivorPosition? reference >>= fun i => r.mutants[i]? with
  | some m =>
    if json then .lines 0 [m.toJson.toText] else .lines 0 (Display.mutantLines styled reference m)
  | none =>
    .error styled 2 ("Mutant " ++ reference ++ " not found. Valid refs: " ++
      ", ".intercalate r.validReferences)

/-- What is said of a report that is kept. -/
def statusReply (styled json : Bool) (r : Report) : Reply :=
  .lines 0 (if json then [r.toJson.toText] else Display.statusLines styled r)

variable {m : Type → Type} [Monad m]

/-- The program that the settings of a run name, if they name one at all. -/
def RunSettings.loadProgram (fs : FileSystem m) (s : RunSettings) : ExceptT Failure m (Option Program) := do
  let listed ← match s.list with
    | some list => fs.loadModuleList list
    | none => pure []
  match s.modules ++ listed with
  | [] => return none
  | paths => return some (← fs.loadProgram paths)

/-- Runs a campaign and keeps its report. That the report cannot be kept is no failure of the
run. -/
def RunSettings.execute (fs : FileSystem m) (context : Context) (s : RunSettings) : m Reply := do
  match ← (s.loadProgram fs).run with
  | .error e => return .error context.styled (exitCode e) e.message
  | .ok none =>
    return .error context.styled 2 "No modules given. Pass module files or --list <file>."
  | .ok (some p) =>
    match s.campaign context.defaults p with
    | .error v => return unbegunReply v
    | .ok (.error e) => return .error context.styled (exitCode e) e.message
    | .ok (.ok r) =>
      let _ ← (fs.saveReport stateFile r).run
      return runReply context.styled s r

/-- Carries out a command. -/
def Command.execute (fs : FileSystem m) (context : Context) : Command → m Reply
  | .run s => s.execute fs context
  | .detail reference json => do
    match ← fs.loadReport? stateFile with
    | some r => return detailReply context.styled reference json r
    | none => return noPreviousRun context.styled
  | .status json => do
    match ← fs.loadReport? stateFile with
    | some r => return statusReply context.styled json r
    | none => return noPreviousRun context.styled

/-- How the commands are used. -/
def usage : List String :=
  ["Mutation testing for IR programs", "", "Usage: irmut <command>", "",
    "  run [options] [modules]   run mutation testing over a set of modules",
    "  show [--json] <ref>       show details for a survived mutant",
    "  status [--json]           summary of the last run"]

/-- What is said where no command is carried out. -/
def Refusal.reply : Refusal → Reply
  | misuse => ⟨2, "", Display.unlines usage⟩
  | help => .lines 0 usage
  | version => .lines 0 ["irmut 0.1.0"]

/-- Whether styles are forced on where the reader is no terminal. -/
def stylesForced (environment : Environment) : Bool :=
  match environment.lookup "CLICOLOR_FORCE" with
  | some v => v ≠ "0"
  | none => false

/-- Carries out what arguments and environment variables ask for. -/
def perform (fs : FileSystem m) (defaults : Config) (environment : Environment) (args : List String) :
    m Reply :=
  match Command.parse environment args with
  | .ok command => command.execute fs ⟨stylesForced environment, defaults⟩
  | .error refusal => return refusal.reply

end MutationTester.CommandLine
