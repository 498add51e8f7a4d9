import MutationTester.CommandLine.Grammar
import MutationTester.Config.Basic
import MutationTester.Decimal.Literal
import MutationTester.Decimal.Word
import MutationTester.Storage.Path

/-!
# Commands

There are three: one runs a campaign, one shows a survivor of the last campaign, and one sums
the last campaign up. Some settings of a run are taken from the environment where no option
gives them.
-/

set_option autoImplicit false

namespace MutationTester.CommandLine

/-- Environment variables with their values. -/
abbrev Environment := List (String × String)

/-! ## Values -/

/-- A path, which is not empty. -/
def path? (s : String) : Option Path := if s = "" then none else some s

/-- One of the kinds of sandboxes. -/
def sandboxKind? (s : String) : Option SandboxKind := SandboxKind.choices.lookup s

/-- An operator, whose name is written with dashes. -/
def operator? (s : String) : Option Operator :=
  Operator.all.find? fun op => op.name.map (fun c => if c = '_' then '-' else c) = s

/-! ## Settings of a run -/

/-- What the arguments of a run say. -/
structure RunSettings where
  modules : List Path := []
  list : Option Path := none
  timeout : Option Nat := none
  maxDistance : Option Nat := none
  workers : Option Nat := none
  testPrefix : Option String := none
  timeoutMultiplier : Option Float := none
  sandbox : Option SandboxKind := none
  operators : List Operator := []
  tests : List String := []
  excludeTests : List String := []
  excludeFunctions : List String := []
  allKills : Bool := false
  mutateTests : Bool := false
  json : Bool := false
  quiet : Bool := false

/-- A setting that is made once. -/
def once {α : Type} (old : Option α) (new : Option α) : Option (Option α) :=
  match old with
  | some _ => none
  | none => new.map some

/-- A flag that is raised once. -/
def raise (old : Bool) : Option Bool := if old then none else some true

/-- The switch by which help is asked for. -/
def helpSwitch {σ : Type} : Switch σ := ⟨"help", some 'h', .stop .help⟩

/-- The grammar of a run. -/
def runGrammar : Grammar RunSettings where
  switches := [
    ⟨"list", some 'l', .value fun v s => do return { s with list := ← once s.list (path? v) }⟩,
    ⟨"timeout", none, .value fun v s => do
      return { s with timeout := ← once s.timeout (Decimal.word? v) }⟩,
    ⟨"max-distance", none, .value fun v s => do
      return { s with maxDistance := ← once s.maxDistance (Decimal.word? v) }⟩,
    ⟨"workers", some 'w', .value fun v s => do
      return { s with workers := ← once s.workers (Decimal.word? v) }⟩,
    ⟨"test-prefix", none, .value fun v s => do
      return { s with testPrefix := ← once s.testPrefix (some v) }⟩,
    ⟨"timeout-mult", none, .value fun v s => do
      return { s with timeoutMultiplier := ← once s.timeoutMultiplier (Decimal.double? v) }⟩,
    ⟨"sandbox", none, .value fun v s => do
      return { s with sandbox := ← once s.sandbox (sandboxKind? v) }⟩,
    ⟨"operator", some 'o', .value fun v s => do
      return { s with operators := s.operators ++ [← operator? v] }⟩,
    ⟨"test", some 't', .value fun v s => some { s with tests := s.tests ++ [v] }⟩,
    ⟨"exclude-test", none, .value fun v s => some { s with excludeTests := s.excludeTests ++ [v] }⟩,
    ⟨"exclude-function", none, .value fun v s =>
      some { s with excludeFunctions := s.excludeFunctions ++ [v] }⟩,
    ⟨"all-kills", none, .flag fun s => do return { s with allKills := ← raise s.allKills }⟩,
    ⟨"mutate-tests", none, .flag fun s => do return { s with mutateTests := ← raise s.mutateTests }⟩,
    ⟨"json", none, .flag fun s => do return { s with json := ← raise s.json }⟩,
    ⟨"quiet", some 'q', .flag fun s => do return { s with quiet := ← raise s.quiet }⟩,
    helpSwitch]
  operand arg s := do return { s with modules := s.modules ++ [← path? arg] }

/-- A setting from an option or else from the environment, where its value has to be good. -/
def orVariable {α : Type} (environment : Environment) (name : String) (decode : String → Option α)
    (setting : Option α) : Except Refusal (Option α) :=
  match setting, environment.lookup name with
  | some a, _ => .ok (some a)
  | none, some v => do return some (← require (decode v))
  | none, none => .ok none

/-- Takes from the environment what the arguments of a run leave open. -/
def RunSettings.complete (environment : Environment) (s : RunSettings) :
    Except Refusal RunSettings := do
  return { s with
    timeout := ← orVariable environment "IRMUT_TIMEOUT" Decimal.word? s.timeout
    maxDistance := ← orVariable environment "IRMUT_MAX_DISTANCE" Decimal.word? s.maxDistance
    workers := ← orVariable environment "IRMUT_WORKERS" Decimal.word? s.workers
    sandbox := ← orVariable environment "IRMUT_SANDBOX" sandboxKind? s.sandbox }

/-- The configuration that the settings of a run ask for; what they leave open is taken from
another one. -/
def RunSettings.config (s : RunSettings) (defaults : Config) : Config where
  timeoutMs := s.timeout.getD defaults.timeoutMs
  maxDistance := s.maxDistance.getD defaults.maxDistance
  workers := s.workers.getD defaults.workers
  testPrefix := s.testPrefix.getD defaults.testPrefix
  timeoutMultiplier := s.timeoutMultiplier.getD defaults.timeoutMultiplier
  stopOnFirstKill := !s.allKills
  mutateTestBodies := s.mutateTests
  sandbox := s.sandbox.getD defaults.sandbox
  progress := !s.json && !s.quiet
  filter := ⟨s.tests, s.excludeTests, s.excludeFunctions, s.operators⟩

/-! ## Settings of the other commands -/

/-- What the arguments of the other commands say. -/
structure ViewSettings where
  reference : Option String := none
  json : Bool := false

/-- The switch by which output in JSON is asked for. -/
def jsonSwitch : Switch ViewSettings :=
  ⟨"json", none, .flag fun s => do return { s with json := ← raise s.json }⟩

/-- The grammar of the command that shows a survivor. -/
def detailGrammar : Grammar ViewSettings where
  switches := [jsonSwitch, helpSwitch]
  operand arg s := do return { s with reference := ← once s.reference (some arg) }

/-- The grammar of the command that sums the last run up. -/
def statusGrammar : Grammar ViewSettings where
  switches := [jsonSwitch, helpSwitch]
  operand _ _ := none

/-! ## Commands -/

/-- What is asked for. -/
inductive Command
  | run (settings : RunSettings)
  | detail (reference : String) (json : Bool)
  | status (json : Bool)

/-- The options that stand in the place of a command. -/
def topGrammar : Grammar Unit where
  switches := [helpSwitch, ⟨"version", some 'V', .stop .version⟩]
  operand _ _ := none

/-- The names of the commands that help can be asked for. -/
def commandNames : List String := ["run", "show", "status", "help"]

/-- What asking for help on some names leads to. -/
def helpOn : List String → Refusal
  | [] => .help
  | [name] => if commandNames.contains name then .help else .misuse
  | _ => .misuse

/-- The command that arguments and environment variables stand for. -/
def Command.parse (environment : Environment) : List String → Except Refusal Command
  | "run" :: args => do
    let settings ← runGrammar.read {} none args
    return .run (← settings.complete environment)
  | "show" :: args => do
    let settings ← detailGrammar.read {} none args
    return .detail (← require settings.reference) settings.json
  | "status" :: args => do
    let settings ← statusGrammar.read {} none args
    return .status settings.json
  | "help" :: names => .error (helpOn names)
  | args => do
    topGrammar.read () none args
    .error .misuse

end MutationTester.CommandLine
