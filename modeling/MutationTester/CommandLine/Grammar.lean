/-!
# The grammar of arguments

The arguments of a command are operands and options in any order. An option has a long name
after two dashes, and may have a letter after one; the letters of several options may share a
dash. An option that takes a value takes the next argument, or what follows an equals sign, or
what follows its letter. After two dashes alone all arguments are operands.

Arguments are read from first to last into a record of settings, each with an action that says
what it changes there, or that it cannot be.
-/

set_option autoImplicit false

namespace MutationTester.CommandLine

/-- Why a command is not carried out. -/
inductive Refusal
  /-- The arguments do not fit the grammar. -/
  | misuse
  /-- Help was asked for. -/
  | help
  /-- The version was asked for. -/
  | version
  deriving DecidableEq

/-- What an option does to settings in `σ`. -/
inductive Action (σ : Type)
  /-- It stands alone. -/
  | flag (set : σ → Option σ)
  /-- It takes a value. -/
  | value (set : String → σ → Option σ)
  /-- It ends the reading. -/
  | stop (reason : Refusal)

/-- An option: its long name, its letter, and what it does. -/
structure Switch (σ : Type) where
  name : String
  letter : Option Char
  action : Action σ

/-- The grammar of a command: its options, and what an operand does. -/
structure Grammar (σ : Type) where
  switches : List (Switch σ)
  operand : String → σ → Option σ

/-- Whether an argument is written as an option. A single dash is not. -/
def isOption (arg : String) : Bool :=
  match arg.toList with
  | '-' :: _ :: _ => true
  | _ => false

/-- A change of settings that has to be possible. -/
def require {σ : Type} (s : Option σ) : Except Refusal σ :=
  match s with
  | some s => .ok s
  | none => .error .misuse

/-- What is left to be read of an option: nothing, or its value. -/
abbrev Pending (σ : Type) := Option (String → σ → Option σ)

namespace Grammar

variable {σ : Type}

/-- What the option with a long name does. -/
def named? (g : Grammar σ) (name : String) : Option (Action σ) :=
  (g.switches.find? fun s => s.name = name).map Switch.action

/-- What the option with a letter does. -/
def lettered? (g : Grammar σ) (letter : Char) : Option (Action σ) :=
  (g.switches.find? fun s => s.letter = some letter).map Switch.action

/-- Reads an option with a long name, given the characters after the dashes. -/
def readLong (g : Grammar σ) (s : σ) (cs : List Char) : Except Refusal (σ × Pending σ) :=
  let (name, rest) := cs.span (· ≠ '=')
  match g.named? (String.ofList name), rest with
  | some (.flag set), [] => do return (← require (set s), none)
  | some (.value set), [] => .ok (s, some set)
  | some (.value set), _ :: value => do return (← require (set (String.ofList value) s), none)
  | some (.stop reason), [] => .error reason
  | _, _ => .error .misuse

/-- What follows the letter of an option, without an equals sign in front. -/
def attached : List Char → List Char
  | '=' :: cs => cs
  | cs => cs

/-- Reads options with letters, given the characters after the dash. -/
def readLetters (g : Grammar σ) (s : σ) : List Char → Except Refusal (σ × Pending σ)
  | [] => .ok (s, none)
  | c :: cs =>
    match g.lettered? c with
    | some (.flag set) =>
      match set s with
      | some s => readLetters g s cs
      | none => .error .misuse
    | some (.value set) =>
      if cs.isEmpty then .ok (s, some set)
      else do return (← require (set (String.ofList (attached cs)) s), none)
    | some (.stop reason) => .error reason
    | none => .error .misuse

/-- Reads operands only. -/
def readOperands (g : Grammar σ) (s : σ) (args : List String) : Except Refusal σ :=
  args.foldlM (fun s arg => require (g.operand arg s)) s

/-- Reads arguments, the first of which may be the value of the option before. -/
def read (g : Grammar σ) (s : σ) (pending : Pending σ) : List String → Except Refusal σ
  | [] => if pending.isSome then .error .misuse else .ok s
  | arg :: args =>
    match pending with
    | some set => if isOption arg then .error .misuse else require (set arg s) >>= (read g · none args)
    | none =>
      match arg.toList with
      | ['-', '-'] => g.readOperands s args
      | '-' :: '-' :: cs => g.readLong s cs >>= fun (s, pending) => read g s pending args
      | '-' :: c :: cs => g.readLetters s (c :: cs) >>= fun (s, pending) => read g s pending args
      | _ => require (g.operand arg s) >>= (read g · none args)

end Grammar

end MutationTester.CommandLine
