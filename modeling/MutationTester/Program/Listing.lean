import MutationTester.Program.Basic

/-!
# Listings

The readable text of instructions and functions. A function is listed as a header and one
numbered line per instruction; the differences between two listings are what a report shows
of a mutant.
-/

set_option autoImplicit false

namespace MutationTester

/-- The text of a register: the letter `r` and its number. -/
def Register.text (r : Register) : String := "r" ++ r.toNat.repr

namespace Instruction

/-- The text of an instruction. -/
def text : Instruction → String
  | const dst value => dst.text ++ " = const " ++ value.toInt.repr
  | binary kind dst lhs rhs =>
    dst.text ++ " = " ++ kind.mnemonic ++ " " ++ lhs.text ++ ", " ++ rhs.text
  | compare pred dst lhs rhs =>
    dst.text ++ " = cmp " ++ pred.mnemonic ++ " " ++ lhs.text ++ ", " ++ rhs.text
  | call (some dst) callee args =>
    dst.text ++ " = call " ++ callee ++ "(" ++ ", ".intercalate (args.map Register.text) ++ ")"
  | call none callee args =>
    "call " ++ callee ++ "(" ++ ", ".intercalate (args.map Register.text) ++ ")"
  | jump target => "jump " ++ target.toNat.repr
  | branch cond thenTo elseTo =>
    "br " ++ cond.text ++ ", " ++ thenTo.toNat.repr ++ ", " ++ elseTo.toNat.repr
  | ret (some value) => "ret " ++ value.text
  | ret none => "ret"
  | assert cond => "assert " ++ cond.text
  | print value => "print " ++ value.text
  | load dst addr => dst.text ++ " = load [" ++ addr.text ++ "]"
  | store addr value => "store [" ++ addr.text ++ "], " ++ value.text
  | abort => "abort"
  | nop => "nop"

end Instruction

/-- A number right-aligned to three columns; longer numbers take the room they need. -/
def indexColumn (n : Nat) : String :=
  let digits := n.repr
  "".pushn ' ' (3 - digits.length) ++ digits

namespace Func

/-- The first line of a listing. -/
def headerLine (f : Func) : String :=
  "fn " ++ f.name ++ "(" ++ f.params.toNat.repr ++ " params):"

/-- The line of a listing that shows the instruction at an index. -/
def instructionLine (index : Nat) (i : Instruction) : String :=
  "  " ++ indexColumn index ++ ": " ++ i.text

/-- The lines of a listing, without their line ends. -/
def listingLines (f : Func) : List String :=
  f.headerLine :: f.body.zipIdx.map fun (i, index) => instructionLine index i

/-- The listing of a function: its lines, each ended by a line feed. -/
def listing (f : Func) : String :=
  String.join (f.listingLines.map (· ++ "\n"))

end Func

end MutationTester
