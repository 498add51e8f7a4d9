/-!
# Instructions

The register machine that is put under mutation testing has thirteen instructions over
32-bit register numbers, 64-bit signed constants and 64-bit jump targets. This module
holds their syntax, the arithmetic and comparisons they name, and the facts about a single
instruction that the linker and the machine need: the registers it touches, the places it
may jump to, and whether control can pass it.
-/

set_option autoImplicit false

namespace MutationTester

/-- A register number within one call frame. -/
abbrev Register := UInt32

/-- The arithmetic operations of a `binary` instruction. -/
inductive BinaryOp
  | add
  | sub
  | mul
  | div
  | rem
  deriving DecidableEq

namespace BinaryOp

/-- The name of the operation in listings and in the module format. -/
def mnemonic : BinaryOp → String
  | add => "add"
  | sub => "sub"
  | mul => "mul"
  | div => "div"
  | rem => "rem"

/-- All operations, in the order of their declaration. -/
def all : List BinaryOp := [add, sub, mul, div, rem]

/-- The result on 64-bit words, which wrap around. A division or a remainder has no result
when the divisor is zero; both truncate toward zero otherwise. -/
def eval? (op : BinaryOp) (a b : Int64) : Option Int64 :=
  match op with
  | add => some (a + b)
  | sub => some (a - b)
  | mul => some (a * b)
  | div => if b = 0 then none else some (a / b)
  | rem => if b = 0 then none else some (a % b)

end BinaryOp

/-- The relations of a `compare` instruction. -/
inductive Comparison
  | eq
  | ne
  | lt
  | le
  | gt
  | ge
  deriving DecidableEq

namespace Comparison

/-- The name of the relation in listings and in the module format. -/
def mnemonic : Comparison → String
  | eq => "eq"
  | ne => "ne"
  | lt => "lt"
  | le => "le"
  | gt => "gt"
  | ge => "ge"

/-- All relations, in the order of their declaration. -/
def all : List Comparison := [eq, ne, lt, le, gt, ge]

/-- The relation that holds exactly where the given one does not. -/
def negate : Comparison → Comparison
  | eq => ne
  | ne => eq
  | lt => ge
  | ge => lt
  | le => gt
  | gt => le

/-- Whether the relation holds between two signed words. -/
def holds (c : Comparison) (a b : Int64) : Bool :=
  match c with
  | eq => decide (a = b)
  | ne => decide (a ≠ b)
  | lt => decide (a < b)
  | le => decide (a ≤ b)
  | gt => decide (b < a)
  | ge => decide (b ≤ a)

end Comparison

/-- One instruction of a function body. -/
inductive Instruction
  /-- Writes a constant. -/
  | const (dst : Register) (value : Int64)
  /-- Writes the result of an arithmetic operation on two registers. -/
  | binary (kind : BinaryOp) (dst lhs rhs : Register)
  /-- Writes one if a relation holds between two registers and zero otherwise. -/
  | compare (pred : Comparison) (dst lhs rhs : Register)
  /-- Calls a function by name and keeps its result if a destination is given. -/
  | call (dst : Option Register) (callee : String) (args : List Register)
  /-- Continues at another index of the same body. -/
  | jump (target : UInt64)
  /-- Continues at `thenTo` if the register is not zero and at `elseTo` if it is. -/
  | branch (cond : Register) (thenTo elseTo : UInt64)
  /-- Leaves the function, with the value of a register or with none. -/
  | ret (value : Option Register)
  /-- Fails the running test if the register is zero. -/
  | assert (cond : Register)
  /-- Prints the value of a register on a line of its own. -/
  | print (value : Register)
  /-- Reads the memory cell whose number is in `addr`. -/
  | load (dst addr : Register)
  /-- Writes the memory cell whose number is in `addr`. -/
  | store (addr value : Register)
  /-- Ends the run as a trap. -/
  | abort
  /-- Does nothing. -/
  | nop
  deriving DecidableEq

namespace Instruction

/-- Whether control never passes to the next instruction of the body. -/
def isTerminator : Instruction → Bool
  | jump .. | branch .. | ret .. | abort => true
  | _ => false

/-- The registers that an instruction reads or writes. -/
def registers : Instruction → List Register
  | const dst _ => [dst]
  | binary _ dst lhs rhs => [dst, lhs, rhs]
  | compare _ dst lhs rhs => [dst, lhs, rhs]
  | call dst _ args => dst.toList ++ args
  | jump _ => []
  | branch cond _ _ => [cond]
  | ret value => value.toList
  | assert cond => [cond]
  | print value => [value]
  | load dst addr => [dst, addr]
  | store addr value => [addr, value]
  | abort => []
  | nop => []

/-- The highest register that an instruction reads or writes, if it touches any. -/
def maxRegister? (i : Instruction) : Option Register :=
  i.registers.max?

/-- The indexes at which an instruction may make control continue by a jump. -/
def targets : Instruction → List UInt64
  | jump target => [target]
  | branch _ thenTo elseTo => [thenTo, elseTo]
  | _ => []

end Instruction

end MutationTester
