/-!
# Capacity

Memory is asked for in rows that lie in one piece. A row that would span half of all addresses
or more is refused as such, and whoever asks for it gives up. A row that is shorter but longer
than what a process can address is not refused: the process that asks for it is aborted.
-/

set_option autoImplicit false

namespace MutationTester.Capacity

/-- What becomes of a request for a row. -/
inductive Answer
  /-- The row is there. -/
  | granted
  /-- The process ends. -/
  | aborted
  /-- The request is refused. -/
  | refused
  deriving DecidableEq

/-- Rows of so many bytes are refused: half of all addresses of a word. -/
def refused : Nat := UInt64.size / 2

/-- The bytes that a process can address, for which it uses 47 of the 64 bits of a word. -/
def addressable : Nat := UInt64.size / 131072

/-- What becomes of a request for a row of `count` things of so many bytes each. -/
def request (count bytes : Nat) : Answer :=
  if count * bytes < addressable then .granted
  else if count * bytes < refused then .aborted
  else .refused

/-- What is said when a request is refused. -/
def refusal : String := "capacity overflow"

end MutationTester.Capacity
