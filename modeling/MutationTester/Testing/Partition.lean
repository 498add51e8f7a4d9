import MutationTester.Capacity

/-!
# Partitions

The items of a phase are divided among its workers in contiguous ranges, which keep their
order and whose sizes differ by one at most.
-/

set_option autoImplicit false

namespace MutationTester

/-- A range of positions, from `start` to before `stop`. -/
structure Span where
  start : Nat
  stop : Nat
  deriving DecidableEq

namespace Span

/-- The items at the positions of a range. -/
def slice {α : Type} (s : Span) (items : List α) : List α :=
  (items.drop s.start).take (s.stop - s.start)

end Span

/-- Where the range with a given number begins, when `len` items are divided into `parts`
ranges: the first ranges take one item more, as many of them as items would be left over. -/
def partitionBound (len parts number : Nat) : Nat :=
  number * (len / parts) + min number (len % parts)

/-- Divides `len` items among workers. There is no range without items, and no workers at all
count as one. -/
def partition (len workers : Nat) : List Span :=
  let parts := min (max workers 1) len
  (List.range parts).map fun i => ⟨partitionBound len parts i, partitionBound len parts (i + 1)⟩

/-- The bytes that a range takes. -/
def Span.bytes : Nat := 16

/-- A partition in bounded memory. The row for all ranges is asked for before the first of them is
made. -/
def partitionInMemory (len workers : Nat) : Except Capacity.Answer (List Span) :=
  match Capacity.request (min (max workers 1) len) Span.bytes with
  | .granted => .ok (partition len workers)
  | answer => .error answer

end MutationTester
