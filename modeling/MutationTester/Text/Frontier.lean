/-!
# Frontiers

Two rows of lines are walked along together. A walk has used up so many lines of each row; it
goes on for free as long as the next lines of both are equal, and for one edit past a line of
either row. The difference of the two numbers is the diagonal that the walk is on.

A frontier tells how far the walks with a number of edits come, one for each diagonal that they
can be on. A walk from the starts and a walk from the ends meet on their way, and where the first
two meet, the rows are cut in the middle of a shortest walk.
-/

set_option autoImplicit false

namespace MutationTester.Text

/-- The number of equal lines of two rows from two places on. -/
def agreement (old new : Array String) (x y : Nat) : Nat :=
  if h : x < old.size ∧ y < new.size then
    if old[x] = new[y] then agreement old new (x + 1) (y + 1) + 1 else 0
  else 0
termination_by old.size - x

/-- How far walks come with as many edits as there are entries less one. The entries are for every
other diagonal, downwards from the one that is the number of edits. -/
structure Frontier where
  /-- The lines of the first row that are used up by the last edit. -/
  starts : Array Nat
  /-- The lines of the first row that are used up when the next lines differ. -/
  stops : Array Nat

namespace Frontier

/-- The number of edits. -/
def edits (f : Frontier) : Nat := f.starts.size - 1

/-- The lines of the second row that are used up, given those of the first, on the diagonal of
an entry of a frontier of so many edits. -/
def acrossAt (edits entry x : Nat) : Nat := x + 2 * entry - edits

/-- The frontier with the given starts. -/
def ofStarts (old new : Array String) (starts : Array Nat) : Frontier where
  starts := starts
  stops := starts.mapIdx fun i x => x + agreement old new x (acrossAt (starts.size - 1) i x)

/-- The frontier of the walks without edits. -/
def first (old new : Array String) : Frontier := ofStarts old new #[0]

/-- The frontier of the walks with one more edit. A walk on a diagonal comes from the one below
past a line of the first row, or from the one above past a line of the second. -/
def next (old new : Array String) (f : Frontier) : Frontier :=
  ofStarts old new (Array.zipWith max ((f.stops.map (· + 1)).push 0) (#[0] ++ f.stops))

/-- How far the walks of a frontier come on the diagonal of an entry of the frontier from the
other ends, which has so many edits. The excess of the first row over the second is given. -/
def facing? (f : Frontier) (excess : Int) (edits entry : Nat) : Option Nat :=
  let place : Int := (f.edits + edits - excess) / 2 - entry
  if 0 ≤ place then f.stops[place.toNat]? else none

/-- The first entry whose walk meets a walk of a frontier from the other ends, in rows of the
given sizes. -/
def meeting? (f other : Frontier) (oldSize newSize : Nat) : Option Nat :=
  (List.range f.stops.size).find? fun i =>
    match other.facing? (oldSize - newSize) f.edits i with
    | some x => oldSize ≤ f.stops.getD i 0 + x
    | none => false

/-- Where the first two walks meet, by the lines of both rows that are used up there, given the
frontiers from both ends. The walks go on for so many edits at most. -/
def middle? (old new : Array String) : Nat → Frontier → Frontier → Option (Nat × Nat)
  | 0, _, _ => none
  | edits + 1, ahead, back =>
    let ahead := ahead.next old new
    let further := back.next old.reverse new.reverse
    if (old.size + new.size) % 2 = 1 then
      match ahead.meeting? back old.size new.size with
      | some i =>
        let x := ahead.starts.getD i 0
        some (x, acrossAt ahead.edits i x)
      | none => middle? old new edits ahead further
    else
      match further.meeting? ahead old.size new.size with
      | some i =>
        let x := further.stops.getD i 0
        some (old.size - x, new.size - acrossAt further.edits i x)
      | none => middle? old new edits ahead further

end Frontier

/-- Where two rows of lines are best cut, if their first lines differ and their last lines. -/
def middle? (old new : List String) : Option (Nat × Nat) :=
  let a := old.toArray
  let b := new.toArray
  Frontier.middle? a b (a.size + b.size) (Frontier.first a b)
    (Frontier.first a.reverse b.reverse)

end MutationTester.Text
