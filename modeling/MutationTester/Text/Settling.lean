import MutationTester.Text.Edit

/-!
# Settling insertions

Where a line is kept in front of an insertion that ends with an equal line, the insertion can as
well begin with that line: nothing else changes. So an insertion can rise and, the other way
round, sink. Insertions that touch become one.

To settle the edits of a text, its insertions are taken from the first to the last. Each rises
as far as it can and then sinks as far as it can, so that in the end there are few insertions,
and they are as far down as they can be.
-/

set_option autoImplicit false

namespace MutationTester.Text

/-- Edits of which those so far are settled. -/
structure Settling where
  /-- The edits so far, from the last to the first. -/
  above : List Edit := []
  /-- The lines of an insertion below them that may still sink. -/
  sinking : Option (List String) := none

namespace Settling

/-- Lets an insertion of some lines rise through the edits above it, which are given from the last
to the first, and gives those that are above it then and those that are below. -/
def rise (lines : List String) : List Edit → List Edit → Settling × List Edit
  | [], below => (⟨[], some lines⟩, below)
  | .keep line :: above, below =>
    if lines.getLast? = some line then rise (line :: lines.dropLast) above (.keep line :: below)
    else (⟨.keep line :: above, some lines⟩, below)
  | .delete line :: above, below => rise lines above (.delete line :: below)
  | .insert more :: above, below => rise (more ++ lines) above below

/-- Goes on to the next edit, past which an insertion may sink. -/
def sink (s : Settling) (e : Edit) : Settling :=
  match s.sinking, e with
  | none, _ => ⟨e :: s.above, none⟩
  | some lines, .keep line =>
    if lines.head? = some line then ⟨e :: s.above, some (lines.tail ++ [line])⟩
    else ⟨e :: .insert lines :: s.above, none⟩
  | some lines, .delete _ => ⟨e :: s.above, some lines⟩
  | some lines, .insert more => ⟨s.above, some (lines ++ more)⟩

/-- Goes on to the next edit. If it is an insertion and no other sinks onto it, it rises first. -/
def add (s : Settling) (e : Edit) : Settling :=
  match s.sinking, e with
  | none, .insert lines =>
    let (s, below) := rise lines s.above []
    below.foldl sink s
  | _, _ => s.sink e

/-- The edits, once the last of them is settled. -/
def edits (s : Settling) : List Edit :=
  match s.sinking with
  | none => s.above.reverse
  | some lines => (.insert lines :: s.above).reverse

end Settling

/-- The edits with their insertions settled. -/
def settle (edits : List Edit) : List Edit := (edits.foldl Settling.add {}).edits

end MutationTester.Text
