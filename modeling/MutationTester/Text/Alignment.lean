import MutationTester.Text.Edit
import MutationTester.Text.Frontier

/-!
# Alignments

The alignment of two lists of lines is a shortest list of edits that leads from the one to the
other. The lines that both begin with and the lines that both end with are kept. What lies
between is cut in the middle of a shortest walk, and both parts are aligned in the same way.
-/

set_option autoImplicit false

namespace MutationTester.Text

/-- The lines that two lists begin with. -/
def commonStart : List String → List String → List String
  | a :: as, b :: bs => if a = b then a :: commonStart as bs else []
  | _, _ => []

/-- The lines that two lists end with. -/
def commonEnd (as bs : List String) : List String :=
  (commonStart as.reverse bs.reverse).reverse

/-- The alignment of two lists of lines that are cut so many times at most. -/
def alignWithin : Nat → List String → List String → List Edit
  | 0, old, new => Edit.replace old new
  | cuts + 1, old, new =>
    let start := commonStart old new
    let old := old.drop start.length
    let new := new.drop start.length
    let finish := commonEnd old new
    let old := old.take (old.length - finish.length)
    let new := new.take (new.length - finish.length)
    let edits :=
      if old.isEmpty || new.isEmpty then Edit.replace old new
      else
        match middle? old new with
        | some (x, y) =>
          alignWithin cuts (old.take x) (new.take y) ++ alignWithin cuts (old.drop x) (new.drop y)
        | none => Edit.replace old new
    start.map .keep ++ edits ++ finish.map .keep

/-- The alignment of two lists of lines. Each cut leaves shorter lists, so that there are fewer
cuts than lines. -/
def align (old new : List String) : List Edit := alignWithin (old.length + new.length) old new

end MutationTester.Text
