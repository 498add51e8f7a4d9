import MutationTester.Proofs.Testing.Phases

/-!
# How even the ranges of a partition are

The first ranges of a partition are one item wider than the others (`size_range`), so that no two
sizes differ by more than one and none is larger than the one before. Laying the ranges out one
after the other takes sums none of which is greater than the number of all items
(`layOut?_eq_some`). So a partition fails for one reason only, that there is no room for the row of
its ranges (`partition_divides_evenly`).
-/

set_option autoImplicit false

namespace MutationTester

/-- The number of items in a range. -/
def Span.size (s : Span) : Nat := s.stop - s.start

/-- Ranges that lead from one position to another: each begins where the one before ends. -/
def Covers : List Span → Nat → Nat → Prop
  | [], start, stop => start = stop
  | s :: spans, start, stop => s.start = start ∧ Covers spans s.stop stop

/-- So many ranges that divide so many items evenly: none is without items, together they lead from
the first item to behind the last, and none is larger than one before it, nor smaller by more than
one. -/
structure DividesEvenly (len parts : Nat) (spans : List Span) : Prop where
  length_eq : spans.length = parts
  nonempty : ∀ s ∈ spans, s.start < s.stop
  covers : Covers spans 0 len
  sizes : spans.Pairwise fun s t => t.size ≤ s.size ∧ s.size ≤ t.size + 1

/-- A sum, if it is not greater than a limit. -/
def sumWithin? (limit a b : Nat) : Option Nat := if a + b ≤ limit then some (a + b) else none

/-- Lays so many ranges out, from the one with a number on, which begins at `start`. The first
`extra` of all ranges are wider by one. Nothing is laid out if a sum is greater than the limit. -/
def layOut? (limit width extra : Nat) : Nat → Nat → Nat → Option (List Span)
  | 0, _, _ => some []
  | left + 1, number, start => do
    let size ← sumWithin? limit width (if number < extra then 1 else 0)
    let stop ← sumWithin? limit start size
    let spans ← layOut? limit width extra left (number + 1) stop
    return ⟨start, stop⟩ :: spans

section Ranges

variable {len parts : Nat}

/-- A range is as wide as the quotient of items and parts, and by one wider if items are left over. -/
theorem partitionBound_succ (len parts number : Nat) :
    partitionBound len parts (number + 1) =
      partitionBound len parts number + (len / parts + if number < len % parts then 1 else 0) := by
  unfold partitionBound
  rw [Nat.succ_mul]
  split
  next hwider => omega
  next hnarrow => omega

theorem size_range (len parts number : Nat) :
    (⟨partitionBound len parts number, partitionBound len parts (number + 1)⟩ : Span).size =
      len / parts + if number < len % parts then 1 else 0 := by
  unfold Span.size
  dsimp only
  rw [partitionBound_succ, Nat.add_sub_cancel_left]

/-- No range ends behind the last item. -/
theorem partitionBound_le {number : Nat} (hnumber : number ≤ parts) :
    partitionBound len parts number ≤ len := by
  have hwidth : number * (len / parts) ≤ parts * (len / parts) :=
    Nat.mul_le_mul_right (len / parts) hnumber
  have hall := Nat.div_add_mod len parts
  unfold partitionBound
  omega

theorem covers_map_range' (bound : Nat → Nat) (n number : Nat) :
    Covers ((List.range' number n).map fun i => ⟨bound i, bound (i + 1)⟩)
      (bound number) (bound (number + n)) := by
  induction n generalizing number with
  | zero => exact rfl
  | succ n ih =>
    refine ⟨rfl, ?_⟩
    have hrest := ih (number + 1)
    rwa [Nat.add_right_comm] at hrest

/-- The ranges of a partition divide the items evenly. -/
theorem dividesEvenly_partition (len workers : Nat) :
    DividesEvenly len (min (max workers 1) len) (partition len workers) := by
  unfold partition
  generalize hparts : min (max workers 1) len = parts
  have hle : parts ≤ len := by omega
  constructor
  case length_eq => rw [List.length_map, List.length_range]
  case nonempty =>
    intro s hs
    obtain ⟨number, hnumber, rfl⟩ := List.mem_map.mp hs
    have hpos : 0 < parts := Nat.lt_of_le_of_lt (Nat.zero_le number) (List.mem_range.mp hnumber)
    have hwidth : 0 < len / parts := Nat.div_pos hle hpos
    dsimp only
    rw [partitionBound_succ]
    omega
  case covers =>
    have hcovers := covers_map_range' (partitionBound len parts) parts 0
    rw [← List.range_eq_range', partitionBound_zero, Nat.zero_add] at hcovers
    rcases Nat.eq_zero_or_pos parts with rfl | hpos
    · obtain rfl : len = 0 := by omega
      exact hcovers
    · rwa [partitionBound_parts hpos] at hcovers
  case sizes =>
    rw [List.pairwise_map]
    refine List.pairwise_lt_range.imp fun {number number'} hlt => ?_
    rw [size_range, size_range]
    -- a range that is wider has only such before it
    split <;> split <;> omega

/-- The ranges are laid out in full, since no sum on the way is greater than the number of items. -/
theorem layOut?_eq_some (len left number : Nat) (hleft : number + left ≤ parts) :
    layOut? len (len / parts) (len % parts) left number (partitionBound len parts number) =
      some ((List.range' number left).map fun i =>
        ⟨partitionBound len parts i, partitionBound len parts (i + 1)⟩) := by
  induction left generalizing number with
  | zero => rfl
  | succ left ih =>
    have hstop : partitionBound len parts (number + 1) ≤ len := partitionBound_le (by omega)
    have hsum := partitionBound_succ len parts number
    have hsize : sumWithin? len (len / parts) (if number < len % parts then 1 else 0) =
        some (len / parts + if number < len % parts then 1 else 0) := if_pos (by omega)
    have hnext : sumWithin? len (partitionBound len parts number)
        (len / parts + if number < len % parts then 1 else 0) =
          some (partitionBound len parts (number + 1)) := by
      rw [hsum]
      exact if_pos (by omega)
    have hrest := ih (number + 1) (by omega)
    unfold layOut?
    rw [hsize, Option.bind_eq_bind, Option.bind_some, hnext, Option.bind_eq_bind, Option.bind_some,
      hrest]
    rfl

end Ranges

/-- A partition divides any number of items evenly among any number of workers, into as many ranges as
there are workers or items, whichever is less. No sum on the way is greater than the number of items.
The ranges are given if there is room for a row of them, and else nothing is. -/
theorem partition_divides_evenly (len workers : Nat) :
    let parts := min (max workers 1) len
    let room := Capacity.request parts Span.bytes
    ∃ spans, DividesEvenly len parts spans ∧
      layOut? len (len / parts) (len % parts) parts 0 0 = some spans ∧
      partitionInMemory len workers = if room = .granted then .ok spans else .error room := by
  intro parts room
  refine ⟨partition len workers, dividesEvenly_partition len workers, ?_, ?_⟩
  · have hall := layOut?_eq_some len parts 0 (Nat.le_of_eq (Nat.zero_add parts))
    rwa [partitionBound_zero, ← List.range_eq_range'] at hall
  · unfold partitionInMemory
    split
    next hgranted => exact (if_pos hgranted).symm
    next hother => exact (if_neg hother).symm

/-- For the greatest number of items and workers that a word can hold there is no partition, as the
row for so many ranges is refused. -/
theorem no_partition_for_greatest_words :
    partitionInMemory (UInt64.size - 1) (UInt64.size - 1) = .error .refused ∧
      ¬∀ len workers, len < UInt64.size → workers < UInt64.size →
        ∃ spans, partitionInMemory len workers = .ok spans ∧
          DividesEvenly len (min (max workers 1) len) spans := by
  have hrefused : partitionInMemory (UInt64.size - 1) (UInt64.size - 1) = .error .refused := rfl
  refine ⟨hrefused, fun h => ?_⟩
  obtain ⟨spans, hspans, -⟩ := h (UInt64.size - 1) (UInt64.size - 1) (by decide) (by decide)
  rw [hrefused] at hspans
  cases hspans

end MutationTester
