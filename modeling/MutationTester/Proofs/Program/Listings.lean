import MutationTester.Proofs.Program.InstructionTexts
import MutationTester.Proofs.Text.Lines

/-!
# The lines of a listing

No line of a listing is broken if no name in it is: not that of the function, nor that of one that it
calls (`Func.unbroken_of_mem_listingLines`). A line tells its index and the text of its instruction, and
no instruction has a line like the header. So if an instruction is exchanged, one line of the listing is
exchanged, and neither the old nor the new line stands anywhere else in it
(`Func.exists_listingLines_set`).
-/

set_option autoImplicit false

namespace MutationTester

open Text (Unbroken unbroken_append unbroken_intercalate)

/-! ## Lines without breaks -/

/-- The name of the function that an instruction calls. -/
def Instruction.callee? : Instruction → Option String
  | call _ callee _ => some callee
  | _ => none

/-- The names of the functions that the instructions of a function call. -/
def Func.callees (f : Func) : List String := f.body.filterMap Instruction.callee?

/-- A number is written in digits, none of which ends a line. -/
@[simp] theorem unbroken_repr (n : Nat) : Unbroken n.repr := by
  have hdigits (c : Char) (hc : c ∈ n.repr.toList) : c.isDigit = true :=
    Json.isDigit_of_mem_toDigits c (by simpa using hc)
  exact ⟨fun h => absurd (hdigits _ h) (by decide), fun h => absurd (hdigits _ h) (by decide)⟩

@[simp] theorem unbroken_int_repr (n : Int) : Unbroken n.repr := by
  cases n with
  | ofNat n => exact unbroken_repr n
  | negSucc n => exact unbroken_append.mpr ⟨by decide, unbroken_repr (n + 1)⟩

@[simp] theorem Register.unbroken_text (r : Register) : Unbroken r.text :=
  unbroken_append.mpr ⟨by decide, unbroken_repr r.toNat⟩

@[simp] theorem BinaryOp.unbroken_mnemonic (op : BinaryOp) : Unbroken op.mnemonic := by
  cases op <;> decide

@[simp] theorem Comparison.unbroken_mnemonic (c : Comparison) : Unbroken c.mnemonic := by
  cases c <;> decide

namespace Instruction

theorem unbroken_text (i : Instruction) (h : ∀ callee, i.callee? = some callee → Unbroken callee) :
    Unbroken i.text := by
  cases i with
  | call dst callee args =>
    have hargs : Unbroken (", ".intercalate (args.map Register.text)) := by
      refine unbroken_intercalate (by decide) fun s hs => ?_
      obtain ⟨r, -, rfl⟩ := List.mem_map.mp hs
      exact r.unbroken_text
    cases dst <;> simp +decide [text, hargs, h callee rfl]
  | ret value => cases value <;> simp +decide [text]
  | _ => simp +decide [text]

end Instruction

/-! ## Which line stands where -/

theorem toList_indexColumn (n : Nat) :
    (indexColumn n).toList = List.replicate (3 - n.repr.length) ' ' ++ Nat.toDigits 10 n := by
  have hblanks (k : Nat) : ("".pushn ' ' k).toList = List.replicate k ' ' := by
    induction k with
    | zero => rfl
    | succ k ih =>
      have hnext : "".pushn ' ' (k + 1) = ("".pushn ' ' k).push ' ' := rfl
      rw [hnext, String.toList_push, ih, List.replicate_succ']
  unfold indexColumn
  rw [String.toList_append, hblanks, Nat.toList_repr]

theorem eq_of_indexColumn_eq {n m : Nat}
    (h : (indexColumn n).toList = (indexColumn m).toList) : n = m := by
  -- how many blanks are in front depends on the number, so they are filtered out
  have hdigits (n : Nat) : (indexColumn n).toList.filter Char.isDigit = Nat.toDigits 10 n := by
    have hall : (Nat.toDigits 10 n).filter Char.isDigit = Nat.toDigits 10 n :=
      List.filter_eq_self.mpr (Json.isDigit_of_mem_toDigits (n := n))
    rw [toList_indexColumn, List.filter_append, List.filter_replicate_of_neg (by decide), hall]
    rfl
  have hnumber : Nat.toDigits 10 n ++ [] = Nat.toDigits 10 m ++ [] := by
    rw [← hdigits n, ← hdigits m, h]
  exact (eq_of_append_number hnumber endsDigits_nil endsDigits_nil).1

theorem not_mem_indexColumn (n : Nat) : ':' ∉ (indexColumn n).toList := by
  rw [toList_indexColumn, List.mem_append, not_or]
  refine ⟨fun h => ?_, fun h => ?_⟩
  · cases List.eq_of_mem_replicate h
  · cases Json.isDigit_of_mem_toDigits _ h

@[simp] theorem unbroken_indexColumn (n : Nat) : Unbroken (indexColumn n) := by
  have hcolumn (c : Char) (hc : c ∈ (indexColumn n).toList) : c = ' ' ∨ c.isDigit = true := by
    rw [toList_indexColumn, List.mem_append] at hc
    exact hc.imp List.eq_of_mem_replicate (Json.isDigit_of_mem_toDigits c)
  exact ⟨fun h => absurd (hcolumn _ h) (by decide), fun h => absurd (hcolumn _ h) (by decide)⟩

namespace Func

theorem toList_instructionLine (index : Nat) (i : Instruction) :
    (instructionLine index i).toList =
      ' ' :: ' ' :: ((indexColumn index).toList ++ ':' :: ' ' :: i.text.toList) := by
  simp [instructionLine]

/-- A line tells its index and the text of its instruction. -/
theorem eq_of_instructionLine_eq {index index' : Nat} {i i' : Instruction}
    (h : instructionLine index i = instructionLine index' i') : index = index' ∧ i.text = i'.text := by
  have hchars := congrArg String.toList h
  rw [toList_instructionLine, toList_instructionLine] at hchars
  obtain ⟨hcolumn, htext⟩ := eq_of_append_separator (List.cons.inj (List.cons.inj hchars).2).2
    (not_mem_indexColumn index) (not_mem_indexColumn index')
  exact ⟨eq_of_indexColumn_eq hcolumn, String.toList_inj.mp (List.cons.inj htext).2⟩

theorem headerLine_ne_instructionLine (f : Func) (index : Nat) (i : Instruction) :
    f.headerLine ≠ instructionLine index i := by
  intro h
  have hchars := congrArg String.toList h
  rw [toList_instructionLine] at hchars
  simp [headerLine] at hchars

/-- The lines of a listing above that of an instruction, which stands behind the given ones. -/
def linesAbove (f : Func) (above : List Instruction) : List String :=
  f.headerLine :: above.zipIdx.map fun (i, index) => instructionLine index i

/-- The lines of a listing below that of the instruction at an index, which stands in front of the
given ones. -/
def linesBelow (index : Nat) (below : List Instruction) : List String :=
  (below.zipIdx (index + 1)).map fun (i, index) => instructionLine index i

theorem listingLines_eq (f : Func) {above below : List Instruction} {i : Instruction}
    (hbody : f.body = above ++ i :: below) :
    f.listingLines =
      f.linesAbove above ++ instructionLine above.length i :: linesBelow above.length below := by
  simp [listingLines, linesAbove, linesBelow, hbody, List.zipIdx_append]

/-- The lines of instructions from one index on have no other indices. -/
theorem index_of_mem_lines {is : List Instruction} {start index : Nat} {i : Instruction}
    (h : instructionLine index i ∈
      (is.zipIdx start).map fun (i, index) => instructionLine index i) :
    start ≤ index ∧ index < start + is.length := by
  obtain ⟨⟨j, index'⟩, hentry, hline⟩ := List.mem_map.mp h
  obtain ⟨hstart, hstop, -⟩ := List.mem_zipIdx hentry
  obtain rfl : index' = index := (eq_of_instructionLine_eq hline).1
  exact ⟨hstart, hstop⟩

/-- A listing has no line of an instruction at an index at which another instruction stands. -/
theorem instructionLine_not_mem (f : Func) (above below : List Instruction) {i j : Instruction}
    (hne : i.text ≠ j.text) :
    instructionLine above.length i ∉
      f.linesAbove above ++ instructionLine above.length j :: linesBelow above.length below := by
  intro h
  rcases List.mem_append.mp h with habove | hline
  · rcases List.mem_cons.mp habove with hheader | habove
    · exact f.headerLine_ne_instructionLine above.length i hheader.symm
    · have hindex := index_of_mem_lines habove
      omega
  · rcases List.mem_cons.mp hline with hline | hbelow
    · exact hne (eq_of_instructionLine_eq hline).2
    · have hindex := index_of_mem_lines hbelow
      omega

/-- If the instruction at an index is exchanged for one with another text, so is one line of the
listing, and neither of the two lines is in both listings. -/
theorem exists_listingLines_set (f : Func) {index : Nat} {i j : Instruction}
    (hi : f.body[index]? = some i) (hne : i.text ≠ j.text) :
    ∃ front back, f.listingLines = front ++ instructionLine index i :: back ∧
      { f with body := f.body.set index j }.listingLines = front ++ instructionLine index j :: back ∧
      instructionLine index i ∉ front ++ instructionLine index j :: back ∧
      instructionLine index j ∉ front ++ instructionLine index i :: back := by
  obtain ⟨hlt, rfl⟩ := List.getElem?_eq_some_iff.mp hi
  have hlength : (f.body.take index).length = index := List.length_take_of_le (Nat.le_of_lt hlt)
  have hlines (k : Instruction) : { f with body := f.body.set index k }.listingLines =
      f.linesAbove (f.body.take index) ++
        instructionLine index k :: linesBelow index (f.body.drop (index + 1)) := by
    have hbody : f.body.set index k = f.body.take index ++ k :: f.body.drop (index + 1) :=
      List.set_eq_take_append_cons_drop.trans (if_pos hlt)
    have hsplit := { f with body := f.body.set index k }.listingLines_eq hbody
    rwa [hlength] at hsplit
  have hself := hlines f.body[index]
  rw [List.set_getElem_self] at hself
  have hold := f.instructionLine_not_mem (f.body.take index) (f.body.drop (index + 1)) hne
  have hnew := f.instructionLine_not_mem (f.body.take index) (f.body.drop (index + 1)) hne.symm
  rw [hlength] at hold hnew
  exact ⟨_, _, hself, hlines j, hold, hnew⟩

theorem unbroken_instructionLine (index : Nat) {i : Instruction}
    (h : ∀ callee, i.callee? = some callee → Unbroken callee) : Unbroken (instructionLine index i) := by
  have htext := i.unbroken_text h
  simp +decide [instructionLine, htext]

/-- No line of a listing is broken if no name in it is. -/
theorem unbroken_of_mem_listingLines {f : Func} (hname : Unbroken f.name)
    (hcallees : ∀ callee ∈ f.callees, Unbroken callee) {line : String}
    (hline : line ∈ f.listingLines) : Unbroken line := by
  rcases List.mem_cons.mp hline with rfl | hline
  · simp +decide [headerLine, hname]
  · obtain ⟨⟨i, index⟩, hentry, rfl⟩ := List.mem_map.mp hline
    have hi : i ∈ f.body := List.fst_mem_of_mem_zipIdx hentry
    exact unbroken_instructionLine index fun callee hcallee =>
      hcallees callee (List.mem_filterMap.mpr ⟨i, hi, hcallee⟩)

end Func

end MutationTester
