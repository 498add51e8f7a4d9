import Std.Data.String.ToInt
import MutationTester.Program.Listing
import MutationTester.Proofs.Json.Reading
import MutationTester.Proofs.Mutation.Identifiers

/-!
# What the text of an instruction tells

The text of an instruction is made of a destination, if there is one, a keyword and the operands
(`Instruction.toList_text`). Where the destination ends is told by the first blank, where the keyword
ends by the next (`Instruction.parts_eq_of_text_eq`), and with the same keyword the operands are of the
same kind (`Instruction.eq_of_parts_eq`). The name of a callee may hold any characters at all; it ends
at the last bracket that opens, since none is in the arguments. So the text tells everything about an
instruction (`Instruction.text_eq_iff`).
-/

set_option autoImplicit false

namespace MutationTester

/-! ## Numbers and registers in a text -/

/-- Where the digits of a number end, they tell the number. -/
theorem eq_of_append_number {n m : Nat} {y y' : List Char}
    (h : Nat.toDigits 10 n ++ y = Nat.toDigits 10 m ++ y') (hy : Json.EndsDigits y)
    (hy' : Json.EndsDigits y') : n = m ∧ y = y' := by
  have hread := Json.readWhole_toDigits n hy
  rw [h, Json.readWhole_toDigits m hy'] at hread
  cases hread
  exact ⟨rfl, rfl⟩

theorem endsDigits_nil : Json.EndsDigits [] := nofun

namespace Register

/-- The characters of the text of a register. -/
def chars (r : Register) : List Char := 'r' :: Nat.toDigits 10 r.toNat

theorem toList_text (r : Register) : r.text.toList = r.chars := by
  simp [text, chars]

theorem not_mem_chars (r : Register) {c : Char} (hc : c.isDigit = false) (hr : c ≠ 'r') :
    c ∉ r.chars := by
  intro hmem
  rcases List.mem_cons.mp hmem with rfl | hdigit
  · exact hr rfl
  · rw [Json.isDigit_of_mem_toDigits c hdigit] at hc
    cases hc

theorem exists_chars_eq (r : Register) :
    ∃ d ds, r.chars = 'r' :: d :: ds ∧ d.isDigit = true := by
  cases hdigits : Nat.toDigits 10 r.toNat with
  | nil => exact absurd hdigits Nat.toDigits_ne_nil
  | cons d ds =>
    have hdigit : d.isDigit = true :=
      Json.isDigit_of_mem_toDigits d (hdigits ▸ List.mem_cons_self)
    exact ⟨d, ds, congrArg _ hdigits, hdigit⟩

theorem eq_of_append_chars {r s : Register} {y y' : List Char}
    (h : r.chars ++ y = s.chars ++ y') (hy : Json.EndsDigits y) (hy' : Json.EndsDigits y') :
    r = s ∧ y = y' := by
  obtain ⟨hnumber, hrest⟩ := eq_of_append_number (List.cons.inj h).2 hy hy'
  exact ⟨UInt32.toNat_inj.mp hnumber, hrest⟩

theorem eq_of_chars_eq {r s : Register} (h : r.chars = s.chars) : r = s :=
  (eq_of_append_chars (congrArg (· ++ []) h) endsDigits_nil endsDigits_nil).1

end Register

/-! ## Arguments -/

/-- The characters of the arguments behind the first one. -/
def moreArgChars (args : List Register) : List Char :=
  args.flatMap fun r => ',' :: ' ' :: r.chars

/-- The characters of the arguments of a call. -/
def argChars : List Register → List Char
  | [] => []
  | r :: args => r.chars ++ moreArgChars args

theorem toList_intercalate_text (args : List Register) :
    (", ".intercalate (args.map Register.text)).toList = argChars args := by
  have htexts : String.toList ∘ Register.text = Register.chars := funext Register.toList_text
  rw [String.toList_intercalate, List.map_map, htexts]
  cases args with
  | nil => rfl
  | cons r args =>
    induction args generalizing r with
    | nil => simp [argChars, moreArgChars]
    | cons s args ih =>
      rw [List.map_cons, List.map_cons, List.intercalate_cons_cons, ← List.map_cons, ih]
      simp [argChars, moreArgChars]

theorem endsDigits_moreArgChars (args : List Register) : Json.EndsDigits (moreArgChars args) := by
  cases args with
  | nil => exact endsDigits_nil
  | cons r args => exact Json.endsDigits_cons rfl _

theorem eq_of_moreArgChars_eq {args args' : List Register}
    (h : moreArgChars args = moreArgChars args') : args = args' := by
  induction args generalizing args' with
  | nil =>
    cases args' with
    | nil => rfl
    | cons s args' => cases h
  | cons r args ih =>
    cases args' with
    | nil => cases h
    | cons s args' =>
      have hchars : r.chars ++ moreArgChars args = s.chars ++ moreArgChars args' :=
        (List.cons.inj (List.cons.inj h).2).2
      obtain ⟨rfl, hmore⟩ := Register.eq_of_append_chars hchars (endsDigits_moreArgChars args)
        (endsDigits_moreArgChars args')
      rw [ih hmore]

theorem eq_of_argChars_eq {args args' : List Register} (h : argChars args = argChars args') :
    args = args' := by
  cases args with
  | nil =>
    cases args' with
    | nil => rfl
    | cons s args' => cases h
  | cons r args =>
    cases args' with
    | nil => cases h
    | cons s args' =>
      obtain ⟨rfl, hmore⟩ := Register.eq_of_append_chars h (endsDigits_moreArgChars args)
        (endsDigits_moreArgChars args')
      rw [eq_of_moreArgChars_eq hmore]

theorem not_mem_argChars (args : List Register) : '(' ∉ argChars args := by
  have hregister (r : Register) : '(' ∉ r.chars := r.not_mem_chars rfl (by decide)
  cases args with
  | nil => exact List.not_mem_nil
  | cons r args =>
    unfold argChars moreArgChars
    simp [hregister]

/-! ## The parts of a text -/

/-- The words with which texts of instructions say what they do. -/
inductive Keyword
  | const
  | arithmetic (kind : BinaryOp)
  | cmp
  | call
  | jump
  | br
  | ret
  | assert
  | print
  | load
  | store
  | abort
  | nop
  deriving DecidableEq

namespace Keyword

/-- The word that a keyword is. -/
def word : Keyword → String
  | const => "const"
  | arithmetic kind => kind.mnemonic
  | cmp => "cmp"
  | call => "call"
  | jump => "jump"
  | br => "br"
  | ret => "ret"
  | assert => "assert"
  | print => "print"
  | load => "load"
  | store => "store"
  | abort => "abort"
  | nop => "nop"

/-- The characters of a keyword. -/
def chars (w : Keyword) : List Char := w.word.toList

/-- All keywords. -/
def all : List Keyword :=
  BinaryOp.all.map arithmetic ++
    [const, cmp, call, jump, br, ret, assert, print, load, store, abort, nop]

theorem mem_all (w : Keyword) : w ∈ all := by
  rcases w with _ | kind | _
  case arithmetic => cases kind <;> decide
  all_goals decide

theorem eq_of_chars_eq {w w' : Keyword} (h : w.chars = w'.chars) : w = w' := by
  have hall : ∀ w ∈ all, ∀ w' ∈ all, w.chars = w'.chars → w = w' := by decide
  exact hall w w.mem_all w' w'.mem_all h

theorem not_mem_chars (w : Keyword) : ' ' ∉ w.chars := by
  have hall : ∀ w ∈ all, ' ' ∉ w.chars := by decide
  exact hall w w.mem_all

/-- The second character of a keyword is no digit. -/
theorem exists_chars_eq (w : Keyword) :
    ∃ c d ds, w.chars = c :: d :: ds ∧ d.isDigit = false := by
  rcases w with _ | kind | _
  case arithmetic => cases kind <;> exact ⟨_, _, _, rfl, rfl⟩
  all_goals exact ⟨_, _, _, rfl, rfl⟩

end Keyword

namespace Instruction

/-- The register that the text of an instruction begins with. -/
def destination? : Instruction → Option Register
  | const dst _ => some dst
  | binary _ dst _ _ => some dst
  | compare _ dst _ _ => some dst
  | call dst _ _ => dst
  | load dst _ => some dst
  | _ => none

/-- The keyword in the text of an instruction. -/
def keyword : Instruction → Keyword
  | const .. => .const
  | binary kind .. => .arithmetic kind
  | compare .. => .cmp
  | call .. => .call
  | jump _ => .jump
  | branch .. => .br
  | ret _ => .ret
  | assert _ => .assert
  | print _ => .print
  | load .. => .load
  | store .. => .store
  | abort => .abort
  | nop => .nop

/-- The characters behind the keyword. -/
def operandChars : Instruction → List Char
  | const _ value => ' ' :: value.toInt.repr.toList
  | binary _ _ lhs rhs => ' ' :: (lhs.chars ++ ',' :: ' ' :: rhs.chars)
  | compare pred _ lhs rhs =>
    ' ' :: (pred.mnemonic.toList ++ ' ' :: (lhs.chars ++ ',' :: ' ' :: rhs.chars))
  | call _ callee args => ' ' :: (callee.toList ++ '(' :: (argChars args ++ [')']))
  | jump target => ' ' :: Nat.toDigits 10 target.toNat
  | branch cond thenTo elseTo =>
    ' ' :: (cond.chars ++ ',' :: ' ' ::
      (Nat.toDigits 10 thenTo.toNat ++ ',' :: ' ' :: Nat.toDigits 10 elseTo.toNat))
  | ret (some value) => ' ' :: value.chars
  | ret none => []
  | assert cond => ' ' :: cond.chars
  | print value => ' ' :: value.chars
  | load _ addr => ' ' :: '[' :: (addr.chars ++ [']'])
  | store addr value => ' ' :: '[' :: (addr.chars ++ ']' :: ',' :: ' ' :: value.chars)
  | abort => []
  | nop => []

/-- The characters that lead from a destination to the keyword. -/
def arrival : Option Register → List Char
  | some dst => dst.chars ++ [' ', '=', ' ']
  | none => []

/-- The text of an instruction is made of its parts. -/
theorem toList_text (i : Instruction) :
    i.text.toList = arrival i.destination? ++ (i.keyword.chars ++ i.operandChars) := by
  rcases i with _ | _ | _ | ⟨dst, callee, args⟩ | _ | _ | ⟨value⟩ | _
  case call =>
    cases dst <;>
      simp [text, arrival, destination?, keyword, Keyword.chars, Keyword.word, operandChars,
        Register.toList_text, ← toList_intercalate_text]
  case ret =>
    cases value <;>
      simp [text, arrival, destination?, keyword, Keyword.chars, Keyword.word, operandChars,
        Register.toList_text]
  all_goals
    simp [text, arrival, destination?, keyword, Keyword.chars, Keyword.word, operandChars,
      Register.toList_text]

/-- The operands, if there are any, stand behind a blank. -/
theorem operandChars_cases (i : Instruction) :
    i.operandChars = [] ∨ ∃ cs, i.operandChars = ' ' :: cs := by
  rcases i with _ | _ | _ | _ | _ | _ | ⟨_ | value⟩ | _ | _ | _ | _ | _ | _
  case ret.none => exact .inl rfl
  case abort => exact .inl rfl
  case nop => exact .inl rfl
  all_goals exact .inr ⟨_, rfl⟩

/-- Where a destination ends, and that there is one, can be seen from the text. -/
theorem destination_eq_of_append {i j : Instruction}
    (h : arrival i.destination? ++ (i.keyword.chars ++ i.operandChars) =
      arrival j.destination? ++ (j.keyword.chars ++ j.operandChars)) :
    i.destination? = j.destination? ∧
      i.keyword.chars ++ i.operandChars = j.keyword.chars ++ j.operandChars := by
  -- a destination is an r with a digit behind it, which no keyword begins with
  have hdiffer (dst : Register) (w : Keyword) {cs cs' : List Char} :
      arrival (some dst) ++ cs ≠ arrival none ++ (w.chars ++ cs') := by
    obtain ⟨d, ds, hdst, hdigit⟩ := dst.exists_chars_eq
    obtain ⟨c, d', ds', hw, hother⟩ := w.exists_chars_eq
    intro heq
    simp only [arrival, hdst, hw, List.cons_append, List.nil_append, List.cons.injEq] at heq
    rw [heq.2.1, hother] at hdigit
    cases hdigit
  cases hi : i.destination? with
  | none =>
    cases hj : j.destination? with
    | none =>
      rw [hi, hj] at h
      exact ⟨rfl, h⟩
    | some dst' =>
      rw [hi, hj] at h
      exact absurd h.symm (hdiffer _ _)
  | some dst =>
    cases hj : j.destination? with
    | none =>
      rw [hi, hj] at h
      exact absurd h (hdiffer _ _)
    | some dst' =>
      rw [hi, hj] at h
      simp only [arrival, List.append_assoc] at h
      obtain ⟨hdst, hrest⟩ := eq_of_append_separator h (dst.not_mem_chars rfl (by decide))
        (dst'.not_mem_chars rfl (by decide))
      refine ⟨congrArg some (Register.eq_of_chars_eq hdst), ?_⟩
      exact (List.cons.inj (List.cons.inj hrest).2).2

/-- Where a keyword ends can be seen from the text. -/
theorem keyword_eq_of_append {i j : Instruction}
    (h : i.keyword.chars ++ i.operandChars = j.keyword.chars ++ j.operandChars) :
    i.keyword = j.keyword ∧ i.operandChars = j.operandChars := by
  have hi := i.keyword.not_mem_chars
  have hj := j.keyword.not_mem_chars
  rcases i.operandChars_cases with hnone | ⟨cs, hsome⟩ <;>
    rcases j.operandChars_cases with hnone' | ⟨cs', hsome'⟩
  · rw [hnone, hnone', List.append_nil, List.append_nil] at h
    exact ⟨Keyword.eq_of_chars_eq h, hnone.trans hnone'.symm⟩
  · rw [hnone, hsome', List.append_nil] at h
    rw [h] at hi
    simp at hi
  · rw [hsome, hnone', List.append_nil] at h
    rw [← h] at hj
    simp at hj
  · rw [hsome, hsome'] at h
    obtain ⟨hword, rfl⟩ := eq_of_append_separator h hi hj
    exact ⟨Keyword.eq_of_chars_eq hword, hsome.trans hsome'.symm⟩

theorem eq_of_pair_eq {r s r' s' : Register}
    (h : r.chars ++ ',' :: ' ' :: s.chars = r'.chars ++ ',' :: ' ' :: s'.chars) :
    r = r' ∧ s = s' := by
  obtain ⟨rfl, hrest⟩ := Register.eq_of_append_chars h (Json.endsDigits_cons rfl _)
    (Json.endsDigits_cons rfl _)
  exact ⟨rfl, Register.eq_of_chars_eq (List.cons.inj (List.cons.inj hrest).2).2⟩

theorem eq_of_targets_eq {n m n' m' : UInt64}
    (h : Nat.toDigits 10 n.toNat ++ ',' :: ' ' :: Nat.toDigits 10 m.toNat =
      Nat.toDigits 10 n'.toNat ++ ',' :: ' ' :: Nat.toDigits 10 m'.toNat) : n = n' ∧ m = m' := by
  obtain ⟨hfirst, hrest⟩ := eq_of_append_number h (Json.endsDigits_cons rfl _)
    (Json.endsDigits_cons rfl _)
  have hsecond := congrArg (· ++ []) (List.cons.inj (List.cons.inj hrest).2).2
  exact ⟨UInt64.toNat_inj.mp hfirst,
    UInt64.toNat_inj.mp (eq_of_append_number hsecond endsDigits_nil endsDigits_nil).1⟩

/-- A relation and the registers that it is asked of are told by their characters. -/
theorem eq_of_comparison_eq {c c' : Comparison} {cs cs' : List Char}
    (h : c.mnemonic.toList ++ ' ' :: cs = c'.mnemonic.toList ++ ' ' :: cs') : c = c' ∧ cs = cs' := by
  have hword : ∀ c ∈ Comparison.all, ' ' ∉ c.mnemonic.toList := by decide
  have hinj : ∀ c ∈ Comparison.all, ∀ c' ∈ Comparison.all,
      c.mnemonic.toList = c'.mnemonic.toList → c = c' := by decide
  have hall (c : Comparison) : c ∈ Comparison.all := by cases c <;> decide
  obtain ⟨hmnemonic, rfl⟩ := eq_of_append_separator h (hword c (hall c)) (hword c' (hall c'))
  exact ⟨hinj c (hall c) c' (hall c') hmnemonic, rfl⟩

/-- The name of a callee and the arguments are told by their characters, whatever the name is: it ends
at the last bracket that opens. -/
theorem eq_of_call_eq {callee callee' : String} {args args' : List Register}
    (h : callee.toList ++ '(' :: (argChars args ++ [')']) =
      callee'.toList ++ '(' :: (argChars args' ++ [')'])) : callee = callee' ∧ args = args' := by
  have hopen : callee.toList ++ '(' :: argChars args = callee'.toList ++ '(' :: argChars args' := by
    have hclosed : (callee.toList ++ '(' :: argChars args) ++ [')'] =
        (callee'.toList ++ '(' :: argChars args') ++ [')'] := by simpa using h
    exact List.append_cancel_right hclosed
  obtain ⟨hcallee, hargs⟩ := eq_of_append_last_separator hopen (not_mem_argChars args)
    (not_mem_argChars args')
  exact ⟨String.toList_inj.mp hcallee, eq_of_argChars_eq hargs⟩

/-- An instruction is told by the parts of its text. -/
theorem eq_of_parts_eq {i j : Instruction} (hdst : i.destination? = j.destination?)
    (hkeyword : i.keyword = j.keyword) (hoperands : i.operandChars = j.operandChars) : i = j := by
  cases i <;> cases j <;> cases hkeyword
  case const.const =>
    have hvalue := String.toList_inj.mp (List.cons.inj hoperands).2
    rw [Option.some.inj hdst, Int64.toInt_inj.mp (Int.repr_inj.mp hvalue)]
  case binary.binary =>
    obtain ⟨rfl, rfl⟩ := eq_of_pair_eq (List.cons.inj hoperands).2
    rw [Option.some.inj hdst]
  case compare.compare =>
    obtain ⟨rfl, hpair⟩ := eq_of_comparison_eq (List.cons.inj hoperands).2
    obtain ⟨rfl, rfl⟩ := eq_of_pair_eq hpair
    rw [Option.some.inj hdst]
  case call.call =>
    obtain ⟨rfl, rfl⟩ := eq_of_call_eq (List.cons.inj hoperands).2
    exact congrArg (call · _ _) hdst
  case jump.jump =>
    have htarget := congrArg (· ++ []) (List.cons.inj hoperands).2
    rw [UInt64.toNat_inj.mp (eq_of_append_number htarget endsDigits_nil endsDigits_nil).1]
  case branch.branch =>
    obtain ⟨rfl, hrest⟩ := Register.eq_of_append_chars (List.cons.inj hoperands).2
      (Json.endsDigits_cons rfl _) (Json.endsDigits_cons rfl _)
    obtain ⟨rfl, rfl⟩ := eq_of_targets_eq (List.cons.inj (List.cons.inj hrest).2).2
    rfl
  case ret.ret value value' =>
    cases value <;> cases value'
    case none.none => rfl
    case some.some => rw [Register.eq_of_chars_eq (List.cons.inj hoperands).2]
    all_goals cases hoperands
  case assert.assert => rw [Register.eq_of_chars_eq (List.cons.inj hoperands).2]
  case print.print => rw [Register.eq_of_chars_eq (List.cons.inj hoperands).2]
  case load.load =>
    have haddr := (List.cons.inj (List.cons.inj hoperands).2).2
    rw [Option.some.inj hdst, Register.eq_of_chars_eq (List.append_cancel_right haddr)]
  case store.store =>
    obtain ⟨rfl, hrest⟩ := Register.eq_of_append_chars (List.cons.inj (List.cons.inj hoperands).2).2
      (Json.endsDigits_cons rfl _) (Json.endsDigits_cons rfl _)
    have hvalue := (List.cons.inj (List.cons.inj (List.cons.inj hrest).2).2).2
    rw [Register.eq_of_chars_eq hvalue]
  case abort.abort => rfl
  case nop.nop => rfl

/-- The text of an instruction tells its parts. -/
theorem parts_eq_of_text_eq {i j : Instruction} (h : i.text = j.text) :
    i.destination? = j.destination? ∧ i.keyword = j.keyword ∧ i.operandChars = j.operandChars := by
  have hchars := congrArg String.toList h
  rw [toList_text, toList_text] at hchars
  obtain ⟨hdst, hrest⟩ := destination_eq_of_append hchars
  exact ⟨hdst, keyword_eq_of_append hrest⟩

/-- The text of an instruction is unambiguous: it is that of no other instruction, even if the names of
callees hold blanks, commas, brackets or texts of instructions. -/
theorem text_eq_iff (i j : Instruction) : i.text = j.text ↔ i = j := by
  constructor
  · intro h
    obtain ⟨hdst, hkeyword, hoperands⟩ := parts_eq_of_text_eq h
    exact eq_of_parts_eq hdst hkeyword hoperands
  · rintro rfl
    rfl

/-- A callee may be named like a whole call. Then still its arguments are those behind the last bracket
that opens. -/
example : (call none "f(r1), r2 = call f" [1]).text = "call f(r1), r2 = call f(r1)" := by
  decide

end Instruction

end MutationTester
