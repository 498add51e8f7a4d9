import MutationTester.Decimal.Word
import MutationTester.Proofs.Json.Reading
import Mathlib.Data.List.Induction

/-!
# Which texts write a word

Digits without a zero in front are those of their number (`toDigits_ofDigitChars`), so the texts that
are read as a number are its digits, behind any zeros and one plus sign at most
(`wordOfChars?_eq_some_iff`).
-/

set_option autoImplicit false

namespace MutationTester.Decimal

/-- The digits of a number behind some zeros. -/
def padded (zeros n : Nat) : List Char := List.replicate zeros '0' ++ n.repr.toList

/-- The ways to write a number: its digits, behind any zeros and one plus sign at most. -/
def Writes (cs : List Char) (n : Nat) : Prop :=
  ∃ sign zeros, (sign = [] ∨ sign = ['+']) ∧ cs = sign ++ padded zeros n

/-- A number is written by its digits alone. -/
theorem writes_repr (n : Nat) : Writes n.repr.toList n := ⟨[], 0, .inl rfl, rfl⟩

/-- A digit is the one of its value. -/
theorem exists_digitChar_of_isDigit {c : Char} (h : c.isDigit = true) :
    ∃ v < 10, c = Nat.digitChar v := by
  have ⟨hlow, hhigh⟩ := Char.isDigit_iff_toNat.mp h
  have hzero : '0'.toNat = 48 := rfl
  have hnine : '9'.toNat = 57 := rfl
  have hlt : c.toNat - 48 < 10 := by omega
  refine ⟨c.toNat - 48, hlt, Char.toNat_inj.mp ?_⟩
  rw [Nat.toNat_digitChar_of_lt_ten hlt]
  omega

/-- Digits that do not begin with a zero are the digits of the number that they write. -/
theorem toDigits_ofDigitChars {d : Char} {ds : List Char}
    (hdigits : ∀ c ∈ d :: ds, c.isDigit = true) (hfirst : d ≠ '0') :
    Nat.toDigits 10 (Nat.ofDigitChars 10 (d :: ds) 0) = d :: ds := by
  induction ds using List.reverseRecOn with
  | nil =>
    obtain ⟨v, hv, rfl⟩ := exists_digitChar_of_isDigit (hdigits d List.mem_cons_self)
    rw [Nat.ofDigitChars_cons_digitChar_of_lt_ten hv, Nat.ofDigitChars_nil, Nat.mul_zero,
      Nat.zero_add, Nat.toDigits_of_lt_base hv]
  | append_singleton ds c ih =>
    rw [← List.cons_append] at hdigits
    have hbefore := ih fun a ha => hdigits a (List.mem_append_left _ ha)
    obtain ⟨v, hv, rfl⟩ := exists_digitChar_of_isDigit
      (hdigits c (List.mem_append_right _ List.mem_cons_self))
    -- the digits so far write a number that is not zero, which one more digit shifts
    have hpos : 0 < Nat.ofDigitChars 10 (d :: ds) 0 := by
      by_contra hzero
      rw [Nat.eq_zero_of_not_pos hzero] at hbefore
      exact hfirst (List.head_eq_of_cons_eq hbefore).symm
    rw [← List.cons_append, Nat.ofDigitChars_append, Nat.ofDigitChars_cons_digitChar_of_lt_ten hv,
      Nat.ofDigitChars_nil, ← Nat.toDigits_append_toDigits (by omega) hpos hv, hbefore,
      Nat.toDigits_of_lt_base hv]

/-- Any digits are zeros and the digits of the number that they write. -/
theorem exists_zeros_of_digits {ds : List Char} (hsome : ds ≠ [])
    (hdigits : ∀ c ∈ ds, c.isDigit = true) :
    ∃ zeros, ds = padded zeros (Nat.ofDigitChars 10 ds 0) := by
  unfold padded
  rw [Nat.toList_repr]
  induction ds with
  | nil => exact absurd rfl hsome
  | cons d ds ih =>
    by_cases hfirst : d = '0'
    · subst hfirst
      have hvalue : Nat.ofDigitChars 10 ('0' :: ds) 0 = Nat.ofDigitChars 10 ds 0 := by
        rw [Nat.ofDigitChars_cons, Nat.sub_self]
      rw [hvalue]
      cases ds with
      | nil => exact ⟨0, rfl⟩
      | cons c cs =>
        obtain ⟨zeros, hzeros⟩ := ih (List.cons_ne_nil c cs) fun a ha =>
          hdigits a (List.mem_cons_of_mem _ ha)
        refine ⟨zeros + 1, ?_⟩
        rw [List.replicate_succ, List.cons_append, ← hzeros]
    · exact ⟨0, (toDigits_ofDigitChars hdigits hfirst).symm⟩

/-- Zeros in front do not change the number that digits write. -/
theorem ofDigitChars_padded (zeros n : Nat) : Nat.ofDigitChars 10 (padded zeros n) 0 = n := by
  unfold padded
  rw [Nat.toList_repr, Nat.ofDigitChars_append, Nat.ofDigitChars_replicate_zero, Nat.mul_zero,
    Nat.ofDigitChars_ten_toDigits]

theorem isDigit_of_mem_padded {zeros n : Nat} {c : Char} (hc : c ∈ padded zeros n) :
    c.isDigit = true := by
  unfold padded at hc
  rw [Nat.toList_repr] at hc
  rcases List.mem_append.mp hc with hzero | hdigit
  · rw [List.eq_of_mem_replicate hzero]
    rfl
  · exact Json.isDigit_of_mem_toDigits c hdigit

/-- Digits do not begin with a plus sign. -/
theorem padded_ne_plus (zeros n : Nat) (ds : List Char) : padded zeros n ≠ '+' :: ds := by
  intro h
  have hplus : '+'.isDigit = true := isDigit_of_mem_padded (h ▸ List.mem_cons_self)
  exact absurd hplus (by decide)

/-- A text writes one number at most. -/
theorem Writes.unique {cs : List Char} {m n : Nat} (hm : Writes cs m) (hn : Writes cs n) : m = n := by
  have hdigits {zeros zeros' : Nat} (h : padded zeros m = padded zeros' n) : m = n := by
    rw [← ofDigitChars_padded zeros m, h, ofDigitChars_padded]
  obtain ⟨_, zeros, rfl | rfl, rfl⟩ := hm <;> obtain ⟨_, zeros', rfl | rfl, h⟩ := hn
  · exact hdigits h
  · exact absurd h (padded_ne_plus _ _ _)
  · exact absurd h.symm (padded_ne_plus _ _ _)
  · exact hdigits (List.tail_eq_of_cons_eq h)

theorem wordOfDigits?_eq_some_iff (ds : List Char) (n : Nat) :
    wordOfDigits? ds = some n ↔
      n < UInt64.size ∧ ∃ zeros, ds = padded zeros n := by
  unfold wordOfDigits?
  simp only [Option.ite_none_right_eq_some, Bool.and_eq_true, Bool.not_eq_true',
    decide_eq_true_eq, List.all_eq_true, List.isEmpty_eq_false_iff, Option.some.injEq]
  constructor
  · rintro ⟨⟨⟨hsome, hdigits⟩, hword⟩, rfl⟩
    exact ⟨hword, exists_zeros_of_digits hsome hdigits⟩
  · rintro ⟨hword, zeros, rfl⟩
    have hvalue := ofDigitChars_padded zeros n
    refine ⟨⟨⟨?_, fun c => isDigit_of_mem_padded⟩, ?_⟩, hvalue⟩
    · unfold padded
      rw [Nat.toList_repr]
      exact List.append_ne_nil_of_right_ne_nil _ Nat.toDigits_ne_nil
    · rwa [hvalue]

/-- A text is read as a number exactly if it writes the number and the number is a word. -/
theorem wordOfChars?_eq_some_iff (cs : List Char) (n : Nat) :
    wordOfChars? cs = some n ↔ n < UInt64.size ∧ Writes cs n := by
  unfold wordOfChars? Writes
  split
  next ds =>
    rw [wordOfDigits?_eq_some_iff]
    refine and_congr_right fun _ => ?_
    constructor
    · rintro ⟨zeros, rfl⟩
      exact ⟨['+'], zeros, .inr rfl, rfl⟩
    · rintro ⟨sign, zeros, rfl | rfl, hds⟩
      · exact absurd hds.symm (padded_ne_plus zeros n ds)
      · exact ⟨zeros, List.tail_eq_of_cons_eq hds⟩
  next hunsigned =>
    rw [wordOfDigits?_eq_some_iff]
    refine and_congr_right fun _ => ?_
    constructor
    · rintro ⟨zeros, rfl⟩
      exact ⟨[], zeros, .inl rfl, rfl⟩
    · rintro ⟨sign, zeros, rfl | rfl, rfl⟩
      · exact ⟨zeros, rfl⟩
      · exact absurd rfl (hunsigned _)

end MutationTester.Decimal
