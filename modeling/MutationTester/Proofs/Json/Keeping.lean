import MutationTester.Proofs.Decimal.Exponents
import MutationTester.Proofs.Json.Decoding

/-!
# What is encoded can be kept

A value that is kept before it is read has to be in the range of doubles wherever it is a number
(`Json.Value.isEvaluable`). The literal of a word is: its digits are taken as they are
(`Number.Scaled.addWhole_digitValues`) and the double that they make is finite. So whatever is encoded
from words, texts, lists and records can be kept, as long as it does not nest too deeply.
-/

set_option autoImplicit false

namespace MutationTester.Json

namespace Number

/-- Digits that make up a word are all taken. -/
theorem Scaled.addWhole_map {ds : List Char} {n : Nat} {e : Int}
    (h : Nat.ofDigitChars 10 ds n < UInt64.size) :
    (Scaled.mk n e).addWhole (ds.map fun c => c.toNat - '0'.toNat) =
      ⟨Nat.ofDigitChars 10 ds n, e⟩ := by
  induction ds generalizing n with
  | nil => rfl
  | cons d ds ih =>
    rw [Nat.ofDigitChars_cons] at h ⊢
    have hstep : 10 * n + (d.toNat - '0'.toNat) < UInt64.size := by
      rw [Nat.ofDigitChars_eq_ofDigitChars_zero] at h
      have hpow := Nat.le_mul_of_pos_left (10 * n + (d.toNat - '0'.toNat))
        (Nat.pow_pos (n := ds.length) (show 0 < 10 by omega))
      omega
    have hfits : fitsWord (n * 10 + (d.toNat - '0'.toNat)) = true := by
      rw [Nat.mul_comm]
      exact decide_eq_true hstep
    rw [List.map_cons, addWhole, if_pos hfits, Nat.mul_comm]
    exact ih h

/-- The digits of a word make up that word. -/
theorem Scaled.addWhole_digitValues {n : Nat} (h : n < UInt64.size) :
    (Scaled.mk 0 0).addWhole (digitValues n) = ⟨n, 0⟩ := by
  have hvalue : Nat.ofDigitChars 10 (Nat.toDigits 10 n) 0 = n := Nat.ofDigitChars_ten_toDigits
  unfold digitValues
  rw [addWhole_map (by rwa [hvalue]), hvalue]

open Decimal in
theorem exponentLE_powerOfTen_zero : ExponentLE 0 (powerOfTen 0).toModel.unpack := by
  have hone : Double.ofFloat? (powerOfTen 0) = some ⟨false, Double.leadingBit, -52⟩ := by
    decide +kernel
  rw [Double.unpack_of_ofFloat? hone (by decide)]
  show (-52 : Int) ≤ 0
  decide

/-- The literal of a number whose magnitude is a word is in the range of doubles. -/
theorem isSome_toFloat?_ofInt {n : Int} (h : n.natAbs < UInt64.size) :
    (ofInt n).toFloat?.isSome = true := by
  have hscaled : ((Scaled.mk 0 0).addWhole (digitValues n.natAbs)).addFraction [] =
      ⟨n.natAbs, 0⟩ := by
    rw [Scaled.addWhole_digitValues h]
    rfl
  have hscale (x : UInt64) : (scale 5 x.toFloat 0).isSome = true := by
    have hfinite := Decimal.isInf_toFloat_mul (n := x) exponentLE_powerOfTen_zero
    unfold scale
    rw [if_pos (by decide), if_pos (by decide)]
    show (if (x.toFloat * powerOfTen 0).isInf = true then _ else _ : Option Float).isSome = true
    rw [hfinite]
    rfl
  have hexponent : (if n.natAbs = 0 then min (0 : Int) 308 else max 0 (-1200)) = 0 := by
    split <;> rfl
  unfold toFloat? magnitude? ofInt
  dsimp only
  rw [hscaled, if_neg (by decide)]
  show ((scale 5 _ (if n.natAbs = 0 then min (0 : Int) 308 else max 0 (-1200))).map _).isSome = true
  rw [hexponent, Option.isSome_map]
  exact hscale _

end Number

namespace Value

variable {room : Nat}

theorem isEvaluable_text (s : String) : (text s).isEvaluable room = true := rfl

theorem isEvaluable_int {n : Int} (h : n.natAbs < UInt64.size) :
    (int n).isEvaluable room = true :=
  Number.isSome_toFloat?_ofInt h

theorem isEvaluable_nat {n : Nat} (h : n < UInt64.size) : (nat n).isEvaluable room = true :=
  Number.isSome_toFloat?_ofInt h

theorem isEvaluable_optional {α : Type} {encode : α → Value} {o : Option α}
    (h : ∀ a ∈ o, (encode a).isEvaluable room = true) :
    (optional encode o).isEvaluable room = true := by
  cases o with
  | none => rfl
  | some a => exact h a rfl

/-- A list takes one level of nesting. -/
theorem isEvaluable_list {α : Type} {encode : α → Value} {items : List α}
    (h : ∀ item ∈ items, (encode item).isEvaluable room = true) :
    (list encode items).isEvaluable (room + 1) = true := by
  have hitems : itemsEvaluable room (items.map encode) = true := by
    induction items with
    | nil => rfl
    | cons item items ih =>
      obtain ⟨hfirst, hothers⟩ := List.forall_mem_cons.mp h
      simp [itemsEvaluable, hfirst, ih hothers]
  simp [list, isEvaluable, hitems]

/-- A record takes one level of nesting. -/
theorem isEvaluable_record {fields : List (String × Value)}
    (h : ∀ field ∈ fields, field.2.isEvaluable room = true) :
    (record fields).isEvaluable (room + 1) = true := by
  have hmembers :
      membersEvaluable room (fields.map fun field => (some field.1, field.2)) = true := by
    induction fields with
    | nil => rfl
    | cons field fields ih =>
      obtain ⟨hfirst, hothers⟩ := List.forall_mem_cons.mp h
      simp [membersEvaluable, hfirst, ih hothers]
  simp [record, isEvaluable, hmembers]

end Value

end MutationTester.Json
