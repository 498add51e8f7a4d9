import MutationTester.Decimal.Double
import Mathlib

/-!
# Doubles that are not negative

Sums, products and quotients of doubles that are numbers and not negative are so as well, infinity
included, as far as nothing is divided by zero and no infinity is multiplied by zero. The exact form
of a double is what its bits unpack to (`Double.ofFloat?_eq`), so one that is not negative is below
`2 ^ 64` exactly if its exponent is below 12 (`lt_wordSize_iff`).

A fraction is rounded to its quotient or to the number after it.
-/

set_option autoImplicit false

namespace MutationTester.Decimal

open Float.Model (Format UnpackedFloat)
open Float.Model.UnpackedFloat

/-! ## Arithmetic -/

/-- A number that is not negative and not the negative zero, or infinity. -/
inductive NonNegative : UnpackedFloat → Prop
  | infinity : NonNegative (.infinity .positive)
  | zero : NonNegative (.zero .positive)
  | finite {m : Nat} {e : Int} (hm : 0 < m) : NonNegative (.finite .positive m e hm)

section Arithmetic

variable {spec : Format} {a b : UnpackedFloat}

theorem nonNegative_roundWithAccuracy (m : Nat) (e : Int) (accuracy : Accuracy) :
    NonNegative (roundWithAccuracy spec .positive m e accuracy) := by
  unfold roundWithAccuracy
  dsimp only
  split
  · exact .zero
  · exact .finite _

theorem nonNegative_normalize {m : Int} (h : 0 ≤ m) (e : Int) :
    NonNegative (UnpackedFloat.normalize spec m e .positive) := by
  unfold UnpackedFloat.normalize
  split
  next hlt =>
    rw [Int.compare_eq_lt] at hlt
    omega
  next => exact .zero
  next => exact nonNegative_roundWithAccuracy _ _ _

theorem nonNegative_add (ha : NonNegative a) (hb : NonNegative b) : NonNegative (add spec a b) := by
  cases ha with
  | infinity =>
    cases hb with
    | infinity => exact .infinity
    | zero => exact .infinity
    | finite => exact .infinity
  | zero =>
    cases hb with
    | infinity => exact .infinity
    | zero => exact .zero
    | finite hm => exact .finite hm
  | finite hm =>
    cases hb with
    | infinity => exact .infinity
    | zero => exact .finite hm
    | finite =>
      apply nonNegative_normalize
      exact Int.add_nonneg (Int.natCast_nonneg _) (Int.natCast_nonneg _)

theorem nonNegative_mul {m : Nat} {e : Int} (hm : 0 < m) (hb : NonNegative b) :
    NonNegative (mul spec (.finite .positive m e hm) b) := by
  cases hb with
  | infinity => exact .infinity
  | zero => exact .zero
  | finite => exact nonNegative_roundWithAccuracy _ _ _

theorem nonNegative_div (ha : NonNegative a) {m : Nat} {e : Int} (hm : 0 < m) :
    NonNegative (div spec a (.finite .positive m e hm)) := by
  cases ha with
  | infinity => exact .infinity
  | zero => exact .zero
  | finite => exact nonNegative_roundWithAccuracy _ _ _

end Arithmetic

/-! ## Packing -/

section Packing

variable {spec : Format}

/-- The sign is unpacked as it was packed. -/
theorem unpackSign_components (s : Sign) (e : BitVec spec.exponentBits)
    (m : BitVec spec.mantissaBitsWithoutImplicit) :
    unpackSign (packComponents spec s e m) = s.toBitVec := by
  apply BitVec.eq_of_getLsbD_eq
  intro i hi
  obtain rfl : i = 0 := by omega
  simp [unpackSign, packComponents, BitVec.getLsbD_append, BitVec.getElem_append]

/-- What is packed with the positive sign unpacks to something that is not negative, if it does not
stand for something that is no number. -/
theorem nonNegative_unpack_packComponents {e : BitVec spec.exponentBits}
    {m : BitVec spec.mantissaBitsWithoutImplicit} (h : e = -1#_ → m = 0#_) :
    NonNegative (unpack spec (packComponents spec .positive e m)) := by
  have hsign : Sign.ofBitVec Sign.positive.toBitVec = .positive := rfl
  unfold unpack
  simp only [unpackMantissa_packComponents, unpackExponent_packComponents, unpackSign_components,
    hsign]
  split
  next he =>
    rw [if_pos (h he)]
    exact .infinity
  next =>
    split
    · split
      · exact .zero
      · exact .finite _
    · exact .finite _

/-- Packing a double that is not negative, and unpacking it, gives one that is not negative. -/
theorem nonNegative_unpack_pack {u : UnpackedFloat} (h : NonNegative u) :
    NonNegative (unpack Format.binary64 (pack Format.binary64 u)) := by
  cases h with
  | infinity => exact nonNegative_unpack_packComponents fun _ => rfl
  | zero => exact nonNegative_unpack_packComponents fun _ => rfl
  | @finite m e hm =>
    unfold pack
    dsimp only
    split
    next => exact nonNegative_unpack_packComponents fun _ => rfl
    next hsmall =>
      split
      next =>
        apply nonNegative_unpack_packComponents
        intro hones
        -- the exponent is below that of infinity
        have hvalue := congrArg BitVec.toNat hones
        simp only [BitVec.toNat_ofNat, BitVec.neg_one_eq_allOnes, BitVec.toNat_allOnes] at hvalue
        omega
      next => exact nonNegative_unpack_packComponents nofun

theorem nonNegative_toFloat (n : UInt64) : NonNegative n.toFloat.toModel.unpack := by
  apply nonNegative_unpack_pack
  apply nonNegative_normalize
  exact Int.natCast_nonneg _

end Packing

/-! ## The exact form -/

/-- The fields of a double as numbers. -/
theorem unpackedFields (bits : UInt64) :
    (@unpackExponent Format.binary64 bits.toBitVec).toNat =
        bits.toNat / Double.leadingBit % 2048 ∧
      (@unpackMantissa Format.binary64 bits.toBitVec).toNat = bits.toNat % Double.leadingBit ∧
      (@unpackSign Format.binary64 bits.toBitVec).toNat = bits.toNat / 2 ^ 63 % 2 := by
  refine ⟨?_, ?_, ?_⟩
  · simp [unpackExponent, BitVec.extractLsb, BitVec.extractLsb'_toNat, Nat.shiftRight_eq_div_pow,
      Double.leadingBit]
  · simp [unpackMantissa, BitVec.extractLsb, BitVec.extractLsb'_toNat, Double.leadingBit]
  · simp [unpackSign, BitVec.extractLsb, BitVec.extractLsb'_toNat, Nat.shiftRight_eq_div_pow]

/-- The exact form of an unpacked double. -/
def Double.ofUnpacked? : UnpackedFloat → Option Double
  | .finite s m e _ => some ⟨s == .negative, m, e⟩
  | .zero s => some ⟨s == .negative, 0, -1074⟩
  | .infinity _ => none
  | .notANumber => none

/-- The leading bit stands before the others. -/
theorem toNat_leadingBit_append (m : BitVec 52) :
    (1#1 ++ m).toNat = m.toNat + Double.leadingBit := by
  rw [BitVec.toNat_append, ← Nat.shiftLeft_add_eq_or_of_lt m.isLt, Nat.add_comm]
  rfl

/-- The exact form of a double is that of what its bits unpack to. -/
theorem Double.ofFloat?_eq (x : Float) : ofFloat? x = ofUnpacked? x.toModel.unpack := by
  obtain ⟨hexponent, hmantissa, hsign⟩ := unpackedFields x.toBits
  have hnegative : x.toBits.toNat.testBit 63 =
      (Sign.ofBitVec (@unpackSign Format.binary64 x.toBits.toBitVec) == .negative) := by
    rw [Nat.testBit_eq_decide_div_mod_eq, ← hsign]
    generalize @unpackSign Format.binary64 x.toBits.toBitVec = sign
    revert sign
    decide
  have hones : @unpackExponent Format.binary64 x.toBits.toBitVec = -1#11 ↔
      (@unpackExponent Format.binary64 x.toBits.toBitVec).toNat = 2047 := BitVec.toNat_inj.symm
  have hzero : @unpackExponent Format.binary64 x.toBits.toBitVec = 0#11 ↔
      (@unpackExponent Format.binary64 x.toBits.toBitVec).toNat = 0 := BitVec.toNat_inj.symm
  have hempty : @unpackMantissa Format.binary64 x.toBits.toBitVec = 0#52 ↔
      (@unpackMantissa Format.binary64 x.toBits.toBitVec).toNat = 0 := BitVec.toNat_inj.symm
  have hbias : (Format.binary64.exponentBias : Int) = 1023 := rfl
  show _ = ofUnpacked? (unpack Format.binary64 x.toBits.toBitVec)
  unfold ofFloat? unpack
  dsimp only
  rw [hnegative, ← hexponent, ← hmantissa]
  by_cases h : (@unpackExponent Format.binary64 x.toBits.toBitVec).toNat = 2047
  · rw [if_pos h, if_pos (hones.mpr h)]
    split <;> rfl
  rw [if_neg h, if_neg (mt hones.mp h)]
  by_cases h : (@unpackExponent Format.binary64 x.toBits.toBitVec).toNat = 0
  · rw [if_pos h, if_pos (hzero.mpr h)]
    by_cases hm : (@unpackMantissa Format.binary64 x.toBits.toBitVec).toNat = 0
    · rw [dif_pos (hempty.mpr hm), hm]
      rfl
    · rw [dif_neg (mt hempty.mp hm), h]
      rfl
  · rw [if_neg h, if_neg (mt hzero.mp h), ← toNat_leadingBit_append]
    unfold ofUnpacked?
    dsimp only
    rw [hbias]
    rfl

/-- A significand is below twice the leading bit, and has that bit if its exponent is not the least
one. -/
theorem Double.bounds_of_ofFloat? {x : Float} {d : Double} (h : ofFloat? x = some d) :
    d.significand < 2 * leadingBit ∧ (d.exponent = -1074 ∨ leadingBit ≤ d.significand) := by
  have hstored : x.toBits.toNat % leadingBit < leadingBit := Nat.mod_lt _ (by decide)
  unfold ofFloat? at h
  dsimp only at h
  split at h
  next => cases h
  next =>
    split at h
    next =>
      cases h
      dsimp only
      exact ⟨by omega, .inl rfl⟩
    next =>
      cases h
      dsimp only
      exact ⟨by omega, .inr (by omega)⟩

/-- A double with an exact form unpacks to zero or to a finite number of that form. -/
theorem Double.unpack_cases {x : Float} {d : Double} (h : ofFloat? x = some d) :
    (∃ s, x.toModel.unpack = .zero s ∧ d = ⟨s == .negative, 0, -1074⟩) ∨
      ∃ s m e hm, x.toModel.unpack = .finite s m e hm ∧ d = ⟨s == .negative, m, e⟩ := by
  rw [ofFloat?_eq] at h
  cases hx : x.toModel.unpack with
  | infinity s =>
    rw [hx] at h
    cases h
  | notANumber =>
    rw [hx] at h
    cases h
  | zero s =>
    rw [hx] at h
    cases h
    exact .inl ⟨s, rfl, rfl⟩
  | finite s m e hm =>
    rw [hx] at h
    cases h
    exact .inr ⟨s, m, e, hm, rfl, rfl⟩

/-- A double with the exact form of a positive number unpacks to that number. -/
theorem Double.unpack_of_ofFloat? {x : Float} {m : Nat} {e : Int}
    (h : ofFloat? x = some ⟨false, m, e⟩) (hm : 0 < m) :
    x.toModel.unpack = .finite .positive m e hm := by
  obtain ⟨s, -, hform⟩ | ⟨s, m', e', hm', hx, hform⟩ := unpack_cases h
  · cases congrArg significand hform
    cases hm
  · cases s with
    | negative => cases congrArg negative hform
    | positive =>
      cases hform
      exact hx

/-- The exact form of a double that is not negative has no sign. -/
theorem Double.negative_eq_false {x : Float} {d : Double} (h : NonNegative x.toModel.unpack)
    (hd : ofFloat? x = some d) : d.negative = false := by
  obtain ⟨s, hx, rfl⟩ | ⟨s, m, e, hm, hx, rfl⟩ := unpack_cases hd
  · rw [hx] at h
    cases h
    rfl
  · rw [hx] at h
    cases h
    rfl

/-- Doubles are compared as they are unpacked. -/
theorem lt_iff_compare (x y : Float) :
    x < y ↔ UnpackedFloat.compare x.toModel.unpack y.toModel.unpack = some .lt := by
  show decide (x.toModel < y.toModel) = true ↔ _
  rw [decide_eq_true_iff]
  show (UnpackedFloat.compare x.toModel.unpack y.toModel.unpack == some .lt) = true ↔ _
  exact beq_iff_eq

theorem unpack_one :
    (1.0 : Float).toModel.unpack = .finite .positive Double.leadingBit (-52) (by decide) := by
  apply Double.unpack_of_ofFloat?
  decide +kernel

/-- A double that is a number and not below one is positive and not infinite. -/
theorem finite_of_one_le {x : Float} (hfinite : x.isFinite = true) (h : ¬x < 1.0) :
    ∃ m e, ∃ hm : 0 < m, x.toModel.unpack = .finite .positive m e hm := by
  rw [lt_iff_compare, unpack_one] at h
  replace hfinite : x.toModel.unpack.isFinite = true := hfinite
  cases hx : x.toModel.unpack with
  | infinity s =>
    rw [hx] at hfinite
    cases hfinite
  | notANumber =>
    rw [hx] at hfinite
    cases hfinite
  | zero s =>
    rw [hx] at h
    exact absurd rfl h
  | finite s m e hm =>
    cases s with
    | positive => exact ⟨m, e, hm, rfl⟩
    | negative =>
      rw [hx] at h
      exact absurd rfl h

/-- A double that is not negative is below `2 ^ 64` exactly if it has an exact form whose exponent is
below 12. -/
theorem lt_wordSize_iff {x : Float} (h : NonNegative x.toModel.unpack) :
    x < 18446744073709551616.0 ↔ ∃ d, Double.ofFloat? x = some d ∧ d.exponent < 12 := by
  have hsize : Double.ofFloat? 18446744073709551616.0 = some ⟨false, Double.leadingBit, 12⟩ := by
    decide +kernel
  rw [lt_iff_compare, Double.unpack_of_ofFloat? hsize (by decide)]
  have hform := Double.ofFloat?_eq x
  cases hx : x.toModel.unpack with
  | infinity s =>
    rw [hx] at h hform
    cases h
    simp [UnpackedFloat.compare, hform, Double.ofUnpacked?]
  | notANumber =>
    rw [hx] at h
    cases h
  | zero s =>
    rw [hx] at hform
    simp [UnpackedFloat.compare, hform, Double.ofUnpacked?]
  | finite s m e hm =>
    rw [hx] at h hform
    cases h
    obtain ⟨-, hlarge⟩ := Double.bounds_of_ofFloat? hform
    have hcompare : (compare e 12).then (compare m Double.leadingBit) = .lt ↔ e < 12 := by
      rw [Ordering.then_eq_lt, Int.compare_eq_lt, Int.compare_eq_eq, Nat.compare_eq_lt]
      dsimp only at hlarge
      omega
    show some ((compare e 12).then (compare m Double.leadingBit)) = some .lt ↔ _
    rw [Option.some.injEq, hcompare, hform]
    simp [Double.ofUnpacked?]

/-! ## Rounding to whole numbers -/

theorem le_roundToEven (a b : Nat) : a / b ≤ roundToEven a b := by
  unfold roundToEven
  dsimp only
  split
  · exact Nat.le_refl _
  split
  · exact Nat.le_succ _
  split
  · exact Nat.le_refl _
  · exact Nat.le_succ _

theorem roundToEven_le (a b : Nat) : roundToEven a b ≤ a / b + 1 := by
  unfold roundToEven
  dsimp only
  split
  · exact Nat.le_succ _
  split
  · exact Nat.le_refl _
  split
  · exact Nat.le_succ _
  · exact Nat.le_refl _

end MutationTester.Decimal
