import MutationTester.Proofs.Decimal.Doubles

/-!
# Exponents of doubles

Rounding shifts a significand by no more places than it has, so the exponents of words and of products
of small doubles stay small, and a number whose exponent is small is packed as a finite double. So a
word as a double is finite, and stays so when it is multiplied by a double without a power of two
above its significand (`isInf_toFloat_mul`).
-/

set_option autoImplicit false

namespace MutationTester.Decimal

open Float.Model (Format UnpackedFloat totalExponent)
open Float.Model.UnpackedFloat

/-- Zero, or a finite number with at most this exponent. -/
def ExponentLE (k : Int) : UnpackedFloat → Prop
  | .zero _ => True
  | .finite _ _ e _ => e ≤ k
  | .infinity _ => False
  | .notANumber => False

theorem ExponentLE.cases {k : Int} {u : UnpackedFloat} (h : ExponentLE k u) :
    (∃ s, u = .zero s) ∨ ∃ s m e hm, u = .finite s m e hm ∧ e ≤ k := by
  cases u with
  | infinity => cases h
  | notANumber => cases h
  | zero s => exact .inl ⟨s, rfl⟩
  | finite s m e hm => exact .inr ⟨s, m, e, hm, rfl, h⟩

theorem ExponentLE.isInf_eq_false {k : Int} {u : UnpackedFloat} (h : ExponentLE k u) :
    u.isInf = false := by
  rcases h.cases with ⟨s, rfl⟩ | ⟨s, m, e, hm, rfl, -⟩
  · rfl
  · rfl

theorem ExponentLE.mono {j k : Int} {u : UnpackedFloat} (h : ExponentLE j u) (hle : j ≤ k) :
    ExponentLE k u := by
  rcases h.cases with ⟨s, rfl⟩ | ⟨s, m, e, hm, rfl, he⟩
  · trivial
  · exact Int.le_trans he hle

/-! ## Rounding -/

section Rounding

/-- Where a significand is shifted to its target, the exponent grows by no more than its length. -/
theorem shiftToTargetExponent_snd_le (m : Nat) (e : Int) (accuracy : Accuracy) :
    (shiftToTargetExponent Format.binary64 m e accuracy).2 ≤ max e (-1074) + m.log2 := by
  show e + ((max ((m.log2 : Int) + 1 + e - 53) (-1074) - e).toNat : Int) ≤ _
  omega

theorem mantissa_shiftRight_le (em : ExtendedMantissa) (n : Nat) :
    (em >>> n).mantissa ≤ em.mantissa := by
  show (n.repeat ExtendedMantissa.shiftRightOne em).mantissa ≤ em.mantissa
  induction n with
  | zero => exact Nat.le_refl _
  | succ n ih => exact Nat.le_trans (Nat.div_le_self _ 2) ih

theorem roundedMantissa_le (em : ExtendedMantissa) : em.roundedMantissa ≤ em.mantissa + 1 := by
  unfold ExtendedMantissa.roundedMantissa
  generalize em.accuracy = accuracy
  unfold Accuracy.roundToNearestEven
  split <;> omega

/-- A rounded significand has at most one binary digit more. -/
theorem log2_roundedMantissa_le (m : Nat) (e : Int) (accuracy : Accuracy) :
    (shiftToTargetExponent Format.binary64 m e accuracy).1.roundedMantissa.log2 ≤ m.log2 + 1 := by
  have hstart : (ExtendedMantissa.ofMantissaAndAccuracy m accuracy).mantissa = m := by
    unfold ExtendedMantissa.ofMantissaAndAccuracy
    split <;> rfl
  have hshift : (shiftToTargetExponent Format.binary64 m e accuracy).1.mantissa ≤ m := by
    conv => rhs; rw [← hstart]
    exact mantissa_shiftRight_le _ _
  have hround := roundedMantissa_le (shiftToTargetExponent Format.binary64 m e accuracy).1
  have hm : m < 2 ^ (m.log2 + 1) := Nat.lt_log2_self
  have hpow : 2 ^ (m.log2 + 2) = 2 * 2 ^ (m.log2 + 1) := Nat.pow_succ'
  generalize (shiftToTargetExponent Format.binary64 m e accuracy).1.roundedMantissa = r at hround ⊢
  rcases Nat.eq_zero_or_pos r with rfl | hpos
  · exact Nat.zero_le _
  · have hlt : r.log2 < m.log2 + 2 := (Nat.log2_lt hpos.ne').mpr (by omega)
    omega

theorem exponentLE_roundWithAccuracy (s : Sign) (m : Nat) (e : Int) (accuracy : Accuracy) :
    ExponentLE (max e (-1074) + 2 * m.log2 + 1)
      (roundWithAccuracy Format.binary64 s m e accuracy) := by
  have hfirst := shiftToTargetExponent_snd_le m e accuracy
  have hlog := log2_roundedMantissa_le m e accuracy
  have hsecond := shiftToTargetExponent_snd_le
    (shiftToTargetExponent Format.binary64 m e accuracy).1.roundedMantissa
    (shiftToTargetExponent Format.binary64 m e accuracy).2 .exact
  unfold roundWithAccuracy
  dsimp only
  split
  · trivial
  · show (_ : Int) ≤ _
    omega

/-- A word is shifted up to the length of a significand before it is rounded. -/
theorem exponentLE_normalize {n : Nat} (hn : n < 2 ^ 64) :
    ExponentLE 231 (UnpackedFloat.normalize Format.binary64 n 0 .positive) := by
  unfold UnpackedFloat.normalize
  split
  next hneg =>
    rw [Int.compare_eq_lt] at hneg
    omega
  next => trivial
  next =>
    have hround (shift : Nat) (hshift : shift ≤ 52) : ExponentLE 231
        (roundWithAccuracy Format.binary64 .positive (n <<< shift) (0 - shift) .exact) := by
      have hlt : n <<< shift < 2 ^ 116 := by
        rw [Nat.shiftLeft_eq]
        calc n * 2 ^ shift ≤ n * 2 ^ 52 :=
              Nat.mul_le_mul_left n (Nat.pow_le_pow_right (by omega) hshift)
          _ < 2 ^ 116 := by omega
      have hlog : (n <<< shift).log2 < 116 := by
        rcases Nat.eq_zero_or_pos (n <<< shift) with hzero | hpos
        · rw [hzero]
          decide
        · exact (Nat.log2_lt hpos.ne').mpr hlt
      exact (exponentLE_roundWithAccuracy _ _ _ _).mono (by omega)
    apply hround
    show ((0 : Int) - max ((n.log2 : Int) + 1 + 0 - 53) (-1074)).toNat ≤ 52
    omega

end Rounding

/-! ## Packing -/

theorem exponentLE_unpack_packComponents {k : Int} (hleast : -1074 ≤ k) (s : Sign)
    {biased : BitVec 11} (m : BitVec 52)
    (hbiased : biased.toNat < 2047 ∧ (biased.toNat : Int) - 1075 ≤ k) :
    ExponentLE k (unpack Format.binary64 (packComponents Format.binary64 s biased m)) := by
  unfold unpack
  simp only [unpackMantissa_packComponents, unpackExponent_packComponents]
  split
  next hones =>
    rw [hones] at hbiased
    exact absurd hbiased.1 (by decide)
  next =>
    split
    next hzero =>
      split
      next => trivial
      next =>
        show ((biased.toNat : Int) - (1023 + 52) + 1 : Int) ≤ k
        rw [hzero]
        exact hleast
    next =>
      show ((biased.toNat : Int) - (1023 + 52) : Int) ≤ k
      omega

/-- What has a small exponent is packed as a finite number. -/
theorem exponentLE_unpack_pack {k : Int} (hleast : -1074 ≤ k) (hmost : k ≤ 971) {u : UnpackedFloat}
    (h : ExponentLE k u) : ExponentLE k (unpack Format.binary64 (pack Format.binary64 u)) := by
  have hbias : (Format.binary64.exponentBias : Int) = 1023 := rfl
  rcases h.cases with ⟨s, rfl⟩ | ⟨s, m, e, hm, rfl, he⟩
  · exact exponentLE_unpack_packComponents hleast s 0 (by simp; omega)
  · unfold pack
    dsimp only
    split
    next hbig => omega
    next hsmall =>
      split
      · apply exponentLE_unpack_packComponents hleast
        have hsize : (e + Format.binary64.exponentBias + (52 : Nat)).toNat < 2 ^ 11 := by omega
        rw [BitVec.toNat_ofNat, Nat.mod_eq_of_lt hsize]
        omega
      · exact exponentLE_unpack_packComponents hleast s _ (by simp; omega)

theorem exponentLE_toFloat (n : UInt64) : ExponentLE 231 n.toFloat.toModel.unpack := by
  apply exponentLE_unpack_pack (by omega) (by omega)
  exact exponentLE_normalize n.toNat_lt

/-- The significands of two doubles make up at most 106 binary digits. -/
theorem exponentLE_mul {x y : Float} {j k : Int} (hx : ExponentLE j x.toModel.unpack)
    (hy : ExponentLE k y.toModel.unpack) (hleast : -1074 ≤ j + k) (hmost : j + k ≤ 700) :
    ExponentLE (j + k + 211) (x * y).toModel.unpack := by
  apply exponentLE_unpack_pack (by omega) (by omega)
  have hsmall (z : Float) {s m e hm} (hz : z.toModel.unpack = .finite s m e hm) : m < 2 ^ 53 := by
    have hform : Double.ofFloat? z = some ⟨s == .negative, m, e⟩ := by
      rw [Double.ofFloat?_eq, hz]
      rfl
    exact (Double.bounds_of_ofFloat? hform).1
  rcases hx.cases with ⟨s, hu⟩ | ⟨s, m, e, hm, hu, he⟩
  · rcases hy.cases with ⟨s', hv⟩ | ⟨s', m', e', hm', hv, he'⟩
    · rw [hu, hv]
      trivial
    · rw [hu, hv]
      trivial
  · rcases hy.cases with ⟨s', hv⟩ | ⟨s', m', e', hm', hv, he'⟩
    · rw [hu, hv]
      trivial
    · have hlog : (m * m').log2 < 106 := by
        apply (Nat.log2_lt (Nat.mul_pos hm hm').ne').mpr
        calc m * m' < 2 ^ 53 * 2 ^ 53 := Nat.mul_lt_mul'' (hsmall x hu) (hsmall y hv)
          _ = 2 ^ 106 := by norm_num
      rw [hu, hv]
      exact (exponentLE_roundWithAccuracy (s * s') (m * m') (e + e') .exact).mono (by omega)

theorem isInf_toFloat_mul {n : UInt64} {x : Float} (hx : ExponentLE 0 x.toModel.unpack) :
    (n.toFloat * x).isInf = false :=
  (exponentLE_mul (exponentLE_toFloat n) hx (by omega) (by omega)).isInf_eq_false

end MutationTester.Decimal
