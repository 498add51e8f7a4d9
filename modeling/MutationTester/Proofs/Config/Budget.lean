import MutationTester.Config.Basic
import MutationTester.Proofs.Decimal.Doubles

/-!
# The time that a mutant is granted

After normalization the multiple of the time that a test takes is a double that is not negative, or
infinity. The greatest double below `2 ^ 64` is 2048 less than that, so fewer than `2 ^ 64` seconds
leave room for the grace; more make no duration, and the limit, however short, comes too late for
them. So there is a budget exactly if the product of the multiplier and the baseline is below
`2 ^ 64` (`Config.budget_iff_product_below_word`).
-/

set_option autoImplicit false

namespace MutationTester

open Decimal (Double NonNegative roundToEven)

namespace Duration

/-- The seconds of a duration are not negative. -/
theorem nonNegative_toSeconds (d : Duration) : NonNegative d.toSeconds.toModel.unpack := by
  have hsecond : Double.ofFloat? 1000000000.0 = some ⟨false, 8388608000000000, -23⟩ := by
    decide +kernel
  have hquotient (n : UInt64) : NonNegative (n.toFloat / 1000000000.0).toModel.unpack := by
    apply Decimal.nonNegative_unpack_pack
    rw [Double.unpack_of_ofFloat? hsecond (by decide)]
    exact Decimal.nonNegative_div (Decimal.nonNegative_toFloat n) _
  apply Decimal.nonNegative_unpack_pack
  exact Decimal.nonNegative_add (Decimal.nonNegative_toFloat _) (hquotient _)

/-- Less than `2 ^ 64` seconds make a duration that leaves room for the grace. -/
theorem ofSeconds?_of_small {x : Float} {d : Double} (h : NonNegative x.toModel.unpack)
    (hd : Double.ofFloat? x = some d) (hsmall : d.exponent < 12) :
    ∃ t, ofSeconds? x = some t ∧ t + Config.grace < bound := by
  have hnegative := Double.negative_eq_false h hd
  obtain ⟨hsignificand, -⟩ := Double.bounds_of_ofFloat? hd
  have hpower : Nat.pow 2 d.exponent.toNat ≤ 2048 :=
    Nat.pow_le_pow_right (by decide) (show d.exponent.toNat ≤ 11 by omega)
  have hnumerator : d.numerator ≤ 9007199254740991 * 2048 := by
    apply Nat.mul_le_mul _ hpower
    unfold Double.leadingBit at hsignificand
    omega
  have hrounded := Decimal.roundToEven_le (d.numerator * second) d.denominator
  have hquotient := Nat.div_le_self (d.numerator * second) d.denominator
  have hroom : roundToEven (d.numerator * second) d.denominator + Config.grace < bound := by
    simp only [second, Config.grace, bound, UInt64.size] at hrounded hquotient ⊢
    omega
  refine ⟨roundToEven (d.numerator * second) d.denominator, ?_, hroom⟩
  have hrange : roundToEven (d.numerator * second) d.denominator < bound :=
    Nat.lt_of_le_of_lt (Nat.le_add_right _ _) hroom
  simp [ofSeconds?, hd, hnegative, inRange?, hrange]

/-- From `2 ^ 64` seconds on, and at infinity, there is no duration. -/
theorem ofSeconds?_of_large {x : Float} (h : NonNegative x.toModel.unpack)
    (hlarge : ∀ d, Double.ofFloat? x = some d → 12 ≤ d.exponent) : ofSeconds? x = none := by
  cases hd : Double.ofFloat? x with
  | none => simp [ofSeconds?, hd]
  | some d =>
    have hexponent := hlarge d hd
    have hnegative := Double.negative_eq_false h hd
    have hsignificand : Double.leadingBit ≤ d.significand := by
      obtain ⟨-, hleast | hleading⟩ := Double.bounds_of_ofFloat? hd
      · omega
      · exact hleading
    have hpower : 4096 ≤ Nat.pow 2 d.exponent.toNat :=
      Nat.pow_le_pow_right (n := 2) (by decide) (show 12 ≤ d.exponent.toNat by omega)
    have hnumerator : Double.leadingBit * 4096 ≤ d.numerator := Nat.mul_le_mul hsignificand hpower
    have hdenominator : d.denominator = 1 := by
      unfold Double.denominator
      rw [show (-d.exponent).toNat = 0 by omega, Nat.pow_eq, Nat.pow_zero]
    have hrounded := Decimal.le_roundToEven (d.numerator * second) d.denominator
    have houtside : ¬roundToEven (d.numerator * second) d.denominator < bound := by
      rw [hdenominator, Nat.div_one] at hrounded
      simp only [hdenominator, second, bound, UInt64.size, Double.leadingBit] at hrounded hnumerator ⊢
      omega
    simp [ofSeconds?, hd, hnegative, inRange?, houtside]

end Duration

namespace Config

/-- A normalized multiplier is positive and not infinite. -/
theorem unpack_normalize_timeoutMultiplier (config : Config) :
    ∃ m e, ∃ hm : 0 < m,
      config.normalize.timeoutMultiplier.toModel.unpack = .finite .positive m e hm := by
  unfold normalize
  dsimp only
  split
  next => exact ⟨Double.leadingBit, -52, by decide, Decimal.unpack_one⟩
  next h =>
    simp only [Bool.or_eq_true, Bool.not_eq_true', decide_eq_true_eq, not_or,
      Bool.not_eq_false] at h
    exact Decimal.finite_of_one_le h.1 h.2

/-- The scaled time of a normalized configuration is not negative. -/
theorem nonNegative_scaled (config : Config) (baseline : Duration) :
    NonNegative (config.normalize.timeoutMultiplier * baseline.toSeconds).toModel.unpack := by
  obtain ⟨m, e, hm, hmultiplier⟩ := config.unpack_normalize_timeoutMultiplier
  apply Decimal.nonNegative_unpack_pack
  rw [hmultiplier]
  exact Decimal.nonNegative_mul hm baseline.nonNegative_toSeconds

theorem grace_pos : 0 < grace := Nat.mul_pos (by decide) (by decide)

/-- A normalized configuration grants some time at least to every test run. -/
theorem timeout_normalize_pos (config : Config) : 0 < config.normalize.timeout := by
  have hpositive : 0 < config.normalize.timeoutMs := by
    unfold normalize
    dsimp only
    split <;> omega
  exact Nat.mul_pos hpositive (by decide)

/-- Where the scaled time leaves room for the grace there is a budget. -/
theorem mutantTimeout?_eq_some (config : Config) {baseline t : Duration}
    (ht : baseline.scale? config.timeoutMultiplier = some t)
    (hroom : t + grace < Duration.bound) :
    config.mutantTimeout? baseline = some (min (t + grace) config.timeout) := by
  have hgranted : Duration.inRange? (t + grace) = some (t + grace) := if_pos hroom
  unfold mutantTimeout?
  rw [ht, Option.bind_eq_bind, Option.bind_some, hgranted]
  rfl

/-- After normalization there is a budget for a mutant exactly if the product of the multiplier and
the seconds of the baseline is below `2 ^ 64`. The budget is not zero, and is the whole limit of a
test run or at least the grace, but never more than the limit. -/
theorem budget_iff_product_below_word (config : Config) (baseline : Duration) :
    ((∃ time, config.normalize.mutantTimeout? baseline = some time) ↔
        config.normalize.timeoutMultiplier * baseline.toSeconds < 18446744073709551616.0) ∧
      ∀ time, config.normalize.mutantTimeout? baseline = some time →
        0 < time ∧ min grace config.normalize.timeout ≤ time ∧ time ≤ config.normalize.timeout := by
  have hscaled := config.nonNegative_scaled baseline
  rw [Decimal.lt_wordSize_iff hscaled]
  by_cases hsmall : ∃ d, Double.ofFloat? (config.normalize.timeoutMultiplier * baseline.toSeconds) =
      some d ∧ d.exponent < 12
  · obtain ⟨d, hd, hexponent⟩ := hsmall
    obtain ⟨t, ht, hroom⟩ := Duration.ofSeconds?_of_small hscaled hd hexponent
    have hbudget := config.normalize.mutantTimeout?_eq_some ht hroom
    refine ⟨⟨fun _ => ⟨d, hd, hexponent⟩, fun _ => ⟨_, hbudget⟩⟩, ?_⟩
    intro time htime
    rw [hbudget] at htime
    cases htime
    have hgrace : grace ≤ t + grace := Nat.le_add_left grace t
    have hlimit := config.timeout_normalize_pos
    refine ⟨?_, ?_, Nat.min_le_right _ _⟩
    · exact Nat.lt_min.mpr ⟨Nat.lt_of_lt_of_le grace_pos hgrace, hlimit⟩
    · exact Nat.le_min.mpr ⟨Nat.le_trans (Nat.min_le_left _ _) hgrace, Nat.min_le_right _ _⟩
  · have hscale : baseline.scale? config.normalize.timeoutMultiplier = none := by
      apply Duration.ofSeconds?_of_large hscaled
      intro d hd
      by_contra hexponent
      exact hsmall ⟨d, hd, by omega⟩
    have hnone : config.normalize.mutantTimeout? baseline = none := by
      unfold mutantTimeout?
      rw [hscale]
      rfl
    rw [hnone]
    simpa using hsmall

/-- By default a test that took a millisecond leaves a mutant the grace at least, within the limit. -/
theorem default_budget_of_millisecond :
    ({} : Config).normalize.timeoutMultiplier * Duration.toSeconds Duration.millisecond <
        18446744073709551616.0 ∧
      ∃ time, ({} : Config).normalize.mutantTimeout? Duration.millisecond = some time ∧
        0 < time ∧ grace ≤ time ∧ time ≤ ({} : Config).normalize.timeout := by
  have hbelow : ({} : Config).normalize.timeoutMultiplier *
      Duration.toSeconds Duration.millisecond < 18446744073709551616.0 := by decide +kernel
  obtain ⟨hexists, hbounds⟩ := budget_iff_product_below_word {} Duration.millisecond
  obtain ⟨time, htime⟩ := hexists.mpr hbelow
  obtain ⟨hpositive, hgrace, hlimit⟩ := hbounds time htime
  have hshort : grace ≤ ({} : Config).normalize.timeout := by decide
  rw [Nat.min_eq_left hshort] at hgrace
  exact ⟨hbelow, time, htime, hpositive, hgrace, hlimit⟩

/-- With the multiplier `1e300`, which normalization keeps, a test that took a millisecond leaves no
budget for a mutant, though the limit is three seconds. -/
theorem no_budget_for_huge_multiplier :
    let config : Config := { timeoutMultiplier := 1e300 }
    Duration.millisecond ≤ config.normalize.timeout ∧
      config.normalize.mutantTimeout? Duration.millisecond = none ∧
      ¬∀ (config : Config) (baseline : Duration), baseline ≤ config.normalize.timeout →
        ∃ time, config.normalize.mutantTimeout? baseline = some time ∧
          time ≤ config.normalize.timeout := by
  intro config
  have hshort : Duration.millisecond ≤ config.normalize.timeout := by decide +kernel
  have hnone : config.normalize.mutantTimeout? Duration.millisecond = none := by decide +kernel
  refine ⟨hshort, hnone, ?_⟩
  intro h
  obtain ⟨time, htime, -⟩ := h config Duration.millisecond hshort
  rw [hnone] at htime
  cases htime

end Config

end MutationTester
