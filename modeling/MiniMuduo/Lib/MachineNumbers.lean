import Mathlib.Algebra.Order.Floor.Ring
import Mathlib.Algebra.Order.Field.Rat
import Mathlib.Data.Rat.Floor
import Mathlib.Data.Int.Log
import Mathlib.Tactic.Linarith

/-!
# Machine numbers

`Int64` is core's; its arithmetic wraps around in two's complement. Here are its order as a
`LinearOrder` and what the results are as integers: those of the exact operation when they fit
(`FitsInt64`).

A `double` is a rational. `roundDouble` rounds to 53 binary digits, ties to even. Exponents are not
bounded, so there is no overflow to an infinity and no gradual underflow.
-/

/-! ## `int64_t` -/

instance instLinearOrderInt64 : LinearOrder Int64 where
  le_refl _ := Int64.le_refl _
  le_trans _ _ _ := Int64.le_trans
  lt_iff_le_not_ge a b := by rw [Int64.not_le, iff_and_self]; exact Int64.le_of_lt
  le_antisymm _ _ := Int64.le_antisymm
  le_total := Int64.le_total
  toDecidableLE := inferInstance
  toDecidableEq := inferInstance
  toDecidableLT := inferInstance

/-- The values of `int64_t`. -/
def FitsInt64 (x : ℤ) : Prop := Int64.minValue.toInt ≤ x ∧ x ≤ Int64.maxValue.toInt

instance decidableFitsInt64 (x : ℤ) : Decidable (FitsInt64 x) := inferInstanceAs (Decidable (_ ∧ _))

theorem fitsInt64_iff {x : ℤ} :
    FitsInt64 x ↔ -9223372036854775808 ≤ x ∧ x ≤ 9223372036854775807 := Iff.rfl

theorem fitsInt64_toInt (a : Int64) : FitsInt64 a.toInt := ⟨a.minValue_le_toInt, a.toInt_le⟩

/-- Wrapping around changes exactly the integers that do not fit. -/
theorem bmod_eq_self_iff {x : ℤ} : x.bmod 18446744073709551616 = x ↔ FitsInt64 x := by
  rw [fitsInt64_iff, Int.bmod_eq_iff (by decide)]
  omega

namespace Int64

variable {a b : Int64} {x : ℤ}

theorem toInt_sub_eq_iff : (a - b).toInt = a.toInt - b.toInt ↔ FitsInt64 (a.toInt - b.toInt) := by
  rw [toInt_sub]
  exact bmod_eq_self_iff

theorem toInt_ofInt_of_fits (h : FitsInt64 x) : (ofInt x).toInt = x := by
  rw [toInt_ofInt]
  exact bmod_eq_self_iff.mpr h

end Int64

/-! ## `double` -/

/-- The nearest integer, the even one if there are two. -/
def roundEven (x : ℚ) : ℤ :=
  if 2 * Int.fract x < 1 ∨ 2 * Int.fract x = 1 ∧ Even ⌊x⌋ then ⌊x⌋ else ⌊x⌋ + 1

@[simp] theorem roundEven_intCast (n : ℤ) : roundEven n = n := by simp [roundEven]

theorem roundEven_nonneg {x : ℚ} (h : 0 ≤ x) : 0 ≤ roundEven x := by
  have hfloor : 0 ≤ ⌊x⌋ := Int.floor_nonneg.mpr h
  unfold roundEven
  split <;> omega

/-- The distance of the doubles around `x`. -/
def doubleUlp (x : ℚ) : ℚ := 2 ^ (Int.log 2 |x| - 52)

/-- The `double` nearest to `x`. -/
def roundDouble (x : ℚ) : ℚ := roundEven (x / doubleUlp x) * doubleUlp x

theorem doubleUlp_pos (x : ℚ) : 0 < doubleUlp x := zpow_pos (by norm_num) _

theorem roundDouble_nonneg {x : ℚ} (h : 0 ≤ x) : 0 ≤ roundDouble x := by
  have hround : 0 ≤ roundEven (x / doubleUlp x) :=
    roundEven_nonneg (div_nonneg h (doubleUlp_pos x).le)
  exact mul_nonneg (by exact_mod_cast hround) (doubleUlp_pos x).le

/-- Around an integer of at most 53 binary digits the doubles are a fraction of one apart. -/
theorem doubleUlp_intCast {n : ℤ} (h : n.natAbs < 2 ^ 53) :
    ∃ k : ℕ, doubleUlp n = ((2 ^ k : ℤ) : ℚ)⁻¹ := by
  have hlog : Nat.log 2 n.natAbs ≤ 52 := Nat.lt_succ_iff.mp (Nat.log_lt_of_lt_pow' (by decide) h)
  refine ⟨52 - Nat.log 2 n.natAbs, ?_⟩
  have habs : |(n : ℚ)| = (n.natAbs : ℚ) := by rw [Nat.cast_natAbs, Int.cast_abs]
  have hexp : (Nat.log 2 n.natAbs : ℤ) - 52 = -((52 - Nat.log 2 n.natAbs : ℕ) : ℤ) := by omega
  rw [doubleUlp, habs, Int.log_natCast, hexp, zpow_neg, zpow_natCast, Int.cast_pow, Int.cast_ofNat]

/-- The integers of at most 53 binary digits are doubles. -/
theorem roundDouble_intCast {n : ℤ} (h : n.natAbs < 2 ^ 53) : roundDouble n = n := by
  obtain ⟨k, hk⟩ := doubleUlp_intCast h
  have hpow : ((2 ^ k : ℤ) : ℚ) ≠ 0 := by positivity
  rw [roundDouble, hk, div_inv_eq_mul, ← Int.cast_mul, roundEven_intCast, Int.cast_mul,
    mul_inv_cancel_right₀ hpow]
