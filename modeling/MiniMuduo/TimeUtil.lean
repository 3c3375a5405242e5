import MiniMuduo.Lib.MachineNumbers

/-!
# `TimeUtil`

`time_point` is `std::chrono::system_clock::time_point`, an `int64_t` of nanoseconds since the epoch;
arithmetic with it wraps around. A `double` number of seconds is modelled by a rational, and
`to_microseconds` rounds twice, as the source does: the product to a `double`, which the cast
truncates. Numbers of seconds that are not finite are left out.
-/

namespace MiniMuduo

/-- Nanoseconds since the epoch; `time_point{}` is `0`. -/
abbrev TimePoint := Int64

def microSecondsPerSecond : Int64 := 1000 * 1000

theorem toInt_microSecondsPerSecond : microSecondsPerSecond.toInt = 1000000 := rfl

/-- The ticks of a duration of so many microseconds. -/
def microseconds (n : Int64) : Int64 := n * 1000

/-- `seconds * MicroSecondsPerSecond`, without its fraction. -/
def wholeMicroseconds (seconds : ℚ) : ℤ :=
  let product := roundDouble (seconds * microSecondsPerSecond.toInt)
  product.num.tdiv product.den

/-- `to_microseconds`; a product that does not fit is cast to the least `int64_t`. -/
def toMicroseconds (seconds : ℚ) : Int64 :=
  if FitsInt64 (wholeMicroseconds seconds) then Int64.ofInt (wholeMicroseconds seconds)
  else Int64.minValue

theorem wholeMicroseconds_nonneg {seconds : ℚ} (h : 0 ≤ seconds) :
    0 ≤ wholeMicroseconds seconds := by
  have hproduct : 0 ≤ roundDouble (seconds * microSecondsPerSecond.toInt) :=
    roundDouble_nonneg (mul_nonneg h (by decide))
  exact Int.tdiv_nonneg (Rat.num_nonneg.mpr hproduct) (Int.natCast_nonneg _)

/-- A whole number of microseconds is counted as it is. -/
theorem wholeMicroseconds_of_whole {seconds : ℚ} {n : ℤ} (h : n.natAbs < 2 ^ 53)
    (hn : seconds * microSecondsPerSecond.toInt = n) : wholeMicroseconds seconds = n := by
  rw [wholeMicroseconds, hn, roundDouble_intCast h]
  simp

-- the `double` 4.35, which is a little less: the exact product would be truncated to 4349999
example : wholeMicroseconds (2448832297382707 / 562949953421312) = 4350000 := by decide +kernel

/-- The sum with a duration in seconds is the exact one if that is a `time_point`. -/
theorem toInt_add_toMicroseconds {now : TimePoint} {seconds : ℚ}
    (h : FitsInt64 (now.toInt + 1000 * wholeMicroseconds seconds)) :
    (now + microseconds (toMicroseconds seconds)).toInt =
      now.toInt + 1000 * wholeMicroseconds seconds := by
  have hfits : FitsInt64 (wholeMicroseconds seconds) := by
    have hnow := fitsInt64_toInt now
    rw [fitsInt64_iff] at h hnow ⊢
    omega
  have hmicro : (toMicroseconds seconds).toInt = wholeMicroseconds seconds := by
    rw [toMicroseconds, if_pos hfits, Int64.toInt_ofInt_of_fits hfits]
  have hthousand : Int64.toInt 1000 = 1000 := rfl
  rw [microseconds, Int64.toInt_add, Int64.toInt_mul, hmicro, hthousand, Int.add_bmod_bmod,
    Int.mul_comm]
  exact bmod_eq_self_iff.mpr h

end MiniMuduo
