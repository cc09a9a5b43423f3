import ByteBattles.Lib.PyNumber
import Mathlib.Tactic.Linarith
import Mathlib.Tactic.NormNum
import Mathlib.Tactic.Positivity

/-!
# Rounding to binary64

How far `PyNumber.nearest` is from its argument, and on which side of a number that
binary64 has.
-/

namespace ByteBattles.Lib.PyNumber

/-! ## Rounding to an integer -/

theorem floor_le_roundHalfEven (q : ℚ) : ⌊q⌋ ≤ roundHalfEven q := by
  unfold roundHalfEven
  dsimp only
  split_ifs <;> omega

theorem le_roundHalfEven {q : ℚ} {n : Int} (h : (n : ℚ) ≤ q) : n ≤ roundHalfEven q :=
  (Int.le_floor.mpr h).trans (floor_le_roundHalfEven q)

theorem abs_roundHalfEven_sub_le (q : ℚ) : |(roundHalfEven q : ℚ) - q| ≤ 1 / 2 := by
  have hlow := Int.floor_le q
  have hhigh := Int.lt_floor_add_one q
  unfold roundHalfEven
  dsimp only
  split_ifs <;> push_cast <;> rw [abs_le] <;> constructor <;> linarith

/-- `int(x)` rounds down a float that is not negative. -/
theorem tdiv_eq_floor {x : ℚ} (h : 0 ≤ x) : x.num.tdiv x.den = ⌊x⌋ := by
  rw [Int.tdiv_eq_ediv_of_nonneg (Rat.num_nonneg.mpr h), Rat.floor_def']

/-! ## Rounding to a float -/

/-- The distance of two neighbours among the floats of this size. -/
def ulp (q : ℚ) : ℚ := 2 ^ max (Int.log 2 q - 52) (-1074)

/-- The nearest float, if the exponent is not limited upwards. -/
def rounded (q : ℚ) : ℚ := roundHalfEven (q / ulp q) * ulp q

theorem nearest_eq (q : ℚ) :
    nearest q = if rounded q < 2 ^ 1024 then .finite (rounded q) else .inf := rfl

theorem nearest_eq_finite {q x : ℚ} (h : nearest q = .finite x) : x = rounded q := by
  rw [nearest_eq] at h
  split at h
  · exact (PyFloat.finite.inj h).symm
  · cases h

theorem ulp_pos (q : ℚ) : 0 < ulp q := by
  exact zpow_pos (by norm_num) _

theorem abs_rounded_sub_le (q : ℚ) : |rounded q - q| ≤ ulp q / 2 := by
  have hulp := ulp_pos q
  have hq : q = q / ulp q * ulp q := by field_simp
  calc |rounded q - q| = |(roundHalfEven (q / ulp q) - q / ulp q) * ulp q| := by
        rw [rounded, sub_mul, ← hq]
    _ = |(roundHalfEven (q / ulp q) : ℚ) - q / ulp q| * ulp q := by
        rw [abs_mul, abs_of_pos hulp]
    _ ≤ 1 / 2 * ulp q := by
        gcongr
        exact abs_roundHalfEven_sub_le _
    _ = ulp q / 2 := by ring

theorem le_rounded {q : ℚ} {n : Int} (h : n * ulp q ≤ q) : n * ulp q ≤ rounded q := by
  have hulp := ulp_pos q
  have hn : (n : ℚ) ≤ q / ulp q := (le_div_iff₀ hulp).mpr h
  have hle : (n : ℚ) ≤ roundHalfEven (q / ulp q) := by exact_mod_cast le_roundHalfEven hn
  exact mul_le_mul_of_nonneg_right hle hulp.le

theorem rounded_nonneg {q : ℚ} (h : 0 ≤ q) : 0 ≤ rounded q := by
  simpa using le_rounded (q := q) (n := 0) (by simpa using h)

theorem rounded_zero : rounded 0 = 0 := by
  have hround : roundHalfEven 0 = 0 := by simp [roundHalfEven]
  rw [rounded, zero_div, hround, Int.cast_zero, zero_mul]

/-- The distance is small against a number that is not tiny. -/
theorem ulp_le {q : ℚ} (h : 1 / 128 ≤ q) : ulp q ≤ q := by
  have hq : 0 < q := by linarith
  have hlog : (-7 : Int) ≤ Int.log 2 q := by
    rw [← Int.zpow_le_iff_le_log (by decide) hq]
    norm_num
    linarith
  calc ulp q ≤ 2 ^ Int.log 2 q := by
        apply zpow_le_zpow_right₀ (by norm_num)
        omega
    _ ≤ q := Int.zpow_log_le_self (by decide) hq

theorem rounded_le_two_mul {q : ℚ} (h : 1 / 128 ≤ q) : rounded q ≤ 2 * q := by
  have herror := abs_le.mp (abs_rounded_sub_le q)
  have hulp := ulp_le h
  linarith [herror.2]

/-! ## Integers -/

theorem two_pow_le_rounded {q : ℚ} {k : Nat} (h : (2 : ℚ) ^ k ≤ q) : (2 : ℚ) ^ k ≤ rounded q := by
  have hpos : (0 : ℚ) < 2 ^ k := by positivity
  have hq : 0 < q := hpos.trans_le h
  have hlog : (k : Int) ≤ Int.log 2 q := by
    rw [← Int.zpow_le_iff_le_log (by decide) hq]
    simpa using h
  have hmultiple : ((2 ^ 52 : Int) : ℚ) * ulp q = 2 ^ Int.log 2 q := by
    have hmax : max (Int.log 2 q - 52) (-1074) = Int.log 2 q - 52 := by omega
    rw [ulp, hmax, zpow_sub₀ (by norm_num)]
    norm_num
    field_simp
  calc (2 : ℚ) ^ k = 2 ^ (k : Int) := by rw [zpow_natCast]
    _ ≤ 2 ^ Int.log 2 q := zpow_le_zpow_right₀ (by norm_num) hlog
    _ = (2 ^ 52 : Int) * ulp q := hmultiple.symm
    _ ≤ rounded q := le_rounded (hmultiple.trans_le (Int.zpow_log_le_self (by decide) hq))

/-- Integers that are multiples of the distance are kept apart. -/
theorem le_rounded_of_intCast_le {q : ℚ} {n : Int} (hlog : Int.log 2 q ≤ 52) (h : (n : ℚ) ≤ q) :
    (n : ℚ) ≤ rounded q := by
  obtain ⟨k, hk⟩ := Int.eq_ofNat_of_zero_le
    (show 0 ≤ - max (Int.log 2 q - 52) (-1074) by omega)
  have hulp : ulp q = (2 ^ k)⁻¹ := by
    rw [ulp, ← neg_neg (max (Int.log 2 q - 52) (-1074)), hk, zpow_neg]
    norm_cast
  have hmultiple : ((n * 2 ^ k : Int) : ℚ) * ulp q = n := by
    rw [hulp]
    push_cast
    field_simp
  calc (n : ℚ) = ((n * 2 ^ k : Int) : ℚ) * ulp q := hmultiple.symm
    _ ≤ rounded q := le_rounded (hmultiple.trans_le h)

/-- Hundredths below `2 ^ 45` are rounded to numbers between the same two integers. -/
theorem intCast_le_rounded_iff {q : ℚ} {n m : Int} (hn : n ≤ 2 ^ 45) (hm : (m : ℚ) ≤ q)
    (hq : q + 1 / 100 ≤ m + 1) : (n : ℚ) ≤ rounded q ↔ n ≤ m := by
  rcases le_or_gt ((2 : ℚ) ^ 45) q with hlarge | hsmall
  · have hbound : (n : ℚ) ≤ 2 ^ 45 := by exact_mod_cast hn
    have hnext : (2 ^ 45 : ℚ) < m + 1 := by linarith
    have hmn : (2 : Int) ^ 45 < m + 1 := by exact_mod_cast hnext
    exact iff_of_true (hbound.trans (two_pow_le_rounded hlarge)) (by omega)
  · have hlog : Int.log 2 q ≤ 44 := by
      rcases le_or_gt q 0 with hq0 | hq0
      · rw [Int.log_of_right_le_zero _ hq0]
        decide
      · have hlt := (Int.lt_zpow_iff_log_lt (b := 2) (by decide) (x := 45) hq0).mp
          (by exact_mod_cast hsmall)
        omega
    constructor
    · intro h
      have hulp : ulp q ≤ 1 / 256 := by
        calc ulp q ≤ 2 ^ (-8 : Int) := by
              apply zpow_le_zpow_right₀ (by norm_num)
              omega
          _ = 1 / 256 := by norm_num
      have herror := abs_le.mp (abs_rounded_sub_le q)
      have hlt : (n : ℚ) < m + 1 := by linarith [herror.2]
      have hlt' : n < m + 1 := by exact_mod_cast hlt
      omega
    · intro h
      have hle : (n : ℚ) ≤ m := by exact_mod_cast h
      exact le_rounded_of_intCast_le (by omega) (hle.trans hm)

end ByteBattles.Lib.PyNumber
