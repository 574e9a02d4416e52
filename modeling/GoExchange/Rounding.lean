import Mathlib.Data.Rat.Floor
import Mathlib.Tactic.Positivity

/-!
# Rounding rationals to a number of decimal digits

Truncation towards zero and rounding half away from zero, on the grid of
multiples of `ulp d`.
-/
namespace Rounding

/-- One unit in the `d`th decimal place. -/
def ulp (d : ℕ) : ℚ := 1 / 10 ^ d

/-- Round towards zero to `d` digits. -/
def truncate (d : ℕ) (x : ℚ) : ℚ :=
  if 0 ≤ x then (⌊x * 10 ^ d⌋ : ℤ) / 10 ^ d else (⌈x * 10 ^ d⌉ : ℤ) / 10 ^ d

/-- Round to `d` digits, half away from zero. -/
def roundHalfAway (d : ℕ) (x : ℚ) : ℚ :=
  if 0 ≤ x then (⌊x * 10 ^ d + 1 / 2⌋ : ℤ) / 10 ^ d else (⌈x * 10 ^ d - 1 / 2⌉ : ℤ) / 10 ^ d

variable {d : ℕ} {x y : ℚ}

theorem scale_pos (d : ℕ) : (0 : ℚ) < 10 ^ d := by positivity

theorem ulp_pos (d : ℕ) : 0 < ulp d := one_div_pos.mpr (scale_pos d)

theorem truncate_of_nonneg (hx : 0 ≤ x) : truncate d x = (⌊x * 10 ^ d⌋ : ℤ) / 10 ^ d := if_pos hx

theorem truncate_nonpos (hx : x ≤ 0) : truncate d x ≤ 0 := by
  rcases hx.lt_or_eq with hx | rfl
  · rw [truncate, if_neg hx.not_ge]
    have h : ⌈x * 10 ^ d⌉ ≤ (0 : ℤ) :=
      Int.ceil_le.mpr (by simpa using mul_nonpos_of_nonpos_of_nonneg hx.le (scale_pos d).le)
    exact div_nonpos_of_nonpos_of_nonneg (by exact_mod_cast h) (scale_pos d).le
  · simp [truncate]

theorem truncate_le (hx : 0 ≤ x) : truncate d x ≤ x := by
  rw [truncate_of_nonneg hx, div_le_iff₀ (scale_pos d)]
  exact Int.floor_le _

/-- Truncation loses less than one unit in the last place. -/
theorem lt_truncate_add_ulp (hx : 0 ≤ x) : x < truncate d x + ulp d := by
  rw [truncate_of_nonneg hx, ulp, ← add_div, lt_div_iff₀ (scale_pos d)]
  exact Int.lt_floor_add_one _

/-- A quotient truncates to nothing exactly below one unit. -/
theorem truncate_pos_iff (hx : 0 ≤ x) : 0 < truncate d x ↔ ulp d ≤ x := by
  rw [truncate_of_nonneg hx, div_pos_iff_of_pos_right (scale_pos d), ulp, div_le_iff₀ (scale_pos d)]
  rw [Int.cast_pos, Int.floor_pos]

theorem roundHalfAway_of_nonneg (hx : 0 ≤ x) :
    roundHalfAway d x = (⌊x * 10 ^ d + 1 / 2⌋ : ℤ) / 10 ^ d := if_pos hx

theorem roundHalfAway_nonneg (hx : 0 ≤ x) : 0 ≤ roundHalfAway d x := by
  rw [roundHalfAway_of_nonneg hx]
  have hs : 0 ≤ x * 10 ^ d := mul_nonneg hx (scale_pos d).le
  have h : (0 : ℤ) ≤ ⌊x * 10 ^ d + 1 / 2⌋ := Int.floor_nonneg.mpr (by linarith)
  exact div_nonneg (by exact_mod_cast h) (scale_pos d).le

/-- Rounding goes up exactly when the digits cut off are at least half a unit. -/
theorem roundHalfAway_le_iff (hx : 0 ≤ x) :
    roundHalfAway d x ≤ x ↔ Int.fract (x * 10 ^ d) < 1 / 2 := by
  rw [roundHalfAway_of_nonneg hx, div_le_iff₀ (scale_pos d)]
  generalize x * 10 ^ d = y
  have hfl := Int.floor_add_fract y
  have h₀ := Int.fract_nonneg y
  have h₁ := Int.fract_lt_one y
  constructor
  · intro h
    by_contra hlt
    have hup : ⌊y⌋ + 1 ≤ ⌊y + 1 / 2⌋ := Int.le_floor.mpr (by push_cast; linarith)
    have hup : ((⌊y⌋ + 1 : ℤ) : ℚ) ≤ (⌊y + 1 / 2⌋ : ℤ) := by exact_mod_cast hup
    push_cast at hup
    linarith
  · intro h
    have hlow : ⌊y + 1 / 2⌋ = ⌊y⌋ := Int.floor_eq_iff.mpr ⟨by linarith, by linarith⟩
    rw [hlow]
    exact Int.floor_le y

/-- Rounding moves a value by at most half a unit in the last place. -/
theorem abs_roundHalfAway_sub_le (d : ℕ) (x : ℚ) : |roundHalfAway d x - x| ≤ ulp d / 2 := by
  have hs := scale_pos d
  have hscaled : ∀ n : ℤ, |(n : ℚ) - x * 10 ^ d| ≤ 1 / 2 → |(n : ℚ) / 10 ^ d - x| ≤ ulp d / 2 := by
    intro n hn
    have hx : (n : ℚ) / 10 ^ d - x = (n - x * 10 ^ d) / 10 ^ d := by field_simp
    rw [hx, abs_div, abs_of_pos hs, ulp, div_le_iff₀ hs]
    calc |(n : ℚ) - x * 10 ^ d| ≤ 1 / 2 := hn
      _ = 1 / 10 ^ d / 2 * 10 ^ d := by field_simp
  unfold roundHalfAway
  split
  · apply hscaled
    have hlow := Int.floor_le (x * 10 ^ d + 1 / 2)
    have hup := Int.lt_floor_add_one (x * 10 ^ d + 1 / 2)
    rw [abs_le]
    constructor <;> linarith
  · apply hscaled
    have hup := Int.le_ceil (x * 10 ^ d - 1 / 2)
    have hlow := Int.ceil_lt_add_one (x * 10 ^ d - 1 / 2)
    rw [abs_le]
    constructor <;> linarith

/-- A rounded value has no digits left to cut off. -/
theorem truncate_roundHalfAway (hx : 0 ≤ x) :
    truncate d (roundHalfAway d x) = roundHalfAway d x := by
  rw [truncate_of_nonneg (roundHalfAway_nonneg hx), roundHalfAway_of_nonneg hx,
    div_mul_cancel₀ _ (scale_pos d).ne', Int.floor_intCast]

end Rounding
