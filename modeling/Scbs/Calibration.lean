import Scbs.Runs

/-!
# The calibrated output

`SetOutputVoltage` over exact numbers.  A request goes through the device rails, a cubic
calibration, the supply's rails, a conversion to PWM counts and a subtraction.

* `calibrated` — the cubic; it increases everywhere (`calibrated_strictMono`) and is below
  the supply at the upper rail (`calibrated_lt_five`).
* `targetCount` — what the counts are for: a monotone function of the request, from 0 to
  1000.
* `setOutputVoltage_level` — the code's PWM level is 1000 less that many counts.
* `output_calibrated` — **a higher request never lowers the output**, and neither the upper
  clamp nor a wrap of the subtraction happens.
-/

namespace Scbs

open CLib

/-! ## The calibration -/

/-- The calibrated voltage of a railed request. -/
def calibrated (v : ℚ) : ℚ :=
  v - (v * v * v * (-6624709 / 10 ^ 9) + v * v * (7218648 / 10 ^ 8) +
    v * (-278278555 / 10 ^ 9) + 79586014 / 10 ^ 9)

/-- The slope of the calibration between two voltages. -/
def slope (a b : ℚ) : ℚ :=
  6624709 / 10 ^ 9 * (a ^ 2 + a * b + b ^ 2) - 7218648 / 10 ^ 8 * (a + b) + 1278278555 / 10 ^ 9

theorem calibrated_sub (a b : ℚ) : calibrated b - calibrated a = (b - a) * slope a b := by
  unfold calibrated slope
  ring

/-- **The slope is positive everywhere**: what is left of it when the squares are completed
is a positive constant. -/
theorem slope_pos (a b : ℚ) : 0 < slope a b := by
  -- complete the square in the sum; the rest is a square of the difference and a constant
  have hsquares : slope a b =
      6624709 / 10 ^ 9 * (3 / 4) * (a + b - 48124320 / 6624709) ^ 2 +
        6624709 / 10 ^ 9 / 4 * (a - b) ^ 2 +
        (1278278555 / 10 ^ 9 - 6624709 / 10 ^ 9 * (3 / 4) * (48124320 / 6624709) ^ 2) := by
    unfold slope
    ring
  rw [hsquares]
  have hconst : (0 : ℚ) <
      1278278555 / 10 ^ 9 - 6624709 / 10 ^ 9 * (3 / 4) * (48124320 / 6624709) ^ 2 := by
    norm_num
  positivity

/-- **The calibration increases**, on the rails and off them. -/
theorem calibrated_strictMono : StrictMono calibrated := by
  intro a b hab
  rw [← sub_pos, calibrated_sub]
  exact mul_pos (sub_pos.2 hab) (slope_pos a b)

/-- It stays below the supply up to the upper rail. -/
theorem calibrated_lt_five {v : ℚ} (h : v ≤ 9 / 2) : calibrated v < 5 := by
  apply lt_of_le_of_lt (calibrated_strictMono.monotone h)
  unfold calibrated
  norm_num

/-! ## The counts a request asks for -/

/-- A request kept on the device rails. -/
def railed (v : ℚ) : ℚ := max 0 (min (9 / 2) v)

/-- The calibrated voltage kept on the supply's rails. -/
def supplied (v : ℚ) : ℚ := max 0 (min 5 (calibrated v))

/-- The PWM counts of a request. -/
def targetCount (v : ℚ) : ℕ := ⌊supplied (railed v) / 5 * 1000⌋₊

theorem railed_mono : Monotone railed := monotone_const.max (monotone_const.min monotone_id)

theorem railed_le (v : ℚ) : railed v ≤ 9 / 2 := max_le (by norm_num) (min_le_left _ _)

theorem supplied_mono : Monotone supplied :=
  monotone_const.max (monotone_const.min calibrated_strictMono.monotone)

theorem supplied_le (v : ℚ) : supplied v ≤ 5 := max_le (by norm_num) (min_le_left _ _)

/-- **A higher request asks for no fewer counts.** -/
theorem targetCount_mono : Monotone targetCount := by
  intro v w h
  have hsupplied : supplied (railed v) ≤ supplied (railed w) := supplied_mono (railed_mono h)
  apply Nat.floor_mono
  linarith

theorem targetCount_le (v : ℚ) : targetCount v ≤ 1000 := by
  apply Nat.floor_le_of_le
  have := supplied_le (railed v)
  push_cast
  linarith

/-! ## The code computes them -/

namespace SCBS

theorem railVoltage_railed (v : ℚ) : railVoltage (.num v : ExtRat) = .num (railed v) :=
  railVoltage_num v

/-- The code's cubic is `calibrated`. -/
theorem sub_estimatedOffset_num (v : ℚ) :
    CFloat.sub (.num v) (estimatedOffset (.num v)) = (.num (calibrated v) : ExtRat) := by
  show ExtRat.num _ = ExtRat.num _
  rw [calibrated, sub_eq_add_neg]

theorem pwmVoltage_num_eq (v : ℚ) : pwmVoltage (.num v : ExtRat) = .num (supplied v) := by
  unfold pwmVoltage
  simp only [sub_estimatedOffset_num]
  exact ExtRat.clamp_num (by norm_num) (calibrated v)

theorem pwmCount_num (v : ℚ) :
    pwmCount (.num v : ExtRat) = .num (supplied v / 5 * 1000) := by
  unfold pwmCount
  rw [pwmVoltage_num_eq]
  rfl

/-- The conversion to `uint16_t` is in its range, and truncates. -/
theorem toUInt16_pwmCount (v : ℚ) :
    (CFloat.toUInt16 (pwmCount (railVoltage (.num v : ExtRat)))).toNat = targetCount v := by
  have hle := targetCount_le v
  have hlt : supplied (railed v) / 5 * 1000 < 65536 := by
    have := supplied_le (railed v)
    linarith
  rw [railVoltage_railed, pwmCount_num]
  show (ExtRat.toUInt16 (.num _)).toNat = _
  rw [ExtRat.toUInt16, if_pos hlt, UInt16.toNat_ofNat_of_lt']
  · rfl
  · exact lt_of_le_of_lt hle (by decide)

/-- **The PWM level is 1000 less the counts of the request**, and the subtraction does not
wrap. -/
theorem setOutputVoltage_level (cell : SCBS ExtRat) (v : ℚ) :
    (cell.setOutputVoltage (.num v)).1.pwmChanLevel.toNat = 1000 - targetCount v := by
  have hcount := toUInt16_pwmCount v
  have hle := targetCount_le v
  show (1000 - CFloat.toUInt16 (pwmCount (railVoltage (.num v : ExtRat)))).toNat = _
  rw [UInt16.toNat_sub_of_le, hcount]
  · rfl
  · rw [UInt16.le_iff_toNat_le, hcount]
    exact hle

end SCBS

/-! ## The output -/

/-- **The calibrated output is monotone and in range.**  For requests `v₁ ≤ v₂` the level of
`v₂` is at most that of `v₁` (the scale is inverted, so the output is no lower); every level
is from 0 to 1000 and is 1000 less the counts converted, which are in range, so nothing
wraps; and the calibrated voltage is below the supply, so the upper clamp is not taken. -/
theorem output_calibrated (cell : SCBS ExtRat) (v₁ v₂ : ℚ) (h : v₁ ≤ v₂) :
    (cell.setOutputVoltage (.num v₂)).1.pwmChanLevel ≤
        (cell.setOutputVoltage (.num v₁)).1.pwmChanLevel ∧
      ∀ v : ℚ,
        ((cell.setOutputVoltage (.num v)).1.pwmChanLevel ≤ 1000 ∧ CountInRange (.num v) ∧
          ((cell.setOutputVoltage (.num v)).1.pwmChanLevel.toNat : ℤ) = 1000 -
            (CFloat.toUInt16 (SCBS.pwmCount (SCBS.railVoltage (.num v : ExtRat)))).toNat) ∧
        CFloat.lt (CFloat.sub (SCBS.railVoltage (.num v))
          (SCBS.estimatedOffset (SCBS.railVoltage (.num v)))) (CFloat.lit 5 : ExtRat) = true ∧
        CFloat.lt (CFloat.lit 5 : ExtRat) (CFloat.sub (SCBS.railVoltage (.num v))
          (SCBS.estimatedOffset (SCBS.railVoltage (.num v)))) = false := by
  constructor
  · have hcount := targetCount_mono h
    rw [UInt16.le_iff_toNat_le, cell.setOutputVoltage_level, cell.setOutputVoltage_level]
    omega
  · intro v
    have hle := targetCount_le v
    have hlt := calibrated_lt_five (railed_le v)
    refine ⟨⟨?_, (countInRange_iff _).2 ExtRat.noConfusion, ?_⟩, ?_⟩
    · rw [UInt16.le_iff_toNat_le, cell.setOutputVoltage_level]
      exact Nat.sub_le _ _
    · rw [cell.setOutputVoltage_level, SCBS.toUInt16_pwmCount]
      omega
    · rw [SCBS.railVoltage_railed, SCBS.sub_estimatedOffset_num]
      exact ⟨decide_eq_true hlt, decide_eq_false (not_lt.2 hlt.le)⟩

/-- A third of a volt and three volts. -/
theorem output_calibrated_sample :
    ((SCBS.init 0 : SCBS ExtRat).setOutputVoltage (.num 3)).1.pwmChanLevel ≤
      ((SCBS.init 0 : SCBS ExtRat).setOutputVoltage (.num (1 / 3))).1.pwmChanLevel :=
  (output_calibrated (SCBS.init 0) (1 / 3) 3 (by norm_num)).1

end Scbs
