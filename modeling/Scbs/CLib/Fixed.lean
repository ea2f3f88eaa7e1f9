import Scbs.CLib.Decimal

/-!
# What `%.2f` keeps of a number

* `ExtRat.abs_roundHalfEven_sub_le` — the error of rounding.
* `ExtRat.hundredths` — the number that the text of `%.2f` stands for: `isDecimal_printF2`.
* `ExtRat.strtof_printF2` — `strtof` reads it.
* `ExtRat.abs_hundredths_sub_le` — it is within 0.005 of the number that was printed.
* `ExtRat.printF2_hundredths` — **and prints as the same text**.
-/

namespace CLib

namespace ExtRat

/-! ## Rounding -/

/-- The nearest integer is not far away. -/
theorem abs_roundHalfEven_sub_le {x : ℚ} (h : 0 ≤ x) : |(roundHalfEven x : ℚ) - x| ≤ 1 / 2 := by
  have hfloor : ((⌊x⌋.toNat : ℕ) : ℚ) = (⌊x⌋ : ℚ) := by
    exact_mod_cast Int.toNat_of_nonneg (Int.floor_nonneg.2 h)
  have hle : ((⌊x⌋.toNat : ℕ) : ℚ) ≤ x := hfloor ▸ Int.floor_le x
  have hlt : x < ((⌊x⌋.toNat : ℕ) : ℚ) + 1 := hfloor ▸ Int.lt_floor_add_one x
  simp only [roundHalfEven]
  generalize ⌊x⌋.toNat = n at hle hlt ⊢
  have hdown : x - n ≤ 1 / 2 → |(n : ℚ) - x| ≤ 1 / 2 := by
    intro hnear
    rw [abs_le]
    constructor <;> linarith
  have hup : 1 / 2 ≤ x - n → |((n + 1 : ℕ) : ℚ) - x| ≤ 1 / 2 := by
    intro hfar
    rw [abs_le]
    push_cast
    constructor <;> linarith
  split
  · next hnear => exact hdown hnear.le
  · next hnear =>
    split
    · next hfar => exact hup hfar.le
    · next hfar =>
      split
      · exact hdown (not_lt.1 hfar)
      · exact hup (not_lt.1 hnear)

theorem roundHalfEven_natCast (n : ℕ) : roundHalfEven (n : ℚ) = n := by
  have hfloor : ⌊(n : ℚ)⌋.toNat = n := by rw [Int.floor_natCast, Int.toNat_natCast]
  have hnear : (n : ℚ) - n < 1 / 2 := by norm_num
  simp only [roundHalfEven, hfloor, if_pos hnear]

/-! ## The text of `%.2f` -/

/-- The number that the text of `%.2f` stands for. -/
def hundredths (q : ℚ) : ℚ :=
  signed (if q < 0 then some true else none) (roundHalfEven (|q| * 100) / 100 : ℚ)

theorem hundredths_of_nonneg {q : ℚ} (h : 0 ≤ q) :
    hundredths q = roundHalfEven (q * 100) / 100 := by
  rw [hundredths, if_neg (not_lt.2 h), abs_of_nonneg h]
  rfl

theorem length_padZeros_hundredths (n : ℕ) :
    (padZeros 2 (printNat 10 (n % 100))).length = 2 := by
  have hlen : (printNat 10 (n % 100)).length ≤ 2 :=
    length_printNat_le (by omega) (by omega) (by omega)
  simp only [padZeros, List.length_append, List.length_replicate]
  omega

theorem digitVal_of_mem_hundredths {n : ℕ} {c : UInt8}
    (hc : c ∈ padZeros 2 (printNat 10 (n % 100))) : digitVal c < 10 := by
  rcases List.mem_append.1 hc with h | h
  · rw [List.eq_of_mem_replicate h]
    decide
  · exact digitVal_of_mem_printNat (by omega) (by omega) h

/-- **The text of `%.2f` is a decimal number.** -/
theorem isDecimal_printF2 (q : ℚ) : IsDecimal (printF2 (num q)) (hundredths q) := by
  rw [hundredths, printF2]
  generalize roundHalfEven (|q| * 100) = n
  refine ⟨⟨if q < 0 then some true else none, printNat 10 (n / 100),
    some (padZeros 2 (printNat 10 (n % 100))), none,
    fun c hc => digitVal_of_mem_printNat (by omega) (by omega) hc,
    fun c hc => digitVal_of_mem_hundredths hc, by simp [printNat_ne_nil]⟩, ?_, ?_⟩
  · simp only [Decimal.text, Decimal.unsigned, Decimal.pointText, Decimal.exponentText,
      List.append_nil]
    split
    · rfl
    · rfl
  · simp only [Decimal.value, Decimal.magnitude, Decimal.fracDigits, Decimal.exponentValue,
      Option.getD_some, length_padZeros_hundredths, readNat_padZeros (show 0 < 10 by omega),
      readNat_printNat_self (show 1 < 10 by omega) (show 10 ≤ 36 by omega)]
    have hn : (n : ℚ) = 100 * (n / 100 : ℕ) + (n % 100 : ℕ) := by
      exact_mod_cast (Nat.div_add_mod n 100).symm
    rw [hn]
    congr 1
    norm_num
    ring

/-- What was printed is read. -/
theorem strtof_printF2 (q : ℚ) : strtof (printF2 (num q)) = num (hundredths q) :=
  strtof_of_isDecimal (isDecimal_printF2 q)

/-- **`%.2f` is not far off.** -/
theorem abs_hundredths_sub_le (q : ℚ) : |hundredths q - q| ≤ 1 / 200 := by
  have herr := abs_roundHalfEven_sub_le (x := |q| * 100) (by positivity)
  rw [abs_le] at herr
  rw [hundredths, abs_le]
  by_cases hneg : q < 0
  · rw [if_pos hneg]
    rw [abs_of_neg hneg] at herr ⊢
    simp only [signed, if_true]
    constructor <;> linarith [herr.1, herr.2]
  · rw [if_neg hneg]
    rw [abs_of_nonneg (not_lt.1 hneg)] at herr ⊢
    simp only [signed, reduceCtorEq, if_false]
    constructor <;> linarith [herr.1, herr.2]

theorem hundredths_nonneg {q : ℚ} (h : 0 ≤ q) : 0 ≤ hundredths q := by
  rw [hundredths_of_nonneg h]
  positivity

/-- A bound in whole hundredths is kept. -/
theorem hundredths_le {q : ℚ} {n : ℕ} (h0 : 0 ≤ q) (h : q ≤ n / 100) : hundredths q ≤ n / 100 := by
  have herr := (abs_le.1 (abs_roundHalfEven_sub_le (x := q * 100) (by positivity))).2
  have hlt : (roundHalfEven (q * 100) : ℚ) < n + 1 := by linarith
  have hle : roundHalfEven (q * 100) ≤ n := by
    have : roundHalfEven (q * 100) < n + 1 := by exact_mod_cast hlt
    omega
  rw [hundredths_of_nonneg h0]
  have hcast : (roundHalfEven (q * 100) : ℚ) ≤ n := by exact_mod_cast hle
  linarith

/-- Numbers up to 999 print in at most 6 bytes. -/
theorem length_printF2_le_six {q : ℚ} (h0 : 0 ≤ q) (h : q < 999) :
    (printF2 (num q)).length ≤ 6 := by
  have hround : roundHalfEven (|q| * 100) ≤ 99900 := by
    rw [abs_of_nonneg h0]
    exact roundHalfEven_le (by positivity) (by push_cast; linarith)
  have hwhole : (printNat 10 (roundHalfEven (|q| * 100) / 100)).length ≤ 3 :=
    length_printNat_le (by omega) (by omega) (by omega)
  have hfrac := length_padZeros_hundredths (roundHalfEven (|q| * 100))
  rw [printF2]
  simp only [if_neg (not_lt.2 h0), List.nil_append, List.length_append, List.length_cons, hfrac]
  omega

/-- **What was printed and read prints as the same text.** -/
theorem printF2_hundredths {q : ℚ} (h : 0 ≤ q) :
    printF2 (num (hundredths q)) = printF2 (num q) := by
  have hround : roundHalfEven (|hundredths q| * 100) = roundHalfEven (|q| * 100) := by
    rw [abs_of_nonneg (hundredths_nonneg h), abs_of_nonneg h, hundredths_of_nonneg h,
      div_mul_cancel₀ _ (by norm_num), roundHalfEven_natCast]
  simp only [printF2, hround, if_neg (not_lt.2 (hundredths_nonneg h)), if_neg (not_lt.2 h)]

end ExtRat

end CLib
