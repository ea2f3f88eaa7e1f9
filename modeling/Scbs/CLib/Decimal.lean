import Scbs.CLib.Float

/-!
# Decimal numbers, and that `strtof` reads them

The decimal syntax of C: an optional sign, digits with an optional point, an optional
exponent.  A `Decimal` is a text of this syntax cut into its parts; what it stands for
(`value`) is said without any reading.

* `Decimal.readReal_unsigned` — the digits, the point and the exponent.
* `Decimal.strtof_text` — **`strtof` reads a decimal number as what it stands for.**
* `not_isDecimal_of_head` — a text that starts with anything else is not a decimal number.
-/

namespace CLib

/-! ## The syntax -/

/-- An optional sign, `true` for a minus. -/
def signText : Option Bool → List UInt8
  | none => []
  | some true => [ch '-']
  | some false => [ch '+']

/-- A number with an optional sign. -/
def signed {α : Type} [Neg α] (sign : Option Bool) (x : α) : α := if sign = some true then -x else x

/-- An exponent: the letter, an optional sign, and digits. -/
structure DecimalExponent where
  upper : Bool
  sign : Option Bool
  digits : List UInt8
  digits_ne_nil : digits ≠ []
  digits_lt : ∀ c ∈ digits, digitVal c < 10

namespace DecimalExponent

def text (e : DecimalExponent) : List UInt8 :=
  (if e.upper then ch 'E' else ch 'e') :: (signText e.sign ++ e.digits)

def value (e : DecimalExponent) : ℤ := signed e.sign (readNat 10 e.digits : ℤ)

end DecimalExponent

/-- A decimal number: an optional sign, digits, optionally a point and digits behind it, and
an optional exponent.  There is a digit before or behind the point. -/
structure Decimal where
  sign : Option Bool
  whole : List UInt8
  frac : Option (List UInt8)
  exponent : Option DecimalExponent
  whole_lt : ∀ c ∈ whole, digitVal c < 10
  frac_lt : ∀ c ∈ frac.getD [], digitVal c < 10
  digits_ne_nil : whole ++ frac.getD [] ≠ []

namespace Decimal

variable (d : Decimal)

/-- The digits behind the point. -/
def fracDigits : List UInt8 := d.frac.getD []

def pointText : List UInt8 :=
  match d.frac with
  | none => []
  | some digits => ch '.' :: digits

def exponentText : List UInt8 :=
  match d.exponent with
  | none => []
  | some e => e.text

def exponentValue : ℤ :=
  match d.exponent with
  | none => 0
  | some e => e.value

/-- The text without its sign. -/
def unsigned : List UInt8 := d.whole ++ (d.pointText ++ d.exponentText)

/-- The text. -/
def text : List UInt8 := signText d.sign ++ d.unsigned

/-- The number without its sign. -/
def magnitude : ℚ :=
  (readNat 10 d.whole + readNat 10 d.fracDigits / 10 ^ d.fracDigits.length) * 10 ^ d.exponentValue

/-- The number that the text stands for. -/
def value : ℚ := signed d.sign d.magnitude

section Read

theorem fracDigits_lt : ∀ c ∈ d.fracDigits, digitVal c < 10 := d.frac_lt

/-- The sign is read. -/
theorem readSign_signText (sign : Option Bool) {c : UInt8} {s : List UInt8}
    (hminus : c ≠ ch '-') (hplus : c ≠ ch '+') :
    readSign (signText sign ++ c :: s) = (decide (sign = some true), c :: s) := by
  rcases sign with - | - | -
  · simp [signText, readSign, hminus, hplus]
  · rfl
  · rfl

/-- The first byte of a number behind its sign is a digit or the point. -/
theorem head_unsigned : ∃ c s, d.unsigned = c :: s ∧ (digitVal c < 10 ∨ c = ch '.') := by
  have hne := d.digits_ne_nil
  unfold unsigned pointText
  cases hwhole : d.whole with
  | cons c s => exact ⟨c, _, rfl, Or.inl (d.whole_lt c (by rw [hwhole]; simp))⟩
  | nil =>
    cases hfrac : d.frac with
    | some digits => exact ⟨ch '.', _, rfl, Or.inr rfl⟩
    | none =>
      rw [hwhole, hfrac] at hne
      exact absurd rfl hne

theorem pointText_none (h : d.frac = none) : d.pointText = [] ∧ d.fracDigits = [] := by
  simp [pointText, fracDigits, h]

theorem pointText_some {digits : List UInt8} (h : d.frac = some digits) :
    d.pointText = ch '.' :: digits ∧ d.fracDigits = digits := by
  simp [pointText, fracDigits, h]

theorem digitVal_ne_of_lt {c : UInt8} (h : digitVal c < 10) : digitVal c ≠ 33 := by omega

theorem digitVal_ne_of_mem_signText (sign : Option Bool) :
    ∀ c ∈ signText sign, digitVal c ≠ 33 := by
  intro c hc
  rcases sign with - | - | -
  · exact absurd hc List.not_mem_nil
  · rw [List.mem_singleton.1 hc]
    decide
  · rw [List.mem_singleton.1 hc]
    decide

theorem digitVal_ne_of_mem_exponent (e : DecimalExponent) : ∀ c ∈ e.text, digitVal c ≠ 33 := by
  intro c hc
  rcases List.mem_cons.1 hc with rfl | hc
  · cases e.upper <;> decide
  rcases List.mem_append.1 hc with hc | hc
  · exact digitVal_ne_of_mem_signText e.sign c hc
  · exact digitVal_ne_of_lt (e.digits_lt c hc)

/-- No byte of a number is an `x`, which is a digit in a larger base. -/
theorem digitVal_ne_of_mem_unsigned : ∀ c ∈ d.unsigned, digitVal c ≠ 33 := by
  intro c hc
  rcases List.mem_append.1 hc with hc | hc
  · exact digitVal_ne_of_lt (d.whole_lt c hc)
  rcases List.mem_append.1 hc with hc | hc
  · cases hfrac : d.frac with
    | none =>
      rw [(d.pointText_none hfrac).1] at hc
      exact absurd hc List.not_mem_nil
    | some digits =>
      have hlt := d.fracDigits_lt
      rw [(d.pointText_some hfrac).1] at hc
      rw [(d.pointText_some hfrac).2] at hlt
      rcases List.mem_cons.1 hc with rfl | hc
      · decide
      · exact digitVal_ne_of_lt (hlt c hc)
  · cases hexp : d.exponent with
    | none =>
      rw [exponentText, hexp] at hc
      exact absurd hc List.not_mem_nil
    | some e =>
      rw [exponentText, hexp] at hc
      exact digitVal_ne_of_mem_exponent e c hc

/-- The exponent is read. -/
theorem readExponent_exponentText :
    ExtRat.readExponent (ch 'e') d.exponentText = d.exponentValue := by
  unfold exponentText exponentValue
  cases d.exponent with
  | none => rfl
  | some e =>
    obtain ⟨c, t, hdigits⟩ := List.exists_cons_of_ne_nil e.digits_ne_nil
    have hc : digitVal c < 10 := e.digits_lt c (by rw [hdigits]; exact List.mem_cons_self)
    have hminus : c ≠ ch '-' := by rintro rfl; exact absurd hc (by decide)
    have hplus : c ≠ ch '+' := by rintro rfl; exact absurd hc (by decide)
    have hletter : ExtRat.lower (if e.upper then ch 'E' else ch 'e') = ch 'e' := by
      cases e.upper <;> decide
    simp only [DecimalExponent.text, ExtRat.readExponent, if_pos hletter, hdigits,
      readSign_signText e.sign hminus hplus, decide_eq_true_eq, DecimalExponent.value, signed]

theorem stops_exponentText : Stops 10 d.exponentText ∧ d.exponentText.head? ≠ some (ch '.') := by
  unfold exponentText
  cases d.exponent with
  | none => exact ⟨stops_nil, by simp⟩
  | some e =>
    simp only [DecimalExponent.text, stops_cons, List.head?_cons, ne_eq, Option.some.injEq]
    cases e.upper <;> decide

theorem stops_point : Stops 10 (d.pointText ++ d.exponentText) := by
  cases hfrac : d.frac with
  | none =>
    rw [(d.pointText_none hfrac).1]
    exact d.stops_exponentText.1
  | some digits =>
    rw [(d.pointText_some hfrac).1, List.cons_append, stops_cons]
    decide

/-- **The digits, the point and the exponent are read.** -/
theorem readReal_unsigned : ExtRat.readReal 10 (ch 'e') 10 d.unsigned = d.magnitude := by
  have hwhole : d.unsigned.takeWhile (isDigit 10) = d.whole :=
    takeWhile_isDigit d.whole_lt d.stops_point
  have hrest : d.unsigned.dropWhile (isDigit 10) = d.pointText ++ d.exponentText :=
    dropWhile_isDigit d.whole_lt d.stops_point
  have hne : d.whole ++ d.fracDigits ≠ [] := d.digits_ne_nil
  have hvalue : (readNat 10 (d.whole ++ d.fracDigits) : ℚ) / (10 : ℕ) ^ d.fracDigits.length *
      10 ^ d.exponentValue = d.magnitude := by
    rw [readNat_append_digits d.whole_lt d.fracDigits_lt, magnitude]
    push_cast
    rw [add_div, mul_div_cancel_right₀ _ (by positivity)]
  unfold ExtRat.readReal
  simp only [hwhole, hrest]
  cases hfrac : d.frac with
  | none =>
    obtain ⟨hpoint, hdigits⟩ := d.pointText_none hfrac
    rw [hdigits] at hne hvalue
    simp only [hpoint, List.nil_append, if_neg d.stops_exponentText.2, List.takeWhile_nil,
      if_neg hne, d.readExponent_exponentText]
    exact hvalue
  | some digits =>
    obtain ⟨hpoint, hdigits⟩ := d.pointText_some hfrac
    have hlt := d.fracDigits_lt
    rw [hdigits] at hne hvalue hlt
    simp only [hpoint, List.cons_append, List.head?_cons, if_pos, List.tail_cons,
      takeWhile_isDigit hlt d.stops_exponentText.1, dropWhile_isDigit hlt d.stops_exponentText.1,
      if_neg hne, d.readExponent_exponentText]
    exact hvalue

/-- A byte that starts a number without its sign starts neither white space nor a sign, nor
the name of an infinity or a NaN. -/
theorem plain_of_head {c : UInt8} (h : digitVal c < 10 ∨ c = ch '.') :
    ¬ isSpace c = true ∧ c ≠ ch '-' ∧ c ≠ ch '+' ∧ ExtRat.lower c ≠ ch 'i' ∧
      ExtRat.lower c ≠ ch 'n' := by
  revert c
  decide +kernel

/-- **`strtof` reads a decimal number as what it stands for.** -/
theorem strtof_text : ExtRat.strtof d.text = .num d.value := by
  obtain ⟨c, s, hcs, hc⟩ := d.head_unsigned
  obtain ⟨hspace, hminus, hplus, hinf, hnan⟩ := plain_of_head hc
  have hdrop : d.text.dropWhile isSpace = signText d.sign ++ c :: s := by
    rw [text, hcs]
    rcases d.sign with - | - | -
    · exact List.dropWhile_cons_of_neg hspace
    · rfl
    · rfl
  have hhex : ¬ (d.unsigned.take 2 = [ch '0', ch 'x'] ∨ d.unsigned.take 2 = [ch '0', ch 'X']) := by
    rintro (hx | hx)
    · exact d.digitVal_ne_of_mem_unsigned (ch 'x')
        (List.mem_of_mem_take (by rw [hx]; simp)) (by decide)
    · exact d.digitVal_ne_of_mem_unsigned (ch 'X')
        (List.mem_of_mem_take (by rw [hx]; simp)) (by decide)
  have hmag : ExtRat.readMagnitude (c :: s) = d.magnitude := by
    rw [← hcs, ExtRat.readMagnitude, if_neg hhex, readReal_unsigned]
  have hname : ∀ x y z : UInt8, ExtRat.lower c ≠ x →
      ((c :: s).take 3).map ExtRat.lower ≠ [x, y, z] := by
    intro x y z hx h
    simp only [List.take_succ_cons, List.map_cons, List.cons.injEq] at h
    exact hx h.1
  have hnotInf : ((c :: s).take 3).map ExtRat.lower ≠ ascii "inf" :=
    hname _ (ch 'n') (ch 'f') hinf
  have hnotNan : ((c :: s).take 3).map ExtRat.lower ≠ ascii "nan" :=
    hname _ (ch 'a') (ch 'n') hnan
  unfold ExtRat.strtof
  simp only [hdrop, readSign_signText d.sign hminus hplus, hmag, if_neg hnotInf, if_neg hnotNan,
    decide_eq_true_eq]
  rfl

end Read

end Decimal

/-- The text is that of a decimal number, and stands for `q`. -/
def IsDecimal (s : List UInt8) (q : ℚ) : Prop := ∃ d : Decimal, d.text = s ∧ d.value = q

theorem strtof_of_isDecimal {s : List UInt8} {q : ℚ} (h : IsDecimal s q) :
    ExtRat.strtof s = .num q := by
  obtain ⟨d, rfl, rfl⟩ := h
  exact d.strtof_text

/-- A text that starts with neither a digit, a point nor a sign is not a decimal number. -/
theorem not_isDecimal_of_head {c : UInt8} {s : List UInt8} (hdigit : 10 ≤ digitVal c)
    (hplain : c ≠ ch '.' ∧ c ≠ ch '-' ∧ c ≠ ch '+') (q : ℚ) : ¬ IsDecimal (c :: s) q := by
  rintro ⟨d, htext, -⟩
  obtain ⟨x, t, hxt, hx⟩ := d.head_unsigned
  rw [Decimal.text, hxt] at htext
  generalize d.sign = sign at htext
  rcases sign with - | - | -
  · obtain ⟨rfl, -⟩ := List.cons.inj htext
    rcases hx with hx | hx
    · omega
    · exact hplain.1 hx
  · obtain ⟨rfl, -⟩ := List.cons.inj htext
    exact hplain.2.2 rfl
  · obtain ⟨rfl, -⟩ := List.cons.inj htext
    exact hplain.2.1 rfl

end CLib
