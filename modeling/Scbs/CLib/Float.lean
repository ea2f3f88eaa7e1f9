import Scbs.CLib.Numeral

/-!
# C floating point

`CFloat F` is the interface of `float` a program uses: literals, arithmetic,
comparison, the conversions to and from integers, `strtof` and `printf("%.2f")`.
A program over `CFloat F` makes no assumption about rounding; two facts about
the text `%.2f` prints are carried by the class, since they hold of every `float`.

`ExtRat` is the interface with exact arithmetic: the rationals with two
infinities and a NaN, C comparison rules, and `strtof` with the full C99 syntax.
-/

namespace CLib

/-- What a program uses of `float`. -/
class CFloat (F : Type) where
  /-- A literal. -/
  lit : ℚ → F
  add : F → F → F
  sub : F → F → F
  mul : F → F → F
  div : F → F → F
  /-- `a < b`, false as soon as one of them is a NaN. -/
  lt : F → F → Bool
  /-- The conversion of an integer. -/
  ofNat : ℕ → F
  /-- `static_cast<uint16_t>`, which C leaves undefined outside the range. -/
  toUInt16 : F → UInt16
  /-- `strtof(s, NULL)`. -/
  strtof : List UInt8 → F
  /-- The text of `%.2f`. -/
  printF2 : F → List UInt8
  printF2_ne_nil : ∀ x, printF2 x ≠ []
  /-- `%.2f` prints a sign, digits, a point, or one of `inf` and `nan`. -/
  printF2_plain : ∀ x, ∀ c ∈ printF2 x, c = ch '-' ∨ c = ch '.' ∨ digitVal c < 36

/-! ## Exact arithmetic -/

/-- A rational, an infinity (with `true` for the negative one) or a NaN. -/
inductive ExtRat where
  | num (q : ℚ)
  | inf (neg : Bool)
  | nan
  deriving DecidableEq

namespace ExtRat

def neg : ExtRat → ExtRat
  | num q => num (-q)
  | inf s => inf (!s)
  | nan => nan

def add : ExtRat → ExtRat → ExtRat
  | num a, num b => num (a + b)
  | inf s, inf t => if s = t then inf s else nan
  | inf s, num _ => inf s
  | num _, inf t => inf t
  | _, _ => nan

def sub (a b : ExtRat) : ExtRat := add a (neg b)

def mul : ExtRat → ExtRat → ExtRat
  | num a, num b => num (a * b)
  | inf s, inf t => inf (s ^^ t)
  | inf s, num b => if b = 0 then nan else inf (s ^^ decide (b < 0))
  | num a, inf t => if a = 0 then nan else inf (decide (a < 0) ^^ t)
  | _, _ => nan

def div : ExtRat → ExtRat → ExtRat
  | num a, num b => if b = 0 then (if a = 0 then nan else inf (decide (a < 0))) else num (a / b)
  | inf s, num b => inf (s ^^ decide (b < 0))
  | num _, inf _ => num 0
  | _, _ => nan

def lt : ExtRat → ExtRat → Bool
  | num a, num b => decide (a < b)
  | inf s, num _ => s
  | num _, inf t => !t
  | inf s, inf t => s && !t
  | _, _ => false

/-- Truncation towards zero; 0 where C leaves the conversion undefined. -/
def toUInt16 : ExtRat → UInt16
  | num q => if q < 65536 then UInt16.ofNat ⌊q⌋.toNat else 0
  | _ => 0

/-- Two comparisons and two assignments are a clamp. -/
theorem clamp_num {lo hi : ℚ} (h : lo ≤ hi) (v : ℚ) :
    (if lt (.num hi) (.num v) then .num hi
      else if lt (.num v) (.num lo) then .num lo else .num v : ExtRat) =
      .num (max lo (min hi v)) := by
  simp only [lt, decide_eq_true_eq]
  by_cases hhigh : hi < v
  · rw [if_pos hhigh, min_eq_left hhigh.le, max_eq_right h]
  · rw [if_neg hhigh, min_eq_right (not_lt.1 hhigh)]
    by_cases hlow : v < lo
    · rw [if_pos hlow, max_eq_left hlow.le]
    · rw [if_neg hlow, max_eq_right (not_lt.1 hlow)]

/-! ### `strtof` -/

/-- `tolower` on ASCII. -/
def lower (c : UInt8) : UInt8 := if 65 ≤ c ∧ c ≤ 90 then c + 32 else c

/-- The optional exponent of a number: the marker, a sign and at least one
digit. -/
def readExponent (marker : UInt8) : List UInt8 → ℤ
  | [] => 0
  | c :: s =>
    if lower c = marker then
      let (neg, t) := readSign s
      if neg then -(readNat 10 t : ℤ) else readNat 10 t
    else 0

/-- Digits with an optional point and an optional exponent; 0 if there is no
digit. -/
def readReal (base : ℕ) (marker : UInt8) (expBase : ℚ) (s : List UInt8) : ℚ :=
  let whole := s.takeWhile (isDigit base)
  let rest := s.dropWhile (isDigit base)
  let afterPoint := if rest.head? = some (ch '.') then rest.tail else []
  let frac := afterPoint.takeWhile (isDigit base)
  let exponentStr :=
    if rest.head? = some (ch '.') then afterPoint.dropWhile (isDigit base) else rest
  if whole ++ frac = [] then 0
  else (readNat base (whole ++ frac) : ℚ) / (base : ℚ) ^ frac.length *
    expBase ^ readExponent marker exponentStr

/-- The magnitude read by `strtof`, decimal or hexadecimal. -/
def readMagnitude (s : List UInt8) : ℚ :=
  if s.take 2 = [ch '0', ch 'x'] ∨ s.take 2 = [ch '0', ch 'X'] then
    readReal 16 (ch 'p') 2 (s.drop 2)
  else readReal 10 (ch 'e') 10 s

/-- `strtof` without rounding.  `INFINITY` starts with `inf` and `NAN(…)` with
`nan`, so three letters decide. -/
def strtof (s : List UInt8) : ExtRat :=
  let (neg, t) := readSign (s.dropWhile isSpace)
  if (t.take 3).map lower = ascii "inf" then inf neg
  else if (t.take 3).map lower = ascii "nan" then nan
  else num (if neg then -readMagnitude t else readMagnitude t)

/-! ### `%.2f` -/

/-- The nearest integer, ties to even. -/
def roundHalfEven (x : ℚ) : ℕ :=
  let n := ⌊x⌋.toNat
  if x - n < 1 / 2 then n else if 1 / 2 < x - n then n + 1 else if n % 2 = 0 then n else n + 1

/-- The text of `%.2f`. -/
def printF2 : ExtRat → List UInt8
  | num q =>
    let n := roundHalfEven (|q| * 100)
    (if q < 0 then [ch '-'] else []) ++
      (printNat 10 (n / 100) ++ ch '.' :: padZeros 2 (printNat 10 (n % 100)))
  | inf neg => if neg then ascii "-inf" else ascii "inf"
  | nan => ascii "nan"

theorem printF2_ne_nil (x : ExtRat) : printF2 x ≠ [] := by
  cases x with
  | num q => simp [printF2]
  | inf neg => cases neg <;> decide
  | nan => decide

theorem digitVal_of_mem_padded {w n : ℕ} {c : UInt8} (hc : c ∈ padZeros w (printNat 10 n)) :
    digitVal c < 36 := by
  rcases List.mem_append.1 hc with h | h
  · rw [List.eq_of_mem_replicate h]; decide
  · exact lt_trans (digitVal_of_mem_printNat (by omega) (by omega) h) (by omega)

theorem printF2_plain (x : ExtRat) :
    ∀ c ∈ printF2 x, c = ch '-' ∨ c = ch '.' ∨ digitVal c < 36 := by
  cases x with
  | num q =>
    intro c hc
    rcases List.mem_append.1 hc with h | h
    · split at h
      · exact Or.inl (List.mem_singleton.1 h)
      · exact absurd h (by simp)
    · rcases List.mem_append.1 h with h | h
      · exact Or.inr (Or.inr
          (lt_trans (digitVal_of_mem_printNat (by omega) (by omega) h) (by omega)))
      · rcases List.mem_cons.1 h with h | h
        · exact Or.inr (Or.inl h)
        · exact Or.inr (Or.inr (digitVal_of_mem_padded h))
  | inf neg => cases neg <;> decide +kernel
  | nan => decide +kernel

theorem roundHalfEven_le {x : ℚ} {n : ℕ} (h0 : 0 ≤ x) (h : x < n) : roundHalfEven x ≤ n := by
  have hfloor : ⌊x⌋.toNat < n := by
    have : ⌊x⌋ < (n : ℤ) := Int.floor_lt.2 (by exact_mod_cast h)
    have : 0 ≤ ⌊x⌋ := Int.floor_nonneg.2 h0
    omega
  simp only [roundHalfEven]
  split
  · omega
  split
  · omega
  split <;> omega

/-- Small numbers print as short texts. -/
theorem length_printF2_le {q : ℚ} (h0 : 0 ≤ q) (h : q < 99) : (printF2 (num q)).length ≤ 6 := by
  have hround : roundHalfEven (|q| * 100) ≤ 9900 := by
    rw [abs_of_nonneg h0]
    exact roundHalfEven_le (by positivity) (by push_cast; linarith)
  have hwhole : (printNat 10 (roundHalfEven (|q| * 100) / 100)).length ≤ 2 :=
    length_printNat_le (by omega) (by omega) (by omega)
  have hfrac : (printNat 10 (roundHalfEven (|q| * 100) % 100)).length ≤ 2 :=
    length_printNat_le (by omega) (by omega) (by omega)
  rw [printF2]
  simp only [if_neg (not_lt.2 h0), List.nil_append, List.length_append, List.length_cons, padZeros,
    List.length_replicate]
  omega

instance : CFloat ExtRat where
  lit := num
  add := add
  sub := sub
  mul := mul
  div := div
  lt := lt
  ofNat n := num n
  toUInt16 := toUInt16
  strtof := strtof
  printF2 := printF2
  printF2_ne_nil := printF2_ne_nil
  printF2_plain := printF2_plain

end ExtRat

end CLib
