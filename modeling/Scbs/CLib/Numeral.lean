import Scbs.CLib.Bytes

/-!
# C numerals: `%d`, `%X`, `strtol` and `strtoul`

Printing goes through the digits of a number (`printNat`); reading takes the
longest run of digits after optional white space, sign and, in base 16, `0x`.
`long` has 32 bits, as on the device: `strtol` and `strtoul` saturate there.

* `readNat_append_digits` — digits are read one behind another, up to what is not a digit
  (`Stops`).
* `readNat_printNat` — reading undoes printing, whatever follows the numeral, as
  long as it is neither a digit nor a letter (`Ends`).
* `strtoul_digits`, `strtol_digits` — the two library calls on a numeral in range.
* `not_mem_printNat`, `length_printNat_le` — which bytes and how many a numeral
  has.
-/

namespace CLib

/-! ## Printing -/

/-- The character of a digit, upper-case above nine. -/
def digitChar (k : ℕ) : UInt8 :=
  if k < 10 then UInt8.ofNat (48 + k) else UInt8.ofNat (55 + k)

/-- `%d` (base 10) and `%X` (base 16) of a number that is not negative. -/
def printNat (base n : ℕ) : List UInt8 :=
  if n = 0 then [ch '0'] else (Nat.digits base n).reverse.map digitChar

/-- The flags `0` and a width: pad with zeros on the left. -/
def padZeros (width : ℕ) (s : List UInt8) : List UInt8 :=
  List.replicate (width - s.length) (ch '0') ++ s

/-- `snprintf(buf, size, …)`: the text is cut to leave room for the NUL. -/
def snprintf (size : ℕ) (text : List UInt8) : List UInt8 := text.take (size - 1)

/-! ## Reading -/

/-- The value of a digit or letter; 36 for every other character. -/
def digitVal (c : UInt8) : ℕ :=
  if 48 ≤ c ∧ c ≤ 57 then c.toNat - 48
  else if 65 ≤ c ∧ c ≤ 90 then c.toNat - 55
  else if 97 ≤ c ∧ c ≤ 122 then c.toNat - 87
  else 36

/-- A digit of the given base. -/
def isDigit (base : ℕ) (c : UInt8) : Bool := decide (digitVal c < base)

/-- `isspace`. -/
def isSpace (c : UInt8) : Bool := decide (c = 32 ∨ (9 ≤ c ∧ c ≤ 13))

/-- The number written by the digits a string starts with; 0 if there are none. -/
def readNat (base : ℕ) (s : List UInt8) : ℕ :=
  (s.takeWhile (isDigit base)).foldl (fun n c => base * n + digitVal c) 0

/-- An optional sign: is it a minus, and what follows. -/
def readSign : List UInt8 → Bool × List UInt8
  | [] => (false, [])
  | c :: s => if c = ch '-' then (true, s) else if c = ch '+' then (false, s) else (false, c :: s)

/-- The optional `0x` of base 16.  Where no digit follows it the value is that of
the `0` alone, which is 0 as well. -/
def skipHexPrefix : List UInt8 → List UInt8
  | a :: b :: s => if a = ch '0' ∧ (b = ch 'x' ∨ b = ch 'X') then s else a :: b :: s
  | s => s

/-- The sign and the magnitude read by `strtol` and `strtoul`. -/
def readInteger (base : ℕ) (s : List UInt8) : Bool × ℕ :=
  let (neg, t) := readSign (s.dropWhile isSpace)
  (neg, readNat base (if base = 16 then skipHexPrefix t else t))

/-- `strtoul(s, NULL, base)` with a 32-bit `unsigned long`. -/
def strtoul (s : List UInt8) (base : ℕ) : ℕ :=
  let (neg, n) := readInteger base s
  if 2 ^ 32 ≤ n then 2 ^ 32 - 1 else if neg then (2 ^ 32 - n) % 2 ^ 32 else n

/-- `strtol(s, NULL, base)` with a 32-bit `long`. -/
def strtol (s : List UInt8) (base : ℕ) : ℤ :=
  let (neg, n) := readInteger base s
  if neg then max (-(n : ℤ)) (-2 ^ 31) else min (n : ℤ) (2 ^ 31 - 1)

/-! ## Digits -/

theorem digitVal_digitChar {k : ℕ} (h : k < 36) : digitVal (digitChar k) = k := by
  revert k
  decide

/-- What may follow a numeral without being read as part of it. -/
def Ends (rest : List UInt8) : Prop := ∀ c ∈ rest.head?, digitVal c = 36

@[simp] theorem ends_nil : Ends [] := fun c hc => by simp at hc

@[simp] theorem ends_cons {c : UInt8} {s : List UInt8} : Ends (c :: s) ↔ digitVal c = 36 := by
  simp [Ends]

/-- What may follow digits of a base without being read as one of them. -/
def Stops (base : ℕ) (rest : List UInt8) : Prop := ∀ c ∈ rest.head?, base ≤ digitVal c

section Numerals

variable {base n : ℕ}

@[simp] theorem stops_nil : Stops base [] := fun c hc => by simp at hc

@[simp] theorem stops_cons {c : UInt8} {s : List UInt8} :
    Stops base (c :: s) ↔ base ≤ digitVal c := by
  simp [Stops]

theorem Ends.stops {rest : List UInt8} (hr : Ends rest) (hb36 : base ≤ 36) : Stops base rest := by
  intro c hc
  rw [hr c hc]
  exact hb36

theorem printNat_ne_nil (base n : ℕ) : printNat base n ≠ [] := by
  by_cases h : n = 0
  · simp [printNat, h]
  · simpa [printNat, h] using Nat.digits_ne_nil_iff_ne_zero.2 h

/-- The characters of a numeral are the characters of its digits. -/
theorem mem_printNat (hb : 1 < base) {c : UInt8} (hc : c ∈ printNat base n) :
    ∃ k < base, c = digitChar k := by
  unfold printNat at hc
  split at hc
  · exact ⟨0, by omega, by rw [List.mem_singleton.1 hc]; decide⟩
  · simp only [List.mem_map, List.mem_reverse] at hc
    obtain ⟨k, hk, rfl⟩ := hc
    exact ⟨k, Nat.digits_lt_base hb hk, rfl⟩

theorem digitVal_of_mem_printNat (hb : 1 < base) (hb36 : base ≤ 36) {c : UInt8}
    (hc : c ∈ printNat base n) : digitVal c < base := by
  obtain ⟨k, hk, rfl⟩ := mem_printNat hb hc
  rwa [digitVal_digitChar (by omega)]

theorem not_mem_printNat (hb : 1 < base) (hb36 : base ≤ 36) {c : UInt8} (hc : digitVal c = 36) :
    c ∉ printNat base n := by
  intro h
  have := digitVal_of_mem_printNat hb hb36 h
  omega

theorem length_printNat_le (hb : 1 < base) {k : ℕ} (hk : 0 < k) (hn : n < base ^ k) :
    (printNat base n).length ≤ k := by
  unfold printNat
  split
  · exact hk
  · rw [List.length_map, List.length_reverse]
    exact (Nat.digits_length_le_iff hb n).2 hn

/-- Reading the digits of a numeral gives back the number. -/
theorem foldl_printNat (hb : 1 < base) (hb36 : base ≤ 36) :
    (printNat base n).foldl (fun m c => base * m + digitVal c) 0 = n := by
  unfold printNat
  split
  · next h => simp [h, show digitVal (ch '0') = 0 by decide]
  · rw [List.foldl_map, List.foldl_reverse]
    have hdigits : ∀ ds : List ℕ, (∀ d ∈ ds, d < base) →
        ds.foldr (fun d m => base * m + digitVal (digitChar d)) 0 = Nat.ofDigits base ds := by
      intro ds
      induction ds with
      | nil => intro _; simp
      | cons d ds ih =>
        intro h
        rw [List.foldr_cons, ih fun e he => h e (by simp [he]), Nat.ofDigits_cons,
          digitVal_digitChar (by have := h d (by simp); omega), add_comm]
    rw [hdigits _ fun d hd => Nat.digits_lt_base hb hd, Nat.ofDigits_digits]

/-- The digits at the beginning of a text, when something else follows them. -/
theorem takeWhile_isDigit {s rest : List UInt8} (hs : ∀ c ∈ s, digitVal c < base)
    (hr : Stops base rest) : (s ++ rest).takeWhile (isDigit base) = s := by
  have hdig : ∀ c ∈ s, isDigit base c = true := fun c hc => decide_eq_true (hs c hc)
  rw [List.takeWhile_append_of_pos hdig]
  cases rest with
  | nil => simp
  | cons c t =>
    have hc := stops_cons.1 hr
    rw [List.takeWhile_cons_of_neg (by simpa [isDigit] using hc), List.append_nil]

/-- What is behind them. -/
theorem dropWhile_isDigit {s rest : List UInt8} (hs : ∀ c ∈ s, digitVal c < base)
    (hr : Stops base rest) : (s ++ rest).dropWhile (isDigit base) = rest := by
  have hdig : ∀ c ∈ s, isDigit base c = true := fun c hc => decide_eq_true (hs c hc)
  rw [List.dropWhile_append_of_pos hdig]
  cases rest with
  | nil => rfl
  | cons c t =>
    have hc := stops_cons.1 hr
    rw [List.dropWhile_cons_of_neg (by simpa [isDigit] using hc)]

/-- The number that digits write, whatever other text follows. -/
theorem readNat_eq_foldl {s rest : List UInt8} (hs : ∀ c ∈ s, digitVal c < base)
    (hr : Stops base rest) :
    readNat base (s ++ rest) = s.foldl (fun n c => base * n + digitVal c) 0 := by
  rw [readNat, takeWhile_isDigit hs hr]

theorem readNat_self {s : List UInt8} (hs : ∀ c ∈ s, digitVal c < base) :
    readNat base s = s.foldl (fun n c => base * n + digitVal c) 0 := by
  simpa using readNat_eq_foldl hs stops_nil

/-- Whatever non-alphanumeric text follows a numeral is not read. -/
theorem readNat_append {s rest : List UInt8} (hb36 : base ≤ 36) (hs : ∀ c ∈ s, digitVal c < base)
    (hr : Ends rest) : readNat base (s ++ rest) = readNat base s := by
  rw [readNat_eq_foldl hs (hr.stops hb36), readNat_self hs]

/-- Digits read on from a number shift it by their number. -/
theorem foldl_digits (s : List UInt8) (m : ℕ) :
    s.foldl (fun n c => base * n + digitVal c) m =
      m * base ^ s.length + s.foldl (fun n c => base * n + digitVal c) 0 := by
  induction s generalizing m with
  | nil => simp
  | cons c s ih =>
    rw [List.foldl_cons, List.foldl_cons, ih, ih (base * 0 + digitVal c), List.length_cons]
    ring

/-- **Digits behind digits.** -/
theorem readNat_append_digits {s t : List UInt8} (hs : ∀ c ∈ s, digitVal c < base)
    (ht : ∀ c ∈ t, digitVal c < base) :
    readNat base (s ++ t) = readNat base s * base ^ t.length + readNat base t := by
  have hst : ∀ c ∈ s ++ t, digitVal c < base := fun c hc =>
    (List.mem_append.1 hc).elim (hs c) (ht c)
  rw [readNat_self hst, readNat_self hs, readNat_self ht, List.foldl_append, foldl_digits]

/-- A numeral is bounded by its length. -/
theorem readNat_lt_pow {s : List UInt8} (hs : ∀ c ∈ s, digitVal c < base) :
    readNat base s < base ^ s.length := by
  induction s with
  | nil => simp [readNat]
  | cons c s ih =>
    have hc : ∀ x ∈ [c], digitVal x < base := by
      intro x hx
      rw [List.mem_singleton.1 hx]
      exact hs c List.mem_cons_self
    have hs' : ∀ x ∈ s, digitVal x < base := fun x hx => hs x (List.mem_cons_of_mem c hx)
    have hdigit : readNat base [c] + 1 ≤ base := by
      rw [readNat_self hc]
      simpa using hs c List.mem_cons_self
    calc readNat base (c :: s)
        = readNat base [c] * base ^ s.length + readNat base s := readNat_append_digits hc hs'
      _ < readNat base [c] * base ^ s.length + base ^ s.length := Nat.add_lt_add_left (ih hs') _
      _ = (readNat base [c] + 1) * base ^ s.length := by ring
      _ ≤ base * base ^ s.length := Nat.mul_le_mul_right _ hdigit
      _ = base ^ (c :: s).length := by rw [List.length_cons, pow_succ']

/-- **Reading undoes printing**, whatever non-alphanumeric text follows. -/
theorem readNat_printNat (hb : 1 < base) (hb36 : base ≤ 36) {rest : List UInt8}
    (hr : Ends rest) : readNat base (printNat base n ++ rest) = n := by
  rw [readNat_eq_foldl (fun c hc => digitVal_of_mem_printNat hb hb36 hc) (hr.stops hb36),
    foldl_printNat hb hb36]

/-- The same with nothing behind the numeral. -/
theorem readNat_printNat_self (hb : 1 < base) (hb36 : base ≤ 36) :
    readNat base (printNat base n) = n := by
  simpa using readNat_printNat hb hb36 ends_nil

/-- A leading zero changes nothing. -/
theorem readNat_zero_cons (hb : 0 < base) (s : List UInt8) :
    readNat base (ch '0' :: s) = readNat base s := by
  have h0 : digitVal (ch '0') = 0 := by decide
  rw [readNat, List.takeWhile_cons_of_pos (by simp [isDigit, h0, hb]), List.foldl_cons, h0]
  rfl

end Numerals

/-! ## The library calls on printed numerals -/

theorem isSpace_digitVal : ∀ c : UInt8, isSpace c = true → digitVal c = 36 := by
  decide +kernel

/-- A digit or letter starts neither white space nor a sign. -/
theorem readSign_dropWhile {c : UInt8} (hc : digitVal c < 36) (s : List UInt8) :
    readSign ((c :: s).dropWhile isSpace) = (false, c :: s) := by
  have hsp : ¬ isSpace c = true := fun h => by have := isSpace_digitVal c h; omega
  have hminus : c ≠ ch '-' := by rintro rfl; exact absurd hc (by decide)
  have hplus : c ≠ ch '+' := by rintro rfl; exact absurd hc (by decide)
  rw [List.dropWhile_cons_of_neg hsp]
  simp [readSign, hminus, hplus]

/-- Only a zero followed by an `x` is a prefix. -/
theorem skipHexPrefix_of_ne {a : UInt8} {s : List UInt8}
    (h : ∀ c ∈ s.head?, c ≠ ch 'x' ∧ c ≠ ch 'X') : skipHexPrefix (a :: s) = a :: s := by
  cases s with
  | nil => rfl
  | cons b s =>
    have hb := h b (by simp)
    simp [skipHexPrefix, hb.1, hb.2]

theorem ne_x_of_digitVal {c : UInt8} (h : digitVal c < 16 ∨ digitVal c = 36) :
    c ≠ ch 'x' ∧ c ≠ ch 'X' := by
  constructor <;> · rintro rfl; exact absurd h (by decide)

/-- What follows the first digit of a base-16 numeral is not an `x`. -/
theorem head_ne_x {s rest : List UInt8} (hs : ∀ c ∈ s, digitVal c < 16) (hr : Ends rest) :
    ∀ c ∈ (s ++ rest).head?, c ≠ ch 'x' ∧ c ≠ ch 'X' := by
  intro c hc
  cases s with
  | nil => exact ne_x_of_digitVal (Or.inr (hr c hc))
  | cons a s =>
    obtain rfl : a = c := by simpa using hc
    exact ne_x_of_digitVal (Or.inl (hs _ (by simp)))

/-- **A numeral, padded or not, is read digit by digit.** -/
theorem readInteger_digits {base : ℕ} (hb : base = 10 ∨ base = 16) {s rest : List UInt8}
    (hne : s ≠ []) (hs : ∀ c ∈ s, digitVal c < base) (hr : Ends rest) :
    readInteger base (s ++ rest) = (false, readNat base s) := by
  have hb36 : base ≤ 36 := by omega
  rw [← readNat_append hb36 hs hr]
  obtain ⟨a, t, rfl⟩ := List.exists_cons_of_ne_nil hne
  have ha : digitVal a < base := hs a (by simp)
  rw [readInteger, List.cons_append, readSign_dropWhile (by omega)]
  rcases hb with rfl | rfl
  · rfl
  · simp only [if_pos]
    rw [skipHexPrefix_of_ne (head_ne_x (fun c hc => hs c (by simp [hc])) hr)]

theorem readInteger_printNat {base n : ℕ} (hb : base = 10 ∨ base = 16) {rest : List UInt8}
    (hr : Ends rest) : readInteger base (printNat base n ++ rest) = (false, n) := by
  have hb1 : 1 < base := by omega
  have hb36 : base ≤ 36 := by omega
  rw [readInteger_digits hb (printNat_ne_nil base n)
    (fun c hc => digitVal_of_mem_printNat hb1 hb36 hc) hr, readNat_printNat_self hb1 hb36]

/-- `strtoul` on a numeral in range. -/
theorem strtoul_digits {base : ℕ} (hb : base = 10 ∨ base = 16) {s rest : List UInt8}
    (hne : s ≠ []) (hs : ∀ c ∈ s, digitVal c < base) (hr : Ends rest)
    (hlt : readNat base s < 2 ^ 32) : strtoul (s ++ rest) base = readNat base s := by
  rw [strtoul, readInteger_digits hb hne hs hr]
  simp only [if_neg (Nat.not_le.2 hlt), Bool.false_eq_true, if_false]

/-- `strtol` on a numeral in range. -/
theorem strtol_digits {base : ℕ} (hb : base = 10 ∨ base = 16) {s rest : List UInt8}
    (hne : s ≠ []) (hs : ∀ c ∈ s, digitVal c < base) (hr : Ends rest)
    (hlt : readNat base s < 2 ^ 31) : strtol (s ++ rest) base = readNat base s := by
  rw [strtol, readInteger_digits hb hne hs hr]
  simp only [Bool.false_eq_true, if_false]
  omega

/-- `strtoul` undoes `%d` and `%X`. -/
theorem strtoul_printNat {base n : ℕ} (hb : base = 10 ∨ base = 16) (hn : n < 2 ^ 32)
    {rest : List UInt8} (hr : Ends rest) : strtoul (printNat base n ++ rest) base = n := by
  rw [strtoul, readInteger_printNat hb hr]
  simp only [if_neg (Nat.not_le.2 hn), Bool.false_eq_true, if_false]

/-- Leading zeros change nothing. -/
theorem readNat_padZeros {base : ℕ} (hb : 0 < base) (width : ℕ) (s : List UInt8) :
    readNat base (padZeros width s) = readNat base s := by
  rw [padZeros]
  induction width - s.length with
  | zero => rfl
  | succ k ih => rw [List.replicate_succ, List.cons_append, readNat_zero_cons hb, ih]

theorem digitVal_of_mem_padZeros {n : ℕ} {c : UInt8} (hc : c ∈ padZeros 2 (printNat 16 n)) :
    digitVal c < 16 := by
  rcases List.mem_append.1 hc with h | h
  · rw [List.eq_of_mem_replicate h]; decide
  · exact digitVal_of_mem_printNat (by omega) (by omega) h

/-- Two hexadecimal digits for every byte. -/
theorem length_padZeros_byte {n : ℕ} (hn : n < 256) : (padZeros 2 (printNat 16 n)).length = 2 := by
  have hlen : (printNat 16 n).length ≤ 2 :=
    length_printNat_le (by omega) (by omega) (by omega)
  simp only [padZeros, List.length_append, List.length_replicate]
  omega

end CLib
