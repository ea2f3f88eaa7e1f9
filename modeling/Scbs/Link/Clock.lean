import Mathlib

/-!
# Deadlines on a clock that wraps

A clock counts true time modulo `w`.  At true time 0 it shows `t`, and a deadline `L` later
is stored modulo `w` too.  Somebody looks at the clock at certain true times, at most `g`
apart, and takes the deadline for past when the clock shows more.

* `Polled g times` — the true times of the looks.
* `Polled.exists_between` — one of them falls into any `g` units of time that they go past.
* `deadline_noticed_iff` — **no such look-out misses the deadline** by more than `g` exactly
  when the clock does not wrap within `g` of it.
-/

namespace Link

variable {g : ℕ} {times : List ℕ}

/-- The true times of looks at the clock that are at most `g` apart, from time 0 on. -/
def Polled (g : ℕ) (times : List ℕ) : Prop :=
  (0 :: times).IsChain fun a b => a ≤ b ∧ b ≤ a + g

instance (g : ℕ) (times : List ℕ) : Decidable (Polled g times) :=
  inferInstanceAs (Decidable (List.IsChain _ _))

/-- A chain that starts before `L` and goes past it has a member just behind it. -/
theorem exists_between_of_isChain {a L : ℕ}
    (h : (a :: times).IsChain fun a b => a ≤ b ∧ b ≤ a + g) (ha : a ≤ L)
    (hpast : ∃ e ∈ times, L < e) : ∃ e ∈ times, L < e ∧ e ≤ L + g := by
  induction times generalizing a with
  | nil =>
    obtain ⟨e, he, -⟩ := hpast
    exact absurd he (by simp)
  | cons b times ih =>
    obtain ⟨⟨-, hgap⟩, hchain⟩ := List.isChain_cons_cons.1 h
    by_cases hb : L < b
    · exact ⟨b, List.mem_cons_self, hb, by omega⟩
    · have hpast' : ∃ e ∈ times, L < e := by
        obtain ⟨e, he, hlt⟩ := hpast
        rcases List.mem_cons.1 he with rfl | he
        · exact absurd hlt hb
        · exact ⟨e, he, hlt⟩
      obtain ⟨e, he, hbetween⟩ := ih hchain (not_lt.1 hb) hpast'
      exact ⟨e, List.mem_cons_of_mem b he, hbetween⟩

/-- **Looks that go past `L` include one at most `g` behind it.** -/
theorem Polled.exists_between (h : Polled g times) {L : ℕ} (hpast : ∃ e ∈ times, L < e) :
    ∃ e ∈ times, L < e ∧ e ≤ L + g :=
  exists_between_of_isChain h (Nat.zero_le L) hpast

/-- Looks at every time up to `L`, and then only `g` later. -/
def gappedPolls (g L : ℕ) : List ℕ := List.range (L + 1) ++ [L + g, L + g + 1]

theorem polled_gappedPolls (hg : 0 < g) (L : ℕ) : Polled g (gappedPolls g L) := by
  have hrange : (List.range (L + 1)).IsChain fun a b => a ≤ b ∧ b ≤ a + g := by
    rw [List.isChain_range_succ]
    intro m _
    omega
  have hlast : (0 :: List.range (L + 1)).getLast? = some L := by
    rw [List.range_succ, ← List.cons_append, List.getLast?_concat]
  unfold Polled gappedPolls
  rw [← List.cons_append, List.isChain_append]
  refine ⟨?_, List.isChain_pair.2 ⟨by omega, by omega⟩, ?_⟩
  · rw [List.range_succ_eq_map] at hrange ⊢
    exact List.isChain_cons_cons.2 ⟨⟨le_rfl, Nat.zero_le _⟩, hrange⟩
  · intro x hx y hy
    obtain rfl := Option.some.inj (hlast.symm.trans hx)
    obtain rfl := Option.some.inj hy
    exact ⟨Nat.le_add_right _ _, le_rfl⟩

section Deadline

variable {w L t : ℕ}

/-- Before the clock wraps, a deadline that has passed is noticed. -/
theorem lt_of_not_wrapped {e : ℕ} (hlt : L < e) (hle : e ≤ L + g) (hw : (t + L) % w + g < w) :
    (t + L) % w < (t + e) % w := by
  obtain ⟨d, rfl⟩ : ∃ d, e = L + d := ⟨e - L, by omega⟩
  have hsum : (t + (L + d)) % w = (t + L) % w + d := by
    rw [← Nat.add_assoc, Nat.add_mod, Nat.mod_eq_of_lt (show d < w by omega)]
    exact Nat.mod_eq_of_lt (by omega)
  omega

/-- If it wraps within `g` of the deadline, the looks of `gappedPolls` do not notice. -/
theorem le_of_wrapped {e : ℕ} (ht : t < w) (hgL : L + g < w) (hw : w ≤ (t + L) % w + g)
    (he : e ∈ gappedPolls g L) : (t + e) % w ≤ (t + L) % w := by
  -- the deadline itself does not lie behind a wrap
  have hdeadline : (t + L) % w = t + L := by
    by_cases hlt : t + L < w
    · exact Nat.mod_eq_of_lt hlt
    · have hmod : (t + L) % w = t + L - w := by
        rw [Nat.mod_eq_sub_mod (not_lt.1 hlt), Nat.mod_eq_of_lt (by omega)]
      omega
  rw [hdeadline] at hw ⊢
  rcases List.mem_append.1 he with he | he
  · have hle : e ≤ L := Nat.lt_succ_iff.1 (List.mem_range.1 he)
    exact (Nat.mod_le _ _).trans (by omega)
  · have hlater : L + g ≤ e ∧ e ≤ L + g + 1 := by
      simp only [List.mem_cons, List.not_mem_nil, or_false] at he
      omega
    rw [Nat.mod_eq_sub_mod (by omega), Nat.mod_eq_of_lt (by omega)]
    omega

/-- **When a deadline on a wrapping clock is noticed in time**, by every look-out that looks
at most `g` apart. -/
theorem deadline_noticed_iff (ht : t < w) (hg : 0 < g) (hgL : L + g < w) :
    (∀ times, Polled g times → (∃ e ∈ times, L + g < e) →
      ∃ e ∈ times, (t + L) % w < (t + e) % w) ↔ (t + L) % w + g < w := by
  constructor
  · intro h
    by_contra hw
    obtain ⟨e, he, hlt⟩ := h (gappedPolls g L) (polled_gappedPolls hg L)
      ⟨L + g + 1, by simp [gappedPolls], by omega⟩
    exact absurd (le_of_wrapped ht hgL (not_lt.1 hw) he) (not_le.2 hlt)
  · intro hw times htimes hpast
    obtain ⟨late, hlate, hlt⟩ := hpast
    obtain ⟨e, he, hlt, hle⟩ := htimes.exists_between
      ⟨late, hlate, lt_of_le_of_lt (Nat.le_add_right L g) hlt⟩
    exact ⟨e, he, lt_of_not_wrapped hlt hle hw⟩

end Deadline

end Link
