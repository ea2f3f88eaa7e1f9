import Mathlib

/-!
# Delimited streams

A stream is a list over any alphabet; a delimiter ends a line.  `Cut d s lines
rest` says that `s` is the given lines, each with its delimiter, and then the
unterminated `rest`.

* `Cut.snoc`, `Cut.snoc_delim`, `Cut.snoc_line`, `Cut.join` — how a cut grows with the
  stream.
* `Cut.unique` — a stream is cut in one way only.
* `exists_cut`, `Cut.splitOn_eq` — there is one, and `List.splitOn` computes it.
* `exists_drained` — a run whose events can always make less of what is left can go on until
  nothing is.
-/

namespace Link

variable {α : Type} {d : α}

/-- Lines with their delimiters, one after another. -/
def unlines (d : α) (lines : List (List α)) : List α := (lines.map (· ++ [d])).flatten

@[simp] theorem unlines_nil : unlines d [] = [] := rfl

@[simp] theorem unlines_cons (l : List α) (ls : List (List α)) :
    unlines d (l :: ls) = l ++ d :: unlines d ls := by
  simp [unlines]

@[simp] theorem unlines_append (ls ms : List (List α)) :
    unlines d (ls ++ ms) = unlines d ls ++ unlines d ms := by
  simp [unlines]

/-- A stream, cut at the delimiter. -/
structure Cut (d : α) (s : List α) (lines : List (List α)) (rest : List α) : Prop where
  eq : s = unlines d lines ++ rest
  lines_free : ∀ l ∈ lines, d ∉ l
  rest_free : d ∉ rest

theorem Cut.nil : Cut d [] [] [] := ⟨rfl, by simp, by simp⟩

section Grow

variable {s u : List α} {lines : List (List α)} {rest : List α}

/-- More of the unterminated line. -/
theorem Cut.snoc (h : Cut d s lines rest) (hu : d ∉ u) : Cut d (s ++ u) lines (rest ++ u) where
  eq := by rw [h.eq, List.append_assoc]
  lines_free := h.lines_free
  rest_free := by
    rw [List.mem_append, not_or]
    exact ⟨h.rest_free, hu⟩

/-- The delimiter that ends the line. -/
theorem Cut.snoc_delim (h : Cut d s lines rest) : Cut d (s ++ [d]) (lines ++ [rest]) [] where
  eq := by rw [h.eq]; simp
  lines_free := by
    intro l hl
    rcases List.mem_append.1 hl with hl | hl
    · exact h.lines_free l hl
    · rw [List.mem_singleton.1 hl]
      exact h.rest_free
  rest_free := by simp

/-- The rest of a line with its delimiter. -/
theorem Cut.snoc_line (h : Cut d s lines rest) (hu : d ∉ u) :
    Cut d (s ++ u ++ [d]) (lines ++ [rest ++ u]) [] :=
  (h.snoc hu).snoc_delim

/-- More of the unterminated line, its delimiter and whole lines after it. -/
theorem Cut.join (h : Cut d s lines rest) {t m q : List α} {ms : List (List α)}
    (h' : Cut d t (m :: ms) q) : Cut d (s ++ t) (lines ++ (rest ++ m) :: ms) q where
  eq := by rw [h.eq, h'.eq]; simp
  lines_free := by
    intro l hl
    rcases List.mem_append.1 hl with hl | hl
    · exact h.lines_free l hl
    · rcases List.mem_cons.1 hl with rfl | hl
      · rw [List.mem_append, not_or]
        exact ⟨h.rest_free, h'.lines_free m (by simp)⟩
      · exact h'.lines_free l (by simp [hl])
  rest_free := h'.rest_free

end Grow

/-- Two ways of cutting off a first line are the same. -/
theorem append_cons_inj {u v s t : List α} (hu : d ∉ u) (hv : d ∉ v)
    (h : u ++ d :: s = v ++ d :: t) : u = v ∧ s = t := by
  induction u generalizing v with
  | nil =>
    cases v with
    | nil => exact ⟨rfl, by simpa using h⟩
    | cons b v => exact absurd (by simp [show d = b by simpa using (List.cons.inj h).1]) hv
  | cons a u ih =>
    cases v with
    | nil => exact absurd (by simp [show a = d by simpa using (List.cons.inj h).1]) hu
    | cons b v =>
      obtain ⟨rfl, htail⟩ := List.cons.inj h
      obtain ⟨rfl, rfl⟩ := ih (fun hd => hu (List.mem_cons_of_mem _ hd))
        (fun hd => hv (List.mem_cons_of_mem _ hd)) htail
      exact ⟨rfl, rfl⟩

/-- **A stream is cut in one way only.** -/
theorem Cut.unique {s : List α} {ls ms : List (List α)} {r q : List α} (h : Cut d s ls r)
    (h' : Cut d s ms q) : ls = ms ∧ r = q := by
  induction ls generalizing s ms with
  | nil =>
    cases ms with
    | nil => exact ⟨rfl, by simpa using h.eq.symm.trans h'.eq⟩
    | cons m ms =>
      have heq : r = m ++ d :: (unlines d ms ++ q) := by simpa using h.eq.symm.trans h'.eq
      exact absurd (by simp [heq]) h.rest_free
  | cons l ls ih =>
    cases ms with
    | nil =>
      have heq : q = l ++ d :: (unlines d ls ++ r) := by simpa using h'.eq.symm.trans h.eq
      exact absurd (by simp [heq]) h'.rest_free
    | cons m ms =>
      have heq : l ++ d :: (unlines d ls ++ r) = m ++ d :: (unlines d ms ++ q) := by
        simpa using h.eq.symm.trans h'.eq
      obtain ⟨rfl, htail⟩ := append_cons_inj (h.lines_free l (by simp)) (h'.lines_free m (by simp))
        heq
      obtain ⟨rfl, rfl⟩ := ih ⟨rfl, fun x hx => h.lines_free x (by simp [hx]), h.rest_free⟩
        ⟨htail, fun x hx => h'.lines_free x (by simp [hx]), h'.rest_free⟩
      exact ⟨rfl, rfl⟩

section Split

variable [DecidableEq α]

/-- The cut of a stream is what `List.splitOn` computes. -/
theorem Cut.splitOn_eq {s : List α} {lines : List (List α)} {rest : List α}
    (h : Cut d s lines rest) : s.splitOn d = lines ++ [rest] := by
  have hcalc : ∀ ls : List (List α), unlines d ls ++ rest = [d].intercalate (ls ++ [rest]) := by
    intro ls
    induction ls with
    | nil => simp
    | cons l ls ih =>
      rw [unlines_cons, List.append_assoc, List.cons_append, ih, List.cons_append]
      cases ls <;> simp [List.intercalate]
  rw [h.eq, hcalc]
  refine List.splitOn_intercalate d ?_ (by simp)
  intro l hl
  rcases List.mem_append.1 hl with hl | hl
  · exact h.lines_free l hl
  · rw [List.mem_singleton.1 hl]
    exact h.rest_free

/-- Every stream is cut somehow. -/
theorem exists_cut (d : α) (s : List α) : ∃ lines rest, Cut d s lines rest := by
  induction s using List.reverseRecOn with
  | nil => exact ⟨[], [], Cut.nil⟩
  | append_singleton s a ih =>
    obtain ⟨lines, rest, h⟩ := ih
    by_cases ha : a = d
    · subst ha
      exact ⟨_, _, h.snoc_delim⟩
    · exact ⟨_, _, h.snoc (u := [a]) (by simpa using Ne.symm ha)⟩

end Split

/-- **A run goes on until nothing is left**, when there is always an event that makes less of
it. -/
theorem exists_drained {ε : Type} (P : List ε → Prop) (left : List ε → ℕ) (ev : ℕ → ε)
    (hstep : ∀ evs, P evs → left evs ≠ 0 →
      ∃ k, P (evs ++ [ev k]) ∧ left (evs ++ [ev k]) < left evs)
    {evs : List ε} (h : P evs) : ∃ more : List ℕ, left (evs ++ more.map ev) = 0 := by
  obtain ⟨n, hn⟩ : ∃ n, left evs ≤ n := ⟨_, le_rfl⟩
  induction n generalizing evs with
  | zero => exact ⟨[], by simpa using hn⟩
  | succ n ih =>
    by_cases hzero : left evs = 0
    · exact ⟨[], by simpa using hzero⟩
    · obtain ⟨k, hk, hlt⟩ := hstep evs h hzero
      obtain ⟨more, hmore⟩ := ih hk (Nat.le_of_lt_succ (lt_of_lt_of_le hlt hn))
      exact ⟨k :: more, by simpa using hmore⟩

end Link
