import Scbs.CLib.Buffer

/-!
# `strtok` in an array

`strtok` overwrites the array that it cuts into tokens, and keeps the index from which on it
goes on.  A search that leaves the array is `none`; a `NULL` is a result without an index.

* `Buffer.Scan`, `Buffer.strtok` — a call of `strtok`.
* `Buffer.Unread` — the string that is still to be cut.
* `Buffer.strtok_result` — **a call on a terminated string** finds what `strtok` finds in the
  string, and leaves the rest of it.
* `Buffer.strtok_first` — **the first call on any array**, which need not be terminated.
-/

namespace CLib

namespace Buffer

/-- The string at an index of an array. -/
def strAt (mem : List UInt8) (i : ℕ) : Option (List UInt8) := str (mem.drop i)

/-- `strchr(mem + i, c)`: an index, or `none` for `NULL`. -/
def strchr (mem : List UInt8) (i : ℕ) (c : UInt8) : Option (Option ℕ) := do
  let s ← strAt mem i
  return (CLib.strchr s c).map fun p => i + (s.length - p.length)

/-- The first index from `i` on whose byte has a property. -/
def seek (p : UInt8 → Bool) (mem : List UInt8) (i : ℕ) : Option ℕ :=
  ((mem.drop i).findIdx? p).map (i + ·)

/-- What `strtok` works on: the array, and the index from which on it goes on. -/
structure Scan where
  mem : List UInt8
  next : ℕ

/-- `strtok` with the single delimiter `d`: the index of the token, or `none` for `NULL`, and
what the next call works on. -/
def strtok (d : UInt8) (scan : Scan) : Option (Option ℕ × Scan) := do
  let start ← seek (fun c => decide (c ≠ d)) scan.mem scan.next
  let c ← scan.mem[start]?
  if c = 0 then return (none, { scan with next := start })
  else
    let stop ← seek (fun c => !inToken d c) scan.mem start
    let c ← scan.mem[stop]?
    if c = 0 then return (some start, { scan with next := stop })
    else
      let mem ← blit scan.mem stop [0]
      return (some start, ⟨mem, stop + 1⟩)

/-- In an array of `n` bytes, the string `s` is still to be cut.  It ends at the index
`total`. -/
structure Unread (n total : ℕ) (s : List UInt8) (scan : Scan) : Prop where
  length_eq : scan.mem.length = n
  next_eq : scan.next + s.length = total
  str_eq : strAt scan.mem scan.next = some s

/-- What a call of `strtok` on a string and one in an array find: both `NULL`, or the same
token with the same rest. -/
inductive Result (n total : ℕ) (d : UInt8) :
    Option (List UInt8 × List UInt8) → Option ℕ × Scan → Prop where
  | null (scan : Scan) : Result n total d none (none, scan)
  | found {p save : List UInt8} {i : ℕ} {scan : Scan} (hindex : i + p.length = total)
      (hstr : strAt scan.mem i = some (token d p)) (hrest : Unread n total save scan) :
      Result n total d (some (p, save)) (some i, scan)

/-- What the first call finds in an array, terminated or not. -/
inductive First : Option (Option (List UInt8)) → Option (Option ℕ × Scan) → Prop where
  | endless : First none none
  | null (scan : Scan) : First (some none) (some (none, scan))
  | found {u : List UInt8} {i : ℕ} {scan : Scan} (hne : u ≠ [])
      (hstr : strAt scan.mem i = some u) : First (some (some u)) (some (some i, scan))

section Scans

variable {p : UInt8 → Bool} {pre u s rest mem : List UInt8} {c d : UInt8} {n total i : ℕ}
  {scan : Scan}

theorem strAt_append (pre rest : List UInt8) (hs : (0 : UInt8) ∉ s) :
    strAt (pre ++ (s ++ 0 :: rest)) pre.length = some s := by
  rw [strAt, List.drop_left, str_append_nul hs]

theorem strAt_succ (h : strAt mem i = some (c :: u)) : strAt mem (i + 1) = some u := by
  obtain ⟨hnul, rest, hrest⟩ := exists_rest h
  have hdrop : mem.drop (i + 1) = u ++ 0 :: rest := by
    rw [← List.drop_drop, hrest, List.cons_append, List.drop_one, List.tail_cons]
  rw [strAt, hdrop, str_append_nul fun hmem => hnul (List.mem_cons_of_mem c hmem)]

/-- **`strchr` in an array** finds what it finds in the string: as far behind the index as the
rest of the string is shorter. -/
theorem strchr_spec (h : strAt mem i = some s) (c : UInt8) :
    ∃ o, strchr mem i c = some o ∧
      Option.Rel (fun (e : List UInt8) (j : ℕ) => (s.length : ℤ) - e.length = j - i)
        (CLib.strchr s c) o := by
  refine ⟨_, by rw [strchr, h]; rfl, ?_⟩
  rcases mem_split s c with hc | ⟨u, v, rfl, hu⟩
  · rw [strchr_none hc]
    exact .none
  · rw [strchr_append hu]
    refine .some ?_
    have hsub : (u ++ c :: v).length - (c :: v).length = u.length := by
      rw [List.length_append, Nat.add_sub_cancel]
    show _ = ((i + ((u ++ c :: v).length - (c :: v).length) : ℕ) : ℤ) - i
    rw [hsub, List.length_append]
    push_cast
    ring

theorem seek_append (pre rest : List UInt8) (hu : ∀ x ∈ u, p x = false) (hc : p c = true) :
    seek p (pre ++ (u ++ c :: rest)) pre.length = some (pre.length + u.length) := by
  have hnone : u.findIdx? p = none := List.findIdx?_eq_none_iff.2 hu
  rw [seek, List.drop_left, List.findIdx?_append, hnone, List.findIdx?_cons, if_pos hc]
  simp

theorem seek_eq_none (h : ∀ x ∈ u, p x = false) : seek p (pre ++ u) pre.length = none := by
  have hnone : u.findIdx? p = none := List.findIdx?_eq_none_iff.2 h
  rw [seek, List.drop_left, hnone, Option.map_none]

theorem getElem?_found (pre u rest : List UInt8) (c : UInt8) :
    (pre ++ (u ++ c :: rest))[pre.length + u.length]? = some c := by
  rw [List.getElem?_append_right (Nat.le_add_right _ _), Nat.add_sub_cancel_left,
    List.getElem?_append_right le_rfl, Nat.sub_self, List.getElem?_cons_zero]

/-- The byte behind the first bytes of an array becomes a NUL. -/
theorem blit_nul (pre rest : List UInt8) (c : UInt8) :
    blit (pre ++ c :: rest) pre.length [0] = some (pre ++ 0 :: rest) := by
  rw [blit_eq (by simp), List.take_left, List.length_singleton, ← List.drop_drop, List.drop_left,
    List.drop_one, List.tail_cons, List.singleton_append]

theorem delims_append (pre u : List UInt8) (d : UInt8) (k : ℕ) :
    pre ++ (List.replicate k d ++ u) = (pre ++ List.replicate k d) ++ u ∧
      (pre ++ List.replicate k d).length = pre.length + k := by
  rw [List.append_assoc, List.length_append, List.length_replicate]
  exact ⟨rfl, rfl⟩

/-- Delimiters up to the end of the string. -/
theorem strtok_null (pre rest : List UInt8) (hd : d ≠ 0) (k : ℕ) :
    strtok d ⟨pre ++ (List.replicate k d ++ 0 :: rest), pre.length⟩ =
      some (none, ⟨pre ++ (List.replicate k d ++ 0 :: rest), pre.length + k⟩) := by
  have hseek : seek (fun c => decide (c ≠ d)) (pre ++ (List.replicate k d ++ 0 :: rest))
      pre.length = some (pre.length + k) := by
    have hall := seek_append (p := fun c => decide (c ≠ d)) (u := List.replicate k d) (c := 0) pre
      rest (fun x hx => by simp [List.eq_of_mem_replicate hx]) (decide_eq_true hd.symm)
    rwa [List.length_replicate] at hall
  have hbyte := getElem?_found pre (List.replicate k d) rest 0
  rw [List.length_replicate] at hbyte
  simp only [strtok, hseek, hbyte, Option.bind_eq_bind, Option.bind_some, if_true]
  rfl

/-- **A token** that ends at a delimiter or at the end of the string. -/
theorem strtok_token (pre rest : List UInt8) (hd : d ≠ 0) (k : ℕ) (hu : u ≠ []) (hdu : d ∉ u)
    (h0 : (0 : UInt8) ∉ u) (hc : c = d ∨ c = 0) :
    strtok d ⟨pre ++ (List.replicate k d ++ (u ++ c :: rest)), pre.length⟩ =
      some (some (pre.length + k), ⟨pre ++ (List.replicate k d ++ (u ++ 0 :: rest)),
        pre.length + k + u.length + if c = 0 then 0 else 1⟩) := by
  obtain ⟨a, u', rfl⟩ := List.exists_cons_of_ne_nil hu
  have had : a ≠ d := fun h => hdu (by simp [h])
  have ha0 : a ≠ 0 := fun h => h0 (by simp [h])
  have hstart := seek_append (p := fun c => decide (c ≠ d)) (u := List.replicate k d) (c := a) pre
    (u' ++ c :: rest) (fun x hx => by simp [List.eq_of_mem_replicate hx]) (decide_eq_true had)
  have hfirst := getElem?_found pre (List.replicate k d) (u' ++ c :: rest) a
  rw [List.length_replicate] at hstart hfirst
  -- the token, and the byte that ends it
  obtain ⟨hassoc, hlen⟩ := delims_append pre (a :: u' ++ c :: rest) d k
  have hstop : seek (fun c => !inToken d c) (pre ++ (List.replicate k d ++ (a :: u' ++ c :: rest)))
      (pre.length + k) = some (pre.length + k + (a :: u').length) := by
    rw [hassoc, ← hlen]
    refine seek_append _ _ (fun x hx => ?_) ?_
    · have hin := inToken_iff.2 ⟨ne_of_mem_of_not_mem hx hdu, ne_of_mem_of_not_mem hx h0⟩
      rw [hin]
      rfl
    · rcases hc with rfl | rfl <;> simp [inToken]
  have hlast : (pre ++ (List.replicate k d ++ (a :: u' ++ c :: rest)))[
      pre.length + k + (a :: u').length]? = some c := by
    rw [hassoc, ← hlen]
    exact getElem?_found _ _ _ _
  simp only [List.cons_append] at hstart hfirst hstop hlast ⊢
  simp only [strtok, hstart, hfirst, hstop, hlast, Option.bind_eq_bind, Option.bind_some,
    if_neg ha0]
  by_cases hc0 : c = 0
  · subst hc0
    rw [if_pos rfl, if_pos rfl]
    rfl
  · have hblit : blit (pre ++ (List.replicate k d ++ a :: (u' ++ c :: rest)))
        (pre.length + k + (a :: u').length) [0] =
          some (pre ++ (List.replicate k d ++ a :: (u' ++ 0 :: rest))) := by
      have hnul := blit_nul (pre ++ List.replicate k d ++ a :: u') rest c
      rw [List.length_append, hlen] at hnul
      simpa only [List.append_assoc, List.cons_append] using hnul
    rw [if_neg hc0, if_neg hc0, hblit]
    rfl

/-- The string behind a token and its delimiters. -/
theorem strAt_behind (pre u tail : List UInt8) (d : UInt8) (k j : ℕ) :
    strAt (pre ++ (List.replicate k d ++ (u ++ tail))) (pre.length + k + u.length + j) =
      str (tail.drop j) := by
  rw [strAt, ← List.drop_drop, ← List.drop_drop, ← List.drop_drop, List.drop_left,
    List.drop_left' List.length_replicate, List.drop_left]

/-- An array from an index on at which a string begins. -/
theorem exists_split (h : strAt mem i = some s) :
    (0 : UInt8) ∉ s ∧ ∃ pre rest, mem = pre ++ (s ++ 0 :: rest) ∧ pre.length = i := by
  obtain ⟨hs, rest, hrest⟩ := exists_rest h
  refine ⟨hs, mem.take i, rest, ?_, ?_⟩
  · rw [← hrest, List.take_append_drop]
  · have hlen := congrArg List.length hrest
    rw [List.length_drop, List.length_append, List.length_cons] at hlen
    rw [List.length_take]
    omega

section Found

variable {save tok : List UInt8} (h : Result n total d (some (tok, save)) (some i, scan))

include h

theorem Result.str_eq : strAt scan.mem i = some (token d tok) := by
  cases h with
  | found hindex hstr hrest => exact hstr

theorem Result.unread : Unread n total save scan := by
  cases h with
  | found hindex hstr hrest => exact hrest

end Found

/-- **A call on a terminated string.** -/
theorem strtok_result (hd : d ≠ 0) (h : Unread n total s scan) :
    ∃ r, strtok d scan = some r ∧ Result n total d (CLib.strtok d s) r := by
  obtain ⟨mem, next⟩ := scan
  obtain ⟨hs, pre, rest, rfl, rfl⟩ := exists_split h.str_eq
  have hlen : (pre ++ (s ++ 0 :: rest)).length = n := h.length_eq
  have hnext : pre.length + s.length = total := h.next_eq
  cases hstrtok : CLib.strtok d s with
  | none =>
    rw [strtok_eq_none hstrtok]
    exact ⟨_, strtok_null pre rest hd s.length, .null _⟩
  | some r =>
    obtain ⟨p, save⟩ := r
    obtain ⟨k, rfl, hne, hp⟩ := strtok_eq_some hstrtok
    have hdu := delim_not_mem_token d p
    have h0 : (0 : UInt8) ∉ token d p := fun hmem =>
      hs (List.mem_append_right _ ((List.takeWhile_prefix _).subset hmem))
    rw [List.append_assoc] at hlen ⊢
    rw [List.length_append, List.length_replicate] at hnext
    have hstr : ∀ tail, strAt (pre ++ (List.replicate k d ++ (token d p ++ 0 :: tail)))
        (pre.length + k) = some (token d p) := by
      intro tail
      obtain ⟨hassoc, hindex⟩ := delims_append pre (token d p ++ 0 :: tail) d k
      rw [hassoc, ← hindex]
      exact strAt_append _ _ h0
    generalize htoken : token d p = u at hne hdu h0 hp hstr
    rcases hp with ⟨rfl, rfl⟩ | rfl
    · -- the token goes on to the end of the string
      refine ⟨_, strtok_token pre _ hd k hne hdu h0 (.inr rfl), .found (by omega) ?_ ⟨hlen, ?_, ?_⟩⟩
      · rw [htoken]
        exact hstr rest
      · rw [if_pos rfl]
        show pre.length + k + p.length + 0 + 0 = total
        omega
      · rw [if_pos rfl, strAt_behind]
        rfl
    · have hsave : (0 : UInt8) ∉ save := fun hmem => hs (by simp [hmem])
      rw [List.append_assoc, List.cons_append] at hlen ⊢
      rw [List.length_append, List.length_cons] at hnext
      refine ⟨_, strtok_token pre _ hd k hne hdu h0 (.inl rfl),
        .found (by rw [List.length_append, List.length_cons]; omega) ?_ ⟨?_, ?_, ?_⟩⟩
      · rw [htoken]
        exact hstr (save ++ 0 :: rest)
      · simpa using hlen
      · rw [if_neg hd]
        show pre.length + k + u.length + 1 + save.length = total
        omega
      · rw [if_neg hd, strAt_behind, List.drop_one, List.tail_cons, str_append_nul hsave]

/-- A list is cut by its first element without a property, if there is one. -/
theorem split_while (p : UInt8 → Bool) (s : List UInt8) :
    (∀ x ∈ s, p x = true) ∨
      ∃ u c v, s = u ++ c :: v ∧ (∀ x ∈ u, p x = true) ∧ p c = false := by
  induction s with
  | nil => exact Or.inl (by simp)
  | cons a s ih =>
    by_cases ha : p a = true
    · rcases ih with hall | ⟨u, c, v, rfl, hu, hc⟩
      · exact Or.inl (by simpa [ha] using hall)
      · exact Or.inr ⟨a :: u, c, v, rfl, by simpa [ha] using hu, hc⟩
    · exact Or.inr ⟨[], a, s, rfl, by simp, by simpa using ha⟩

/-- A token that does not end in the array. -/
theorem strtok_endless (k : ℕ) (hu : ∀ x ∈ u, inToken d x = true) :
    strtok d ⟨List.replicate k d ++ u, 0⟩ = none := by
  cases u with
  | nil =>
    have hnone : seek (fun c => decide (c ≠ d)) ([] ++ (List.replicate k d ++ [])) 0 = none :=
      seek_eq_none fun x hx => by
        rw [List.append_nil] at hx
        simp [List.eq_of_mem_replicate hx]
    rw [List.nil_append] at hnone
    rw [strtok, hnone]
    rfl
  | cons a u =>
    obtain ⟨had, ha0⟩ := inToken_iff.1 (hu a List.mem_cons_self)
    have hstart := seek_append (p := fun c => decide (c ≠ d)) (u := List.replicate k d) (c := a) []
      u (fun x hx => by simp [List.eq_of_mem_replicate hx]) (decide_eq_true had)
    have hfirst := getElem?_found [] (List.replicate k d) u a
    have hnone : seek (fun c => !inToken d c) (List.replicate k d ++ a :: u)
        (List.replicate k d).length = none :=
      seek_eq_none fun x hx => by rw [hu x hx]; rfl
    simp only [List.nil_append, List.length_nil, Nat.zero_add] at hstart hfirst
    simp only [strtok, hstart, hfirst, hnone, Option.bind_eq_bind, Option.bind_some, if_neg ha0]
    rfl

/-- **The first call on any array.** -/
theorem strtok_first (hd : d ≠ 0) (mem : List UInt8) :
    First (strtokMem d mem) (strtok d ⟨mem, 0⟩) := by
  -- the array begins with some delimiters
  obtain ⟨k, m, rfl, hm⟩ : ∃ k m, mem = List.replicate k d ++ m ∧ m.dropWhile (· = d) = m := by
    rcases split_while (fun c => decide (c = d)) mem with hall | ⟨u, c, v, rfl, hu, hc⟩
    · refine ⟨mem.length, [], ?_, rfl⟩
      rw [List.append_nil]
      exact List.eq_replicate_of_mem fun x hx => of_decide_eq_true (hall x hx)
    · refine ⟨u.length, c :: v, ?_, List.dropWhile_cons_of_neg (by simpa using hc)⟩
      rw [← List.eq_replicate_of_mem fun x hx => of_decide_eq_true (hu x hx)]
  have hdrop : (List.replicate k d ++ m).dropWhile (· = d) = m := by
    rwa [List.dropWhile_append_of_pos fun x hx => decide_eq_true (List.eq_of_mem_replicate hx)]
  rcases split_while (inToken d) m with hall | ⟨u, c, v, rfl, hu, hc⟩
  · rw [strtokMem_eq_none (by rwa [hdrop]), strtok_endless k hall]
    exact .endless
  · have hend : c = d ∨ c = 0 := by
      by_contra hne
      rw [not_or] at hne
      exact absurd (inToken_iff.2 hne) (by simp [hc])
    cases u with
    | nil =>
      have hc0 : c = 0 := by
        refine hend.resolve_left fun hcd => ?_
        rw [hcd, List.nil_append, List.dropWhile_cons_of_pos (by simp)] at hm
        exact absurd (congrArg List.length hm) (by
          have hle := (List.dropWhile_suffix (l := v) (fun c => decide (c = d))).length_le
          rw [List.length_cons]
          omega)
      subst hc0
      have hnull : strtok d ⟨List.replicate k d ++ 0 :: v, 0⟩ = some (none, _) :=
        strtok_null [] v hd k
      simp only [List.nil_append] at hdrop ⊢
      simp only [strtokMem, hdrop, if_true, hnull]
      exact .null _
    | cons a u =>
      have hdu : d ∉ a :: u := fun hmem => (inToken_iff.1 (hu d hmem)).1 rfl
      have h0 : (0 : UInt8) ∉ a :: u := fun hmem => (inToken_iff.1 (hu 0 hmem)).2 rfl
      have htoken := strtok_token [] v hd k (List.cons_ne_nil a u) hdu h0 hend
      simp only [List.nil_append, List.length_nil, Nat.zero_add] at htoken
      rw [strtokMem_field k (List.cons_ne_nil a u) hdu h0 hend, htoken]
      refine .found (List.cons_ne_nil a u) ?_
      have hstr := strAt_append (List.replicate k d) v h0
      rwa [List.length_replicate] at hstr

end Scans

end Buffer

end CLib
