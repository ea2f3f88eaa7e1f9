import Mathlib

/-!
# C strings: the `<string.h>` routines, on lists of bytes

A `char` array is a list of bytes; the C string it holds is what stands before
its first NUL (`cstr`).  A `char *` into a string is the rest of the string from
the byte it points at, so the difference of two pointers into one string is the
difference of two lengths.

* `strchr`, `strtok`, `token` — searching and tokenising a terminated string.
  `strtok` overwrites the delimiter it stops at with a NUL, so the token is what
  stands before that delimiter (`token`), while the pointer still leads on into
  the rest of the line.
* `strtokMem` — the first call of `strtok` on an array that need not be
  terminated, where the search can run off its end.
* `strncpyMem`, `strncatByte` — the two routines that write into an array.

The lemmas say what each does on a string cut at a known delimiter, and, for
`strtok`, how an arbitrary string is cut by a call that returned a token.
-/

namespace CLib

/-- The byte of an ASCII character. -/
def ch (c : Char) : UInt8 := UInt8.ofNat c.toNat

/-- The bytes of an ASCII string literal, without its NUL. -/
def ascii (s : String) : List UInt8 := s.toList.map ch

/-- The C string held by an array: the bytes before its first NUL. -/
def cstr (mem : List UInt8) : List UInt8 := mem.takeWhile (· ≠ 0)

/-- `strlen`. -/
def strlen (mem : List UInt8) : ℕ := (cstr mem).length

/-- `strchr(s, c)`: the string from the first `c` on, or `none` for `NULL`. -/
def strchr (s : List UInt8) (c : UInt8) : Option (List UInt8) :=
  match s.dropWhile (· ≠ c) with
  | [] => none
  | p => some p

/-- The token a pointer returned by `strtok` leads to. -/
def token (d : UInt8) (p : List UInt8) : List UInt8 := p.takeWhile (· ≠ d)

/-- One call of `strtok` with the single delimiter `d` on the unread string
`save`: the pointer to the token and the string left for the next call, or
`none` for `NULL`. -/
def strtok (d : UInt8) (save : List UInt8) : Option (List UInt8 × List UInt8) :=
  match save.dropWhile (· = d) with
  | [] => none
  | p => some (p, (p.dropWhile (· ≠ d)).tail)

/-- The tokens that calls of `strtok` return one after another. -/
def tokens (d : UInt8) (s : List UInt8) : List (List UInt8) := (s.splitOn d).filter (· ≠ [])

/-- A byte that does not end a token: neither the delimiter nor a NUL. -/
def inToken (d x : UInt8) : Bool := decide (x ≠ d) && decide (x ≠ 0)

/-- The first call of `strtok` on an array: `none` when the search runs off the
end of the array, `some none` for `NULL`, otherwise the token. -/
def strtokMem (d : UInt8) (mem : List UInt8) : Option (Option (List UInt8)) :=
  match mem.dropWhile (· = d) with
  | [] => none
  | c :: p =>
    if c = 0 then some none
    else if ((c :: p).takeWhile (inToken d)).length < (c :: p).length then
      some (some ((c :: p).takeWhile (inToken d)))
    else none

/-- `strncpy(dst, src, n)` for a terminated `src`: at most `n` bytes are copied
and the rest of the `n` is filled with NULs; nothing past `n` is touched, so a
`src` of `n` bytes or more is left unterminated. -/
def strncpyMem (dst src : List UInt8) (n : ℕ) : List UInt8 :=
  src.take n ++ List.replicate (n - src.length) 0 ++ dst.drop n

/-- `strncat(dst, &c, 1)`: the byte goes where the string in `dst` ends, with a
NUL after it.  A NUL byte is not appended.  A write past the end of the array is
dropped here. -/
def strncatByte (dst : List UInt8) (c : UInt8) : List UInt8 :=
  if c = 0 then dst.set (strlen dst) 0
  else (dst.set (strlen dst) c).set (strlen dst + 1) 0

/-! ## Splitting at a known byte -/

section Split

variable {u v : List UInt8} {c d : UInt8}

/-- A byte that is not in two strings is not in them with another byte in between. -/
theorem not_mem_append_cons (hu : c ∉ u) (hd : c ≠ d) (hv : c ∉ v) : c ∉ u ++ d :: v := by
  rw [List.mem_append, List.mem_cons, not_or, not_or]
  exact ⟨hu, hd, hv⟩

theorem takeWhile_ne_append (h : c ∉ u) : (u ++ c :: v).takeWhile (· ≠ c) = u := by
  rw [List.takeWhile_append_of_pos fun x hx => decide_eq_true (ne_of_mem_of_not_mem hx h),
    List.takeWhile_cons_of_neg (by simp), List.append_nil]

theorem dropWhile_ne_append (h : c ∉ u) : (u ++ c :: v).dropWhile (· ≠ c) = c :: v := by
  rw [List.dropWhile_append_of_pos fun x hx => decide_eq_true (ne_of_mem_of_not_mem hx h),
    List.dropWhile_cons_of_neg (by simp)]

theorem takeWhile_ne_self (h : c ∉ u) : u.takeWhile (· ≠ c) = u :=
  List.takeWhile_eq_self_iff.2 fun _ hx => decide_eq_true (ne_of_mem_of_not_mem hx h)

theorem dropWhile_ne_nil (h : c ∉ u) : u.dropWhile (· ≠ c) = [] :=
  List.dropWhile_eq_nil_iff.2 fun _ hx => decide_eq_true (ne_of_mem_of_not_mem hx h)

/-- A string either has no `c`, or is cut by its first one. -/
theorem mem_split (s : List UInt8) (c : UInt8) :
    c ∉ s ∨ ∃ u v, s = u ++ c :: v ∧ c ∉ u := by
  by_cases h : c ∈ s
  · obtain ⟨u, v, hs, hu⟩ := List.eq_append_cons_of_mem h
    exact Or.inr ⟨u, v, hs, hu⟩
  · exact Or.inl h

theorem strchr_append (h : c ∉ u) : strchr (u ++ c :: v) c = some (c :: v) := by
  simp only [strchr, dropWhile_ne_append h]

theorem strchr_none (h : c ∉ u) : strchr u c = none := by
  simp only [strchr, dropWhile_ne_nil h]

end Split

/-! ## Strings in arrays -/

theorem cstr_of_no_nul {s : List UInt8} (h : (0 : UInt8) ∉ s) : cstr s = s :=
  takeWhile_ne_self h

theorem cstr_append_nul {s t : List UInt8} (h : (0 : UInt8) ∉ s) : cstr (s ++ 0 :: t) = s :=
  takeWhile_ne_append h

theorem cstr_append_zeros {s : List UInt8} (h : (0 : UInt8) ∉ s) (n : ℕ) :
    cstr (s ++ List.replicate n 0) = s := by
  cases n with
  | zero => rw [List.replicate_zero, List.append_nil, cstr_of_no_nul h]
  | succ n => rw [List.replicate_succ, cstr_append_nul h]

/-- Appending a byte to a zero-padded string that leaves room for it and its
NUL. -/
theorem strncatByte_padded {s : List UInt8} {c : UInt8} (hs : (0 : UInt8) ∉ s) (hc : c ≠ 0)
    (n : ℕ) : strncatByte (s ++ List.replicate (n + 2) 0) c =
      s ++ c :: List.replicate (n + 1) 0 := by
  have hlen : strlen (s ++ List.replicate (n + 2) 0) = s.length := by
    rw [strlen, cstr_append_zeros hs]
  rw [strncatByte, if_neg hc, hlen, List.set_append_right _ _ le_rfl,
    List.set_append_right _ _ (Nat.le_succ _)]
  simp [List.replicate_succ]

/-- A NUL byte leaves a zero-padded string alone. -/
theorem strncatByte_nul {s : List UInt8} (hs : (0 : UInt8) ∉ s) (n : ℕ) :
    strncatByte (s ++ List.replicate n 0) 0 = s ++ List.replicate n 0 := by
  have hlen : strlen (s ++ List.replicate n 0) = s.length := by
    rw [strlen, cstr_append_zeros hs]
  simp only [strncatByte, if_pos, hlen]
  rw [List.set_append_right _ _ le_rfl]
  cases n <;> simp [List.replicate_succ]

/-! ## `strtok` on a string cut at a known delimiter -/

section Strtok

variable {d : UInt8} {u rest : List UInt8}

@[simp] theorem strtok_nil : strtok d [] = none := rfl

theorem strtok_delim (s : List UInt8) : strtok d (d :: s) = strtok d s := by
  simp [strtok]

/-- A call that finds something other than delimiters starts its token there. -/
theorem strtok_cons {c : UInt8} (hc : c ≠ d) (s : List UInt8) :
    strtok d (c :: s) = some (c :: s, ((c :: s).dropWhile (· ≠ d)).tail) := by
  simp [strtok, hc]

theorem strtok_field (hu : u ≠ []) (hd : d ∉ u) :
    strtok d (u ++ d :: rest) = some (u ++ d :: rest, rest) := by
  obtain ⟨c, u', rfl⟩ := List.exists_cons_of_ne_nil hu
  have hc : c ≠ d := fun hc => hd (by simp [hc])
  rw [List.cons_append, strtok_cons hc, ← List.cons_append, dropWhile_ne_append hd, List.tail_cons]

theorem strtok_last (hu : u ≠ []) (hd : d ∉ u) : strtok d u = some (u, []) := by
  obtain ⟨c, u', rfl⟩ := List.exists_cons_of_ne_nil hu
  have hc : c ≠ d := fun hc => hd (by simp [hc])
  rw [strtok_cons hc, dropWhile_ne_nil hd, List.tail_nil]

theorem token_field (hd : d ∉ u) : token d (u ++ d :: rest) = u :=
  takeWhile_ne_append hd

theorem token_last (hd : d ∉ u) : token d u = u :=
  takeWhile_ne_self hd

theorem delim_not_mem_token (d : UInt8) (p : List UInt8) : d ∉ token d p := by
  intro h
  simpa using List.mem_takeWhile_imp h

/-- **What a call of `strtok` found.**  The string is some delimiters, then the
token, then either its end or the delimiter the call overwrote. -/
theorem strtok_eq_some {s p save : List UInt8} (h : strtok d s = some (p, save)) :
    ∃ k, s = List.replicate k d ++ p ∧ token d p ≠ [] ∧
      ((p = token d p ∧ save = []) ∨ p = token d p ++ d :: save) := by
  induction s with
  | nil => exact absurd h (by simp)
  | cons c s ih =>
    by_cases hc : c = d
    · subst hc
      rw [strtok_delim] at h
      obtain ⟨k, hs, hrest⟩ := ih h
      exact ⟨k + 1, by rw [hs, List.replicate_succ, List.cons_append], hrest⟩
    · rw [strtok_cons hc] at h
      obtain ⟨rfl, rfl⟩ : c :: s = p ∧ ((c :: s).dropWhile (· ≠ d)).tail = save := by
        simpa using h
      refine ⟨0, by simp, by simp [token, hc], ?_⟩
      rcases mem_split (c :: s) d with hd | ⟨a, b, hab, ha⟩
      · exact Or.inl ⟨(token_last hd).symm, by rw [dropWhile_ne_nil hd, List.tail_nil]⟩
      · refine Or.inr ?_
        rw [hab, token_field ha, dropWhile_ne_append ha, List.tail_cons]

/-- `NULL` means that only delimiters were left. -/
theorem strtok_eq_none {s : List UInt8} (h : strtok d s = none) :
    s = List.replicate s.length d := by
  induction s with
  | nil => rfl
  | cons c s ih =>
    by_cases hc : c = d
    · subst hc
      rw [strtok_delim] at h
      rw [List.length_cons, List.replicate_succ, ← ih h]
    · rw [strtok_cons hc] at h
      exact absurd h (by simp)

/-- The token and the rest are found inside the string. -/
theorem strtok_suffix {s p save : List UInt8} (h : strtok d s = some (p, save)) :
    p <:+ s ∧ save <:+ p := by
  obtain ⟨k, hs, -, hp⟩ := strtok_eq_some h
  refine ⟨⟨_, hs.symm⟩, ?_⟩
  rcases hp with ⟨-, rfl⟩ | hp
  · exact List.nil_suffix
  · exact ⟨token d p ++ [d], by rw [List.append_assoc, List.singleton_append, ← hp]⟩

@[simp] theorem tokens_nil : tokens d [] = [] := by simp [tokens]

theorem tokens_delim (s : List UInt8) : tokens d (d :: s) = tokens d s := by
  have h : (d :: s).splitOn d = [] :: s.splitOn d := by
    have hnil : d ∉ ([] : List UInt8) := List.not_mem_nil
    simpa using List.splitOn_append_cons_self_of_not_mem hnil s
  simp [tokens, h]

theorem tokens_delims (k : ℕ) (s : List UInt8) :
    tokens d (List.replicate k d ++ s) = tokens d s := by
  induction k with
  | zero => simp
  | succ k ih => rw [List.replicate_succ, List.cons_append, tokens_delim, ih]

theorem tokens_field (hu : u ≠ []) (hd : d ∉ u) :
    tokens d (u ++ d :: rest) = u :: tokens d rest := by
  rw [tokens, List.splitOn_append_cons_self_of_not_mem hd,
    List.filter_cons_of_pos (by simpa using hu),
    tokens]

theorem tokens_last (hu : u ≠ []) (hd : d ∉ u) : tokens d u = [u] := by
  rw [tokens, List.splitOn_eq_singleton hd, List.filter_cons_of_pos (by simpa using hu),
    List.filter_nil]

/-- **A call of `strtok` takes the first token**, if there is one. -/
theorem tokens_of_strtok {s p save : List UInt8} (h : strtok d s = some (p, save)) :
    tokens d s = token d p :: tokens d save := by
  obtain ⟨k, rfl, hne, hp⟩ := strtok_eq_some h
  have hd := delim_not_mem_token d p
  rw [tokens_delims]
  rcases hp with ⟨hp, rfl⟩ | hp
  · rw [← hp] at hne hd ⊢
    rw [tokens_last hne hd, tokens_nil]
  · generalize token d p = t at hne hd hp ⊢
    rw [hp, tokens_field hne hd]

theorem tokens_of_strtok_none {s : List UInt8} (h : strtok d s = none) : tokens d s = [] := by
  rw [strtok_eq_none h]
  simpa using tokens_delims s.length []

/-- **A token is a piece of the string**, and has no delimiter. -/
theorem infix_of_mem_tokens : ∀ {s t : List UInt8}, t ∈ tokens d s → t <:+: s ∧ d ∉ t := by
  intro s
  induction hn : s.length using Nat.strong_induction_on generalizing s with
  | _ n ih =>
    intro t ht
    obtain ⟨hmem, -⟩ := List.mem_filter.1 ht
    rcases mem_split s d with hd | ⟨u, v, rfl, hu⟩
    · rw [List.splitOn_eq_singleton hd, List.mem_singleton] at hmem
      rw [hmem]
      exact ⟨List.infix_rfl, hd⟩
    · rw [tokens, List.splitOn_append_cons_self_of_not_mem hu] at ht
      obtain ⟨hmem, hne⟩ := List.mem_filter.1 ht
      rcases List.mem_cons.1 hmem with rfl | hmem
      · exact ⟨⟨[], d :: v, by simp⟩, hu⟩
      · have hlt : v.length < n := by
          rw [← hn, List.length_append, List.length_cons]
          omega
        obtain ⟨hwithin, hd⟩ := ih v.length hlt rfl (List.mem_filter.2 ⟨hmem, hne⟩)
        exact ⟨hwithin.trans ⟨u ++ [d], [], by simp⟩, hd⟩

end Strtok

/-! ## `strtok` on an array -/

section StrtokMem

variable {d c : UInt8} {u rest : List UInt8}

theorem inToken_iff {x : UInt8} : inToken d x = true ↔ x ≠ d ∧ x ≠ 0 := by
  simp [inToken]

/-- A token that is followed by a delimiter or a NUL inside the array is found
whatever stands after it. -/
theorem strtokMem_field (k : ℕ) (hu : u ≠ []) (hd : d ∉ u) (h0 : (0 : UInt8) ∉ u)
    (hc : c = d ∨ c = 0) :
    strtokMem d (List.replicate k d ++ (u ++ c :: rest)) = some (some u) := by
  obtain ⟨a, u', rfl⟩ := List.exists_cons_of_ne_nil hu
  have had : a ≠ d := fun h => hd (by simp [h])
  have ha0 : a ≠ 0 := fun h => h0 (by simp [h])
  have hdrop : (List.replicate k d ++ (a :: u' ++ c :: rest)).dropWhile (· = d)
      = a :: (u' ++ c :: rest) := by
    rw [List.dropWhile_append_of_pos fun x hx => by simpa using (List.eq_of_mem_replicate hx),
      List.cons_append, List.dropWhile_cons_of_neg (by simpa using had)]
  have hin : ∀ x ∈ a :: u', inToken d x = true := fun x hx =>
    inToken_iff.2 ⟨ne_of_mem_of_not_mem hx hd, ne_of_mem_of_not_mem hx h0⟩
  have hout : ¬ inToken d c = true := by
    intro h
    rcases hc with hc | hc
    · exact (inToken_iff.1 h).1 hc
    · exact (inToken_iff.1 h).2 hc
  have htake : (a :: (u' ++ c :: rest)).takeWhile (inToken d) = a :: u' := by
    rw [← List.cons_append, List.takeWhile_append_of_pos hin, List.takeWhile_cons_of_neg hout,
      List.append_nil]
  simp only [strtokMem, hdrop, if_neg ha0, htake]
  rw [if_pos (by simp)]

/-- A run that ends inside a list does not depend on what is appended to it. -/
theorem takeWhile_of_not_all {p : UInt8 → Bool} {s : List UInt8} (h : ¬ ∀ x ∈ s, p x = true) :
    (∀ t, (s ++ t).takeWhile p = s.takeWhile p) ∧ (s.takeWhile p).length < s.length := by
  have hne : (s.takeWhile p).length ≠ s.length := by
    intro heq
    have hself := (List.takeWhile_prefix p).eq_of_length heq
    exact h (List.takeWhile_eq_self_iff.1 hself)
  refine ⟨fun t => ?_, lt_of_le_of_ne (List.takeWhile_prefix p).length_le hne⟩
  rw [List.takeWhile_append, if_neg hne]

/-- A search that finds neither a delimiter nor a NUL behind the first delimiters runs off
the end of the array. -/
theorem strtokMem_eq_none {mem : List UInt8}
    (h : ∀ x ∈ mem.dropWhile (· = d), inToken d x = true) : strtokMem d mem = none := by
  unfold strtokMem
  cases hdrop : mem.dropWhile (· = d) with
  | nil => rfl
  | cons c p =>
    rw [hdrop] at h
    have hc0 := (inToken_iff.1 (h c (by simp))).2
    simp only [if_neg hc0, List.takeWhile_eq_self_iff.2 h, lt_irrefl, if_false]

/-- **A search that ends inside the beginning of an array** does not depend on what is
behind it.  To see that it ends there, let token bytes stand behind it. -/
theorem strtokMem_append {mem fill : List UInt8} (hfill : ∀ x ∈ fill, inToken d x = true)
    (h : strtokMem d (mem ++ fill) ≠ none) (rest : List UInt8) :
    strtokMem d (mem ++ rest) = strtokMem d (mem ++ fill) := by
  by_cases hall : ∀ x ∈ mem.dropWhile (· = d), inToken d x = true
  · -- no end before the fill, and none in it
    apply absurd (strtokMem_eq_none _) h
    intro x hx
    rw [List.dropWhile_append] at hx
    split at hx
    · exact hfill x ((List.dropWhile_suffix _).subset hx)
    · exact (List.mem_append.1 hx).elim (hall x) (hfill x)
  · cases hdrop : mem.dropWhile (· = d) with
    | nil => exact absurd (by simp [hdrop]) hall
    | cons c p =>
      have hne : mem.dropWhile (· = d) ≠ [] := by
        rw [hdrop]
        exact List.cons_ne_nil _ _
      have hpush : ∀ s : List UInt8, (mem ++ s).dropWhile (· = d) = c :: (p ++ s) := by
        intro s
        rw [List.dropWhile_append, if_neg (by simpa using hne), hdrop, List.cons_append]
      simp only [strtokMem, hpush]
      by_cases hc : c = 0
      · rw [if_pos hc, if_pos hc]
      · -- the token ends within `c :: p`
        rw [hdrop] at hall
        obtain ⟨htake, hlt⟩ := takeWhile_of_not_all hall
        have hlen : ∀ s : List UInt8,
            ((c :: p).takeWhile (inToken d)).length < (c :: (p ++ s)).length := by
          intro s
          rw [← List.cons_append, List.length_append]
          omega
        rw [if_neg hc, if_neg hc]
        simp only [← List.cons_append, htake] at hlen ⊢
        rw [if_pos (hlen rest), if_pos (hlen fill)]

end StrtokMem

end CLib
