import Scbs.CLib.Numeral

/-!
# C strings in arrays

The routines of `<string.h>` and `<stdio.h>` that write into an array, where the array and all
that is in it are kept.  A write that does not fit into the array, and a read of a string that
does not end in it, are `none`.

* `Buffer.blit` — the write that all of them come to.
* `Buffer.Holds` — an array of `n` bytes that holds a string.
* `Buffer.snprintf_holds`, `strcat_holds`, `strncat_holds`, `strncpy_holds` — **when a routine
  stays within its arrays, and the string that the array then holds.**
-/

namespace CLib

namespace Buffer

/-- The bytes are written behind the first `off` bytes of an array. -/
def blit (dst : List UInt8) (off : ℕ) (bytes : List UInt8) : Option (List UInt8) :=
  if off + bytes.length ≤ dst.length then
    some (dst.take off ++ (bytes ++ dst.drop (off + bytes.length)))
  else none

/-- The string in an array. -/
def str (mem : List UInt8) : Option (List UInt8) := if 0 ∈ mem then some (cstr mem) else none

/-- `memset(dst, c, n)`. -/
def memset (dst : List UInt8) (c : UInt8) (n : ℕ) : Option (List UInt8) :=
  blit dst 0 (List.replicate n c)

/-- `snprintf(dst, size, …)` of a text. -/
def snprintf (dst : List UInt8) (size : ℕ) (text : List UInt8) : Option (List UInt8) :=
  blit dst 0 (text.take (size - 1) ++ [0])

/-- `strcat(dst, src)`. -/
def strcat (dst src : List UInt8) : Option (List UInt8) := do
  let s ← str dst
  let t ← str src
  blit dst s.length (t ++ [0])

/-- `strncat(dst, src, n)`. -/
def strncat (dst src : List UInt8) (n : ℕ) : Option (List UInt8) := do
  let s ← str dst
  let t ← str src
  blit dst s.length (t.take n ++ [0])

/-- `strncpy(dst, src, n)`: what is left of the `n` bytes is filled with NULs, and a string of
`n` bytes or more is not terminated. -/
def strncpy (dst src : List UInt8) (n : ℕ) : Option (List UInt8) := do
  let t ← str src
  blit dst 0 (t.take n ++ List.replicate (n - t.length) 0)

/-! ## Strings in arrays -/

/-- The array has `n` bytes and holds the string `s`. -/
structure Holds (n : ℕ) (s mem : List UInt8) : Prop where
  length_eq : mem.length = n
  str_eq : str mem = some s

section Holds

variable {mem mem' dst src s t bytes rest : List UInt8} {n m k off : ℕ}

theorem str_append_nul (h : (0 : UInt8) ∉ s) : str (s ++ 0 :: rest) = some s := by
  rw [str, if_pos (by simp), cstr_append_nul h]

theorem exists_rest (h : str mem = some s) : (0 : UInt8) ∉ s ∧ ∃ rest, mem = s ++ 0 :: rest := by
  unfold str at h
  split at h
  · next hnul =>
    obtain ⟨u, rest, rfl, hu⟩ := (mem_split mem 0).resolve_left (not_not.2 hnul)
    rw [cstr_append_nul hu] at h
    obtain rfl := Option.some.inj h
    exact ⟨hu, rest, rfl⟩
  · exact absurd h (by simp)

theorem Holds.nul_not_mem (h : Holds n s mem) : (0 : UInt8) ∉ s := (exists_rest h.str_eq).1

theorem Holds.length_lt (h : Holds n s mem) : s.length < n := by
  obtain ⟨-, rest, rfl⟩ := exists_rest h.str_eq
  rw [← h.length_eq, List.length_append, List.length_cons]
  omega

/-- A write that fits. -/
theorem blit_eq (h : off + bytes.length ≤ dst.length) :
    blit dst off bytes = some (dst.take off ++ (bytes ++ dst.drop (off + bytes.length))) := by
  rw [blit, if_pos h]

theorem length_blit (h : blit dst off bytes = some mem) : mem.length = dst.length := by
  unfold blit at h
  split at h
  · next hfit =>
    rw [← Option.some.inj h, List.length_append, List.length_append, List.length_take,
      List.length_drop]
    omega
  · exact absurd h (by simp)

/-- A string and its NUL, behind the first bytes of an array. -/
theorem blit_holds (hs : (0 : UInt8) ∉ dst.take off) (ht : (0 : UInt8) ∉ t)
    (hlen : dst.length = n) (hfit : off + t.length < n) :
    ∃ mem, blit dst off (t ++ [0]) = some mem ∧ Holds n (dst.take off ++ t) mem := by
  have hblit : blit dst off (t ++ [0]) = _ :=
    blit_eq (by rw [List.length_append, List.length_singleton]; omega)
  refine ⟨_, hblit, (length_blit hblit).trans hlen, ?_⟩
  rw [List.append_assoc t, List.singleton_append, ← List.append_assoc]
  refine str_append_nul ?_
  rw [List.mem_append, not_or]
  exact ⟨hs, ht⟩

/-- **`snprintf` into an array** that is large enough for what is left of the text. -/
theorem snprintf_holds (ht : (0 : UInt8) ∉ t) (hlen : dst.length = n)
    (hfit : (CLib.snprintf m t).length < n) :
    ∃ mem, snprintf dst m t = some mem ∧ Holds n (CLib.snprintf m t) mem := by
  have hall : ∃ mem, blit dst 0 (t.take (m - 1) ++ [0]) = some mem ∧
      Holds n (dst.take 0 ++ t.take (m - 1)) mem :=
    blit_holds (by simp) (fun h => ht (List.mem_of_mem_take h)) hlen (by rwa [Nat.zero_add])
  rw [List.take_zero, List.nil_append] at hall
  exact hall

theorem Holds.blit_holds (h : Holds n s dst) (ht : (0 : UInt8) ∉ t)
    (hfit : s.length + t.length < n) :
    ∃ mem, blit dst s.length (t ++ [0]) = some mem ∧ Holds n (s ++ t) mem := by
  obtain ⟨hs, rest, rfl⟩ := exists_rest h.str_eq
  have hall : ∃ mem, blit (s ++ 0 :: rest) s.length (t ++ [0]) = some mem ∧
      Holds n ((s ++ 0 :: rest).take s.length ++ t) mem :=
    Buffer.blit_holds (by rwa [List.take_left]) ht h.length_eq hfit
  rwa [List.take_left] at hall

/-- **`strcat`** of two strings that fit into the array. -/
theorem strcat_holds (hdst : Holds n s dst) (hsrc : Holds k t src)
    (hfit : s.length + t.length < n) :
    ∃ mem, strcat dst src = some mem ∧ Holds n (s ++ t) mem := by
  simp only [strcat, hdst.str_eq, hsrc.str_eq, Option.bind_eq_bind, Option.bind_some]
  exact hdst.blit_holds hsrc.nul_not_mem hfit

/-- **`strncat`** of a string and the first bytes of another. -/
theorem strncat_holds (hdst : Holds n s dst) (hsrc : Holds k t src)
    (hfit : s.length + (t.take m).length < n) :
    ∃ mem, strncat dst src m = some mem ∧ Holds n (s ++ t.take m) mem := by
  simp only [strncat, hdst.str_eq, hsrc.str_eq, Option.bind_eq_bind, Option.bind_some]
  exact hdst.blit_holds (fun h => hsrc.nul_not_mem (List.mem_of_mem_take h)) hfit

/-- **`strncpy`** into an array that ends in a NUL, or is filled with NULs. -/
theorem strncpy_eq (hsrc : Holds k t src) (hfit : m ≤ dst.length) :
    strncpy dst src m =
      some (t.take m ++ (List.replicate (m - t.length) 0 ++ dst.drop m)) := by
  have hlen : (t.take m ++ List.replicate (m - t.length) (0 : UInt8)).length = m := by
    rw [List.length_append, List.length_take, List.length_replicate]
    omega
  simp only [strncpy, hsrc.str_eq, Option.bind_eq_bind, Option.bind_some]
  rw [blit_eq (by rw [hlen]; omega), hlen]
  simp

/-- A string that is shorter than the bytes that are copied is terminated. -/
theorem strncpy_holds (hsrc : Holds k t src) (hlen : dst.length = n) (hfit : m ≤ n)
    (hshort : t.length < m) : ∃ mem, strncpy dst src m = some mem ∧ Holds n t mem := by
  have heq : strncpy dst src m = _ := strncpy_eq hsrc (hfit.trans_eq hlen.symm)
  refine ⟨_, heq, ?_, ?_⟩
  · rw [List.take_of_length_le hshort.le, List.length_append, List.length_append,
      List.length_replicate, List.length_drop]
    omega
  · obtain ⟨i, hi⟩ : ∃ i, m - t.length = i + 1 := ⟨m - t.length - 1, by omega⟩
    rw [List.take_of_length_le hshort.le, hi, List.replicate_succ, List.cons_append]
    exact str_append_nul hsrc.nul_not_mem

theorem memset_eq (dst : List UInt8) : memset dst 0 dst.length =
    some (List.replicate dst.length 0) := by
  rw [memset, blit_eq (by simp)]
  simp

end Holds

/-! ## Padded strings -/

/-- A string that fits into an array of `n` bytes. -/
structure FitsIn (n : ℕ) (s : List UInt8) : Prop where
  nul_not_mem : (0 : UInt8) ∉ s
  length_lt : s.length < n

/-- The array of `n` bytes that a string and NULs fill. -/
def pad (n : ℕ) (s : List UInt8) : List UInt8 := s ++ List.replicate (n - s.length) 0

section Pad

variable {dst src s t : List UInt8} {n m k : ℕ}

theorem length_pad (h : s.length ≤ n) : (pad n s).length = n := by
  rw [pad, List.length_append, List.length_replicate]
  omega

theorem FitsIn.holds (h : FitsIn n s) : Holds n s (pad n s) := by
  have hlt := h.length_lt
  refine ⟨length_pad hlt.le, ?_⟩
  obtain ⟨i, hi⟩ : ∃ i, n - s.length = i + 1 := ⟨n - s.length - 1, by omega⟩
  rw [pad, hi, List.replicate_succ]
  exact str_append_nul h.nul_not_mem

theorem memset_pad (h : dst.length = n) : memset dst 0 n = some (pad n []) := by
  rw [← h, memset_eq]
  rfl

/-- `strncpy` into an array that is filled with NULs. -/
theorem strncpy_pad (hsrc : Holds k t src) (hfit : m ≤ n) :
    strncpy (pad n []) src m = some (pad n (t.take m)) := by
  rw [strncpy_eq hsrc (by rwa [length_pad (Nat.zero_le n)])]
  simp only [pad, List.nil_append, List.length_nil, Nat.sub_zero, List.drop_replicate,
    List.replicate_append_replicate, List.length_take]
  have hlen : m - t.length + (n - m) = n - min m t.length := by omega
  rw [hlen]

/-- `strncpy` of as many bytes as the array has. -/
theorem strncpy_all (hsrc : Holds k t src) (hdst : dst.length = n) (hlt : t.length < n) :
    strncpy dst src n = some (pad n t) := by
  rw [strncpy_eq hsrc hdst.ge, List.take_of_length_le hlt.le, List.drop_of_length_le hdst.le,
    List.append_nil]
  rfl

end Pad

end Buffer

end CLib
