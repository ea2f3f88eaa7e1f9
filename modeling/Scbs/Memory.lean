import Mathlib.Data.List.Basic
import Mathlib.Data.List.Induction

/-!
# Writes to a memory

Places that hold values, and writes to one of them or to all.

* `Memory.last` — the last of some writes that hits a place.
* `Memory.foldl_change` — **a place holds what was last written to it.**
* `Memory.last_restore` — after one write to each place they hold what was written, whatever
  was written before.
-/

namespace Memory

/-- A write to one place, or to all. -/
inductive Write (ι α : Type) where
  | one (i : ι) (x : α)
  | all (x : α)

variable {ι α : Type} [DecidableEq ι]

/-- What a write stores at a place. -/
def Write.hits (i : ι) : Write ι α → Option α
  | .one j x => if j = i then some x else none
  | .all x => some x

/-- The last of some writes that hits a place. -/
def last (i : ι) (ws : List (Write ι α)) : Option α := (ws.filterMap (Write.hits i)).getLast?

@[simp] theorem last_nil (i : ι) : last i ([] : List (Write ι α)) = none := rfl

theorem last_append (i : ι) (ws ws' : List (Write ι α)) :
    last i (ws ++ ws') = (last i ws').or (last i ws) := by
  rw [last, List.filterMap_append, List.getLast?_append]
  rfl

theorem last_cons (i : ι) (w : Write ι α) (ws : List (Write ι α)) :
    last i (w :: ws) = (last i ws).or (w.hits i) := by
  rw [← List.singleton_append, last_append]
  congr 1
  rw [last, List.filterMap_cons]
  cases w.hits i with
  | none => rfl
  | some x => rfl

/-- What a write makes of what is at a place. -/
def Write.change {S : Type} (store : S → α → S) (i : ι) (s : S) (w : Write ι α) : S :=
  (w.hits i).elim s (store s)

/-- **A place holds what was last written to it**, if what a write stores does not depend on
what earlier ones have. -/
theorem foldl_change {S : Type} {store : S → α → S}
    (hstore : ∀ s x y, store (store s x) y = store s y) (i : ι) (s : S) (ws : List (Write ι α)) :
    ws.foldl (Write.change store i) s = (last i ws).elim s (store s) := by
  induction ws generalizing s with
  | nil => rfl
  | cons w ws ih =>
    rw [List.foldl_cons, ih, last_cons, Write.change]
    cases last i ws with
    | none => rfl
    | some y =>
      cases w.hits i with
      | none => rfl
      | some x => exact hstore s x y

/-- **One write to each place restores all of them**, whatever was written before. -/
theorem last_restore (ws : List (Write ℕ α)) {xs : List α} {i : ℕ} {x : α} (h : xs[i]? = some x) :
    last i (ws ++ xs.mapIdx fun j y => .one j y) = some x := by
  induction xs using List.reverseRecOn with
  | nil => exact absurd h (by simp)
  | append_singleton xs y ih =>
    rw [List.mapIdx_concat, ← List.append_assoc, last_append, last_cons, last_nil, Option.none_or,
      Write.hits]
    by_cases hi : xs.length = i
    · subst hi
      rw [List.getElem?_concat_length] at h
      rw [if_pos rfl, h]
      rfl
    · rw [if_neg hi, Option.none_or]
      refine ih ?_
      rw [List.getElem?_append_left] at h
      · exact h
      · have hlt := (List.getElem?_eq_some_iff.1 h).1
        rw [List.length_append, List.length_singleton] at hlt
        omega

end Memory
