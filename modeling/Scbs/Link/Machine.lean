import Scbs.Link.Pipeline

/-!
# Machines on a row of links

A machine takes symbols one at a time and gives some for each.  A row of machines, each
taking what the one before it gives, computes a function of the symbols sent to the first;
how the symbols travel, and how many of them are there when a node is polled, does not
matter.

* `feed`, `feedAll` — what a machine, and a row of machines, make of a sequence of symbols.
* `Poller` — nodes whose polls do what a machine does with the symbols they take.  A
  machine can **jam**: it takes no more symbols, and they wait on its link.
* `Poller.computes` — **every run of a row of such nodes computes `feedAll`**: no poll
  faults, at any time the output is the beginning of the machines' output, every run can be
  continued until it is all of it, and a run that has come to rest has all of it.
-/

namespace Link

/-! ## Machines -/

/-- A machine: the state and the symbols that one symbol leads to; `none` is a fault. -/
abbrev Machine (A α : Type) := A → α → Option (A × List α)

namespace Machine

variable {A α : Type} (step : Machine A α)

/-- What a machine makes of a sequence of symbols. -/
def feed : A → List α → Option (A × List α)
  | a, [] => some (a, [])
  | a, c :: cs =>
    (step a c).bind fun r => (feed r.1 cs).map fun t => (t.1, r.2 ++ t.2)

/-- What a row of machines makes of the symbols sent to the first one. -/
def feedAll : List A → List α → Option (List A × List α)
  | [], cs => some ([], cs)
  | a :: as, cs =>
    (feed step a cs).bind fun r => (feedAll as r.2).map fun t => (r.1 :: t.1, t.2)

variable {step} {a a' : A} {as as' : List A} {u v out : List α}

@[simp] theorem feed_nil : feed step a [] = some (a, []) := rfl

/-- **A machine goes on from where it is.** -/
theorem feed_append (a : A) (u v : List α) :
    feed step a (u ++ v) =
      (feed step a u).bind fun r => (feed step r.1 v).map fun t => (t.1, r.2 ++ t.2) := by
  induction u generalizing a with
  | nil => simp
  | cons c u ih =>
    rw [List.cons_append, feed, feed]
    cases step a c with
    | none => rfl
    | some r =>
      simp only [Option.bind_some, ih]
      cases feed step r.1 u with
      | none => rfl
      | some t => simp [Function.comp_def]

/-- **What every symbol preserves, a sequence preserves.** -/
theorem feed_preserves {P : A → Prop}
    (hstep : ∀ {a a' : A} {c : α} {out : List α}, P a → step a c = some (a', out) → P a')
    (ha : P a) (h : feed step a u = some (a', out)) : P a' := by
  induction u generalizing a out with
  | nil =>
    obtain ⟨rfl, -⟩ := Prod.mk.inj (Option.some.inj h)
    exact ha
  | cons c u ih =>
    rw [feed] at h
    obtain ⟨r, hr, h⟩ := Option.bind_eq_some_iff.1 h
    obtain ⟨t, ht, h⟩ := Option.map_eq_some_iff.1 h
    obtain ⟨rfl, -⟩ := Prod.mk.inj h
    exact ih (hstep ha hr) ht

/-- The parts of what a machine makes of two sequences. -/
theorem feed_split (h : feed step a (u ++ v) = some (a', out)) :
    ∃ b o₁ o₂, feed step a u = some (b, o₁) ∧ feed step b v = some (a', o₂) ∧ out = o₁ ++ o₂ := by
  rw [feed_append] at h
  obtain ⟨r, hr, h⟩ := Option.bind_eq_some_iff.1 h
  obtain ⟨t, ht, h⟩ := Option.map_eq_some_iff.1 h
  obtain ⟨rfl, rfl⟩ := Prod.mk.inj h
  exact ⟨r.1, r.2, t.2, hr, ht, rfl⟩

/-- They make up the whole. -/
theorem feed_concat {b : A} {o₁ o₂ : List α} (h₁ : feed step a u = some (b, o₁))
    (h₂ : feed step b v = some (a', o₂)) : feed step a (u ++ v) = some (a', o₁ ++ o₂) := by
  rw [feed_append, h₁]
  simp [h₂]

theorem feedAll_nil (as : List A) : feedAll step as [] = some (as, []) := by
  induction as with
  | nil => rfl
  | cons a as ih =>
    rw [feedAll, feed_nil]
    simp [ih]

theorem feedAll_cons (h : feedAll step (a :: as) u = some (as', out)) :
    ∃ b mid bs, feed step a u = some (b, mid) ∧ feedAll step as mid = some (bs, out) ∧
      as' = b :: bs := by
  rw [feedAll] at h
  obtain ⟨r, hr, h⟩ := Option.bind_eq_some_iff.1 h
  obtain ⟨t, ht, h⟩ := Option.map_eq_some_iff.1 h
  obtain ⟨rfl, rfl⟩ := Prod.mk.inj h
  exact ⟨r.1, r.2, t.1, hr, ht, rfl⟩

/-- The first machine and the row after it. -/
theorem feedAll_of_feed {b : A} {mid : List α} {bs : List A} (h : feed step a u = some (b, mid))
    (hs : feedAll step as mid = some (bs, out)) :
    feedAll step (a :: as) u = some (b :: bs, out) := by
  rw [feedAll, h]
  simp [hs]

/-- **So does a row of machines.** -/
theorem feedAll_split (h : feedAll step as (u ++ v) = some (as', out)) :
    ∃ bs o₁ o₂, feedAll step as u = some (bs, o₁) ∧ feedAll step bs v = some (as', o₂) ∧
      out = o₁ ++ o₂ := by
  induction as generalizing u v as' out with
  | nil =>
    obtain ⟨rfl, rfl⟩ := Prod.mk.inj (Option.some.inj h)
    exact ⟨[], u, v, rfl, rfl, rfl⟩
  | cons a as ih =>
    obtain ⟨b, mid, bs, hfeed, hall, rfl⟩ := feedAll_cons h
    obtain ⟨c, m₁, m₂, h₁, h₂, rfl⟩ := feed_split hfeed
    obtain ⟨cs, o₁, o₂, hs₁, hs₂, rfl⟩ := ih hall
    exact ⟨c :: cs, o₁, o₂, feedAll_of_feed h₁ hs₁, feedAll_of_feed h₂ hs₂, rfl⟩

theorem feedAll_concat {bs : List A} {o₁ o₂ : List α} (h₁ : feedAll step as u = some (bs, o₁))
    (h₂ : feedAll step bs v = some (as', o₂)) :
    feedAll step as (u ++ v) = some (as', o₁ ++ o₂) := by
  induction as generalizing u v bs as' o₁ o₂ with
  | nil =>
    obtain ⟨rfl, rfl⟩ := Prod.mk.inj (Option.some.inj h₁)
    obtain ⟨rfl, rfl⟩ := Prod.mk.inj (Option.some.inj h₂)
    rfl
  | cons a as ih =>
    obtain ⟨b, mid, cs, hfeed, hall, rfl⟩ := feedAll_cons h₁
    obtain ⟨b', mid', cs', hfeed', hall', rfl⟩ := feedAll_cons h₂
    exact feedAll_of_feed (feed_concat hfeed hfeed') (ih hall hall')

theorem length_feedAll (h : feedAll step as u = some (as', out)) : as'.length = as.length := by
  induction as generalizing u as' with
  | nil =>
    obtain ⟨rfl, rfl⟩ := Prod.mk.inj (Option.some.inj h)
    rfl
  | cons a as ih =>
    obtain ⟨b, mid, bs, -, hall, rfl⟩ := feedAll_cons h
    rw [List.length_cons, List.length_cons, ih hall]

/-- **What every symbol preserves, a row of machines preserves.** -/
theorem feedAll_preserves {P : A → Prop}
    (hstep : ∀ {a a' : A} {c : α} {out : List α}, P a → step a c = some (a', out) → P a')
    (has : ∀ a ∈ as, P a) (h : feedAll step as u = some (as', out)) : ∀ a ∈ as', P a := by
  induction as generalizing u as' with
  | nil =>
    obtain ⟨rfl, -⟩ := Prod.mk.inj (Option.some.inj h)
    simp
  | cons a as ih =>
    obtain ⟨ha, has⟩ := List.forall_mem_cons.1 has
    obtain ⟨b, mid, bs, hfeed, hall, rfl⟩ := feedAll_cons h
    exact List.forall_mem_cons.2 ⟨feed_preserves hstep ha hfeed, ih has hall⟩

end Machine

/-! ## What polls preserve -/

namespace Pipe

variable {σ α : Type} {poll : σ → List α → Outcome σ α → Prop} {P : σ → Prop} {p q : Pipe σ α}

theorem states_start (ss : List σ) : (start ss : Pipe σ α).states = ss := by
  induction ss with
  | nil => rfl
  | cons s ss ih => exact congrArg (s :: ·) ih

theorem states_push (p : Pipe σ α) (u : List α) : (p.push u).states = p.states := by
  cases p with
  | sink out => rfl
  | node link s next => rfl

theorem Step.states_preserve (hpoll : ∀ {s s' : σ} {seen unread tx : List α}, P s →
      poll s seen (some (s', unread, tx)) → P s')
    (h : ∀ s ∈ p.states, P s) (hstep : Step poll p q) : ∀ s ∈ q.states, P s := by
  induction hstep with
  | poll _ hr =>
    obtain ⟨hs, hnext⟩ := List.forall_mem_cons.1 h
    refine List.forall_mem_cons.2 ⟨hpoll hs hr, ?_⟩
    rw [states_push]
    exact hnext
  | later _ ih =>
    obtain ⟨hs, hnext⟩ := List.forall_mem_cons.1 h
    exact List.forall_mem_cons.2 ⟨hs, ih hnext⟩

/-- **What every poll preserves holds of all nodes in every run.** -/
theorem Run.states_preserve (hpoll : ∀ {s s' : σ} {seen unread tx : List α}, P s →
      poll s seen (some (s', unread, tx)) → P s')
    (h : ∀ s ∈ p.states, P s) {sent : List (List α)} (hrun : Run poll p sent q) :
    ∀ s ∈ q.states, P s := by
  induction hrun with
  | start => exact h
  | step _ hstep ih => exact hstep.states_preserve hpoll ih
  | send bytes _ ih =>
    rw [states_push]
    exact ih

section Mono

variable {poll' : σ → List α → Outcome σ α → Prop}
  (hmono : ∀ {s : σ}, P s → ∀ seen r, poll s seen r → poll' s seen r)
include hmono

theorem Step.mono (h : ∀ s ∈ p.states, P s) (hstep : Step poll p q) : Step poll' p q := by
  induction hstep with
  | poll hlink hr => exact .poll hlink (hmono (h _ (List.mem_cons_self ..)) _ _ hr)
  | later _ ih => exact .later (ih (List.forall_mem_cons.1 h).2)

/-- **A run with other polls**, that can do all that the polls do on nodes in order. -/
theorem Run.mono (hpoll : ∀ {s s' : σ} {seen unread tx : List α}, P s →
      poll s seen (some (s', unread, tx)) → P s')
    (h : ∀ s ∈ p.states, P s) {sent : List (List α)} (hrun : Run poll p sent q) :
    Run poll' p sent q := by
  induction hrun with
  | start => exact .start
  | step hrun hstep ih => exact ih.step (hstep.mono hmono (hrun.states_preserve hpoll h))
  | send bytes _ ih => exact ih.send bytes

theorem Steps.mono (hpoll : ∀ {s s' : σ} {seen unread tx : List α}, P s →
      poll s seen (some (s', unread, tx)) → P s')
    (h : ∀ s ∈ p.states, P s) (hsteps : Steps poll p q) :
    Steps poll' p q ∧ ∀ s ∈ q.states, P s := by
  induction hsteps with
  | refl => exact ⟨.refl, h⟩
  | tail _ hstep ih =>
    exact ⟨ih.1.tail (hstep.mono hmono ih.2), hstep.states_preserve hpoll ih.2⟩

/-- They fault where the polls do. -/
theorem Sound.mono (h : ∀ s ∈ p.states, P s) (hsound : p.Sound poll') : p.Sound poll := by
  induction p with
  | sink _ => trivial
  | node link s next ih =>
    obtain ⟨hs, hnext⟩ := List.forall_mem_cons.1 h
    exact ⟨fun seen hseen hfault => hsound.1 seen hseen (hmono hs _ _ hfault),
      ih hnext hsound.2⟩

end Mono

end Pipe

/-! ## Nodes that work like machines -/

open Machine

/-- Nodes whose polls are steps of a machine: a poll takes the first of the symbols it sees
and does with them what the machine does.  It takes at least one, unless the machine has
jammed; such a machine does nothing any more. -/
structure Poller (σ α A : Type) where
  poll : σ → List α → Outcome σ α → Prop
  step : Machine A α
  sim : A → σ → Prop
  Jammed : A → Prop
  exists_poll : ∀ s seen, ∃ r, poll s seen r
  step_jammed : ∀ {a a' : A} {c : α} {out : List α}, Jammed a → step a c = some (a', out) →
    a' = a ∧ out = []
  poll_feed : ∀ {a b : A} {s : σ} {seen out : List α} {r : Outcome σ α}, sim a s →
    feed step a seen = some (b, out) → poll s seen r →
    ∃ taken unread a' s' tx, seen = taken ++ unread ∧ r = some (s', unread, tx) ∧
      feed step a taken = some (a', tx) ∧ sim a' s' ∧ (taken = [] → seen = [] ∨ Jammed a)

namespace Poller

variable {σ α A : Type} (D : Poller σ α A)

/-- What holds in every run: each machine has been fed what its node has taken, and what
it has given has been sent to the next. -/
def Inv : List A → List α → Pipe σ α → Prop
  | [], total, .sink out => out = total
  | a :: as, total, .node link s next => ∃ taken a' mid, total = taken ++ link ∧
      feed D.step a taken = some (a', mid) ∧ D.sim a' s ∧ Inv as mid next
  | _, _, _ => False

variable {D} {as as' : List A} {total out : List α} {p q : Pipe σ α}

theorem feed_jammed {a a' : A} {u o : List α} (h : D.Jammed a)
    (hfeed : feed D.step a u = some (a', o)) : a' = a ∧ o = [] := by
  induction u generalizing o with
  | nil =>
    obtain ⟨rfl, rfl⟩ := Prod.mk.inj (Option.some.inj hfeed)
    exact ⟨rfl, rfl⟩
  | cons c u ih =>
    rw [feed] at hfeed
    obtain ⟨r, hr, hfeed⟩ := Option.bind_eq_some_iff.1 hfeed
    obtain ⟨t, ht, hfeed⟩ := Option.map_eq_some_iff.1 hfeed
    obtain ⟨rfl, rfl⟩ := Prod.mk.inj hfeed
    obtain ⟨hstate, hnone⟩ := D.step_jammed h hr
    rw [hstate] at ht
    obtain ⟨hstate', hnone'⟩ := ih ht
    exact ⟨hstate', by rw [hnone, hnone', List.append_nil]⟩

theorem inv_start {ss : List σ} (h : List.Forall₂ D.sim as ss) : D.Inv as [] (Pipe.start ss) := by
  induction h with
  | nil => rfl
  | cons hsim _ ih => exact ⟨[], _, [], rfl, rfl, hsim, ih⟩

theorem inv_push (h : D.Inv as total p) (bytes : List α) :
    D.Inv as (total ++ bytes) (p.push bytes) := by
  cases as with
  | nil =>
    cases p with
    | sink out =>
      obtain rfl : out = total := h
      rfl
    | node link s next => exact h.elim
  | cons a as =>
    cases p with
    | sink out => exact h.elim
    | node link s next =>
      obtain ⟨taken, a', mid, rfl, hfeed, hsim, hnext⟩ := h
      exact ⟨taken, a', mid, List.append_assoc _ _ _, hfeed, hsim, hnext⟩

/-- **Every poll keeps the invariant**, as long as the machines do not fault. -/
theorem inv_step (h : D.Inv as total p) (hall : feedAll D.step as total = some (as', out))
    (hstep : Pipe.Step D.poll p q) : D.Inv as total q := by
  induction hstep generalizing as total as' out with
  | @poll link seen unseen unread tx s s' next hlink hr =>
    cases as with
    | nil => exact h.elim
    | cons a as =>
      obtain ⟨taken, b, mid, rfl, hfeed, hsim, hnext⟩ := h
      obtain ⟨c, full, cs, htotal, -, -⟩ := feedAll_cons hall
      obtain ⟨b', o, o', hb, hlater, -⟩ := feed_split htotal
      obtain ⟨rfl, rfl⟩ := Prod.mk.inj (Option.some.inj (hb.symm.trans hfeed))
      rw [hlink] at hlater
      obtain ⟨b'', o'', -, hseen, -, -⟩ := feed_split hlater
      obtain ⟨taken', unread', b₁, s₁, tx', rfl, heq, hfeed', hsim', -⟩ :=
        D.poll_feed hsim hseen hr
      simp only [Option.some.injEq, Prod.mk.injEq] at heq
      obtain ⟨rfl, rfl, rfl⟩ := heq
      refine ⟨taken ++ taken', b₁, _, ?_, feed_concat hb hfeed', hsim', inv_push hnext tx⟩
      rw [hlink]
      simp only [List.append_assoc]
  | later _ ih =>
    cases as with
    | nil => exact h.elim
    | cons a as =>
      obtain ⟨taken, b, mid, rfl, hfeed, hsim, hnext⟩ := h
      obtain ⟨c, full, cs, htotal, hrest, -⟩ := feedAll_cons hall
      obtain ⟨b', o, o', hb, -, rfl⟩ := feed_split htotal
      obtain ⟨rfl, rfl⟩ := Prod.mk.inj (Option.some.inj (hb.symm.trans hfeed))
      obtain ⟨ds, o₁, o₂, hmid, -, -⟩ := feedAll_split hrest
      exact ⟨taken, _, _, rfl, hfeed, hsim, ih hnext hmid⟩

/-- **Every run keeps the invariant.** -/
theorem run_inv {sent : List (List α)} (hp : D.Inv as [] p)
    (hall : feedAll D.step as sent.flatten = some (as', out)) (h : Pipe.Run D.poll p sent q) :
    D.Inv as sent.flatten q := by
  induction h generalizing as' out with
  | start => exact hp
  | step _ hstep ih => exact inv_step (ih hall) hall hstep
  | send bytes _ ih =>
    rw [List.flatten_append, List.flatten_singleton] at hall ⊢
    obtain ⟨bs, o₁, o₂, hfirst, -, -⟩ := feedAll_split hall
    exact inv_push (ih hfirst) bytes

/-- No poll faults. -/
theorem Inv.sound (h : D.Inv as total p) (hall : feedAll D.step as total = some (as', out)) :
    p.Sound D.poll := by
  induction p generalizing as total as' out with
  | sink _ => trivial
  | node link s next ih =>
    cases as with
    | nil => exact h.elim
    | cons a as =>
      obtain ⟨taken, b, mid, rfl, hfeed, hsim, hnext⟩ := h
      obtain ⟨c, full, cs, htotal, hrest, -⟩ := feedAll_cons hall
      obtain ⟨b', o, o', hb, hlater, rfl⟩ := feed_split htotal
      obtain ⟨rfl, rfl⟩ := Prod.mk.inj (Option.some.inj (hb.symm.trans hfeed))
      refine ⟨?_, ?_⟩
      · rintro seen ⟨unseen, rfl⟩ hnone
        obtain ⟨b'', o'', -, hseen, -, -⟩ := feed_split hlater
        obtain ⟨_, _, _, s', _, -, heq, -⟩ := D.poll_feed hsim hseen hnone
        exact absurd heq (by simp)
      · obtain ⟨ds, o₁, o₂, hmid, -, -⟩ := feedAll_split hrest
        exact ih hnext hmid

/-- **At any time the output is the beginning of the machines' output.** -/
theorem Inv.output_begins (h : D.Inv as total p)
    (hall : feedAll D.step as total = some (as', out)) : p.output <+: out := by
  induction p generalizing as total as' out with
  | sink o =>
    cases as with
    | nil =>
      obtain rfl : o = total := h
      obtain ⟨-, rfl⟩ := Prod.mk.inj (Option.some.inj hall)
      exact List.prefix_refl _
    | cons a as => exact h.elim
  | node link s next ih =>
    cases as with
    | nil => exact h.elim
    | cons a as =>
      obtain ⟨taken, b, mid, rfl, hfeed, -, hnext⟩ := h
      obtain ⟨c, full, cs, htotal, hrest, -⟩ := feedAll_cons hall
      obtain ⟨b', o, o', hb, -, rfl⟩ := feed_split htotal
      obtain ⟨rfl, rfl⟩ := Prod.mk.inj (Option.some.inj (hb.symm.trans hfeed))
      obtain ⟨ds, o₁, o₂, hmid, -, rfl⟩ := feedAll_split hrest
      exact (ih hnext hmid).trans (List.prefix_append _ _)

/-- When all links are empty, the machines have been fed everything. -/
theorem Inv.quiet (h : D.Inv as total p) (hall : feedAll D.step as total = some (as', out))
    (hq : p.Quiet) : p.output = out ∧ List.Forall₂ D.sim as' p.states := by
  induction p generalizing as total as' out with
  | sink o =>
    cases as with
    | nil =>
      obtain rfl : o = total := h
      obtain ⟨rfl, rfl⟩ := Prod.mk.inj (Option.some.inj hall)
      exact ⟨rfl, .nil⟩
    | cons a as => exact h.elim
  | node link s next ih =>
    cases as with
    | nil => exact h.elim
    | cons a as =>
      obtain ⟨taken, b, mid, rfl, hfeed, hsim, hnext⟩ := h
      obtain ⟨rfl, hq⟩ := hq
      rw [List.append_nil] at hall
      obtain ⟨c, full, cs, htotal, hrest, rfl⟩ := feedAll_cons hall
      obtain ⟨rfl, rfl⟩ := Prod.mk.inj (Option.some.inj (htotal.symm.trans hfeed))
      obtain ⟨hout, hsims⟩ := ih hnext hrest hq
      exact ⟨hout, .cons hsim hsims⟩

/-- A node can be polled until its link is empty or its machine has jammed. -/
theorem drain_node {a : A} (n : ℕ) : ∀ (link : List α) (s : σ) (next : Pipe σ α),
    link.length ≤ n → D.Inv (a :: as) total (.node link s next) →
    feedAll D.step (a :: as) total = some (as', out) →
    ∃ link' s' next' taken b mid, Pipe.Steps D.poll (.node link s next) (.node link' s' next') ∧
      total = taken ++ link' ∧ feed D.step a taken = some (b, mid) ∧ D.sim b s' ∧
      D.Inv as mid next' ∧ (link' = [] ∨ D.Jammed b) := by
  induction n with
  | zero =>
    rintro link s next hlen ⟨taken, b, mid, htotal, hfeed, hsim, hnext⟩ -
    obtain rfl := List.length_eq_zero_iff.1 (Nat.le_zero.1 hlen)
    exact ⟨[], s, next, taken, b, mid, Relation.ReflTransGen.refl, htotal, hfeed, hsim, hnext,
      Or.inl rfl⟩
  | succ n ih =>
    rintro link s next hlen ⟨taken, b, mid, rfl, hfeed, hsim, hnext⟩ hall
    by_cases hdone : link = [] ∨ D.Jammed b
    · exact ⟨link, s, next, taken, b, mid, Relation.ReflTransGen.refl, rfl, hfeed, hsim, hnext,
        hdone⟩
    · -- the node sees all of its link and takes at least one symbol
      obtain ⟨hnil, hjam⟩ := not_or.1 hdone
      obtain ⟨r, hr⟩ := D.exists_poll s link
      obtain ⟨c, full, cs, htotal, -, rfl⟩ := feedAll_cons hall
      obtain ⟨b', o, o', hb, hlater, -⟩ := feed_split htotal
      obtain ⟨rfl, rfl⟩ := Prod.mk.inj (Option.some.inj (hb.symm.trans hfeed))
      obtain ⟨taken', unread, b₁, s', tx, hlink, rfl, hfeed', hsim', hsome⟩ :=
        D.poll_feed hsim hlater hr
      have hne : taken' ≠ [] := fun hempty => (hsome hempty).elim hnil hjam
      have hlt : unread.length ≤ n := by
        have hpos := List.length_pos_iff.2 hne
        rw [hlink, List.length_append] at hlen
        omega
      have hstep : Pipe.Step D.poll (.node link s next)
          (.node (unread ++ []) s' (next.push tx)) := .poll (List.append_nil link).symm hr
      rw [List.append_nil] at hstep
      have hinv : D.Inv (a :: as) (taken ++ link) (.node unread s' (next.push tx)) :=
        ⟨taken ++ taken', b₁, _, by rw [hlink, List.append_assoc], feed_concat hfeed hfeed',
          hsim', inv_push hnext tx⟩
      obtain ⟨link', s'', next'', taken'', b'', mid'', hsteps, hrest⟩ :=
        ih unread s' _ hlt hinv hall
      exact ⟨link', s'', next'', taken'', b'', mid'', hsteps.head hstep, hrest⟩

/-- **A row can be polled until the machines have done all that they do**, and if none of them
has jammed then nothing is left on the links. -/
theorem Inv.completes (h : D.Inv as total p) (hall : feedAll D.step as total = some (as', out)) :
    ∃ q, Pipe.Steps D.poll p q ∧ q.output = out ∧ List.Forall₂ D.sim as' q.states ∧
      ((∀ b ∈ as', ¬ D.Jammed b) → q.Quiet) := by
  induction as generalizing total p as' out with
  | nil =>
    cases p with
    | sink o =>
      obtain rfl : o = total := h
      obtain ⟨rfl, rfl⟩ := Prod.mk.inj (Option.some.inj hall)
      exact ⟨.sink o, Relation.ReflTransGen.refl, rfl, .nil, fun _ => trivial⟩
    | node link s next => exact h.elim
  | cons a as ih =>
    cases p with
    | sink o => exact h.elim
    | node link s next =>
      obtain ⟨link', s', next', taken, b, mid, hsteps, rfl, hfeed, hsim, hnext, hdone⟩ :=
        drain_node link.length link s next le_rfl h hall
      obtain ⟨c, full, cs, htotal, hrest, rfl⟩ := feedAll_cons hall
      -- what is left on the link does nothing
      obtain ⟨b', o, o', hb, hlater, rfl⟩ := feed_split htotal
      obtain ⟨rfl, rfl⟩ := Prod.mk.inj (Option.some.inj (hb.symm.trans hfeed))
      obtain ⟨rfl, rfl⟩ : c = b' ∧ o' = [] := by
        rcases hdone with rfl | hjam
        · obtain ⟨rfl, rfl⟩ := Prod.mk.inj (Option.some.inj hlater)
          exact ⟨rfl, rfl⟩
        · exact feed_jammed hjam hlater
      rw [List.append_nil] at hrest
      obtain ⟨q, hsteps', hout, hsims, hquiet⟩ := ih hnext hrest
      refine ⟨.node link' s' q, hsteps.trans (Pipe.Steps.later hsteps'), hout, .cons hsim hsims,
        fun hfree => ⟨?_, hquiet fun d hd => hfree d (List.mem_cons_of_mem _ hd)⟩⟩
      exact hdone.resolve_right (hfree c (List.mem_cons_self ..))

/-- **A row of nodes computes** an output and states of its machines: no poll faults; at any
time the output is the beginning of this output; every run can be continued until this is the
output and these are the states, with nothing left to take unless a machine has jammed; and
when nothing is left they are. -/
structure Computes (D : Poller σ α A) (ss : List σ) (sent : List (List α)) (as' : List A)
    (out : List α) : Prop where
  sound : ∀ q, Pipe.Run D.poll (Pipe.start ss) sent q → q.Sound D.poll
  output_begins : ∀ q, Pipe.Run D.poll (Pipe.start ss) sent q → q.output <+: out
  completes : ∀ q, Pipe.Run D.poll (Pipe.start ss) sent q →
    ∃ q', Pipe.Steps D.poll q q' ∧ q'.output = out ∧ List.Forall₂ D.sim as' q'.states ∧
      ((∀ a ∈ as', ¬ D.Jammed a) → q'.Quiet)
  result : ∀ q, Pipe.Run D.poll (Pipe.start ss) sent q → q.Quiet →
    q.output = out ∧ List.Forall₂ D.sim as' q.states

/-- **Every run of a row of nodes computes what its machines compute**, whatever the order of
the polls. -/
theorem computes {ss : List σ} {sent : List (List α)} (hstart : List.Forall₂ D.sim as ss)
    (hall : feedAll D.step as sent.flatten = some (as', out)) : D.Computes ss sent as' out where
  sound _ hrun := (run_inv (inv_start hstart) hall hrun).sound hall
  output_begins _ hrun := (run_inv (inv_start hstart) hall hrun).output_begins hall
  completes _ hrun := (run_inv (inv_start hstart) hall hrun).completes hall
  result _ hrun hq := (run_inv (inv_start hstart) hall hrun).quiet hall hq

end Poller

end Link
