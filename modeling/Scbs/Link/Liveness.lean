import Scbs.Link.Machine

/-!
# Every schedule finishes

A node may be polled when there is nothing on its link, and such polls may go on for ever.
A poll that sees something takes something, and there is only so much to take.

* `Pipe.Polls` — a poll, with 1 if it sees anything and 0 if not.
* `Pipe.Counted` — a run, with the number of its polls that saw something.
* `Machine.traffic` — how many symbols a row of machines takes.
* `Poller.count_le_traffic` — **no run has more such polls than that**, unless a machine jams.
* `Pipe.quiet_or_polls` — as long as anything is left on a link, another one can be made.
-/

namespace Link

/-! ## Counting polls -/

namespace Pipe

variable {σ α : Type} (poll : σ → List α → Outcome σ α → Prop)

/-- A poll of one of the nodes, with 1 if it sees anything of its link and 0 if not. -/
inductive Polls : ℕ → Pipe σ α → Pipe σ α → Prop
  | poll {link seen unseen unread tx : List α} {s s' : σ} {next : Pipe σ α} :
      link = seen ++ unseen → poll s seen (some (s', unread, tx)) →
      Polls (min 1 seen.length) (node link s next) (node (unread ++ unseen) s' (next.push tx))
  | later {k : ℕ} {link : List α} {s : σ} {next next' : Pipe σ α} :
      Polls k next next' → Polls k (node link s next) (node link s next')

/-- A run, with the inputs sent so far and the number of polls that saw something. -/
inductive Counted (p : Pipe σ α) : List (List α) → ℕ → Pipe σ α → Prop
  | start : Counted p [] 0 p
  | step {sent : List (List α)} {n k : ℕ} {q q' : Pipe σ α} :
      Counted p sent n q → Polls poll k q q' → Counted p sent (n + k) q'
  | send {sent : List (List α)} {n : ℕ} {q : Pipe σ α} (bytes : List α) :
      Counted p sent n q → Counted p (sent ++ [bytes]) n (q.push bytes)

variable {poll} {p q : Pipe σ α} {sent : List (List α)} {k n : ℕ}

theorem Polls.step (h : Polls poll k p q) : Step poll p q := by
  induction h with
  | poll hlink hr => exact .poll hlink hr
  | later _ ih => exact .later ih

theorem Counted.run (h : Counted poll p sent n q) : Run poll p sent q := by
  induction h with
  | start => exact .start
  | step _ hpoll ih => exact .step ih hpoll.step
  | send bytes _ ih => exact .send bytes ih

/-- **As long as anything is left on a link**, a poll can see it. -/
theorem quiet_or_polls (hexists : ∀ s seen, ∃ r, poll s seen r) (hsound : p.Sound poll) :
    p.Quiet ∨ ∃ q, Polls poll 1 p q := by
  induction p with
  | sink out => exact Or.inl trivial
  | node link s next ih =>
    obtain ⟨hnode, hnext⟩ := hsound
    cases link with
    | nil =>
      rcases ih hnext with hquiet | ⟨q, hq⟩
      · exact Or.inl ⟨rfl, hquiet⟩
      · exact Or.inr ⟨_, .later hq⟩
    | cons c link =>
      obtain ⟨r, hr⟩ := hexists s (c :: link)
      cases r with
      | none => exact absurd hr (hnode _ List.prefix_rfl)
      | some t =>
        have hpoll : Polls poll (min 1 (c :: link).length) (node (c :: link) s next) _ :=
          .poll (List.append_nil (c :: link)).symm hr
        have hone : min 1 (c :: link).length = 1 := by
          rw [List.length_cons]
          omega
        rw [hone] at hpoll
        exact Or.inr ⟨_, hpoll⟩

end Pipe

/-! ## Traffic -/

namespace Machine

variable {A α : Type} (step : Machine A α)

/-- How many symbols a row of machines takes. -/
def traffic : List A → List α → ℕ
  | [], _ => 0
  | a :: as, cs => cs.length + (feed step a cs).elim 0 fun r => traffic as r.2

variable {step} {a b : A} {as bs as' : List A} {u v out mid : List α}

theorem traffic_cons (h : feed step a u = some (b, mid)) :
    traffic step (a :: as) u = u.length + traffic step as mid := by
  rw [traffic, h]
  rfl

theorem traffic_nil (as : List A) : traffic step as [] = 0 := by
  induction as with
  | nil => rfl
  | cons a as ih => rw [traffic_cons (feed_nil (a := a)), ih, List.length_nil]

/-- **Traffic adds up.** -/
theorem traffic_append (hu : feedAll step as u = some (bs, out))
    (hv : feedAll step bs v = some (as', mid)) :
    traffic step as (u ++ v) = traffic step as u + traffic step bs v := by
  induction as generalizing u v bs as' out mid with
  | nil =>
    obtain ⟨rfl, -⟩ := Prod.mk.inj (Option.some.inj hu)
    rfl
  | cons a as ih =>
    obtain ⟨b, m, cs, hfeed, hall, rfl⟩ := feedAll_cons hu
    obtain ⟨b', m', cs', hfeed', hall', rfl⟩ := feedAll_cons hv
    rw [traffic_cons hfeed, traffic_cons hfeed', traffic_cons (feed_concat hfeed hfeed'),
      ih hall hall', List.length_append]
    omega

end Machine

/-! ## Bounding the polls -/

namespace Poller

open Machine

variable {σ α A : Type} (D : Poller σ α A)

/-- How many symbols the nodes have taken of those that were sent. -/
def taken : List A → List α → Pipe σ α → ℕ
  | a :: as, total, .node link _ next =>
    (total.length - link.length) + taken as
      ((feed D.step a (total.take (total.length - link.length))).elim [] (·.2)) next
  | _, _, _ => 0

variable {D} {a b : A} {as as' : List A} {total out mid u : List α} {p q : Pipe σ α} {k n : ℕ}

theorem taken_node {link : List α} {s : σ} {next : Pipe σ α}
    (h : feed D.step a u = some (b, mid)) :
    D.taken (a :: as) (u ++ link) (.node link s next) = u.length + D.taken as mid next := by
  have hlen : (u ++ link).length - link.length = u.length := by
    rw [List.length_append, Nat.add_sub_cancel]
  rw [taken, hlen, List.take_left, h]
  rfl

/-- What is sent has not been taken. -/
theorem taken_push (h : D.Inv as total p) (bytes : List α) :
    D.taken as (total ++ bytes) (p.push bytes) = D.taken as total p := by
  cases as with
  | nil => cases p <;> rfl
  | cons a as =>
    cases p with
    | sink o => exact h.elim
    | node link s next =>
      obtain ⟨u, b, mid, rfl, hfeed, -, -⟩ := h
      rw [List.append_assoc, Pipe.push, taken_node hfeed, taken_node hfeed]

/-- Nothing is taken that is not part of the traffic. -/
theorem taken_le_traffic (h : D.Inv as total p)
    (hall : feedAll D.step as total = some (as', out)) :
    D.taken as total p ≤ traffic D.step as total := by
  induction as generalizing total p as' out with
  | nil => cases p <;> exact Nat.le_refl _
  | cons a as ih =>
    cases p with
    | sink o => exact h.elim
    | node link s next =>
      obtain ⟨u, b, mid, rfl, hfeed, -, hnext⟩ := h
      obtain ⟨c, full, cs, htotal, hrest, rfl⟩ := feedAll_cons hall
      obtain ⟨b', o, o', hb, -, rfl⟩ := feed_split htotal
      obtain ⟨rfl, rfl⟩ := Prod.mk.inj (Option.some.inj (hb.symm.trans hfeed))
      obtain ⟨ds, o₁, o₂, hmid, hlater, -⟩ := feedAll_split hrest
      rw [taken_node hfeed, traffic_cons htotal, traffic_append hmid hlater, List.length_append]
      have hle := ih hnext hmid
      omega

/-- A row that has not jammed had not jammed before. -/
theorem free_of_feedAll (h : feedAll D.step as u = some (as', out))
    (hfree : ∀ b ∈ as', ¬ D.Jammed b) : ∀ a ∈ as, ¬ D.Jammed a := by
  induction as generalizing u as' with
  | nil => simp
  | cons a as ih =>
    obtain ⟨b, mid, bs, hfeed, hall, rfl⟩ := feedAll_cons h
    obtain ⟨hb, hbs⟩ := List.forall_mem_cons.1 hfree
    refine List.forall_mem_cons.2 ⟨fun hjam => ?_, ih hall hbs⟩
    obtain ⟨rfl, -⟩ := feed_jammed hjam hfeed
    exact hb hjam

/-- **A poll that sees something takes something**, unless a machine jams. -/
theorem taken_polls (h : D.Inv as total p) (hall : feedAll D.step as total = some (as', out))
    (hfree : ∀ b ∈ as', ¬ D.Jammed b) (hpoll : Pipe.Polls D.poll k p q) :
    D.taken as total p + k ≤ D.taken as total q := by
  induction hpoll generalizing as total as' out with
  | @poll link seen unseen unread tx s s' next hlink hr =>
    cases as with
    | nil => exact h.elim
    | cons a as =>
      obtain ⟨u, b, mid, rfl, hfeed, hsim, hnext⟩ := h
      obtain ⟨c, full, cs, htotal, -, rfl⟩ := feedAll_cons hall
      obtain ⟨b', o, o', hb, hlater, -⟩ := feed_split htotal
      obtain ⟨rfl, rfl⟩ := Prod.mk.inj (Option.some.inj (hb.symm.trans hfeed))
      have hrest := hlater
      rw [hlink] at hlater
      obtain ⟨b'', o'', -, hseen, -, -⟩ := feed_split hlater
      obtain ⟨u', unread', b₁, s₁, tx', rfl, heq, hfeed', -, hsome⟩ := D.poll_feed hsim hseen hr
      simp only [Option.some.injEq, Prod.mk.injEq] at heq
      obtain ⟨rfl, rfl, rfl⟩ := heq
      have hafter : u ++ link = (u ++ u') ++ (unread ++ unseen) := by
        rw [hlink]
        simp only [List.append_assoc]
      have hnew : D.taken (a :: as) (u ++ u' ++ (unread ++ unseen))
          (.node (unread ++ unseen) s' (next.push tx)) = _ := taken_node (feed_concat hb hfeed')
      rw [← hafter, taken_push hnext, List.length_append] at hnew
      rw [taken_node hb, hnew]
      have hseenlen : min 1 (u' ++ unread).length ≤ u'.length := by
        rcases Nat.eq_zero_or_pos u'.length with hzero | hpos
        · rcases hsome (List.length_eq_zero_iff.1 hzero) with hnil | hjam
          · rw [hnil]
            exact Nat.zero_le _
          · obtain ⟨rfl, -⟩ := feed_jammed hjam hrest
            exact absurd hjam (hfree _ (List.mem_cons_self ..))
        · omega
      omega
  | later _ ih =>
    cases as with
    | nil => exact h.elim
    | cons a as =>
      obtain ⟨u, b, mid, rfl, hfeed, -, hnext⟩ := h
      obtain ⟨c, full, cs, htotal, hrest, rfl⟩ := feedAll_cons hall
      obtain ⟨b', o, o', hb, -, rfl⟩ := feed_split htotal
      obtain ⟨rfl, rfl⟩ := Prod.mk.inj (Option.some.inj (hb.symm.trans hfeed))
      obtain ⟨ds, o₁, o₂, hmid, hlater, -⟩ := feedAll_split hrest
      have hnode := ih hnext hmid
        (free_of_feedAll hlater fun x hx => hfree x (List.mem_cons_of_mem _ hx))
      rw [taken_node hfeed, taken_node hfeed]
      omega

/-- **No schedule goes on for ever.**  Unless a machine jams, a run has no more polls that see
something than there is traffic. -/
theorem count_le_traffic {ss : List σ} {sent : List (List α)}
    (hstart : List.Forall₂ D.sim as ss)
    (hall : feedAll D.step as sent.flatten = some (as', out)) (hfree : ∀ b ∈ as', ¬ D.Jammed b)
    (h : Pipe.Counted D.poll (Pipe.start ss) sent n q) :
    n ≤ traffic D.step as sent.flatten := by
  have hinv := run_inv (inv_start hstart) hall h.run
  refine le_trans ?_ (taken_le_traffic hinv hall)
  clear hinv
  induction h generalizing as' out with
  | start => exact Nat.zero_le _
  | step hrun hpoll ih =>
    have hle := taken_polls (run_inv (inv_start hstart) hall hrun.run) hall hfree hpoll
    have hcount := ih hall hfree
    omega
  | send bytes hrun ih =>
    rw [List.flatten_append, List.flatten_singleton] at hall ⊢
    obtain ⟨bs, o₁, o₂, hfirst, hlater, -⟩ := feedAll_split hall
    rw [taken_push (run_inv (inv_start hstart) hfirst hrun.run)]
    exact ih hfirst (free_of_feedAll hlater hfree)

end Poller

end Link
