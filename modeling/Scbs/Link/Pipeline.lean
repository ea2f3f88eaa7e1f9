import Scbs.Link.Framing

/-!
# Pipelines of nodes that work line by line

A pipeline is a row of nodes, each with a lossless first-in first-out link in front
of it, and an output at the end.  A node polls at any time, sees any part of what is
on its link, and sends on what it likes to the next link.  `Node` is a node that
collects a line, handles it when its delimiter comes, and answers with one line.

* `Pipe`, `Step`, `Run` — configurations, polls, and runs in which input is sent at
  any time.
* `Node.Inv`, `Node.inv_step`, `Node.run_inv` — **the invariant of a run**: each node
  has handled some of the lines sent to it, has the beginning of the next one, and
  the rest is on its link.
* `Chain` — the meaning of a row of nodes on whole lists of messages, and
  `Node.run_quiet`: **a run that has come to rest has computed it**, in whatever
  order the nodes were polled.
* `Node.run_sound`, `Node.run_settles` — no poll in a run faults, and every run can
  come to rest.
-/

namespace Link

/-- What a poll ends in: the new state, the bytes left on the link, and the bytes sent
on; `none` is a fault. -/
abbrev Outcome (σ α : Type) := Option (σ × List α × List α)

/-- A row of nodes with their links, and the output. -/
inductive Pipe (σ α : Type) where
  | sink (out : List α)
  | node (link : List α) (state : σ) (next : Pipe σ α)

namespace Pipe

variable {σ α : Type}

/-- Nodes with empty links. -/
def start : List σ → Pipe σ α
  | [] => sink []
  | s :: ss => node [] s (start ss)

/-- Bytes go onto the first link. -/
def push (bytes : List α) : Pipe σ α → Pipe σ α
  | sink out => sink (out ++ bytes)
  | node link s next => node (link ++ bytes) s next

/-- What has left the last node. -/
def output : Pipe σ α → List α
  | sink out => out
  | node _ _ next => next.output

def states : Pipe σ α → List σ
  | sink _ => []
  | node _ s next => s :: next.states

/-- All links are empty. -/
def Quiet : Pipe σ α → Prop
  | sink _ => True
  | node link _ next => link = [] ∧ next.Quiet

theorem quiet_start : ∀ ss : List σ, (start ss : Pipe σ α).Quiet
  | [] => trivial
  | _ :: ss => ⟨rfl, quiet_start ss⟩

section Runs

variable (poll : σ → List α → Outcome σ α → Prop)

/-- A poll of one of the nodes, which sees the part `seen` of its link. -/
inductive Step : Pipe σ α → Pipe σ α → Prop
  | poll {link seen unseen unread tx : List α} {s s' : σ} {next : Pipe σ α} :
      link = seen ++ unseen → poll s seen (some (s', unread, tx)) →
      Step (node link s next) (node (unread ++ unseen) s' (next.push tx))
  | later {link : List α} {s : σ} {next next' : Pipe σ α} :
      Step next next' → Step (node link s next) (node link s next')

/-- Any number of polls. -/
def Steps : Pipe σ α → Pipe σ α → Prop := Relation.ReflTransGen (Step poll)

/-- A run, with the inputs sent so far. -/
inductive Run (p : Pipe σ α) : List (List α) → Pipe σ α → Prop
  | start : Run p [] p
  | step {sent : List (List α)} {q q' : Pipe σ α} :
      Run p sent q → Step poll q q' → Run p sent q'
  | send {sent : List (List α)} {q : Pipe σ α} (bytes : List α) :
      Run p sent q → Run p (sent ++ [bytes]) (q.push bytes)

/-- A run in which input is only sent when `ready` says so, of the inputs sent before
and of the output. -/
inductive Turns (ready : List (List α) → List α → Prop) (p : Pipe σ α) :
    List (List α) → Pipe σ α → Prop
  | start : Turns ready p [] p
  | step {sent : List (List α)} {q q' : Pipe σ α} :
      Turns ready p sent q → Step poll q q' → Turns ready p sent q'
  | send {sent : List (List α)} {q : Pipe σ α} (bytes : List α) :
      Turns ready p sent q → ready sent q.output → Turns ready p (sent ++ [bytes]) (q.push bytes)

/-- No node can fault in its next poll. -/
def Sound : Pipe σ α → Prop
  | sink _ => True
  | node link s next => (∀ seen, seen <+: link → ¬ poll s seen none) ∧ next.Sound

variable {poll}

theorem Steps.later {link : List α} {s : σ} {p q : Pipe σ α} (h : Steps poll p q) :
    Steps poll (node link s p) (node link s q) := by
  induction h with
  | refl => exact Relation.ReflTransGen.refl
  | tail _ hstep ih => exact ih.tail (Step.later hstep)

section Turns

variable {ready : List (List α) → List α → Prop} {p q q' : Pipe σ α} {sent : List (List α)}

theorem Turns.run (h : Turns poll ready p sent q) : Run poll p sent q := by
  induction h with
  | start => exact .start
  | step _ hstep ih => exact ih.step hstep
  | send bytes _ _ ih => exact ih.send bytes

theorem Turns.steps (h : Turns poll ready p sent q) (hs : Steps poll q q') :
    Turns poll ready p sent q' := by
  induction hs with
  | refl => exact h
  | tail _ hstep ih => exact ih.step hstep

end Turns

end Runs

end Pipe

/-! ## Messages -/

section Chain

variable {A M : Type} (handles : A → M → A → M → Prop)

/-- One node on a list of messages: each is answered by one. -/
inductive Handled : A → List M → A → List M → Prop
  | nil {a : A} : Handled a [] a []
  | cons {a a' a'' : A} {m m' : M} {ms ms' : List M} :
      handles a m a' m' → Handled a' ms a'' ms' → Handled a (m :: ms) a'' (m' :: ms')

/-- A row of nodes on a list of messages: each node gets the answers of the one before
it. -/
inductive Chain : List A → List M → List A → List M → Prop
  | nil {ms : List M} : Chain [] ms [] ms
  | cons {a a' : A} {as as' : List A} {ms ms' outs : List M} :
      Handled handles a ms a' ms' → Chain as ms' as' outs → Chain (a :: as) ms (a' :: as') outs

/-- A row of nodes on one message. -/
inductive Hops : List A → M → List A → M → Prop
  | nil {m : M} : Hops [] m [] m
  | cons {a a' : A} {as as' : List A} {m m' out : M} :
      handles a m a' m' → Hops as m' as' out → Hops (a :: as) m (a' :: as') out

variable {handles}

theorem Handled.snoc {a a' a'' : A} {m m' : M} {ms ms' : List M}
    (h : Handled handles a ms a' ms') (hm : handles a' m a'' m') :
    Handled handles a (ms ++ [m]) a'' (ms' ++ [m']) := by
  induction h with
  | nil => exact .cons hm .nil
  | cons hfirst _ ih => exact .cons hfirst (ih hm)

theorem Handled.length_eq {a a' : A} {ms ms' : List M} (h : Handled handles a ms a' ms') :
    ms'.length = ms.length := by
  induction h with
  | nil => rfl
  | cons _ _ ih => rw [List.length_cons, List.length_cons, ih]

/-- **One answer for each message.** -/
theorem Chain.length_eq {as as' : List A} {ms outs : List M} (h : Chain handles as ms as' outs) :
    outs.length = ms.length := by
  induction h with
  | nil => rfl
  | cons hfirst _ ih => rw [ih, hfirst.length_eq]

/-- A single message hops from node to node. -/
theorem Chain.hops {as as' : List A} {m : M} {outs : List M}
    (h : Chain handles as [m] as' outs) : ∃ out, outs = [out] ∧ Hops handles as m as' out := by
  generalize hms : [m] = ms at h
  induction h generalizing m with
  | nil => exact ⟨m, hms.symm, .nil⟩
  | cons hfirst _ ih =>
    subst hms
    cases hfirst with
    | cons hm hrest =>
      cases hrest
      obtain ⟨out, hout, hhops⟩ := ih rfl
      exact ⟨out, hout, .cons hm hhops⟩

/-- Nodes that leave a message and themselves as they are pass the message on. -/
theorem Hops.pass {as as' : List A} {m out : M} (h : Hops handles as m as' out)
    (hpass : ∀ a ∈ as, ∀ a' m', handles a m a' m' → a' = a ∧ m' = m) : as' = as ∧ out = m := by
  induction h with
  | nil => exact ⟨rfl, rfl⟩
  | cons hm _ ih =>
    obtain ⟨rfl, rfl⟩ := hpass _ (by simp) _ _ hm
    obtain ⟨rfl, rfl⟩ := ih fun a ha => hpass a (List.mem_cons_of_mem _ ha)
    exact ⟨rfl, rfl⟩

/-- A row of nodes is its first part and then its second part. -/
theorem Hops.split {as bs cs' : List A} {m out : M} (h : Hops handles (as ++ bs) m cs' out) :
    ∃ as' bs' mid, cs' = as' ++ bs' ∧ Hops handles as m as' mid ∧ Hops handles bs mid bs' out := by
  induction as generalizing m cs' with
  | nil => exact ⟨[], cs', m, rfl, .nil, h⟩
  | cons a as ih =>
    cases h with
    | cons hm hrest =>
      obtain ⟨as', bs', mid, rfl, has, hbs⟩ := ih hrest
      exact ⟨_ :: as', bs', mid, rfl, .cons hm has, hbs⟩

theorem Handled.split {a a'' : A} {ms ns outs : List M}
    (h : Handled handles a (ms ++ ns) a'' outs) :
    ∃ a' outs₁ outs₂, outs = outs₁ ++ outs₂ ∧ Handled handles a ms a' outs₁ ∧
      Handled handles a' ns a'' outs₂ := by
  induction ms generalizing a outs with
  | nil => exact ⟨a, [], outs, rfl, .nil, h⟩
  | cons m ms ih =>
    cases h with
    | cons hm hrest =>
      obtain ⟨a', outs₁, outs₂, rfl, h₁, h₂⟩ := ih hrest
      exact ⟨a', _ :: outs₁, outs₂, rfl, .cons hm h₁, h₂⟩

/-- **The messages sent later find the nodes as the earlier ones left them.** -/
theorem Chain.split {as as'' : List A} {ms ns outs : List M}
    (h : Chain handles as (ms ++ ns) as'' outs) :
    ∃ as' outs₁ outs₂, outs = outs₁ ++ outs₂ ∧ Chain handles as ms as' outs₁ ∧
      Chain handles as' ns as'' outs₂ := by
  induction as generalizing ms ns as'' with
  | nil =>
    cases h
    exact ⟨[], ms, ns, rfl, .nil, .nil⟩
  | cons a as ih =>
    cases h with
    | cons hfirst hrest =>
      obtain ⟨a', ms', ns', rfl, hms, hns⟩ := hfirst.split
      obtain ⟨as', outs₁, outs₂, rfl, h₁, h₂⟩ := ih hrest
      exact ⟨a' :: as', outs₁, outs₂, rfl, .cons hms h₁, .cons hns h₂⟩

section Functional

variable (ok : A → Prop) (hfun : ∀ a, ok a → ∀ m a₁ m₁ a₂ m₂, handles a m a₁ m₁ →
    handles a m a₂ m₂ → a₁ = a₂ ∧ m₁ = m₂)
  (hkeep : ∀ a, ok a → ∀ m a' m', handles a m a' m' → ok a')

include hfun hkeep

theorem Handled.unique {a a₁ a₂ : A} (ha : ok a) {ms ms₁ ms₂ : List M}
    (h₁ : Handled handles a ms a₁ ms₁) (h₂ : Handled handles a ms a₂ ms₂) :
    a₁ = a₂ ∧ ms₁ = ms₂ := by
  induction h₁ generalizing ms₂ with
  | nil =>
    cases h₂
    exact ⟨rfl, rfl⟩
  | cons hm _ ih =>
    cases h₂ with
    | cons hm' hrest' =>
      obtain ⟨rfl, rfl⟩ := hfun _ ha _ _ _ _ _ hm hm'
      obtain ⟨rfl, rfl⟩ := ih (hkeep _ ha _ _ _ hm) hrest'
      exact ⟨rfl, rfl⟩

/-- **Where nodes are functions, so is a row of them.** -/
theorem Chain.unique {as as₁ as₂ : List A} (has : ∀ a ∈ as, ok a) {ms outs₁ outs₂ : List M}
    (h₁ : Chain handles as ms as₁ outs₁) (h₂ : Chain handles as ms as₂ outs₂) :
    as₁ = as₂ ∧ outs₁ = outs₂ := by
  induction h₁ generalizing as₂ with
  | nil =>
    cases h₂
    exact ⟨rfl, rfl⟩
  | cons hfirst _ ih =>
    cases h₂ with
    | cons hfirst' hrest' =>
      obtain ⟨rfl, rfl⟩ := Handled.unique ok hfun hkeep (has _ (by simp)) hfirst hfirst'
      obtain ⟨rfl, rfl⟩ := ih (fun a ha => has a (List.mem_cons_of_mem _ ha)) hrest'
      exact ⟨rfl, rfl⟩

end Functional

end Chain

/-! ## Nodes that work line by line -/

/-- A node that collects a line and answers it by a line.  `sim a part s` says that the
state `s` stands for `a` and has the beginning `part` of a line; `good k m` says that
`m` can be handled by `k` nodes in a row. -/
structure Node (σ α A M : Type) where
  delim : α
  poll : σ → List α → Outcome σ α → Prop
  body : M → List α
  handles : A → M → A → M → Prop
  good : ℕ → M → Prop
  sim : A → List α → σ → Prop
  delim_not_mem_body : ∀ m, delim ∉ body m
  exists_poll : ∀ s seen, ∃ r, poll s seen r
  poll_idle : ∀ {a s r}, sim a [] s → poll s [] r → ∃ s', r = some (s', [], []) ∧ sim a [] s'
  poll_part : ∀ {a part s k m u r}, sim a part s → good (k + 1) m → part ++ u <+: body m →
    poll s u r → ∃ s', r = some (s', [], []) ∧ sim a (part ++ u) s'
  poll_line : ∀ {a part s k m u v r}, sim a part s → good (k + 1) m → part ++ u = body m →
    poll s (u ++ delim :: v) r →
    ∃ s' a' m', r = some (s', v, body m' ++ [delim]) ∧ handles a m a' m' ∧ good k m' ∧ sim a' [] s'

namespace Node

variable {σ α A M : Type} (D : Node σ α A M)

/-- A message as it stands on a link. -/
def wire (m : M) : List α := D.body m ++ [D.delim]

def wires (ms : List M) : List α := unlines D.delim (ms.map D.body)

@[simp] theorem wires_nil : D.wires [] = [] := rfl

@[simp] theorem wires_cons (m : M) (ms : List M) :
    D.wires (m :: ms) = D.body m ++ D.delim :: D.wires ms := by
  simp [wires]

@[simp] theorem wires_append (ms ns : List M) : D.wires (ms ++ ns) = D.wires ms ++ D.wires ns := by
  simp [wires]

theorem wires_singleton (m : M) : D.wires [m] = D.wire m := by simp [wire]

/-- What one node has made of the messages `ms` sent to it: it has answered some by
`answers`, has the part of a line, and the rest is on its link. -/
structure NodeInv (k : ℕ) (a : A) (ms : List M) (link : List α) (s : σ) (answers : List M) :
    Prop where
  split : ∃ done todo part a', ms = done ++ todo ∧ Handled D.handles a done a' answers ∧
    D.sim a' part s ∧ part ++ link = D.wires todo ∧ D.delim ∉ part ∧ ∀ m ∈ todo, D.good (k + 1) m

/-- **The invariant of a run** in which the messages `ms` have been sent to nodes that
stood for `as`. -/
def Inv : List A → List M → Pipe σ α → Prop
  | [], ms, .sink out => out = D.wires ms
  | a :: as, ms, .node link s next =>
    ∃ answers, D.NodeInv as.length a ms link s answers ∧ Inv as answers next
  | _, _, _ => False

section Poll

variable {D} {k : ℕ} {a : A} {ms answers : List M} {s : σ}

/-- **What a poll can do to a node**: take more of a line, or a line with its answer. -/
theorem NodeInv.poll {seen unseen : List α} {r : Outcome σ α}
    (h : D.NodeInv k a ms (seen ++ unseen) s answers) (hr : D.poll s seen r) :
    ∃ s' unread outs, r = some (s', unread, D.wires outs) ∧ (∀ m ∈ outs, D.good k m) ∧
      D.NodeInv k a ms (unread ++ unseen) s' (answers ++ outs) ∧
      (seen ≠ [] → unread.length < seen.length) := by
  obtain ⟨done, todo, part, a', rfl, hdone, hsim, hlink, hpart, hgood⟩ := h.split
  cases todo with
  | nil =>
    -- nothing is on its way to the node
    obtain ⟨rfl, hnil⟩ := List.append_eq_nil_iff.1 hlink
    obtain ⟨rfl, rfl⟩ := List.append_eq_nil_iff.1 hnil
    obtain ⟨s', rfl, hsim'⟩ := D.poll_idle hsim hr
    exact ⟨s', [], [], rfl, by simp,
      ⟨done, [], [], a', rfl, by simpa using hdone, hsim', rfl, hpart, hgood⟩,
      fun hne => absurd rfl hne⟩
  | cons m todo =>
    have hm := hgood m (by simp)
    rw [D.wires_cons, ← List.append_assoc] at hlink
    by_cases hdelim : D.delim ∈ seen
    · -- the delimiter of the line is seen
      obtain ⟨u, v, rfl, hu⟩ := List.eq_append_cons_of_mem hdelim
      have hfree : D.delim ∉ part ++ u := by
        rw [List.mem_append, not_or]
        exact ⟨hpart, hu⟩
      have hcut : part ++ u ++ D.delim :: (v ++ unseen) = D.body m ++ D.delim :: D.wires todo := by
        simpa using hlink
      obtain ⟨hbody, hrest⟩ := append_cons_inj hfree (D.delim_not_mem_body m) hcut
      obtain ⟨s', a'', m', rfl, hhandles, hgood', hsim'⟩ := D.poll_line hsim hm hbody hr
      refine ⟨s', v, [m'], by rw [wires_singleton]; rfl, by simpa using hgood', ?_, ?_⟩
      · exact ⟨done ++ [m], todo, [], a'', by simp, hdone.snoc hhandles, hsim', hrest, by simp,
          fun x hx => hgood x (List.mem_cons_of_mem _ hx)⟩
      · intro _
        rw [List.length_append, List.length_cons]
        omega
    · -- the part grows
      have hfree : D.delim ∉ part ++ seen := by
        rw [List.mem_append, not_or]
        exact ⟨hpart, hdelim⟩
      have hbegin : part ++ seen <+: D.body m := by
        rcases List.append_eq_append_iff.1 hlink with ⟨w, hw, -⟩ | ⟨w, hw, hw'⟩
        · exact ⟨w, hw.symm⟩
        · cases w with
          | nil => exact ⟨[], by simpa using hw⟩
          | cons x w =>
            obtain ⟨rfl, -⟩ := List.cons.inj hw'
            exact absurd (by rw [hw]; simp) hfree
      obtain ⟨s', rfl, hsim'⟩ := D.poll_part hsim hm hbegin hr
      refine ⟨s', [], [], rfl, by simp, ?_, fun hne => List.length_pos_iff.2 hne⟩
      exact ⟨done, m :: todo, part ++ seen, a', rfl, by simpa using hdone, hsim',
        by simpa using hlink, hfree, hgood⟩

end Poll

variable {D}

theorem inv_push {as : List A} {ms : List M} {p : Pipe σ α} (h : D.Inv as ms p) {ns : List M}
    (hns : ∀ m ∈ ns, D.good as.length m) : D.Inv as (ms ++ ns) (p.push (D.wires ns)) := by
  cases as with
  | nil =>
    cases p with
    | sink out =>
      rw [Inv] at h
      rw [Pipe.push, Inv, wires_append, h]
    | node link s next => exact absurd h (by simp [Inv])
  | cons a as =>
    cases p with
    | sink out => exact absurd h (by simp [Inv])
    | node link s next =>
      obtain ⟨answers, hnode, hnext⟩ := h
      obtain ⟨done, todo, part, a', rfl, hdone, hsim, hlink, hpart, hgood⟩ := hnode.split
      refine ⟨answers, ⟨done, todo ++ ns, part, a', by simp, hdone, hsim, ?_, hpart, ?_⟩, hnext⟩
      · rw [← List.append_assoc, hlink, wires_append]
      · intro m hm
        rcases List.mem_append.1 hm with hm | hm
        · exact hgood m hm
        · exact hns m hm

/-- **Every poll keeps the invariant.** -/
theorem inv_step {as : List A} {ms : List M} {p q : Pipe σ α} (h : D.Inv as ms p)
    (hstep : Pipe.Step D.poll p q) : D.Inv as ms q := by
  induction hstep generalizing as ms with
  | @poll link seen unseen unread tx s s' next hlink hr =>
    cases as with
    | nil => exact absurd h (by simp [Inv])
    | cons a as =>
      obtain ⟨answers, hnode, hnext⟩ := h
      rw [hlink] at hnode
      obtain ⟨t, rest, outs, heq, hgood, hnode', -⟩ := hnode.poll hr
      simp only [Option.some.injEq, Prod.mk.injEq] at heq
      obtain ⟨rfl, rfl, rfl⟩ := heq
      exact ⟨answers ++ outs, hnode', inv_push hnext hgood⟩
  | later _ ih =>
    cases as with
    | nil => exact absurd h (by simp [Inv])
    | cons a as =>
      obtain ⟨answers, hnode, hnext⟩ := h
      exact ⟨answers, hnode, ih hnext⟩

theorem inv_steps {as : List A} {ms : List M} {p q : Pipe σ α} (h : D.Inv as ms p)
    (hsteps : Pipe.Steps D.poll p q) : D.Inv as ms q := by
  induction hsteps with
  | refl => exact h
  | tail _ hstep ih => exact inv_step ih hstep

/-- Nodes that stand for `as`, with nothing received and nothing on the links. -/
theorem inv_start {as : List A} {ss : List σ} (h : List.Forall₂ (D.sim · []) as ss) :
    D.Inv as [] (Pipe.start ss) := by
  induction h with
  | nil => rfl
  | cons hsim _ ih => exact ⟨[], ⟨[], [], [], _, rfl, .nil, hsim, rfl, by simp, by simp⟩, ih⟩

/-- **Every run keeps the invariant.** -/
theorem run_inv {as : List A} {p q : Pipe σ α} (hp : D.Inv as [] p) {ms : List M}
    (hms : ∀ m ∈ ms, D.good as.length m) (h : Pipe.Run D.poll p (ms.map D.wire) q) :
    D.Inv as ms q := by
  generalize hsent : ms.map D.wire = sent at h
  induction h generalizing ms with
  | start =>
    obtain rfl := List.map_eq_nil_iff.1 hsent
    exact hp
  | step _ hstep ih => exact inv_step (ih hms hsent) hstep
  | send bytes _ ih =>
    obtain ⟨ms₁, ms₂, rfl, hms₁, hms₂⟩ := List.map_eq_append_iff.1 hsent
    obtain ⟨m, rfl, hm⟩ := List.map_eq_singleton_iff.1 hms₂
    rw [← hm, ← wires_singleton]
    exact inv_push (ih (fun x hx => hms x (List.mem_append_left _ hx)) hms₁)
      fun x hx => hms x (List.mem_append_right _ hx)

/-- No poll faults in a configuration with the invariant. -/
theorem Inv.sound {as : List A} {ms : List M} {p : Pipe σ α} (h : D.Inv as ms p) :
    p.Sound D.poll := by
  induction p generalizing as ms with
  | sink out => trivial
  | node link s next ih =>
    cases as with
    | nil => exact absurd h (by simp [Inv])
    | cons a as =>
      obtain ⟨answers, hnode, hnext⟩ := h
      refine ⟨?_, ih hnext⟩
      rintro seen ⟨unseen, hlink⟩ hnone
      rw [← hlink] at hnode
      obtain ⟨s', rest, outs, heq, -⟩ := hnode.poll hnone
      exact absurd heq (by simp)

/-- A node that is polled often enough drains its link. -/
theorem drain_node {a : A} {as : List A} {ms : List M} (n : ℕ) :
    ∀ (link : List α) (s : σ) (next : Pipe σ α), link.length ≤ n →
      D.Inv (a :: as) ms (.node link s next) →
      ∃ s' next', Pipe.Steps D.poll (.node link s next) (.node [] s' next') := by
  induction n with
  | zero =>
    intro link s next hlen _
    obtain rfl := List.length_eq_zero_iff.1 (Nat.le_zero.1 hlen)
    exact ⟨s, next, Relation.ReflTransGen.refl⟩
  | succ n ih =>
    intro link s next hlen h
    by_cases hnil : link = []
    · subst hnil
      exact ⟨s, next, Relation.ReflTransGen.refl⟩
    · -- the node sees all of its link and takes at least one byte
      obtain ⟨r, hr⟩ := D.exists_poll s link
      obtain ⟨answers, hnode, hnext⟩ := h
      rw [← List.append_nil link] at hnode
      obtain ⟨s', unread, outs, rfl, hgood, hnode', hshrink⟩ := hnode.poll hr
      have hlt := hshrink hnil
      have hstep : Pipe.Step D.poll (.node link s next)
          (.node (unread ++ []) s' (next.push (D.wires outs))) :=
        .poll (List.append_nil link).symm hr
      obtain ⟨s'', next'', hsteps⟩ := ih _ s' _ (by rw [List.append_nil]; omega)
        ⟨answers ++ outs, hnode', inv_push hnext hgood⟩
      exact ⟨s'', next'', hsteps.head hstep⟩

/-- **Every configuration can come to rest**: the nodes drain their links from the
first one on. -/
theorem Inv.settles {as : List A} : ∀ {ms : List M} {p : Pipe σ α}, D.Inv as ms p →
    ∃ q, Pipe.Steps D.poll p q ∧ q.Quiet := by
  induction as with
  | nil =>
    intro ms p h
    cases p with
    | sink out => exact ⟨.sink out, Relation.ReflTransGen.refl, trivial⟩
    | node link s next => exact absurd h (by simp [Inv])
  | cons a as ih =>
    intro ms p h
    cases p with
    | sink out => exact absurd h (by simp [Inv])
    | node link s next =>
      obtain ⟨s', next', hdrain⟩ := drain_node link.length link s next le_rfl h
      obtain ⟨answers, -, hnext⟩ := inv_steps h hdrain
      obtain ⟨q, hsteps, hquiet⟩ := ih hnext
      exact ⟨.node [] s' q, Relation.ReflTransGen.trans hdrain (Pipe.Steps.later hsteps), rfl,
        hquiet⟩

/-- A node with an empty link has answered everything. -/
theorem NodeInv.quiet {k : ℕ} {a : A} {ms answers : List M} {s : σ}
    (h : D.NodeInv k a ms [] s answers) :
    ∃ a', Handled D.handles a ms a' answers ∧ D.sim a' [] s := by
  obtain ⟨done, todo, part, a', rfl, hdone, hsim, hlink, hpart, -⟩ := h.split
  rw [List.append_nil] at hlink
  cases todo with
  | nil =>
    rw [hlink, wires_nil] at hsim
    exact ⟨a', by simpa using hdone, hsim⟩
  | cons m todo => exact absurd (by rw [hlink, wires_cons]; simp) hpart

/-- **At rest, the nodes have computed the meaning of the chain.** -/
theorem Inv.quiet {as : List A} {ms : List M} {p : Pipe σ α} (h : D.Inv as ms p)
    (hp : p.Quiet) : ∃ as' outs, Chain D.handles as ms as' outs ∧ p.output = D.wires outs ∧
      List.Forall₂ (D.sim · []) as' p.states := by
  induction p generalizing as ms with
  | sink out =>
    cases as with
    | nil => exact ⟨[], ms, .nil, h, .nil⟩
    | cons a as => exact absurd h (by simp [Inv])
  | node link s next ih =>
    cases as with
    | nil => exact absurd h (by simp [Inv])
    | cons a as =>
      obtain ⟨answers, hnode, hnext⟩ := h
      obtain ⟨rfl, hquiet⟩ := hp
      obtain ⟨a', hhandled, hsim⟩ := hnode.quiet
      obtain ⟨as', outs, hchain, hout, hsims⟩ := ih hnext hquiet
      exact ⟨a' :: as', outs, .cons hhandled hchain, hout, .cons hsim hsims⟩

/-! ## Runs from rest -/

section Run

variable {as : List A} {ss : List σ} {ms : List M} {q : Pipe σ α}
  (hstart : List.Forall₂ (D.sim · []) as ss) (hms : ∀ m ∈ ms, D.good as.length m)
  (hrun : Pipe.Run D.poll (Pipe.start ss) (ms.map D.wire) q)

include hstart hms hrun

/-- **No poll in a run faults.** -/
theorem run_sound : q.Sound D.poll := (run_inv (inv_start hstart) hms hrun).sound

/-- **Every run can come to rest.** -/
theorem run_settles : ∃ q', Pipe.Steps D.poll q q' ∧ q'.Quiet :=
  (run_inv (inv_start hstart) hms hrun).settles

/-- **A run that has come to rest has computed the meaning of the chain**, in whatever
order the nodes were polled and whatever they saw of their links. -/
theorem run_quiet (hq : q.Quiet) : ∃ as' outs, Chain D.handles as ms as' outs ∧
    q.output = D.wires outs ∧ List.Forall₂ (D.sim · []) as' q.states :=
  (run_inv (inv_start hstart) hms hrun).quiet hq

end Run

section Turns

variable [BEq α] [LawfulBEq α]

theorem count_wires (outs : List M) : (D.wires outs).count D.delim = outs.length := by
  induction outs with
  | nil => rfl
  | cons m outs ih =>
    rw [wires_cons, List.count_append, List.count_cons_self, ih,
      List.count_eq_zero.2 (D.delim_not_mem_body m), Nat.zero_add, List.length_cons]

/-- As many answers have come out as messages have been sent. -/
def Answered (D : Node σ α A M) (sent : List (List α)) (output : List α) : Prop :=
  output.count D.delim = sent.length

/-- **The nodes can be used in turns**: each message can be sent when the answer to the
one before it has come out. -/
theorem exists_turns {as : List A} {ss : List σ} (hstart : List.Forall₂ (D.sim · []) as ss)
    (ms : List M) (hms : ∀ m ∈ ms, D.good as.length m) :
    ∃ q, Pipe.Turns D.poll D.Answered (Pipe.start ss) (ms.map D.wire) q ∧ q.Quiet := by
  induction ms using List.reverseRecOn with
  | nil => exact ⟨Pipe.start ss, .start, Pipe.quiet_start ss⟩
  | append_singleton ms m ih =>
    obtain ⟨q, hturns, hq⟩ := ih fun x hx => hms x (List.mem_append_left _ hx)
    obtain ⟨as', outs, hchain, hout, -⟩ :=
      run_quiet hstart (fun x hx => hms x (List.mem_append_left _ hx)) hturns.run hq
    have hready : D.Answered (ms.map D.wire) q.output := by
      rw [Answered, hout, count_wires, hchain.length_eq, List.length_map]
    have hsend := hturns.send (D.wire m) hready
    rw [← List.map_singleton, ← List.map_append] at hsend
    obtain ⟨q', hsteps, hquiet⟩ := run_settles hstart hms hsend.run
    exact ⟨q', hsend.steps hsteps, hquiet⟩

end Turns

end Node

end Link
