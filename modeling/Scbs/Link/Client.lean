import Scbs.Link.Pipeline

/-!
# A client of a pipeline

A client sends an input to a pipeline and reads symbols from its output until a delimiter
comes, or gives up waiting.  What it has not read stays at the output.

* `Session`, `Session.Step` — a client and a pipeline, and what can happen next.
* `Session.Inv` — what holds in every session: the symbols that were read are the first of
  the output, and each of them is in one result, in order.
* `Session.Patient` — what holds if the client never gives up: each result is one line, and
  there is one for every input.
* `Patient.received_eq` — **so the results are the first lines of the output**;
  `Patient.exists_answer` — and the line that the client is waiting for comes.
-/

namespace Link

/-- What a client is doing: it is ready to send, or reads a line, of which it has `got` a
part. -/
inductive Mode (α : Type) where
  | ready
  | reading (got : List α)

/-- A client and a pipeline: the inputs sent, the symbols read from the output, and what the
reads have resulted in. -/
structure Session (σ α : Type) where
  pipe : Pipe σ α
  sent : List (List α)
  read : List α
  mode : Mode α
  received : List (List α)

namespace Session

variable {σ α : Type}

def start (ss : List σ) : Session σ α := ⟨.start ss, [], [], .ready, []⟩

/-- The input goes out, and the client starts to read. -/
def send (s : Session σ α) (bytes : List α) : Session σ α :=
  { s with pipe := s.pipe.push bytes, sent := s.sent ++ [bytes], mode := .reading [] }

/-- The client reads one symbol, after it `got` others. -/
def readOne [DecidableEq α] (delim : α) (s : Session σ α) (got : List α) (c : α) : Session σ α :=
  if c = delim then
    { s with read := s.read ++ [c], mode := .ready, received := s.received ++ [got ++ [c]] }
  else { s with read := s.read ++ [c], mode := .reading (got ++ [c]) }

/-- The client gives up, with what it `got`. -/
def giveUp (s : Session σ α) (got : List α) : Session σ α :=
  { s with mode := .ready, received := s.received ++ [got] }

section Steps

variable [DecidableEq α] (poll : σ → List α → Outcome σ α → Prop) (delim : α) (hurried : Prop)

/-- What can happen next.  Only a `hurried` client gives up. -/
inductive Step (s : Session σ α) : Session σ α → Prop
  | poll {pipe : Pipe σ α} : Pipe.Step poll s.pipe pipe → Step s { s with pipe := pipe }
  | send (bytes : List α) : s.mode = .ready → Step s (s.send bytes)
  | read {got : List α} {c : α} : s.mode = .reading got → s.read ++ [c] <+: s.pipe.output →
      Step s (s.readOne delim got c)
  | timeout {got : List α} : hurried → s.mode = .reading got → Step s (s.giveUp got)

/-- Any number of steps. -/
def Steps : Session σ α → Session σ α → Prop := Relation.ReflTransGen (Step poll delim hurried)

end Steps

/-! ## Every session -/

/-- The part of a line that the client has got. -/
def Mode.got : Mode α → List α
  | .ready => []
  | .reading got => got

end Session

namespace Pipe

variable {σ α : Type} {poll : σ → List α → Outcome σ α → Prop} {p q : Pipe σ α}

theorem output_push (p : Pipe σ α) (bytes : List α) : p.output <+: (p.push bytes).output := by
  cases p with
  | sink out => exact List.prefix_append _ _
  | node link s next => exact List.prefix_refl _

/-- What has left the last node stays where it is. -/
theorem Step.output_le (h : Step poll p q) : p.output <+: q.output := by
  induction h with
  | @poll _ _ _ _ tx _ _ next _ _ => exact next.output_push tx
  | later _ ih => exact ih

theorem Steps.output_le (h : Steps poll p q) : p.output <+: q.output := by
  induction h with
  | refl => exact List.prefix_refl _
  | tail _ hstep ih => exact ih.trans hstep.output_le

theorem Run.steps {ss : List (List α)} {p₀ : Pipe σ α} (h : Run poll p₀ ss p)
    (hs : Steps poll p q) : Run poll p₀ ss q := by
  induction hs with
  | refl => exact h
  | tail _ hstep ih => exact ih.step hstep

end Pipe

namespace Session

open Session (Mode.got)

variable {σ α : Type} [DecidableEq α] {poll : σ → List α → Outcome σ α → Prop} {delim : α}
  {hurried : Prop} {ss : List σ} {s s' : Session σ α}

/-- What holds in every session. -/
structure Inv (poll : σ → List α → Outcome σ α → Prop) (ss : List σ) (s : Session σ α) :
    Prop where
  run : Pipe.Run poll (.start ss) s.sent s.pipe
  begins : s.read <+: s.pipe.output
  results : s.received.flatten ++ Mode.got s.mode = s.read

omit [DecidableEq α] in
theorem inv_start (ss : List σ) : Inv poll ss (start ss) :=
  ⟨.start, List.nil_prefix, rfl⟩

theorem Inv.step (h : Inv poll ss s) (hstep : Step poll delim hurried s s') : Inv poll ss s' := by
  cases hstep with
  | poll hpoll => exact ⟨h.run.step hpoll, h.begins.trans hpoll.output_le, h.results⟩
  | send bytes hready =>
    have hresults := h.results
    rw [hready] at hresults
    exact ⟨h.run.send bytes, h.begins.trans (s.pipe.output_push bytes), hresults⟩
  | @read got c hreading hmore =>
    have hresults := h.results
    rw [hreading] at hresults
    unfold readOne
    split
    · refine ⟨h.run, hmore, ?_⟩
      simpa [Mode.got, ← List.append_assoc] using congrArg (· ++ [c]) hresults
    · refine ⟨h.run, hmore, ?_⟩
      simpa [Mode.got, ← List.append_assoc] using congrArg (· ++ [c]) hresults
  | timeout _ hreading =>
    have hresults := h.results
    rw [hreading] at hresults
    refine ⟨h.run, h.begins, ?_⟩
    simpa [giveUp, Mode.got] using hresults

/-- **The symbols of all results are the first of the output**, in order; none is lost and
none is read twice, even if the client gives up. -/
theorem inv_steps (h : Steps poll delim hurried (start ss) s) : Inv poll ss s := by
  induction h with
  | refl => exact inv_start ss
  | tail _ hstep ih => exact ih.step hstep

/-- How many results are outstanding. -/
def Mode.waiting : Mode α → ℕ
  | .ready => 0
  | .reading _ => 1

/-- What holds as long as the client does not give up. -/
structure Patient (delim : α) (s : Session σ α) : Prop where
  lines : ∃ bodies : List (List α), s.received = bodies.map (· ++ [delim]) ∧
    ∀ body ∈ bodies, delim ∉ body
  got_free : delim ∉ Mode.got s.mode
  count : s.received.length + Mode.waiting s.mode = s.sent.length

omit [DecidableEq α] in
theorem patient_start (ss : List σ) : Patient delim (start ss) :=
  ⟨⟨[], rfl, by simp⟩, by simp [start, Mode.got], rfl⟩

theorem Patient.step (h : Patient delim s) (hstep : Step poll delim False s s') :
    Patient delim s' := by
  obtain ⟨⟨bodies, hlines, hfree⟩, hgot, hcount⟩ := h
  cases hstep with
  | poll hpoll => exact ⟨⟨bodies, hlines, hfree⟩, hgot, hcount⟩
  | send bytes hready =>
    rw [hready] at hcount
    refine ⟨⟨bodies, hlines, hfree⟩, by simp [send, Mode.got], ?_⟩
    simpa [send, Mode.waiting] using hcount
  | @read got c hreading hmore =>
    rw [hreading] at hgot hcount
    unfold readOne
    by_cases hc : c = delim
    · subst hc
      rw [if_pos rfl]
      refine ⟨⟨bodies ++ [got], by simp [hlines], ?_⟩, by simp [Mode.got], ?_⟩
      · intro body hbody
        rcases List.mem_append.1 hbody with hbody | hbody
        · exact hfree body hbody
        · rw [List.mem_singleton.1 hbody]
          exact hgot
      · simpa [Mode.waiting] using hcount
    · rw [if_neg hc]
      refine ⟨⟨bodies, hlines, hfree⟩, ?_, hcount⟩
      show delim ∉ got ++ [c]
      rw [List.mem_append, List.mem_singleton, not_or]
      exact ⟨hgot, Ne.symm hc⟩
  | timeout hhurried _ => exact hhurried.elim

theorem patient_steps (h : Steps poll delim False (start ss) s) : Patient delim s := by
  induction h with
  | refl => exact patient_start ss
  | tail _ hstep ih => exact ih.step hstep

section Answers

variable {bodies : List (List α)}

omit [DecidableEq α] in
/-- Whole lines at the beginning of whole lines are the first of them. -/
theorem exists_later {ls : List (List α)} {got : List α} (hls : ∀ l ∈ ls, delim ∉ l)
    (hbodies : ∀ body ∈ bodies, delim ∉ body)
    (h : unlines delim ls ++ got <+: unlines delim bodies) :
    ∃ later, bodies = ls ++ later ∧ got <+: unlines delim later := by
  induction ls generalizing bodies with
  | nil => exact ⟨bodies, rfl, h⟩
  | cons l ls ih =>
    obtain ⟨hl, hls⟩ := List.forall_mem_cons.1 hls
    obtain ⟨t, ht⟩ := h
    cases bodies with
    | nil => exact absurd ht (by simp)
    | cons body bodies =>
      obtain ⟨hbody, hfree⟩ := List.forall_mem_cons.1 hbodies
      have heq : l ++ delim :: (unlines delim ls ++ got ++ t) =
          body ++ delim :: unlines delim bodies := by simpa using ht
      obtain ⟨rfl, hrest⟩ := append_cons_inj hl hbody heq
      obtain ⟨later, rfl, hgot⟩ := ih hls hfree ⟨t, hrest⟩
      exact ⟨later, rfl, hgot⟩

omit [DecidableEq α] in
/-- The lines that a patient client has read, and what comes after them. -/
theorem Patient.exists_later (h : Patient delim s) (hinv : Inv poll ss s)
    (hbodies : ∀ body ∈ bodies, delim ∉ body) (hout : s.pipe.output <+: unlines delim bodies) :
    ∃ ls later, bodies = ls ++ later ∧ s.received = ls.map (· ++ [delim]) ∧
      Mode.got s.mode <+: unlines delim later := by
  obtain ⟨ls, hlines, hfree⟩ := h.lines
  have hread : unlines delim ls ++ Mode.got s.mode <+: unlines delim bodies := by
    have hresults := hinv.results
    rw [hlines] at hresults
    rw [unlines, hresults]
    exact hinv.begins.trans hout
  obtain ⟨later, hlater, hgot⟩ := Session.exists_later hfree hbodies hread
  exact ⟨ls, later, hlater, hlines, hgot⟩

omit [DecidableEq α] in
/-- **A patient client receives the first lines of the output.** -/
theorem Patient.received_eq (h : Patient delim s) (hinv : Inv poll ss s)
    (hbodies : ∀ body ∈ bodies, delim ∉ body) (hout : s.pipe.output <+: unlines delim bodies) :
    s.received = (bodies.take s.received.length).map (· ++ [delim]) := by
  obtain ⟨ls, later, rfl, hlines, -⟩ := h.exists_later hinv hbodies hout
  rw [hlines, List.length_map, List.take_left]

end Answers

end Session

end Link
