import Scbs.Device
import Scbs.Link.Framing

/-!
# The receive path

`Receiver` is the part of a cell that `ReceivePacket` and the flush in `Update`
work on, together with the bytes on their way to it and the lines it has handed
over to the parsers.  The packet handlers have no access to it
(`SCBS.update_receive`), so it runs on its own.

* `Holds rx raw` — the buffer after the bytes `raw` since the last flush: the
  counter counts all of them, the string leaves out the NULs.
* `receivePacket_spec` — what one call does, from any such buffer.
* `Receiver.Inv` — the invariant of a run, `run_inv`: the bytes consumed are cut
  into lines of at most 198 bytes before their newline, these have been handed
  over in order, and the unterminated rest is in the buffer.
* `drains_of_short` — a receiver of short lines can be drained.
* `framing` — **framing does not depend on polling**: a stream of short lines is handed
  over line by line, however it arrives and is read.
-/

namespace Scbs

open CLib Link

/-! ## The buffer -/

/-- The buffer after the bytes `raw`. -/
structure Holds (rx : UartRx) (raw : List UInt8) : Prop where
  len : rx.uartRxBufLen = raw.length
  le : raw.length ≤ 199
  buf : rx.uartRxBuf = raw.filter (· ≠ 0) ++
    List.replicate (kMaxUARTBufLen - (raw.filter (· ≠ 0)).length) 0

namespace Holds

variable {rx : UartRx} {raw : List UInt8}

theorem flushed : Holds UartRx.flushUARTBuf [] := ⟨rfl, by simp, rfl⟩

theorem no_nul_filter (raw : List UInt8) : (0 : UInt8) ∉ raw.filter (· ≠ 0) := by simp

/-- The string in the buffer. -/
theorem cstr_buf (h : Holds rx raw) : cstr rx.uartRxBuf = raw.filter (· ≠ 0) := by
  rw [h.buf, cstr_append_zeros (no_nul_filter raw)]

theorem strlen_buf (h : Holds rx raw) : strlen rx.uartRxBuf = (raw.filter (· ≠ 0)).length := by
  rw [strlen, h.cstr_buf]

/-- As long as the counter is below 199, appending writes inside the array. -/
theorem append (h : Holds rx raw) (hlt : raw.length < 199) (c : UInt8) :
    Holds (rx.appendCharToUARTBuf c) (raw ++ [c]) := by
  have hf := List.length_filter_le (fun x : UInt8 => decide (x ≠ 0)) raw
  obtain ⟨k, hk⟩ : ∃ k, kMaxUARTBufLen - (raw.filter (· ≠ 0)).length = k + 2 :=
    ⟨198 - (raw.filter (· ≠ 0)).length, by simp only [kMaxUARTBufLen]; omega⟩
  refine ⟨by simp [UartRx.appendCharToUARTBuf, h.len], by simp; omega, ?_⟩
  rw [UartRx.appendCharToUARTBuf, h.buf, hk, List.filter_append]
  by_cases hc : c = 0
  · subst hc
    rw [strncatByte_nul (no_nul_filter raw), ← hk]
    simp
  · have hk' : kMaxUARTBufLen - (raw.filter (· ≠ 0) ++ [c]).length = k + 1 := by
      rw [List.length_append, List.length_singleton]; omega
    rw [strncatByte_padded (no_nul_filter raw) hc,
      show [c].filter (· ≠ 0) = [c] by simp [hc], hk']
    simp

end Holds

/-! ## One call of `ReceivePacket` -/

/-- What a call of `ReceivePacket` can do: take bytes without a newline until none
is left or the counter is at its limit, or take the rest of a line. -/
inductive Received (raw readable : List UInt8) : UartRx × List UInt8 × ℕ → Prop
  | partly {rx : UartRx} {u rest : List UInt8} : readable = u ++ rest → lineFeed ∉ u →
      Holds rx (raw ++ u) → (rest = [] ∨ (raw ++ u).length = 199) →
      Received raw readable (rx, rest, 0)
  | line {rx : UartRx} {u rest : List UInt8} {n : ℕ} : readable = u ++ lineFeed :: rest →
      lineFeed ∉ u → (raw ++ u).length ≤ 198 → Holds rx (raw ++ u ++ [lineFeed]) → n ≠ 0 →
      Received raw readable (rx, rest, n)

/-- **What `ReceivePacket` does**, on a buffer that holds no newline. -/
theorem receivePacket_spec {rx : UartRx} {raw : List UInt8} (h : Holds rx raw)
    (readable : List UInt8) : Received raw readable (rx.receivePacket readable) := by
  induction readable generalizing rx raw with
  | nil => exact .partly (u := []) rfl (by simp) (by simpa using h) (Or.inl rfl)
  | cons c cs ih =>
    unfold UartRx.receivePacket
    by_cases hlen : rx.uartRxBufLen < kMaxUARTBufLen - 1
    · rw [if_pos hlen]
      have hraw : raw.length < 199 := by
        rw [← h.len]
        exact hlen
      have happ := h.append hraw c
      by_cases hc : c = lineFeed
      · subst hc
        rw [if_pos rfl]
        refine .line (u := []) rfl (by simp) (by simp; omega) (by simpa using happ) ?_
        rw [happ.strlen_buf]
        simp [lineFeed]
      · rw [if_neg hc]
        by_cases hfull : kMaxUARTBufLen ≤ rx.uartRxBufLen
        · -- the branch for a string that is too long is never taken
          simp only [kMaxUARTBufLen] at hfull hlen
          omega
        · rw [if_neg hfull]
          generalize hres : (rx.appendCharToUARTBuf c).receivePacket cs = res
          have hrec := ih happ
          rw [hres] at hrec
          cases hrec with
          | partly hread hu hh hend =>
            refine .partly (u := c :: _) (by rw [hread]; rfl) ?_ (by simpa using hh)
              (by simpa using hend)
            simpa using ⟨Ne.symm hc, hu⟩
          | line hread hu hle hh hn =>
            refine .line (u := c :: _) (by rw [hread]; rfl) ?_ (by simpa using hle)
              (by simpa using hh) hn
            simpa using ⟨Ne.symm hc, hu⟩
    · rw [if_neg hlen]
      have hraw : raw.length = 199 := by
        have := h.le
        rw [h.len] at hlen
        simp only [kMaxUARTBufLen] at hlen
        omega
      exact .partly (u := []) rfl (by simp) (by simpa using h) (Or.inr (by simpa using hraw))

/-- On bytes without a newline, `ReceivePacket` fills the buffer. -/
theorem receivePacket_part {rx : UartRx} {raw u : List UInt8} (h : Holds rx raw)
    (hu : lineFeed ∉ u) (hle : (raw ++ u).length ≤ 198) :
    ∃ rx', rx.receivePacket u = (rx', [], 0) ∧ Holds rx' (raw ++ u) := by
  have hspec := receivePacket_spec h u
  generalize rx.receivePacket u = res at hspec
  cases hspec with
  | @partly rx' w rest hread _ hh hend =>
    rcases hend with rfl | hend
    · rw [List.append_nil] at hread
      subst hread
      exact ⟨rx', rfl, hh⟩
    · have hlen := congrArg List.length hread
      rw [List.length_append] at hle hend hlen
      omega
  | line hread => exact absurd (by rw [hread]; simp) hu

/-- At the newline, it has the line. -/
theorem receivePacket_line {rx : UartRx} {raw u : List UInt8} (h : Holds rx raw)
    (hu : lineFeed ∉ u) (hle : (raw ++ u).length ≤ 198) (v : List UInt8) :
    ∃ rx' n, rx.receivePacket (u ++ lineFeed :: v) = (rx', v, n) ∧ n ≠ 0 ∧
      Holds rx' (raw ++ u ++ [lineFeed]) := by
  have hspec := receivePacket_spec h (u ++ lineFeed :: v)
  generalize rx.receivePacket (u ++ lineFeed :: v) = res at hspec
  cases hspec with
  | @partly rx' w rest hread hw hh hend =>
    -- what was taken has no newline, so it ends before it
    rcases List.append_eq_append_iff.1 hread with ⟨a, rfl, ha⟩ | ⟨a, rfl, ha⟩
    · cases a with
      | nil =>
        rw [List.append_nil] at hend
        rcases hend with hend | hend
        · exact absurd (ha.trans hend) (by simp)
        · omega
      | cons x a =>
        obtain ⟨rfl, -⟩ := List.cons.inj ha
        exact absurd (by simp) hw
    · rcases hend with hend | hend
      · rw [hend] at ha
        exact absurd ha (by simp)
      · simp only [List.length_append] at hle hend
        omega
  | @line rx' w rest n hread hw _ hh hn =>
    obtain ⟨rfl, rfl⟩ := append_cons_inj hu hw hread
    exact ⟨rx', n, rfl, hn, hh⟩

/-- A line is taken whole by a `ReceivePacket` that starts with an empty buffer. -/
def Takes (line : List UInt8) : Prop :=
  ∃ rx n, UartRx.flushUARTBuf.receivePacket line = (rx, [], n) ∧ n ≠ 0 ∧ cstr rx.uartRxBuf = line

/-- **The loop guard admits lines of up to 199 bytes.** -/
theorem takes_iff {body : List UInt8} (hbody : lineFeed ∉ body) (h0 : (0 : UInt8) ∉ body) :
    Takes (body ++ [lineFeed]) ↔ body.length ≤ 198 := by
  have hspec := receivePacket_spec Holds.flushed (body ++ [lineFeed])
  generalize hres : UartRx.flushUARTBuf.receivePacket (body ++ [lineFeed]) = res at hspec
  rw [Takes, hres]
  cases hspec with
  | @partly rx u rest hread hu hh hend =>
    refine iff_of_false ?_ ?_
    · rintro ⟨rx, n, heq, hn, -⟩
      simp only [Prod.mk.injEq] at heq
      exact hn heq.2.2.symm
    · intro hle
      have hlen := congrArg List.length hread
      rw [List.length_append, List.length_append, List.length_singleton] at hlen
      have hrest : rest = [] := by
        rcases hend with hend | hend
        · exact hend
        · rw [List.nil_append] at hend
          exact List.length_eq_zero_iff.1 (by omega)
      rw [hrest, List.append_nil] at hread
      exact hu (by rw [← hread]; simp)
  | @line rx u rest n hread hu hle hh hn =>
    have hsplit : body ++ lineFeed :: [] = u ++ lineFeed :: rest := hread
    obtain ⟨rfl, rfl⟩ := append_cons_inj hbody hu hsplit
    refine iff_of_true ⟨rx, n, rfl, hn, ?_⟩ hle
    have hnul : (0 : UInt8) ∉ body ++ [lineFeed] := by
      simp only [List.mem_append, List.mem_singleton, not_or]
      exact ⟨h0, by decide⟩
    rw [hh.cstr_buf, List.nil_append, List.filter_eq_self.2 fun c hc =>
      decide_eq_true (ne_of_mem_of_not_mem hc hnul)]

/-! ## The receive path inside `Update` -/

/-- `ReceivePacket` as `Update` calls it: when a line is complete it goes to the
parsers and the buffer is flushed. -/
def UartRx.poll (rx : UartRx) (readable : List UInt8) :
    UartRx × List UInt8 × Option (List UInt8) :=
  let (rx, unread, len) := rx.receivePacket readable
  if len ≠ 0 then (flushUARTBuf, unread, some (cstr rx.uartRxBuf)) else (rx, unread, none)

/-- The line that is handed to the parsers when its newline is seen. -/
theorem UartRx.poll_line {rx : UartRx} {raw u : List UInt8} (h : Holds rx raw)
    (hnul : (0 : UInt8) ∉ raw ++ u) (hlf : lineFeed ∉ raw ++ u) (hle : (raw ++ u).length ≤ 198)
    (v : List UInt8) :
    rx.poll (u ++ lineFeed :: v) = (flushUARTBuf, v, some (raw ++ u ++ [lineFeed])) := by
  have hu : lineFeed ∉ u := fun hmem => hlf (List.mem_append_right _ hmem)
  obtain ⟨rx', n, hrec, hn, hh⟩ := receivePacket_line h hu hle v
  have hcstr : cstr rx'.uartRxBuf = raw ++ u ++ [lineFeed] := by
    rw [hh.cstr_buf]
    apply List.filter_eq_self.2
    intro c hc
    rcases List.mem_append.1 hc with hc | hc
    · exact decide_eq_true (ne_of_mem_of_not_mem hc hnul)
    · rw [List.mem_singleton.1 hc]
      decide
  unfold UartRx.poll
  rw [hrec]
  simp only [if_pos hn, hcstr]

section Update

variable {F : Type} [CFloat F]

theorem SCBS.refresh_toUartRx (env : Env) (cell : SCBS F) :
    (cell.refresh env).toUartRx = cell.toUartRx := by
  rw [refresh_eq]

/-- The state in which `Update` hands a line to the parsers. -/
def SCBS.received (env : Env) (cell : SCBS F) (readable : List UInt8) : SCBS F :=
  ({ cell with toUartRx := (cell.toUartRx.receivePacket readable).1 } : SCBS F).turnOnStatusLED
    env.timeAtPacket kPacketReceivedBlinkTimeMs

/-- **A call of `Update`** hands the line of `UartRx.poll` to the parsers, if there is one,
and refreshes. -/
theorem SCBS.update_poll (env : Env) (cell : SCBS F) (readable : List UInt8) :
    cell.update env readable =
      match cell.toUartRx.poll readable with
      | (rx, unread, none) => .ok ⟨({ cell with toUartRx := rx } : SCBS F).refresh env, unread, []⟩
      | (rx, unread, some line) =>
        ((cell.received env readable).dispatch env line).map fun r =>
          ⟨({ r.1 with toUartRx := rx } : SCBS F).refresh env, unread, r.2⟩ := by
  unfold update UartRx.poll received
  generalize cell.toUartRx.receivePacket readable = res
  obtain ⟨rx, unread, len⟩ := res
  by_cases hlen : len = 0
  · subst hlen
    rfl
  · simp only [ne_eq, hlen, not_false_eq_true, if_true]
    exact bind_pure_comp _ _

/-- **A call of `Update` that sees the newline of a line** hands all of the line to the
parsers. -/
theorem SCBS.update_at_line (env : Env) {cell : SCBS F} {raw u : List UInt8}
    (h : Holds cell.toUartRx raw) (hnul : (0 : UInt8) ∉ raw ++ u) (hlf : lineFeed ∉ raw ++ u)
    (hle : (raw ++ u).length ≤ 198) (v : List UInt8) :
    cell.update env (u ++ lineFeed :: v) =
      ((cell.received env (u ++ lineFeed :: v)).dispatch env (raw ++ u ++ [lineFeed])).map fun r =>
        ⟨({ r.1 with toUartRx := UartRx.flushUARTBuf } : SCBS F).refresh env, v, r.2⟩ := by
  rw [update_poll, UartRx.poll_line h hnul hlf hle v]

/-- What a call of `Update` can do: refresh only, or also answer a line. -/
theorem SCBS.update_inv {env : Env} {cell : SCBS F} {readable : List UInt8} {r : SCBS.Updated F}
    (h : cell.update env readable = .ok r) :
    (∃ rx unread, cell.toUartRx.poll readable = (rx, unread, none) ∧
      r = ⟨({ cell with toUartRx := rx } : SCBS F).refresh env, unread, []⟩) ∨
    (∃ rx unread line cell' tx, cell.toUartRx.poll readable = (rx, unread, some line) ∧
      (cell.received env readable).dispatch env line = .ok (cell', tx) ∧
      r = ⟨({ cell' with toUartRx := rx } : SCBS F).refresh env, unread, tx⟩) := by
  rw [update_poll] at h
  generalize cell.toUartRx.poll readable = res at h ⊢
  obtain ⟨rx, unread, line⟩ := res
  cases line with
  | none => exact Or.inl ⟨rx, unread, rfl, (Except.ok.inj h).symm⟩
  | some line =>
    refine Or.inr ⟨rx, unread, line, ?_⟩
    cases hdisp : (cell.received env readable).dispatch env line with
    | error fault => simp [hdisp, Except.map] at h
    | ok d =>
      simp only [hdisp, Except.map] at h
      exact ⟨d.1, d.2, rfl, rfl, (Except.ok.inj h).symm⟩

/-- **The receive path of `Update` is `UartRx.poll`**, whatever the handlers do. -/
theorem SCBS.update_receive {env : Env} {cell : SCBS F} {readable : List UInt8}
    {r : SCBS.Updated F} (h : cell.update env readable = .ok r) :
    (cell.toUartRx.poll readable).1 = r.cell.toUartRx ∧
      (cell.toUartRx.poll readable).2.1 = r.unread := by
  rcases update_inv h with ⟨rx, unread, hpoll, rfl⟩ | ⟨rx, unread, line, cell', tx, hpoll, -, rfl⟩
  · rw [hpoll, SCBS.refresh_toUartRx]
    exact ⟨rfl, rfl⟩
  · rw [hpoll, SCBS.refresh_toUartRx]
    exact ⟨rfl, rfl⟩

end Update

/-! ## Runs -/

/-- The receive path with the bytes on their way to it and the lines it handed
over. -/
structure Receiver where
  rx : UartRx
  pending : List UInt8
  handed : List (List UInt8)

/-- Bytes arrive, or `Update` is called while the first `seen` of the pending
bytes are readable. -/
inductive RxEvent where
  | arrive (bytes : List UInt8)
  | update (seen : ℕ)

namespace Receiver

/-- The state after `Init`. -/
def init : Receiver := ⟨UartRx.flushUARTBuf, [], []⟩

def step (r : Receiver) : RxEvent → Receiver
  | .arrive bytes => { r with pending := r.pending ++ bytes }
  | .update seen =>
    let (rx, unread, line) := r.rx.poll (r.pending.take seen)
    { rx := rx, pending := unread ++ r.pending.drop seen, handed := r.handed ++ line.toList }

def run (r : Receiver) (evs : List RxEvent) : Receiver := evs.foldl step r

theorem run_append (r : Receiver) (evs evs' : List RxEvent) :
    r.run (evs ++ evs') = (r.run evs).run evs' :=
  List.foldl_append

end Receiver

/-- The bytes that arrive in a run. -/
def RxEvent.bytes : RxEvent → List UInt8
  | .arrive bytes => bytes
  | .update _ => []

def delivered (evs : List RxEvent) : List UInt8 := evs.flatMap RxEvent.bytes

theorem delivered_append (evs evs' : List RxEvent) :
    delivered (evs ++ evs') = delivered evs ++ delivered evs' :=
  List.flatMap_append

/-- The line as it is handed over: without NULs, with its newline. -/
def handedLine (l : List UInt8) : List UInt8 := l.filter (· ≠ 0) ++ [lineFeed]

theorem no_nul_handedLine (l : List UInt8) : (0 : UInt8) ∉ handedLine l := by
  rw [handedLine, List.mem_append, not_or]
  exact ⟨Holds.no_nul_filter l, by decide⟩

/-- **The invariant of the receive path.**  The bytes consumed so far are cut into
lines of at most 198 bytes and an unterminated rest; the lines have been handed
over in order, and the rest is in the buffer. -/
structure Receiver.Inv (r : Receiver) (arrived : List UInt8) (lines : List (List UInt8))
    (rest : List UInt8) : Prop where
  cut : ∃ consumed, Cut lineFeed consumed lines rest ∧ arrived = consumed ++ r.pending
  short : ∀ l ∈ lines, l.length ≤ 198
  handed : r.handed = lines.map handedLine
  holds : Holds r.rx rest

namespace Receiver

variable {r : Receiver} {arrived rest : List UInt8} {lines : List (List UInt8)}

theorem inv_init : init.Inv [] [] [] :=
  ⟨⟨[], Cut.nil, rfl⟩, by simp, rfl, Holds.flushed⟩

/-- An `Update` call takes some of the pending bytes: more of the unterminated
line, or a whole line. -/
theorem inv_update (h : r.Inv arrived lines rest) (seen : ℕ) :
    ∃ lines' rest', (r.step (.update seen)).Inv arrived lines' rest' := by
  obtain ⟨⟨consumed, hcut, harr⟩, hshort, hhanded, hholds⟩ := h
  have hspec := receivePacket_spec hholds (r.pending.take seen)
  generalize hres : r.rx.receivePacket (r.pending.take seen) = res at hspec
  have hsplit := List.take_append_drop seen r.pending
  simp only [step, UartRx.poll, hres]
  generalize r.pending.drop seen = unseen at hsplit ⊢
  cases hspec with
  | @partly rx u left hread hu hh _ =>
    refine ⟨lines, rest ++ u, ⟨consumed ++ u, hcut.snoc hu, ?_⟩, hshort, by simpa using hhanded, hh⟩
    rw [hread] at hsplit
    simp [harr, ← hsplit]
  | @line rx u left n hread hu hle hh hn =>
    have hline : cstr rx.uartRxBuf = handedLine (rest ++ u) := by
      rw [hh.cstr_buf, handedLine, List.filter_append]
      simp [lineFeed]
    refine ⟨lines ++ [rest ++ u], [], ⟨consumed ++ u ++ [lineFeed], hcut.snoc_line hu, ?_⟩,
      ?_, ?_, ?_⟩
    · rw [hread] at hsplit
      rw [if_pos hn]
      simp [harr, ← hsplit]
    · intro l hl
      rcases List.mem_append.1 hl with hl | hl
      · exact hshort l hl
      · rw [List.mem_singleton.1 hl]
        exact hle
    · rw [if_pos hn]
      simp [hhanded, hline]
    · rw [if_pos hn]
      exact Holds.flushed

/-- Each event keeps the invariant. -/
theorem inv_step (h : r.Inv arrived lines rest) (ev : RxEvent) :
    ∃ lines' rest', (r.step ev).Inv (arrived ++ ev.bytes) lines' rest' := by
  cases ev with
  | arrive bytes =>
    obtain ⟨⟨consumed, hcut, harr⟩, hshort, hhanded, hholds⟩ := h
    exact ⟨lines, rest, ⟨consumed, hcut, by rw [harr, List.append_assoc]; rfl⟩, hshort, hhanded,
      hholds⟩
  | update seen => simpa [RxEvent.bytes] using inv_update h seen

/-- **Every run keeps the invariant.** -/
theorem run_inv (h : r.Inv arrived lines rest) (evs : List RxEvent) :
    ∃ lines' rest', (r.run evs).Inv (arrived ++ delivered evs) lines' rest' := by
  induction evs generalizing r arrived lines rest with
  | nil => exact ⟨lines, rest, by simpa [run, delivered] using h⟩
  | cons ev evs ih =>
    obtain ⟨l₁, r₁, h₁⟩ := inv_step h ev
    obtain ⟨l₂, r₂, h₂⟩ := ih h₁
    exact ⟨l₂, r₂, by simpa [run, delivered, List.append_assoc] using h₂⟩

theorem run_init_inv (evs : List RxEvent) :
    ∃ lines rest, (init.run evs).Inv (delivered evs) lines rest := by
  simpa using run_inv inv_init evs

end Receiver

/-! ## Draining -/

/-- A newline-terminated line that fits into the receive buffer. -/
structure IsLine (p : List UInt8) : Prop where
  fits : p.length ≤ 199
  body : ∃ body, p = body ++ [lineFeed] ∧ lineFeed ∉ body ∧ (0 : UInt8) ∉ body

section Drain

variable {r : Receiver} {arrived s rest : List UInt8} {lines : List (List UInt8)}

/-- What a drained receiver has handed over and kept is the stream as it is cut. -/
theorem Receiver.Inv.drained {ls : List (List UInt8)} {q : List UInt8} (h : r.Inv s ls q)
    (hcut : Cut lineFeed s lines rest) (hpend : r.pending = []) : r.Inv s lines rest := by
  obtain ⟨consumed, hcut', harr⟩ := h.cut
  rw [hpend, List.append_nil] at harr
  obtain ⟨rfl, rfl⟩ := hcut.unique (harr ▸ hcut')
  exact h

/-- When all lines of a stream are short, the unterminated part in the buffer is short at
any time on the way. -/
theorem Receiver.Inv.rest_lt (h : r.Inv arrived lines rest)
    (hs : ∀ seg ∈ s.splitOn lineFeed, seg.length ≤ 198) (hd : arrived <+: s) :
    rest.length < 199 := by
  obtain ⟨consumed, hcut, harr⟩ := h.cut
  obtain ⟨later, hlater⟩ := hd
  obtain ⟨ms, q, hq⟩ := exists_cut lineFeed (r.pending ++ later)
  have hwhole : s = consumed ++ (r.pending ++ later) := by
    rw [← hlater, harr, List.append_assoc]
  -- the rest is the beginning of the next line of the stream
  cases ms with
  | nil =>
    have hq' : r.pending ++ later = q := by
      rw [hq.eq]
      simp
    rw [hwhole, hq', (hcut.snoc hq.rest_free).splitOn_eq] at hs
    have := hs (rest ++ q) (by simp)
    rw [List.length_append] at this
    omega
  | cons m ms =>
    rw [hwhole, (hcut.join hq).splitOn_eq] at hs
    have := hs (rest ++ m) (by simp)
    rw [List.length_append] at this
    omega

/-- An `Update` call that sees pending bytes takes at least one, unless the
counter is at its limit. -/
theorem Receiver.Inv.pending_lt (h : r.Inv arrived lines rest) (hlt : rest.length < 199)
    (hne : r.pending ≠ []) :
    (r.step (.update r.pending.length)).pending.length < r.pending.length := by
  have hspec := receivePacket_spec h.holds r.pending
  generalize hres : r.rx.receivePacket r.pending = res at hspec
  simp only [Receiver.step, UartRx.poll, List.take_length, List.drop_length, List.append_nil, hres]
  cases hspec with
  | @partly rx u left hread hu hh hend =>
    have hlen := congrArg List.length hread
    rw [List.length_append] at hlen
    have hpos := List.length_pos_iff.2 hne
    have hu' : u.length ≠ 0 := by
      intro hu0
      rcases hend with rfl | hend
      · rw [hu0, List.length_nil] at hlen
        omega
      · rw [List.length_append, hu0] at hend
        omega
    simp only [ne_eq, not_true_eq_false, if_false]
    omega
  | @line rx u left n hread hu hle hh hn =>
    have hlen := congrArg List.length hread
    rw [List.length_append, List.length_cons] at hlen
    rw [if_pos hn]
    simp only
    omega

/-- When all lines of a stream are short, `Update` calls drain the pending bytes. -/
theorem drains_of_short (hs : ∀ seg ∈ s.splitOn lineFeed, seg.length ≤ 198)
    {evs : List RxEvent} (hd : delivered evs = s) :
    ∃ more : List ℕ, (Receiver.init.run (evs ++ more.map .update)).pending = [] := by
  simp only [← List.length_eq_zero_iff]
  refine exists_drained (fun evs => delivered evs = s)
    (fun evs => (Receiver.init.run evs).pending.length) .update ?_ hd
  intro evs hd hpend
  obtain ⟨lines, rest, hinv⟩ := Receiver.run_init_inv evs
  refine ⟨(Receiver.init.run evs).pending.length, ?_, ?_⟩
  · rw [delivered_append, hd]
    simp [delivered, RxEvent.bytes]
  · rw [Receiver.run_append]
    exact hinv.pending_lt (hinv.rest_lt hs (hd ▸ List.prefix_refl _))
      fun hnil => hpend (List.length_eq_zero_iff.2 hnil)

end Drain

theorem handedLine_of_no_nul {l : List UInt8} (h : (0 : UInt8) ∉ l) :
    handedLine l = l ++ [lineFeed] := by
  rw [handedLine, List.filter_eq_self.2 fun c hc => decide_eq_true (ne_of_mem_of_not_mem hc h)]

/-- The line of `DISPacket(0)`. -/
def sampleLine : List UInt8 := ascii "$BSDIS,0*53" ++ [lineFeed]

theorem isLine_sampleLine : IsLine sampleLine :=
  ⟨by decide, ascii "$BSDIS,0*53", rfl, by decide, by decide⟩

/-! ## Framing -/

/-- **Framing does not depend on polling.**  A stream without NULs whose lines and rest fit
into the buffer is handed over line by line, and its rest is what stays in the buffer, in
whatever portions it arrives and however many bytes each call of `Update` sees; and it can
always be drained. -/
theorem framing (s : List UInt8) (lines : List (List UInt8)) (rest : List UInt8)
    (hcut : Cut lineFeed s lines rest) (hnul : (0 : UInt8) ∉ s)
    (hlines : ∀ l ∈ lines, (l ++ [lineFeed]).length ≤ 199) (hrest : rest.length ≤ 198)
    (evs : List RxEvent) (hd : delivered evs = s) :
    ((Receiver.init.run evs).pending = [] →
      (Receiver.init.run evs).handed = lines.map (· ++ [lineFeed]) ∧
        cstr (Receiver.init.run evs).rx.uartRxBuf = rest) ∧
    ∃ more : List ℕ, (Receiver.init.run (evs ++ more.map .update)).pending = [] := by
  have hfree : (∀ l ∈ lines, (0 : UInt8) ∉ l) ∧ (0 : UInt8) ∉ rest := by
    rw [hcut.eq, List.mem_append, not_or] at hnul
    refine ⟨fun l hl h => hnul.1 ?_, hnul.2⟩
    exact List.mem_flatten.2 ⟨_, List.mem_map_of_mem hl, List.mem_append_left _ h⟩
  constructor
  · intro hpend
    obtain ⟨ls, q, hinv⟩ := Receiver.run_init_inv evs
    have hend := (hd ▸ hinv).drained hcut hpend
    constructor
    · rw [hend.handed]
      exact List.map_congr_left fun l hl => handedLine_of_no_nul (hfree.1 l hl)
    · rw [hend.holds.cstr_buf]
      exact List.filter_eq_self.2 fun c hc => decide_eq_true (ne_of_mem_of_not_mem hc hfree.2)
  · refine drains_of_short ?_ hd
    rw [hcut.splitOn_eq]
    intro seg hseg
    rcases List.mem_append.1 hseg with hseg | hseg
    · have := hlines seg hseg
      rw [List.length_append, List.length_singleton] at this
      omega
    · rw [List.mem_singleton.1 hseg]
      exact hrest

/-- A line in two portions, a call of `Update` between them that sees nothing, and the
beginning of the next line. -/
def sampleEvents : List RxEvent :=
  [.arrive (ascii "$BSDIS"), .update 4, .update 0,
    .arrive (ascii ",0*53" ++ lineFeed :: ascii "$B"), .update 100, .update 1, .update 1]

theorem framing_sample :
    (Receiver.init.run sampleEvents).handed = [sampleLine] ∧
      cstr (Receiver.init.run sampleEvents).rx.uartRxBuf = ascii "$B" :=
  (framing (sampleLine ++ ascii "$B") [ascii "$BSDIS,0*53"] (ascii "$B")
    ⟨rfl, by decide, by decide⟩ (by decide) (by decide) (by decide) sampleEvents
    (by decide)).1 (by decide +kernel)

end Scbs
