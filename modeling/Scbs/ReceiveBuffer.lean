import Scbs.Comms.Grammar
import Scbs.Runs

/-!
# The receive buffer

`AppendCharToUARTBuf` checks nothing: that `strncat` writes inside `uart_rx_buf_` comes from
the guard of the loop in `ReceivePacket`, which looks at the counter and not at the string.

* `BufferOk` — the array has its NUL, and the string is no longer than the counter says.
* `receivePacketChecked` — `ReceivePacket` with a bounds check at every append.
* `ReceivesSafely` — the check never fails, whatever is readable, and a line that is handed
  over fits into a packet buffer.
* `receive_buffer_safe` — **every state of every run from `Init` receives safely**: the
  counter is the length of the string and of the NULs left out of it, so the drift between
  the two is on the safe side.
-/

namespace Scbs

open CLib

/-- The receive buffer holds a terminated string, and the counter is at least its length. -/
structure BufferOk (rx : UartRx) : Prop where
  size : rx.uartRxBuf.length = kMaxUARTBufLen
  nul_mem : (0 : UInt8) ∈ rx.uartRxBuf
  strlen_le : strlen rx.uartRxBuf ≤ rx.uartRxBufLen
  len_le : rx.uartRxBufLen ≤ 199

namespace UartRx

/-- `AppendCharToUARTBuf`, or `none` when `strncat` would write the character or its
terminator outside the array. -/
def appendChecked (rx : UartRx) (newChar : UInt8) : Option UartRx :=
  if strlen rx.uartRxBuf + 1 < rx.uartRxBuf.length then some (rx.appendCharToUARTBuf newChar)
  else none

/-- `ReceivePacket`, or `none` when an append would write outside the array. -/
def receivePacketChecked : UartRx → List UInt8 → Option (UartRx × List UInt8 × ℕ)
  | rx, [] => some (rx, [], 0)
  | rx, newChar :: readable =>
    if rx.uartRxBufLen < kMaxUARTBufLen - 1 then
      if newChar = lineFeed then
        (rx.appendChecked newChar).map fun rx => (rx, readable, strlen rx.uartRxBuf)
      else if kMaxUARTBufLen ≤ rx.uartRxBufLen then
        receivePacketChecked flushUARTBuf readable
      else (rx.appendChecked newChar).bind fun rx => receivePacketChecked rx readable
    else some (rx, newChar :: readable, 0)

end UartRx

/-- From this buffer on, whatever is readable: no append writes outside the array, the
buffer is in order afterwards, and a line that is handed over is shorter than a packet. -/
structure ReceivesSafely (rx : UartRx) : Prop where
  ok : BufferOk rx
  inside : ∀ readable, rx.receivePacketChecked readable = some (rx.receivePacket readable)
  received : ∀ readable, BufferOk (rx.receivePacket readable).1
  handed : ∀ readable line, (rx.poll readable).2.2 = some line → IsCString line

namespace Holds

variable {rx : UartRx} {raw : List UInt8}

/-- The counter counts at least the string. -/
theorem strlen_le (h : Holds rx raw) : strlen rx.uartRxBuf ≤ raw.length := by
  rw [h.strlen_buf]
  exact List.length_filter_le _ raw

/-- The array has room for the string and its NUL. -/
theorem strlen_lt (h : Holds rx raw) : (raw.filter (· ≠ 0)).length < kMaxUARTBufLen := by
  rw [← h.strlen_buf]
  exact lt_of_le_of_lt (h.strlen_le.trans h.le) (by decide)

theorem length_buf (h : Holds rx raw) : rx.uartRxBuf.length = kMaxUARTBufLen := by
  rw [h.buf, List.length_append, List.length_replicate]
  exact Nat.add_sub_cancel' h.strlen_lt.le

theorem bufferOk (h : Holds rx raw) : BufferOk rx := by
  refine ⟨h.length_buf, ?_, ?_, ?_⟩
  · rw [h.buf]
    apply List.mem_append_right
    exact List.mem_replicate.2 ⟨Nat.sub_ne_zero_of_lt h.strlen_lt, rfl⟩
  · rw [h.len]
    exact h.strlen_le
  · rw [h.len]
    exact h.le

/-- **An append below the counter's limit is inside the array.** -/
theorem appendChecked (h : Holds rx raw) (hlt : raw.length < 199) (c : UInt8) :
    rx.appendChecked c = some (rx.appendCharToUARTBuf c) := by
  have hle := h.strlen_le
  apply if_pos
  rw [h.length_buf]
  simp only [kMaxUARTBufLen]
  omega

/-- **Every append of `ReceivePacket` is**, since its loop runs below that limit only. -/
theorem receivePacketChecked (h : Holds rx raw) (readable : List UInt8) :
    rx.receivePacketChecked readable = some (rx.receivePacket readable) := by
  induction readable generalizing rx raw with
  | nil => rfl
  | cons c cs ih =>
    unfold UartRx.receivePacketChecked UartRx.receivePacket
    by_cases hlen : rx.uartRxBufLen < kMaxUARTBufLen - 1
    · have hraw : raw.length < 199 := by
        rw [← h.len]
        exact hlen
      have happend := h.appendChecked hraw c
      rw [if_pos hlen, if_pos hlen]
      by_cases hc : c = lineFeed
      · rw [if_pos hc, if_pos hc, happend]
        rfl
      · rw [if_neg hc, if_neg hc]
        by_cases hfull : kMaxUARTBufLen ≤ rx.uartRxBufLen
        · -- the branch for a string that is too long is never taken
          simp only [kMaxUARTBufLen] at hfull hlen
          omega
        · rw [if_neg hfull, if_neg hfull, happend]
          exact ih (h.append hraw c)
    · rw [if_neg hlen, if_neg hlen]

/-- A call of `ReceivePacket` leaves a buffer with some more bytes. -/
theorem receivePacket (h : Holds rx raw) (readable : List UInt8) :
    ∃ raw', Holds (rx.receivePacket readable).1 raw' := by
  have hspec := receivePacket_spec h readable
  generalize rx.receivePacket readable = res at hspec
  cases hspec with
  | partly _ _ hh _ => exact ⟨_, hh⟩
  | line _ _ _ hh _ => exact ⟨_, hh⟩

/-- And so does the flush in `Update`. -/
theorem poll (h : Holds rx raw) (readable : List UInt8) :
    ∃ raw', Holds (rx.poll readable).1 raw' := by
  unfold UartRx.poll
  dsimp only
  split
  · exact ⟨[], flushed⟩
  · exact h.receivePacket readable

/-- What is handed over is a string of less than 200 bytes. -/
theorem isCString_of_poll (h : Holds rx raw) {readable line : List UInt8}
    (hline : (rx.poll readable).2.2 = some line) : IsCString line := by
  obtain ⟨raw', h'⟩ := h.receivePacket readable
  have hcstr : line = cstr (rx.receivePacket readable).1.uartRxBuf := by
    unfold UartRx.poll at hline
    dsimp only at hline
    split at hline
    · exact (Option.some.inj hline).symm
    · exact absurd hline (by simp)
  rw [hcstr]
  constructor
  · rw [h'.cstr_buf]
    exact no_nul_filter raw'
  · exact lt_of_le_of_lt (h'.strlen_le.trans h'.le) (by decide)

theorem receivesSafely (h : Holds rx raw) : ReceivesSafely rx where
  ok := h.bufferOk
  inside := h.receivePacketChecked
  received readable := by
    obtain ⟨raw', h'⟩ := h.receivePacket readable
    exact h'.bufferOk
  handed _ _ := h.isCString_of_poll

end Holds

/-- The lines of the receive path fit into a packet buffer. -/
theorem isCString_handedLine {l : List UInt8} (h : l.length ≤ 198) : IsCString (handedLine l) := by
  refine ⟨not_mem_append_cons (Holds.no_nul_filter l) (by decide) List.not_mem_nil, ?_⟩
  have hfilter := List.length_filter_le (fun c : UInt8 => decide (c ≠ 0)) l
  rw [handedLine, List.length_append, List.length_singleton]
  simp only [kMaxPacketLen]
  omega

section Reachable

variable {F : Type} [CFloat F]

/-- A call of `Update` leaves a buffer with what is unterminated. -/
theorem SCBS.update_holds {cell : SCBS F} {call : Call} {r : SCBS.Updated F}
    (h : ∃ raw, Holds cell.toUartRx raw) (hupd : cell.update call.env call.readable = .ok r) :
    ∃ raw, Holds r.cell.toUartRx raw := by
  obtain ⟨raw, hraw⟩ := h
  rw [← (SCBS.update_receive hupd).1]
  exact hraw.poll call.readable

/-- **The receive buffer never overflows.**  It receives safely in every state of a run from
`Init`, whatever arrives and however the calls of `Update` fall, and every line that has been
handed to the parsers is a string shorter than a packet buffer.  The first part is about the
receive path alone, which goes on whatever the parsers make of its lines; the second about
the cell with its handlers. -/
theorem receive_buffer_safe (evs : List RxEvent) (cellId : UInt16) (calls : List Call)
    (cell : SCBS F) (hist : List Handled)
    (h : (SCBS.init cellId).run calls = .ok (cell, hist)) :
    (ReceivesSafely (Receiver.init.run evs).rx ∧
        ∀ line ∈ (Receiver.init.run evs).handed, IsCString line) ∧
      ReceivesSafely cell.toUartRx := by
  constructor
  · obtain ⟨lines, rest, -, hshort, hhanded, hholds⟩ := Receiver.run_init_inv evs
    refine ⟨hholds.receivesSafely, ?_⟩
    intro line hline
    rw [hhanded] at hline
    obtain ⟨l, hl, rfl⟩ := List.mem_map.1 hline
    exact isCString_handedLine (hshort l hl)
  · obtain ⟨raw, hraw⟩ := SCBS.run_preserves (P := fun cell => ∃ raw, Holds cell.toUartRx raw)
      SCBS.update_holds ⟨[], Holds.flushed⟩ h
    exact hraw.receivesSafely

end Reachable

/-- 300 NULs and letters, in portions. -/
theorem receive_buffer_safe_sample :
    ∃ cell hist, (SCBS.init 0 : SCBS ExtRat).run sampleCalls = .ok (cell, hist) ∧
      ReceivesSafely cell.toUartRx ∧
      BufferOk (Receiver.init.run
        [.arrive (List.replicate 150 0 ++ List.replicate 150 65), .update 100,
          .update 300]).rx := by
  obtain ⟨cell, hist, hrun, -, -⟩ := exists_sampleRun
  have hsafe := receive_buffer_safe
    [.arrive (List.replicate 150 0 ++ List.replicate 150 65), .update 100, .update 300]
    0 sampleCalls cell hist hrun
  exact ⟨cell, hist, hrun, hsafe.2, hsafe.1.1.ok⟩

end Scbs
