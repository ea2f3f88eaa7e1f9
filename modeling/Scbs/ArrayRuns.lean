import Scbs.ArrayHandlers
import Scbs.Outputs

/-!
# The program on arrays

`Update` with all its arrays: the receive buffer, the parsers, the handlers and the transmitter.

* `Arrays.update`, `Arrays.transmits` — a call of `Update`, and the calls after `Init`.
* `Arrays.update_agrees` — **a call on arrays** does what the call on strings does, as long as
  the receive buffer is in order.
* `Arrays.transmits_eq` — **the program on arrays is the program on strings**: from `Init` on,
  whatever arrives and whatever the arrays hold where they are declared, it leaves an array
  exactly where a parser faults.
* `Arrays.chain_runs` — **the chain on arrays is the chain on strings**: it has the same runs,
  and faults in the same places.
* `Arrays.chain_refines` — **the chain on arrays refines the pack**.
-/

namespace Scbs

open CLib Link Agreement

section Handled

variable {F : Type} [CFloat F]

namespace SCBS

theorem writeRegister_toUartRx (cell : SCBS F) (time regAddr : UInt32) (v : List UInt8) :
    (cell.writeRegister time regAddr v).1.toUartRx = cell.toUartRx := by
  unfold writeRegister
  split
  · rfl
  · split <;> rfl

theorem readRegister_toUartRx (cell : SCBS F) (time regAddr : UInt32) :
    (cell.readRegister time regAddr).1.toUartRx = cell.toUartRx := by
  unfold readRegister
  split <;> rfl

/-- **No handler touches the receive buffer.** -/
theorem handle_toUartRx (cell : SCBS F) (env : Env) (p : Packet) :
    (cell.handle env p).1.toUartRx = cell.toUartRx := by
  cases p with
  | rejected => rfl
  | dis p =>
    show (cell.disPacketHandler p).1.toUartRx = _
    unfold disPacketHandler
    split <;> rfl
  | mrd p =>
    show (cell.mrdPacketHandler env.timeAtRegister p).1.toUartRx = _
    unfold mrdPacketHandler
    split
    · split
      · rfl
      · dsimp only
        split <;> exact cell.readRegister_toUartRx _ _
    · rfl
  | mwr p =>
    show (cell.mwrPacketHandler env.timeAtRegister p).1.toUartRx = _
    unfold mwrPacketHandler
    split
    · dsimp only
      split <;> exact cell.writeRegister_toUartRx _ _ _
    · rfl
  | srd p =>
    show (cell.srdPacketHandler env.timeAtRegister p).1.toUartRx = _
    unfold srdPacketHandler
    split
    · split
      · dsimp only
        split <;> exact cell.readRegister_toUartRx _ _
      · rfl
    · rfl
  | swr p =>
    show (cell.swrPacketHandler env.timeAtRegister p).1.toUartRx = _
    unfold swrPacketHandler
    split
    · split
      · exact cell.writeRegister_toUartRx _ _ _
      · rfl
    · rfl
  | srs p =>
    show (cell.srsPacketHandler p).1.toUartRx = _
    unfold srsPacketHandler
    split <;> rfl

end SCBS

end Handled

namespace Arrays

/-! ## `Update` -/

/-- What the local arrays of a call of `Update` hold where they are declared. -/
structure Scratch where
  packetStr : Vector UInt8 kMaxPacketLen
  parsing : Parsing
  frame : Frame
  errFrame : Frame

/-- `SCBS::FlushUARTBuf`. -/
def flushUARTBuf (rx : UartRx) : Option UartRx := do
  let uartRxBuf ← Buffer.memset rx.uartRxBuf 0 kMaxUARTBufLen
  return ⟨uartRxBuf, 0⟩

section Update

variable {F : Type} [CFloat F]

/-- What `Update` does with the line in `uart_rx_buf_`. -/
def dispatch (scratch : Scratch) (env : Env) (cell : SCBS F) : Option (SCBS F × List UInt8) := do
  let packet ← parse scratch.parsing cell.uartRxBuf scratch.packetStr env
  handle cell scratch.frame scratch.errFrame env.timeAtRegister packet

/-- `SCBS::Update`. -/
def update (scratch : Scratch) (env : Env) (cell : SCBS F) (readable : List UInt8) :
    Option (SCBS.Updated F) := do
  let (rx, unread, len) ← cell.toUartRx.receivePacketChecked readable
  let cell := { cell with toUartRx := rx }
  if len ≠ 0 then
    let cell := cell.turnOnStatusLED env.timeAtPacket kPacketReceivedBlinkTimeMs
    let (cell, tx) ← dispatch scratch env cell
    let rx ← flushUARTBuf cell.toUartRx
    let cell := { cell with toUartRx := rx }
    return { cell := cell.refresh env, unread := unread, tx := tx }
  else return { cell := cell.refresh env, unread := unread, tx := [] }

/-- The cell after some calls of `Update`, and what each of them transmitted. -/
def transmits (cell : SCBS F) : List (Call × Scratch) → Option (SCBS F × List (List UInt8))
  | [] => some (cell, [])
  | (call, scratch) :: calls => do
    let r ← update scratch call.env cell call.readable
    let (cell', later) ← transmits r.cell calls
    return (cell', r.tx :: later)

/-! ## What it does -/

omit [CFloat F] in
/-- The string in the receive buffer. -/
theorem rx_holds {rx : UartRx} (h : BufferOk rx) :
    IsCString (cstr rx.uartRxBuf) ∧
      Buffer.Holds kMaxUARTBufLen (cstr rx.uartRxBuf) rx.uartRxBuf := by
  refine ⟨⟨?_, ?_⟩, h.size, if_pos h.nul_mem⟩
  · intro hmem
    simpa using List.mem_takeWhile_imp hmem
  · exact lt_of_le_of_lt (h.strlen_le.trans h.len_le) (by decide)

theorem flushUARTBuf_eq {rx : UartRx} (h : rx.uartRxBuf.length = kMaxUARTBufLen) :
    flushUARTBuf rx = some UartRx.flushUARTBuf := by
  rw [flushUARTBuf, Buffer.memset_pad h]
  simp [Buffer.pad, UartRx.flushUARTBuf]

/-- **The line in the receive buffer** is parsed and handled. -/
theorem dispatch_agrees (scratch : Scratch) (env : Env) {cell : SCBS F}
    (h : BufferOk cell.toUartRx) :
    Agrees (fun r r' => r' = r ∧ r.1.toUartRx = cell.toUartRx)
      (cell.dispatch env (cstr cell.uartRxBuf)) (dispatch scratch env cell) := by
  obtain ⟨hline, hbuf⟩ := rx_holds h
  rw [SCBS.dispatch_eq]
  unfold dispatch
  refine .map (parse_agrees scratch.parsing hline hbuf scratch.packetStr env) ?_
  rintro p _ ⟨hfits, rfl⟩
  obtain ⟨i, harrays, rfl⟩ := exists_incoming hfits
  rw [← harrays]
  exact ⟨_, handle_eq cell env i, rfl, cell.handle_toUartRx env i.packet⟩

/-- **A call of `Update` on arrays** does what the call on strings does, and faults where it
does. -/
theorem update_agrees (scratch : Scratch) (env : Env) {cell : SCBS F}
    (h : ∃ raw, Holds cell.toUartRx raw) (readable : List UInt8) :
    Agrees (fun r r' => r' = r) (cell.update env readable) (update scratch env cell readable) := by
  obtain ⟨raw, hraw⟩ := h
  have hcheck := hraw.receivePacketChecked readable
  obtain ⟨raw', hraw'⟩ := hraw.receivePacket readable
  unfold SCBS.update update
  generalize cell.toUartRx.receivePacket readable = received at hcheck hraw' ⊢
  obtain ⟨rx, unread, len⟩ := received
  have hok : BufferOk rx := hraw'.bufferOk
  refine .step hcheck (.ite (fun _ => ?_) fun _ => .result rfl)
  refine .bind (dispatch_agrees scratch env hok) ?_
  rintro ⟨cell', tx⟩ _ ⟨rfl, hrx⟩
  refine .step ?_ (.result rfl)
  rw [hrx]
  exact flushUARTBuf_eq hok.size

/-- The calls of `Update` from a state whose receive buffer is in order. -/
theorem transmits_agrees {cell : SCBS F} (h : ∃ raw, Holds cell.toUartRx raw)
    (calls : List (Call × Scratch)) :
    Agrees (fun r r' => r' = r) (cell.transmits (calls.map Prod.fst)) (transmits cell calls) := by
  induction calls generalizing cell with
  | nil => exact .result rfl
  | cons first calls ih =>
    obtain ⟨call, scratch⟩ := first
    unfold transmits
    refine .bind (update_agrees scratch call.env h call.readable).with_eq ?_
    rintro r _ ⟨hupd, rfl⟩
    refine .bind (ih (SCBS.update_holds h hupd)) ?_
    rintro ⟨cell', later⟩ _ rfl
    exact .result rfl

/-- **The program on arrays is the program on strings.**  From `Init` on, whatever arrives,
however the calls of `Update` fall and whatever the arrays hold where they are declared, it
ends in the same state and transmits the same, and it leaves an array exactly where a parser on
strings faults. -/
theorem transmits_eq (cellId : UInt16) (calls : List (Call × Scratch)) :
    transmits (SCBS.init cellId : SCBS F) calls =
      ((SCBS.init cellId).transmits (calls.map Prod.fst)).toOption :=
  agrees_eq_iff.1 (transmits_agrees ⟨[], Holds.flushed⟩ calls)

/-! ## Chains -/

deriving instance Inhabited for Locals, Parsing, Frame, Scratch

/-- One call of `Update` in the chain, whatever its arrays hold where they are declared. -/
def Poll (site : Site F) (seen : List UInt8) (r : Outcome (Site F) UInt8) : Prop :=
  ∃ (env : Env) (scratch : Scratch), env.adcRead ∈ site.adcs ∧
    r = (update scratch env site.cell seen).map fun u =>
      ({ site with cell := u.cell }, u.unread, u.tx)

omit [CFloat F] in
/-- The receive buffers of an idle chain are in order. -/
theorem start_holds {sites : List (Site F)} (hidle : ∀ site ∈ sites, site.Idle) :
    ∀ site ∈ (Pipe.start sites : Pipe (Site F) UInt8).states,
      ∃ raw, Holds site.cell.toUartRx raw := by
  rw [Pipe.states_start]
  exact fun site hsite => ⟨[], (hidle site hsite).symm ▸ Holds.flushed⟩

/-- **A cell on arrays is polled** as the cell on strings is. -/
theorem poll_iff {site : Site F} (h : ∃ raw, Holds site.cell.toUartRx raw) (seen : List UInt8)
    (r : Outcome (Site F) UInt8) : Poll site seen r ↔ site.Poll seen r := by
  have hupd : ∀ env scratch,
      update scratch env site.cell seen = (site.cell.update env seen).toOption :=
    fun env scratch => agrees_eq_iff.1 (update_agrees scratch env h seen)
  constructor
  · rintro ⟨env, scratch, hadc, rfl⟩
    exact ⟨env, hadc, by rw [hupd]⟩
  · rintro ⟨env, hadc, rfl⟩
    exact ⟨env, default, hadc, by rw [hupd]⟩

/-- A poll leaves the receive buffer in order. -/
theorem poll_holds {site site' : Site F} {seen unread tx : List UInt8}
    (h : ∃ raw, Holds site.cell.toUartRx raw) (hpoll : site.Poll seen (some (site', unread, tx))) :
    ∃ raw, Holds site'.cell.toUartRx raw := by
  obtain ⟨env, r, hupd, hcell⟩ := hpoll.exists_update
  rw [hcell]
  exact @SCBS.update_holds _ _ site.cell ⟨env, seen⟩ r h hupd

section Chain

variable {sites : List (Site F)} {sent : List (List UInt8)} {p q : Pipe (Site F) UInt8}

theorem poll_keeps {site site' : Site F} {seen unread tx : List UInt8}
    (h : ∃ raw, Holds site.cell.toUartRx raw) (hpoll : Poll site seen (some (site', unread, tx))) :
    ∃ raw, Holds site'.cell.toUartRx raw :=
  poll_holds h ((poll_iff h seen _).1 hpoll)

theorem run_iff (h : ∀ site ∈ p.states, ∃ raw, Holds site.cell.toUartRx raw) :
    Pipe.Run Poll p sent q ↔ Pipe.Run Site.Poll p sent q :=
  ⟨Pipe.Run.mono (fun hsite seen r => (poll_iff hsite seen r).1) poll_keeps h,
    Pipe.Run.mono (fun hsite seen r => (poll_iff hsite seen r).2) poll_holds h⟩

theorem steps_iff (h : ∀ site ∈ p.states, ∃ raw, Holds site.cell.toUartRx raw) :
    Pipe.Steps Poll p q ↔ Pipe.Steps Site.Poll p q :=
  ⟨fun hsteps => (hsteps.mono (fun hsite seen r => (poll_iff hsite seen r).1) poll_keeps h).1,
    fun hsteps => (hsteps.mono (fun hsite seen r => (poll_iff hsite seen r).2) poll_holds h).1⟩

theorem sound_iff (h : ∀ site ∈ p.states, ∃ raw, Holds site.cell.toUartRx raw) :
    p.Sound Poll ↔ p.Sound Site.Poll :=
  ⟨Pipe.Sound.mono (fun hsite seen r => (poll_iff hsite seen r).2) h,
    Pipe.Sound.mono (fun hsite seen r => (poll_iff hsite seen r).1) h⟩

/-- **The chain on arrays is the chain on strings.**  From cells whose receive buffers are in
order, however the calls of `Update` interleave and whatever their arrays hold where they are
declared: the chain has the same runs, and after each of them a next call can leave an array
exactly when a parser on strings can fault. -/
theorem chain_runs (h : ∀ site ∈ sites, ∃ raw, Holds site.cell.toUartRx raw) :
    (Pipe.Run Poll (Pipe.start sites) sent q ↔ Pipe.Run Site.Poll (Pipe.start sites) sent q) ∧
      (Pipe.Run Poll (Pipe.start sites) sent q → (q.Sound Poll ↔ q.Sound Site.Poll)) := by
  rw [← Pipe.states_start (α := UInt8) sites] at h
  exact ⟨run_iff h, fun hrun => sound_iff (hrun.states_preserve poll_keeps h)⟩

/-- Two cells that are set apart, in a run that has consumed all bytes. -/
theorem chain_runs_sample :
    ∃ q : Pipe (Site ExtRat) UInt8,
      Pipe.Run Poll (Pipe.start ([8, 9].map Site.updated))
        [unlines lineFeed (setApart.map Msg.body)] q ∧ q.Quiet ∧ q.Sound Poll := by
  obtain ⟨q, hrun, hquiet, hsound⟩ := exists_run_setApart
  have hholds := start_holds (@idle_updated [8, 9])
  rw [Pipe.states_start] at hholds
  have harrays := (chain_runs hholds).1.2 hrun
  exact ⟨q, harrays, hquiet, ((chain_runs hholds).2 harrays).2 hsound⟩

/-- **A chain of cells with all their arrays refines the pack.**  For idle cells with constant ADC
readings, and every list of lines that a cell can receive and that make compact requests or are
noise, sent in any pieces, however the calls of `Update` interleave and whatever the arrays hold
where they are declared: no call leaves an array, what has left the chain is the beginning of
the responses of the pack, and the chain can go on until all bytes are consumed; then all
responses have left it, and the registers are those of the pack. -/
theorem chain_refines (hne : sites ≠ []) (hidle : ∀ site ∈ sites, site.Idle)
    (hsteady : ∀ site ∈ sites, site.Steady)
    (hshort : ∀ site ∈ sites, site.cell.registers.Short) (hwrites : WritesShort F)
    {lines : List (List UInt8)} {requests : List Request}
    (hlines : ∀ line ∈ lines, lineFeed ∉ line ∧ line.length < kMaxLineLen)
    (hasks : List.Forall₂ Asks lines requests) (hcompact : ∀ r ∈ requests, r.Compact)
    (hsent : sent.flatten = unlines lineFeed lines)
    (hrun : Pipe.Run Poll (Pipe.start sites) sent q) :
    q.Sound Poll ∧ q.output <+: Pack.linesOf ((packOf sites).run requests).2 ∧
      (∃ q', Pipe.Steps Poll q q' ∧ q'.Quiet) ∧
      (q.Quiet → q.output = Pack.linesOf ((packOf sites).run requests).2 ∧
        q.states.map (·.cell.registers) = ((packOf sites).run requests).1) := by
  have hstart := start_holds hidle
  have hserves := serves_of_feedAll hidle hsteady (Pack.feedAll_run hwrites (packOf_ne_nil hne)
    (short_packOf hshort) hlines hasks hcompact)
  have hstates := hrun.states_preserve poll_keeps hstart
  have hrun' := (run_iff hstart).1 hrun
  obtain ⟨q', hsteps, hquiet⟩ := hserves.settles sent q hsent hrun'
  exact ⟨(sound_iff hstates).2 (hserves.sound sent q hsent hrun'),
    hserves.output_begins sent q hsent hrun', ⟨q', (steps_iff hstates).2 hsteps, hquiet⟩,
    hserves.result sent q hsent hrun'⟩

/-- The same two cells: all responses come out, and no call leaves an array. -/
theorem chain_refines_sample :
    ∃ q : Pipe (Site ExtRat) UInt8,
      Pipe.Run Poll (Pipe.start ([8, 9].map Site.updated))
        [unlines lineFeed (setApart.map Msg.body)] q ∧ q.Sound Poll ∧
      q.output = Pack.linesOf
        ((packOf ([8, 9].map Site.updated)).run (setApart.map Request.msg)).2 := by
  obtain ⟨q, hrun, hquiet, -⟩ := exists_run_setApart
  have hruns := (run_iff (start_holds idle_updated)).2 hrun
  have hall := chain_refines (by simp) idle_updated steady_updated short_updated
    writesShort_extRat lines_setApart asks_setApart
    (by simp [setApart, Request.Compact, Msg.Compact]) (List.flatten_singleton ..) hruns
  exact ⟨q, hruns, hall.1, (hall.2.2.2 hquiet).1⟩

end Chain

end Update

end Arrays

end Scbs
