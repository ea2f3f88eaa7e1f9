import Scbs.Network

/-!
# Runs of one cell

A cell from the return of `Init` on, through any calls of `Update`, on any bytes.  Each
call hands at most one packet to its handler, and these packets decide the registers.

* `SCBS.parse`, `SCBS.handle`, `SCBS.dispatch_eq` — `Update` first parses a line and then
  handles the packet.
* `SCBS.run` — the state after some calls, with the packets that were handled, and
  `SCBS.transmits`, with the bytes that each call sent.
* `SCBS.handle_spec` — what a handler does to the registers: only a write sets the
  voltage, only a discovery sets the id.
* `last_write_wins` — **the registers hold the last write and the last discovery** of a
  run, and nothing else changes them.
* `rails_iff` — **the voltage stays within its rails**, unless a value is read as a NaN.
* `level_matches_iff` — **the PWM level is that of the voltage register** from the first
  call of `Update` on.
-/

namespace Scbs

open CLib Link

/-! ## Packets and their handlers -/

/-- What `Update` makes of a line: a packet of the type found, or nothing. -/
inductive Packet where
  | rejected
  | dis (p : DISPacket)
  | mrd (p : MRDPacket)
  | mwr (p : MWRPacket)
  | srd (p : SRDPacket)
  | swr (p : SWRPacket)
  | srs (p : SRSPacket)
  deriving DecidableEq

/-- A packet that was handled, with the id of the cell at that moment. -/
structure Handled where
  cellId : UInt16
  packet : Packet
  deriving DecidableEq

namespace Handled

/-- The text of a write to the voltage register. -/
def written : Handled → Option (List UInt8)
  | ⟨_, .mwr p⟩ =>
    if p.isValid ∧ p.regAddr = kRegAddrSetOutputVoltage then some p.value else none
  | ⟨cellId, .swr p⟩ =>
    if p.isValid ∧ p.cellId = cellId ∧ p.regAddr = kRegAddrSetOutputVoltage then some p.value
    else none
  | _ => none

/-- The id in a discovery packet. -/
def discovered : Handled → Option UInt16
  | ⟨_, .dis p⟩ => if p.isValid then some p.lastCellId else none
  | _ => none

end Handled

/-- A call of `Update`: what it reads from outside, and the bytes that are readable. -/
structure Call where
  env : Env
  readable : List UInt8

section Runs

variable {F : Type} [CFloat F]

namespace SCBS

/-- The two parsers that `Update` runs on a line. -/
def parse (env : Env) (line : List UInt8) : Except Fault Packet := do
  let packet ← BSPacket.ofString env.stack line
  if packet.isValid then
    match packet.packetType with
    | .dis => return .dis (← DISPacket.ofString env.stackTyped line)
    | .mrd => return .mrd (← MRDPacket.ofString env.stackTyped line)
    | .mwr => return .mwr (← MWRPacket.ofString env.stackTyped line)
    | .srd => return .srd (← SRDPacket.ofString env.stackTyped line)
    | .swr => return .swr (← SWRPacket.ofString env.stackTyped line)
    | .srs => return .srs (← SRSPacket.ofString env.stackTyped line)
    | .unknown => return .rejected
  else return .rejected

/-- The handler that `Update` calls for a packet. -/
def handle (env : Env) (cell : SCBS F) : Packet → SCBS F × List UInt8
  | .rejected => (cell, [])
  | .dis p => cell.disPacketHandler p
  | .mrd p => cell.mrdPacketHandler env.timeAtRegister p
  | .mwr p => cell.mwrPacketHandler env.timeAtRegister p
  | .srd p => cell.srdPacketHandler env.timeAtRegister p
  | .swr p => cell.swrPacketHandler env.timeAtRegister p
  | .srs p => cell.srsPacketHandler p

/-- `Update` parses a line before it handles the packet. -/
theorem dispatch_eq (env : Env) (cell : SCBS F) (line : List UInt8) :
    cell.dispatch env line = (parse env line).map (cell.handle env) := by
  unfold dispatch parse
  cases BSPacket.ofString env.stack line with
  | error fault => rfl
  | ok packet =>
    simp only [bind, Except.bind]
    by_cases hv : packet.isValid = true
    · rw [if_pos hv, if_pos hv]
      cases packet.packetType with
      | dis => cases DISPacket.ofString env.stackTyped line <;> rfl
      | mrd => cases MRDPacket.ofString env.stackTyped line <;> rfl
      | mwr => cases MWRPacket.ofString env.stackTyped line <;> rfl
      | srd => cases SRDPacket.ofString env.stackTyped line <;> rfl
      | swr => cases SWRPacket.ofString env.stackTyped line <;> rfl
      | srs => cases SRSPacket.ofString env.stackTyped line <;> rfl
      | unknown => rfl
    · rw [if_neg hv, if_neg hv]
      rfl

/-! ## What a handler does to the registers -/

/-- The registers of the cell after a packet: the voltage and the PWM level go with the
value written, the id with the one discovered. -/
structure After (h : Handled) (cell cell' : SCBS F) : Prop where
  cellId : cell'.cellId = h.discovered.elim cell.cellId (· + 1)
  outputVoltage : cell'.outputVoltage =
    h.written.elim cell.outputVoltage fun v => railVoltage (CFloat.strtof v)
  pwmChanLevel : cell'.pwmChanLevel =
    h.written.elim cell.pwmChanLevel fun v => dutyOf (railVoltage (CFloat.strtof v : F))

/-- A packet that neither writes nor discovers changes nothing. -/
theorem After.unchanged {h : Handled} {cell cell' : SCBS F} (hw : h.written = none)
    (hd : h.discovered = none) (hid : cell'.cellId = cell.cellId)
    (hvolt : cell'.outputVoltage = cell.outputVoltage)
    (hlevel : cell'.pwmChanLevel = cell.pwmChanLevel) : After h cell cell' := by
  constructor
  · rw [hd, hid]
    rfl
  · rw [hw, hvolt]
    rfl
  · rw [hw, hlevel]
    rfl

/-- **What `WriteRegister` does to the registers.** -/
theorem writeRegister_spec (cell : SCBS F) (time addr : UInt32) (v : List UInt8) :
    (addr = kRegAddrSetOutputVoltage ∧
      (cell.writeRegister time addr v).1.cellId = cell.cellId ∧
      (cell.writeRegister time addr v).1.outputVoltage = railVoltage (CFloat.strtof v) ∧
      (cell.writeRegister time addr v).1.pwmChanLevel =
        dutyOf (railVoltage (CFloat.strtof v : F))) ∨
    (addr ≠ kRegAddrSetOutputVoltage ∧ (cell.writeRegister time addr v).1 = cell) := by
  by_cases haddr : addr = kRegAddrSetOutputVoltage
  · subst haddr
    exact Or.inl ⟨rfl, rfl, rfl, rfl⟩
  · refine Or.inr ⟨haddr, ?_⟩
    rw [writeRegister, if_neg haddr]
    split <;> rfl

/-- `ReadRegister` changes the LED at most. -/
theorem readRegister_spec (cell : SCBS F) (time addr : UInt32) :
    (cell.readRegister time addr).1.cellId = cell.cellId ∧
      (cell.readRegister time addr).1.outputVoltage = cell.outputVoltage ∧
      (cell.readRegister time addr).1.pwmChanLevel = cell.pwmChanLevel := by
  rcases cell.readRegister_cases time addr with ⟨own, -, hread⟩ | ⟨-, hread⟩
  · rw [hread]
    exact ⟨rfl, rfl, rfl⟩
  · rw [hread]
    exact ⟨rfl, rfl, rfl⟩

section Handlers

variable (cell : SCBS F) (time : UInt32)

theorem after_dis (p : DISPacket) :
    After ⟨cell.cellId, .dis p⟩ cell (cell.disPacketHandler p).1 := by
  unfold disPacketHandler
  by_cases hv : p.isValid = true
  · rw [if_pos hv]
    exact ⟨by simp [Handled.discovered, hv], rfl, rfl⟩
  · rw [if_neg hv]
    exact .unchanged rfl (if_neg hv) rfl rfl rfl

theorem after_mwr (p : MWRPacket) :
    After ⟨cell.cellId, .mwr p⟩ cell (cell.mwrPacketHandler time p).1 := by
  have hfst : (cell.mwrPacketHandler time p).1 =
      if p.isValid then (cell.writeRegister time p.regAddr p.value).1 else cell := by
    unfold mwrPacketHandler
    split
    · dsimp only
      split <;> rfl
    · rfl
  rw [hfst]
  by_cases hv : p.isValid = true
  · rw [if_pos hv]
    rcases cell.writeRegister_spec time p.regAddr p.value with
      ⟨haddr, hid, hvolt, hlevel⟩ | ⟨haddr, hwr⟩
    · have hw : Handled.written ⟨cell.cellId, .mwr p⟩ = some p.value := if_pos ⟨hv, haddr⟩
      exact ⟨hid, by rw [hw]; exact hvolt, by rw [hw]; exact hlevel⟩
    · rw [hwr]
      exact .unchanged (if_neg fun h => haddr h.2) rfl rfl rfl rfl
  · rw [if_neg hv]
    exact .unchanged (if_neg fun h => hv h.1) rfl rfl rfl rfl

theorem after_swr (p : SWRPacket) :
    After ⟨cell.cellId, .swr p⟩ cell (cell.swrPacketHandler time p).1 := by
  unfold swrPacketHandler
  by_cases hv : p.isValid = true
  · rw [if_pos hv]
    by_cases hcell : p.cellId = cell.cellId
    · rw [if_pos hcell]
      rcases cell.writeRegister_spec time p.regAddr p.value with
        ⟨haddr, hid, hvolt, hlevel⟩ | ⟨haddr, hwr⟩
      · have hw : Handled.written ⟨cell.cellId, .swr p⟩ = some p.value :=
          if_pos ⟨hv, hcell, haddr⟩
        exact ⟨hid, by rw [hw]; exact hvolt, by rw [hw]; exact hlevel⟩
      · dsimp only
        rw [hwr]
        exact .unchanged (if_neg fun h => haddr h.2.2) rfl rfl rfl rfl
    · rw [if_neg hcell]
      exact .unchanged (if_neg fun h => hcell h.2.1) rfl rfl rfl rfl
  · rw [if_neg hv]
    exact .unchanged (if_neg fun h => hv h.1) rfl rfl rfl rfl

theorem after_mrd (p : MRDPacket) :
    After ⟨cell.cellId, .mrd p⟩ cell (cell.mrdPacketHandler time p).1 := by
  obtain ⟨hid, hvolt, hlevel⟩ := cell.readRegister_spec time p.regAddr
  unfold mrdPacketHandler
  by_cases hv : p.isValid = true
  · rw [if_pos hv]
    by_cases hfull : kMaxNumValues ≤ p.numValues
    · rw [if_pos hfull]
      exact .unchanged rfl rfl rfl rfl rfl
    · rw [if_neg hfull]
      dsimp only
      split
      · exact .unchanged rfl rfl hid hvolt hlevel
      · exact .unchanged rfl rfl hid hvolt hlevel
  · rw [if_neg hv]
    exact .unchanged rfl rfl rfl rfl rfl

theorem after_srd (p : SRDPacket) :
    After ⟨cell.cellId, .srd p⟩ cell (cell.srdPacketHandler time p).1 := by
  obtain ⟨hid, hvolt, hlevel⟩ := cell.readRegister_spec time p.regAddr
  unfold srdPacketHandler
  by_cases hv : p.isValid = true
  · rw [if_pos hv]
    by_cases hcell : p.cellId = cell.cellId
    · rw [if_pos hcell]
      dsimp only
      split
      · exact .unchanged rfl rfl hid hvolt hlevel
      · exact .unchanged rfl rfl hid hvolt hlevel
    · rw [if_neg hcell]
      exact .unchanged rfl rfl rfl rfl rfl
  · rw [if_neg hv]
    exact .unchanged rfl rfl rfl rfl rfl

theorem after_srs (p : SRSPacket) :
    After ⟨cell.cellId, .srs p⟩ cell (cell.srsPacketHandler p).1 := by
  unfold srsPacketHandler
  split
  · exact .unchanged rfl rfl rfl rfl rfl
  · exact .unchanged rfl rfl rfl rfl rfl

/-- **What a handler does to the registers.** -/
theorem handle_spec (env : Env) (packet : Packet) :
    After ⟨cell.cellId, packet⟩ cell (cell.handle env packet).1 := by
  cases packet with
  | rejected => exact .unchanged rfl rfl rfl rfl rfl
  | dis p => exact cell.after_dis p
  | mrd p => exact cell.after_mrd _ p
  | mwr p => exact cell.after_mwr _ p
  | srd p => exact cell.after_srd _ p
  | swr p => exact cell.after_swr _ p
  | srs p => exact cell.after_srs p

end Handlers

/-! ## Runs -/

/-- The packet that a call hands to its handler, if the call gets a line. -/
def handledIn (cell : SCBS F) (call : Call) : List Handled :=
  match (cell.toUartRx.poll call.readable).2.2 with
  | none => []
  | some line =>
    match parse call.env line with
    | .error _ => []
    | .ok packet => [⟨cell.cellId, packet⟩]

/-- **What a call of `Update` can do**: refresh only, or also handle one packet. -/
theorem update_handled {cell : SCBS F} {call : Call} {r : Updated F}
    (h : cell.update call.env call.readable = .ok r) :
    (∃ rx unread, cell.toUartRx.poll call.readable = (rx, unread, none) ∧
      cell.handledIn call = [] ∧
      r = ⟨({ cell with toUartRx := rx } : SCBS F).refresh call.env, unread, []⟩) ∨
    (∃ rx unread line packet, cell.toUartRx.poll call.readable = (rx, unread, some line) ∧
      parse call.env line = .ok packet ∧ cell.handledIn call = [⟨cell.cellId, packet⟩] ∧
      r = ⟨({ ((cell.received call.env call.readable).handle call.env packet).1 with
          toUartRx := rx } : SCBS F).refresh call.env, unread,
        ((cell.received call.env call.readable).handle call.env packet).2⟩) := by
  rcases update_inv h with ⟨rx, unread, hpoll, rfl⟩ | ⟨rx, unread, line, c, tx, hpoll, hdisp, rfl⟩
  · exact Or.inl ⟨rx, unread, hpoll, by rw [handledIn, hpoll], rfl⟩
  · refine Or.inr ⟨rx, unread, line, ?_⟩
    rw [dispatch_eq] at hdisp
    cases hparse : parse call.env line with
    | error fault => simp [hparse, Except.map] at hdisp
    | ok packet =>
      simp only [hparse, Except.map, Except.ok.injEq] at hdisp
      refine ⟨packet, hpoll, rfl, ?_, by rw [hdisp]⟩
      rw [handledIn, hpoll]
      simp only [hparse]

/-- The state after some calls of `Update`, and the packets they handled. -/
def run (cell : SCBS F) : List Call → Except Fault (SCBS F × List Handled)
  | [] => .ok (cell, [])
  | call :: calls => do
    let r ← cell.update call.env call.readable
    let (cell', later) ← run r.cell calls
    return (cell', cell.handledIn call ++ later)

/-- A run is its first call and the run after it. -/
theorem run_cons {cell cell' : SCBS F} {call : Call} {calls : List Call} {hist : List Handled}
    (h : cell.run (call :: calls) = .ok (cell', hist)) :
    ∃ r later, cell.update call.env call.readable = .ok r ∧ r.cell.run calls = .ok (cell', later) ∧
      hist = cell.handledIn call ++ later := by
  unfold run at h
  cases hupd : cell.update call.env call.readable with
  | error fault => simp [hupd, bind, Except.bind] at h
  | ok r =>
    simp only [hupd, bind, Except.bind] at h
    cases hrun : r.cell.run calls with
    | error fault => simp [hrun] at h
    | ok d =>
      simp only [hrun, pure, Except.pure, Except.ok.injEq, Prod.mk.injEq] at h
      obtain ⟨rfl, rfl⟩ := h
      exact ⟨r, d.2, rfl, hrun, rfl⟩

/-- A call and a run from the state it leaves are a run. -/
theorem run_of_update {cell cell' : SCBS F} {call : Call} {calls : List Call} {r : Updated F}
    {later : List Handled} (hupd : cell.update call.env call.readable = .ok r)
    (hrun : r.cell.run calls = .ok (cell', later)) :
    cell.run (call :: calls) = .ok (cell', cell.handledIn call ++ later) := by
  unfold run
  rw [hupd]
  simp only [bind, Except.bind, hrun, pure, Except.pure]

/-- **The first calls of a run are a run**, and its history begins with theirs. -/
theorem run_append {cell cell' : SCBS F} {calls more : List Call} {hist : List Handled}
    (h : cell.run (calls ++ more) = .ok (cell', hist)) :
    ∃ mid first later, cell.run calls = .ok (mid, first) ∧ mid.run more = .ok (cell', later) ∧
      hist = first ++ later := by
  induction calls generalizing cell hist with
  | nil => exact ⟨cell, [], hist, rfl, h, rfl⟩
  | cons call calls ih =>
    obtain ⟨r, rest, hupd, hrun, rfl⟩ := run_cons h
    obtain ⟨mid, first, later, hfirst, hlater, rfl⟩ := ih hrun
    exact ⟨mid, cell.handledIn call ++ first, later, run_of_update hupd hfirst, hlater,
      (List.append_assoc _ _ _).symm⟩

/-- The cell after some calls of `Update`, and what each of them transmitted. -/
def transmits (cell : SCBS F) : List Call → Except Fault (SCBS F × List (List UInt8))
  | [] => .ok (cell, [])
  | call :: calls => do
    let r ← cell.update call.env call.readable
    let (cell', later) ← transmits r.cell calls
    return (cell', r.tx :: later)

/-- A call and what the calls after it transmit. -/
theorem transmits_of_update {cell cell' : SCBS F} {call : Call} {calls : List Call}
    {r : Updated F} {later : List (List UInt8)}
    (hupd : cell.update call.env call.readable = .ok r)
    (hrun : r.cell.transmits calls = .ok (cell', later)) :
    cell.transmits (call :: calls) = .ok (cell', r.tx :: later) := by
  unfold transmits
  rw [hupd]
  simp only [bind, Except.bind, hrun, pure, Except.pure]

/-- A run transmits something in each of its calls. -/
theorem exists_transmits {cell cell' : SCBS F} {calls : List Call} {hist : List Handled}
    (h : cell.run calls = .ok (cell', hist)) : ∃ tx, cell.transmits calls = .ok (cell', tx) := by
  induction calls generalizing cell hist with
  | nil =>
    obtain ⟨rfl, -⟩ := Prod.mk.inj (Except.ok.inj h)
    exact ⟨[], rfl⟩
  | cons call calls ih =>
    obtain ⟨r, later, hupd, hrun, -⟩ := run_cons h
    obtain ⟨tx, htx⟩ := ih hrun
    exact ⟨r.tx :: tx, transmits_of_update hupd htx⟩

/-- **What every call of `Update` preserves, every run preserves.** -/
theorem run_preserves {P : SCBS F → Prop} (hupdate : ∀ {cell : SCBS F} {call : Call}
      {r : Updated F}, P cell → cell.update call.env call.readable = .ok r → P r.cell)
    {cell cell' : SCBS F} {calls : List Call} {hist : List Handled} (h0 : P cell)
    (h : cell.run calls = .ok (cell', hist)) : P cell' := by
  induction calls generalizing cell hist with
  | nil =>
    obtain ⟨rfl, -⟩ := Prod.mk.inj (Except.ok.inj h)
    exact h0
  | cons call calls ih =>
    obtain ⟨r, later, hupd, hrun, -⟩ := run_cons h
    exact ih (hupdate h0 hupd) hrun

/-- The voltage after some packets: that of the last write, if there is one. -/
def voltageAfter (start : F) (hist : List Handled) : F :=
  match (hist.filterMap Handled.written).getLast? with
  | none => start
  | some v => railVoltage (CFloat.strtof v)

/-- The id after some packets: one more than that of the last discovery, if there is
one. -/
def idAfter (start : UInt16) (hist : List Handled) : UInt16 :=
  match (hist.filterMap Handled.discovered).getLast? with
  | none => start
  | some lastCellId => lastCellId + 1

theorem voltageAfter_append (start : F) (hist later : List Handled) :
    voltageAfter start (hist ++ later) = voltageAfter (voltageAfter start hist) later := by
  unfold voltageAfter
  rw [List.filterMap_append, List.getLast?_append]
  cases (later.filterMap Handled.written).getLast? <;> rfl

theorem idAfter_append (start : UInt16) (hist later : List Handled) :
    idAfter start (hist ++ later) = idAfter (idAfter start hist) later := by
  unfold idAfter
  rw [List.filterMap_append, List.getLast?_append]
  cases (later.filterMap Handled.discovered).getLast? <;> rfl

/-- A handler leaves the registers as the history says. -/
theorem After.registers {h : Handled} {cell cell' : SCBS F} (hafter : After h cell cell') :
    cell'.outputVoltage = voltageAfter cell.outputVoltage [h] ∧
      cell'.cellId = idAfter cell.cellId [h] := by
  rw [hafter.outputVoltage, hafter.cellId]
  unfold voltageAfter idAfter
  constructor
  · cases hw : h.written <;> simp [hw]
  · cases hd : h.discovered <;> simp [hd]

/-- The last part of `Update` sets the level of the voltage register. -/
theorem refresh_level (env : Env) (cell : SCBS F) :
    (cell.refresh env).pwmChanLevel = dutyOf (railVoltage cell.outputVoltage) := by
  rw [refresh_eq]

/-- **What one call of `Update` does to the registers.** -/
theorem update_registers {cell : SCBS F} {call : Call} {r : Updated F}
    (h : cell.update call.env call.readable = .ok r) :
    r.cell.outputVoltage = voltageAfter cell.outputVoltage (cell.handledIn call) ∧
      r.cell.cellId = idAfter cell.cellId (cell.handledIn call) ∧
      r.cell.pwmChanLevel = dutyOf (railVoltage r.cell.outputVoltage) := by
  rcases update_handled h with
    ⟨rx, unread, -, hnone, rfl⟩ | ⟨rx, unread, line, packet, -, -, hone, rfl⟩
  · obtain ⟨hid, hvolt, -, -⟩ := refresh_spec call.env { cell with toUartRx := rx }
    rw [hnone, refresh_level, hid, hvolt]
    exact ⟨rfl, rfl, rfl⟩
  · have hafter := handle_spec (cell.received call.env call.readable) call.env packet
    obtain ⟨hid, hvolt, -, -⟩ := refresh_spec call.env
      { ((cell.received call.env call.readable).handle call.env packet).1 with toUartRx := rx }
    rw [hone, refresh_level, hid, hvolt]
    exact ⟨hafter.registers.1, hafter.registers.2, rfl⟩

/-- **What a run does to the registers.** -/
theorem run_registers {cell cell' : SCBS F} {calls : List Call} {hist : List Handled}
    (h : cell.run calls = .ok (cell', hist)) :
    cell'.outputVoltage = voltageAfter cell.outputVoltage hist ∧
      cell'.cellId = idAfter cell.cellId hist := by
  induction calls generalizing cell hist with
  | nil =>
    obtain ⟨rfl, rfl⟩ := Prod.mk.inj (Except.ok.inj h)
    exact ⟨rfl, rfl⟩
  | cons call calls ih =>
    obtain ⟨r, later, hupd, hrun, rfl⟩ := run_cons h
    obtain ⟨hvolt, hid, -⟩ := update_registers hupd
    obtain ⟨hvolt', hid'⟩ := ih hrun
    rw [hvolt', hid', hvolt, hid, voltageAfter_append, idAfter_append]
    exact ⟨rfl, rfl⟩

end SCBS

/-! ## Last write wins -/

/-- **Last write wins, and nothing else writes.**  In every run from `Init`, on any bytes,
the voltage register holds what `SetOutputVoltage` made of the last value written to it,
or 0, and the id is one more than that of the last discovery, or the one the cell had. -/
theorem last_write_wins (cellId : UInt16) (calls : List Call) (cell : SCBS F)
    (hist : List Handled) (h : (SCBS.init cellId).run calls = .ok (cell, hist)) :
    cell.outputVoltage = SCBS.voltageAfter (CFloat.lit 0) hist ∧
      cell.cellId = SCBS.idAfter cellId hist :=
  SCBS.run_registers h

end Runs

section Sample

/-- Everything outside at 0. -/
def sampleEnv : Env :=
  ⟨0, 0, 0, 0, Vector.replicate kMaxPacketLen 0, Vector.replicate kMaxPacketLen 0⟩

/-- A call that sees a text and the end of a line. -/
def lineCall (text : String) : Call := ⟨sampleEnv, ascii text ++ [13, 10]⟩

/-- A discovery, a write to the cell that it numbered, one to another cell, a write that
fails, and a call without a line. -/
def sampleCalls : List Call :=
  [lineCall "$BSDIS,6*55", lineCall "$BSSWR,7,1000,3.3*73", lineCall "$BSSWR,8,1000,1*63",
    lineCall "$BSMWR,2000,1*6A", ⟨sampleEnv, ascii "$BS"⟩]

/-- A run of a cell that is known by evaluation. -/
theorem exists_run_of_map {α : Type} (f : SCBS ExtRat × List Handled → α) {calls : List Call}
    {v : α} (h : ((SCBS.init 0 : SCBS ExtRat).run calls).toOption.map f = some v) :
    ∃ cell hist, (SCBS.init 0 : SCBS ExtRat).run calls = .ok (cell, hist) ∧ f (cell, hist) = v := by
  cases hrun : (SCBS.init 0 : SCBS ExtRat).run calls with
  | error fault => simp [hrun, Except.toOption] at h
  | ok d =>
    simp only [hrun, Except.toOption, Option.map_some, Option.some.injEq] at h
    exact ⟨d.1, d.2, rfl, h⟩

/-- A run of a cell whose handled packets are known by evaluation. -/
theorem exists_run (calls : List Call) (written : List (List UInt8)) (discovered : List UInt16)
    (h : (((SCBS.init 0 : SCBS ExtRat).run calls).toOption.map fun r =>
      (r.2.filterMap Handled.written, r.2.filterMap Handled.discovered)) =
        some (written, discovered)) :
    ∃ cell hist, (SCBS.init 0 : SCBS ExtRat).run calls = .ok (cell, hist) ∧
      hist.filterMap Handled.written = written ∧
      hist.filterMap Handled.discovered = discovered := by
  obtain ⟨cell, hist, hrun, heq⟩ := exists_run_of_map _ h
  exact ⟨cell, hist, hrun, Prod.mk.inj heq⟩

/-- One value is written in the sample run, and one id discovered. -/
theorem exists_sampleRun :
    ∃ cell hist, (SCBS.init 0 : SCBS ExtRat).run sampleCalls = .ok (cell, hist) ∧
      hist.filterMap Handled.written = [ascii "3.3"] ∧
      hist.filterMap Handled.discovered = [6] :=
  exists_run sampleCalls [ascii "3.3"] [6] (by decide +kernel)

theorem last_write_wins_sample :
    ∃ cell hist, (SCBS.init 0 : SCBS ExtRat).run sampleCalls = .ok (cell, hist) ∧
      cell.outputVoltage = SCBS.railVoltage (CFloat.strtof (ascii "3.3")) ∧ cell.cellId = 7 := by
  obtain ⟨cell, hist, hrun, hwritten, hdiscovered⟩ := exists_sampleRun
  obtain ⟨hvolt, hid⟩ := last_write_wins 0 sampleCalls cell hist hrun
  refine ⟨cell, hist, hrun, ?_, ?_⟩
  · rw [hvolt, SCBS.voltageAfter, hwritten]
    rfl
  · rw [hid, SCBS.idAfter, hdiscovered]
    rfl

end Sample

/-! ## The rails -/

section Rails

/-- A number between the rails stays as it is. -/
theorem SCBS.railVoltage_of_mem {q : ℚ} (h0 : 0 ≤ q) (h : q ≤ 9 / 2) :
    railVoltage (.num q : ExtRat) = .num q := by
  rw [railVoltage_num, min_eq_right h, max_eq_right h0]

/-- The rails do nothing the second time. -/
theorem SCBS.railVoltage_idem (x : ExtRat) : railVoltage (railVoltage x) = railVoltage x := by
  rcases railVoltage_cases x with ⟨-, hnan⟩ | ⟨-, q, hq, h0, h⟩
  · rw [hnan]
    rfl
  · rw [hq, railVoltage_of_mem h0 h]

/-- A call of `SetOutputVoltage` converts a number from 0 to 1000 to `uint16_t`. -/
def CountInRange (voltage : ExtRat) : Prop :=
  ∃ count : ℚ, SCBS.pwmCount (SCBS.railVoltage voltage) = .num count ∧ 0 ≤ count ∧ count ≤ 1000

/-- The calibrated voltage of a number stays on the supply's rails. -/
theorem SCBS.pwmVoltage_num (q : ℚ) :
    ∃ w : ℚ, pwmVoltage (.num q : ExtRat) = .num w ∧ 0 ≤ w ∧ w ≤ 5 := by
  obtain ⟨w, hw⟩ : ∃ w : ℚ, CFloat.sub (.num q) (estimatedOffset (.num q)) = ExtRat.num w :=
    ⟨_, rfl⟩
  unfold pwmVoltage
  simp only [hw]
  exact ⟨_, ExtRat.clamp_num (by norm_num) w, le_max_left _ _,
    max_le (by norm_num) (min_le_left _ _)⟩

theorem countInRange_iff (x : ExtRat) : CountInRange x ↔ x ≠ .nan := by
  rcases SCBS.railVoltage_cases x with ⟨rfl, hnan⟩ | ⟨hx, q, hq, -, -⟩
  · refine iff_of_false ?_ (by simp)
    rintro ⟨count, hcount, -⟩
    rw [hnan, show SCBS.pwmCount ExtRat.nan = .nan by decide] at hcount
    exact ExtRat.noConfusion hcount
  · refine iff_of_true ?_ hx
    obtain ⟨w, hw, h0, h5⟩ := SCBS.pwmVoltage_num q
    refine ⟨w / 5 * 1000, ?_, by positivity, by linarith⟩
    rw [hq, SCBS.pwmCount, hw]
    rfl

/-- The voltage register holds a number between the rails, and refreshing the output
converts a number from 0 to 1000. -/
structure InRails (cell : SCBS ExtRat) : Prop where
  voltage : ∃ q : ℚ, cell.outputVoltage = .num q ∧ 0 ≤ q ∧ q ≤ 9 / 2
  count : CountInRange cell.outputVoltage

theorem inRails_of_mem {cell : SCBS ExtRat}
    (h : ∃ q : ℚ, cell.outputVoltage = .num q ∧ 0 ≤ q ∧ q ≤ 9 / 2) : InRails cell := by
  refine ⟨h, (countInRange_iff _).2 ?_⟩
  obtain ⟨q, hq, -⟩ := h
  rw [hq]
  exact ExtRat.noConfusion

/-- Values that are not read as a NaN keep the voltage within its rails. -/
theorem SCBS.voltageAfter_inRails {hist : List Handled}
    (h : ∀ v ∈ hist.filterMap Handled.written, (CFloat.strtof v : ExtRat) ≠ .nan) :
    ∃ q : ℚ, voltageAfter (.num 0 : ExtRat) hist = .num q ∧ 0 ≤ q ∧ q ≤ 9 / 2 := by
  unfold voltageAfter
  cases hlast : (hist.filterMap Handled.written).getLast? with
  | none => exact ⟨0, rfl, le_rfl, by norm_num⟩
  | some v =>
    rcases railVoltage_cases (CFloat.strtof v) with ⟨hnan, -⟩ | ⟨-, hq⟩
    · exact absurd hnan (h v (List.mem_of_getLast? hlast))
    · exact hq

/-- **The rails.**  In every state of a run the voltage is from 0 to 4.5, and every number
that is converted for the PWM is from 0 to 1000, exactly when no value that is written is
read as a NaN: the rails are two comparisons, and both are false for a NaN. -/
theorem rails_iff (cellId : UInt16) (calls : List Call) (cell : SCBS ExtRat)
    (hist : List Handled) (h : (SCBS.init cellId).run calls = .ok (cell, hist)) :
    ((∀ calls' cell' hist', calls' <+: calls →
        (SCBS.init cellId).run calls' = .ok (cell', hist') → InRails cell') ∧
      ∀ v ∈ hist.filterMap Handled.written, CountInRange (CFloat.strtof v)) ↔
      ∀ v ∈ hist.filterMap Handled.written, (CFloat.strtof v : ExtRat) ≠ .nan := by
  constructor
  · rintro ⟨-, hcount⟩ v hv
    exact (countInRange_iff _).1 (hcount v hv)
  · intro hnan
    refine ⟨?_, fun v hv => (countInRange_iff _).2 (hnan v hv)⟩
    rintro calls' cell' hist' ⟨more, rfl⟩ hrun
    -- what has been written so far is a part of what the run writes
    obtain ⟨mid, first, later, hfirst, -, rfl⟩ := SCBS.run_append h
    obtain ⟨rfl, rfl⟩ := Prod.mk.inj (Except.ok.inj (hrun.symm.trans hfirst))
    apply inRails_of_mem
    rw [(SCBS.run_registers hrun).1]
    apply SCBS.voltageAfter_inRails
    intro v hv
    apply hnan v
    rw [List.filterMap_append]
    exact List.mem_append_left _ hv

theorem rails_sample :
    ∃ cell hist, (SCBS.init 0 : SCBS ExtRat).run sampleCalls = .ok (cell, hist) ∧
      InRails cell := by
  obtain ⟨cell, hist, hrun, hwritten, -⟩ := exists_sampleRun
  have hiff := rails_iff 0 sampleCalls cell hist hrun
  refine ⟨cell, hist, hrun, (hiff.2 ?_).1 sampleCalls cell hist List.prefix_rfl hrun⟩
  rw [hwritten]
  decide +kernel

/-- A write of the text `nan`, and the voltage register holds a NaN. -/
theorem not_inRails_nan :
    ∃ cell hist, (SCBS.init 0 : SCBS ExtRat).run [lineCall "$BSMWR,1000,nan*39"] =
        .ok (cell, hist) ∧ cell.outputVoltage = .nan ∧ ¬ InRails cell := by
  obtain ⟨cell, hist, hrun, hwritten, -⟩ := exists_run [lineCall "$BSMWR,1000,nan*39"]
    [ascii "nan"] [] (by decide +kernel)
  have hvolt : cell.outputVoltage = .nan := by
    rw [(SCBS.run_registers hrun).1, SCBS.voltageAfter, hwritten]
    decide +kernel
  refine ⟨cell, hist, hrun, hvolt, fun h => ?_⟩
  obtain ⟨q, hq, -⟩ := h.voltage
  rw [hvolt] at hq
  exact ExtRat.noConfusion hq

end Rails

/-! ## The PWM level -/

section Level

/-- The level of the PWM channel is the duty that `SetOutputVoltage` computes for the
voltage register. -/
def SCBS.LevelMatches (cell : SCBS ExtRat) : Prop :=
  cell.pwmChanLevel = dutyOf (railVoltage cell.outputVoltage)

/-- A handler writes the register and the level together. -/
theorem SCBS.handle_levelMatches {cell : SCBS ExtRat} (h : cell.LevelMatches) (env : Env)
    (packet : Packet) : (cell.handle env packet).1.LevelMatches := by
  have hafter := cell.handle_spec env packet
  unfold LevelMatches
  rw [hafter.pwmChanLevel, hafter.outputVoltage]
  cases Handled.written ⟨cell.cellId, packet⟩ with
  | none => exact h
  | some v => exact (congrArg dutyOf (railVoltage_idem _)).symm

/-- Every call of `Update` ends with a level that matches. -/
theorem SCBS.run_levelMatches {cell cell' : SCBS ExtRat} {call : Call} {calls : List Call}
    {hist : List Handled} (h : cell.run (call :: calls) = .ok (cell', hist)) :
    cell'.LevelMatches := by
  induction calls generalizing cell call hist with
  | nil =>
    obtain ⟨r, later, hupd, hrun, -⟩ := run_cons h
    obtain ⟨rfl, -⟩ := Prod.mk.inj (Except.ok.inj hrun)
    exact (update_registers hupd).2.2
  | cons next calls ih =>
    obtain ⟨r, later, -, hrun, -⟩ := run_cons h
    exact ih hrun

/-- `Init` programs the level 0, which on the inverted scale of `SetOutputVoltage` is the
highest voltage; the register says 0 V. -/
theorem SCBS.not_levelMatches_init (cellId : UInt16) :
    ¬ (SCBS.init cellId : SCBS ExtRat).LevelMatches := by
  unfold LevelMatches
  have hduty : dutyOf (railVoltage (CFloat.lit 0 : ExtRat)) = 1000 := by decide +kernel
  have hlevel : (SCBS.init cellId : SCBS ExtRat).pwmChanLevel = 0 := rfl
  rw [hlevel, show (SCBS.init cellId : SCBS ExtRat).outputVoltage = CFloat.lit 0 from rfl, hduty]
  decide

/-- **The PWM level.**  In a run from `Init` the level is that of the voltage register
exactly when `Update` has been called. -/
theorem level_matches_iff (cellId : UInt16) (calls : List Call) (cell : SCBS ExtRat)
    (hist : List Handled) (h : (SCBS.init cellId).run calls = .ok (cell, hist)) :
    cell.LevelMatches ↔ calls ≠ [] := by
  cases calls with
  | nil =>
    obtain ⟨rfl, -⟩ := Prod.mk.inj (Except.ok.inj h)
    exact iff_of_false (SCBS.not_levelMatches_init cellId) (by simp)
  | cons call calls => exact iff_of_true (SCBS.run_levelMatches h) (by simp)

theorem level_matches_sample :
    ∃ cell hist, (SCBS.init 0 : SCBS ExtRat).run sampleCalls = .ok (cell, hist) ∧
      cell.LevelMatches := by
  obtain ⟨cell, hist, hrun, -, -⟩ := exists_sampleRun
  exact ⟨cell, hist, hrun, (level_matches_iff 0 sampleCalls cell hist hrun).2 (by decide)⟩

/-- The state that `Init` leaves behind. -/
theorem not_levelMatches_after_init :
    ∃ cell hist, (SCBS.init 0 : SCBS ExtRat).run [] = .ok (cell, hist) ∧
      cell.pwmChanLevel = 0 ∧ SCBS.dutyOf (SCBS.railVoltage cell.outputVoltage) = 1000 ∧
      ¬ cell.LevelMatches :=
  ⟨SCBS.init 0, [], rfl, rfl, by decide +kernel, SCBS.not_levelMatches_init 0⟩

end Level

end Scbs
