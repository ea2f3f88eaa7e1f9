import Scbs.Link.Machine
import Scbs.Meaning
import Scbs.Pipelining

/-!
# A cell as a machine

What a cell answers depends on its id, its voltage, the current it measured last and the
bytes of the line it is receiving, and on nothing else: not on the clock, the LED, the PWM
level, the uninitialised arrays of the parsers, or on how the bytes are spread over calls of
`Update`.

* `Registers`, `Registers.answer` — the registers of a cell, and what it answers to a packet.
* `LineCell.step` — the machine: it collects a line byte by byte, and answers it.
* `cellPoller` — **`Update` works like this machine.**
* `chain_determined` — **a chain of cells computes a function of the bytes sent to it**, for
  all bytes: requests, responses, noise, parts of lines and lines of any length.
-/

namespace Scbs

open CLib Link

/-! ## Registers -/

/-- What a cell answers from: its id, its voltage and the current it measured last. -/
structure Registers (F : Type) where
  cellId : UInt16
  voltage : F
  current : F
  deriving DecidableEq

section Registers

variable {F : Type} [CFloat F]

/-- The registers of a cell. -/
def SCBS.registers (cell : SCBS F) : Registers F :=
  ⟨cell.cellId, cell.outputVoltage, cell.outputCurrent⟩

/-- A cell after `Init` that holds these registers. -/
def Registers.cell (regs : Registers F) : SCBS F :=
  { (SCBS.init regs.cellId : SCBS F) with
    outputVoltage := regs.voltage
    outputCurrent := regs.current }

/-- What a cell with these registers makes of a packet, and what it transmits. -/
def Registers.answer (regs : Registers F) (packet : Packet) : Registers F × List UInt8 :=
  let r := regs.cell.handle sampleEnv packet
  (r.1.registers, r.2)

namespace SCBS

variable {cell cell' : SCBS F}

/-- `WriteRegister` sees and sets the registers only. -/
theorem writeRegister_congr (h : cell.registers = cell'.registers) (time time' addr : UInt32)
    (v : List UInt8) :
    (cell.writeRegister time addr v).1.registers = (cell'.writeRegister time' addr v).1.registers ∧
      (cell.writeRegister time addr v).2 = (cell'.writeRegister time' addr v).2 := by
  obtain ⟨hid, -, hcur⟩ := Registers.mk.inj h
  unfold writeRegister
  split
  · exact ⟨congrArg₂ (Registers.mk · _ ·) hid hcur, rfl⟩
  · split
    · exact ⟨h, rfl⟩
    · exact ⟨h, rfl⟩

/-- So does `ReadRegister`. -/
theorem readRegister_congr (h : cell.registers = cell'.registers) (time time' addr : UInt32) :
    (cell.readRegister time addr).1.registers = (cell'.readRegister time' addr).1.registers ∧
      (cell.readRegister time addr).2.1 = (cell'.readRegister time' addr).2.1 ∧
      (cell.readRegister time addr).2.2 = (cell'.readRegister time' addr).2.2 := by
  obtain ⟨-, hvolt, hcur⟩ := Registers.mk.inj h
  unfold readRegister
  rw [hvolt, hcur]
  cases registerText cell'.outputVoltage cell'.outputCurrent addr with
  | none => exact ⟨h, rfl, rfl⟩
  | some text => exact ⟨h, rfl, rfl⟩

omit [CFloat F] in
theorem transmitError_congr (h : cell.registers = cell'.registers) (errCode : UInt16) :
    cell.transmitError errCode = cell'.transmitError errCode := by
  have hid : cell.cellId = cell'.cellId := congrArg Registers.cellId h
  rw [transmitError, transmitError, hid]

/-- **What a cell makes of a packet is a function of its registers.** -/
theorem handle_congr (h : cell.registers = cell'.registers) (env env' : Env) (packet : Packet) :
    (cell.handle env packet).1.registers = (cell'.handle env' packet).1.registers ∧
      (cell.handle env packet).2 = (cell'.handle env' packet).2 := by
  have hid : cell.cellId = cell'.cellId := congrArg Registers.cellId h
  have herr := transmitError_congr h
  cases packet with
  | rejected => exact ⟨h, rfl⟩
  | dis p =>
    obtain ⟨-, hvolt, hcur⟩ := Registers.mk.inj h
    simp only [handle, disPacketHandler]
    split
    · exact ⟨congrArg₂ (Registers.mk _ · ·) hvolt hcur, rfl⟩
    · exact ⟨h, herr _⟩
  | mwr p =>
    obtain ⟨hregs, hcode⟩ :=
      writeRegister_congr h env.timeAtRegister env'.timeAtRegister p.regAddr p.value
    simp only [handle, mwrPacketHandler]
    split
    · rw [hcode]
      split
      · exact ⟨hregs, transmitError_congr hregs _⟩
      · exact ⟨hregs, rfl⟩
    · exact ⟨h, herr _⟩
  | mrd p =>
    obtain ⟨hregs, hcode, htext⟩ :=
      readRegister_congr h env.timeAtRegister env'.timeAtRegister p.regAddr
    simp only [handle, mrdPacketHandler]
    split
    · split
      · exact ⟨h, herr _⟩
      · rw [hcode, htext]
        split
        · exact ⟨hregs, transmitError_congr hregs _⟩
        · exact ⟨hregs, rfl⟩
    · exact ⟨h, herr _⟩
  | srd p =>
    obtain ⟨hregs, hcode, htext⟩ :=
      readRegister_congr h env.timeAtRegister env'.timeAtRegister p.regAddr
    simp only [handle, srdPacketHandler, hid]
    split
    · split
      · have hid' : (cell.readRegister env.timeAtRegister p.regAddr).1.cellId =
            (cell'.readRegister env'.timeAtRegister p.regAddr).1.cellId :=
          congrArg Registers.cellId hregs
        rw [hcode, htext]
        split
        · exact ⟨hregs, transmitError_congr hregs _⟩
        · exact ⟨hregs, by rw [hid']⟩
      · exact ⟨h, rfl⟩
    · exact ⟨h, herr _⟩
  | swr p =>
    obtain ⟨hregs, hcode⟩ :=
      writeRegister_congr h env.timeAtRegister env'.timeAtRegister p.regAddr p.value
    simp only [handle, swrPacketHandler, hid]
    split
    · split
      · rw [hcode]
        exact ⟨hregs, transmitError_congr hregs _⟩
      · exact ⟨h, rfl⟩
    · exact ⟨h, herr _⟩
  | srs p =>
    simp only [handle, srsPacketHandler]
    split
    · exact ⟨h, rfl⟩
    · exact ⟨h, herr _⟩

/-- The handler of a packet answers from the registers. -/
theorem handle_answer {regs : Registers F} (h : cell.registers = regs) (env : Env)
    (packet : Packet) :
    (cell.handle env packet).1.registers = (regs.answer packet).1 ∧
      (cell.handle env packet).2 = (regs.answer packet).2 := by
  have hregs : cell.registers = regs.cell.registers := h
  exact handle_congr hregs env sampleEnv packet

end SCBS

/-! ## The machine -/

/-- A cell that is receiving a line: its registers, and the bytes of the line so far. -/
structure LineCell (F : Type) where
  regs : Registers F
  raw : List UInt8
  deriving DecidableEq

/-- The longest part of a line that fits the receive buffer. -/
def kMaxLineLen : ℕ := kMaxUARTBufLen - 1

theorem isLine_filter {u : List UInt8} (hu : lineFeed ∉ u) (hlt : u.length < kMaxLineLen) :
    IsLine (u.filter (· ≠ 0) ++ [lineFeed]) := by
  refine ⟨?_, _, rfl, fun h => hu (List.mem_of_mem_filter h), Holds.no_nul_filter u⟩
  have hle := List.length_filter_le (fun c : UInt8 => decide (c ≠ 0)) u
  rw [List.length_append, List.length_singleton]
  simp only [kMaxLineLen, kMaxUARTBufLen] at hlt
  omega

/-- **A cell as a machine.**  A byte goes to the line; the newline ends it, and the cell
answers what the line says without its NULs.  When the buffer is full of a line that has not
ended, nothing is taken any more. -/
def LineCell.step : Machine (LineCell F) UInt8 := fun a c =>
  if kMaxLineLen ≤ a.raw.length then some (a, [])
  else if c = lineFeed then
    (packetOf (a.raw.filter (· ≠ 0) ++ [lineFeed])).map fun packet =>
      (⟨(a.regs.answer packet).1, []⟩, (a.regs.answer packet).2)
  else some (⟨a.regs, a.raw ++ [c]⟩, [])

namespace LineCell

/-- The buffer is full of a line that has not ended. -/
def Jammed (a : LineCell F) : Prop := kMaxLineLen ≤ a.raw.length

variable {a b : LineCell F} {u out : List UInt8}

theorem step_jammed {c : UInt8} (h : a.Jammed) (hstep : step a c = some (b, out)) :
    b = a ∧ out = [] := by
  have hfull : kMaxLineLen ≤ a.raw.length := h
  rw [step, if_pos hfull] at hstep
  obtain ⟨rfl, rfl⟩ := Prod.mk.inj (Option.some.inj hstep)
  exact ⟨rfl, rfl⟩

/-- Bytes of a line are taken as long as they fit. -/
theorem feed_part (hu : lineFeed ∉ u) (hle : (a.raw ++ u).length ≤ kMaxLineLen) :
    Machine.feed step a u = some (⟨a.regs, a.raw ++ u⟩, []) := by
  induction u generalizing a with
  | nil =>
    rw [List.append_nil]
    rfl
  | cons c u ih =>
    rw [List.mem_cons, not_or] at hu
    have hlt : ¬ kMaxLineLen ≤ a.raw.length := by
      rw [List.length_append, List.length_cons] at hle
      omega
    have hstep : step a c = some (⟨a.regs, a.raw ++ [c]⟩, []) := by
      rw [step, if_neg hlt, if_neg (Ne.symm hu.1)]
    rw [Machine.feed, hstep]
    simp only [Option.bind_some]
    rw [ih hu.2 (by simpa using hle)]
    simp

/-- **A line that fits is answered.** -/
theorem feed_line {packet : Packet} (hu : lineFeed ∉ u) (hlt : (a.raw ++ u).length < kMaxLineLen)
    (hp : packetOf ((a.raw ++ u).filter (· ≠ 0) ++ [lineFeed]) = some packet) :
    Machine.feed step a (u ++ [lineFeed]) =
      some (⟨(a.regs.answer packet).1, []⟩, (a.regs.answer packet).2) := by
  have hstep : step ⟨a.regs, a.raw ++ u⟩ lineFeed =
      some (⟨(a.regs.answer packet).1, []⟩, (a.regs.answer packet).2) := by
    rw [step, if_neg (not_le.2 hlt), if_pos rfl]
    simp only [hp, Option.map_some]
  have hlast : Machine.feed step ⟨a.regs, a.raw ++ u⟩ [lineFeed] =
      some (⟨(a.regs.answer packet).1, []⟩, (a.regs.answer packet).2) := by
    rw [Machine.feed, hstep]
    simp
  exact Machine.feed_concat (feed_part hu hlt.le) hlast

/-- The packet that a machine answers at the end of a line. -/
theorem packetOf_of_feed {v : List UInt8} (hu : lineFeed ∉ u)
    (hlt : (a.raw ++ u).length < kMaxLineLen)
    (h : Machine.feed step a (u ++ lineFeed :: v) = some (b, out)) :
    ∃ packet, packetOf ((a.raw ++ u).filter (· ≠ 0) ++ [lineFeed]) = some packet := by
  obtain ⟨c, o, o', hfirst, hlast, -⟩ := Machine.feed_split h
  rw [feed_part hu hlt.le] at hfirst
  obtain ⟨rfl, -⟩ := Prod.mk.inj (Option.some.inj hfirst)
  rw [Machine.feed] at hlast
  obtain ⟨r, hr, -⟩ := Option.bind_eq_some_iff.1 hlast
  rw [step, if_neg (not_le.2 hlt), if_pos rfl] at hr
  obtain ⟨packet, hp, -⟩ := Option.map_eq_some_iff.1 hr
  exact ⟨packet, hp⟩

/-- The site stands for the machine: its registers and its buffer are as the machine says,
and its ADC reads the current in the register. -/
structure Sim (a : LineCell F) (site : Site F) : Prop where
  registers : site.cell.registers = a.regs
  holds : Holds site.cell.toUartRx a.raw
  adcs : ∀ adc ∈ site.adcs, SCBS.currentOfCounts adc = a.regs.current

end LineCell

/-- **What the accesses to the registers preserve, every handler preserves.** -/
theorem SCBS.handle_preserves {P : SCBS F → Prop}
    (hid : ∀ {cell : SCBS F} (id : UInt16), P cell → P { cell with cellId := id })
    (hwrite : ∀ {cell : SCBS F} (time addr : UInt32) (v : List UInt8), P cell →
      P (cell.writeRegister time addr v).1)
    (hread : ∀ {cell : SCBS F} (time addr : UInt32), P cell → P (cell.readRegister time addr).1)
    {cell : SCBS F} (h : P cell) (env : Env) (packet : Packet) :
    P (cell.handle env packet).1 := by
  cases packet with
  | rejected => exact h
  | dis p =>
    simp only [handle, disPacketHandler]
    split
    · exact hid _ h
    · exact h
  | mwr p =>
    simp only [handle, mwrPacketHandler]
    split
    · split
      · exact hwrite _ _ _ h
      · exact hwrite _ _ _ h
    · exact h
  | mrd p =>
    simp only [handle, mrdPacketHandler]
    split
    · split
      · exact h
      · split
        · exact hread _ _ h
        · exact hread _ _ h
    · exact h
  | srd p =>
    simp only [handle, srdPacketHandler]
    split
    · split
      · split
        · exact hread _ _ h
        · exact hread _ _ h
      · exact h
    · exact h
  | swr p =>
    simp only [handle, swrPacketHandler]
    split
    · split
      · exact hwrite _ _ _ h
      · exact h
    · exact h
  | srs p =>
    simp only [handle, srsPacketHandler]
    split
    · exact h
    · exact h

/-- No handler touches the current. -/
theorem SCBS.handle_outputCurrent (cell : SCBS F) (env : Env) (packet : Packet) :
    (cell.handle env packet).1.outputCurrent = cell.outputCurrent := by
  refine handle_preserves (P := fun c : SCBS F => c.outputCurrent = cell.outputCurrent) ?_ ?_ ?_
    rfl env packet
  · exact fun _ h => h
  · intro c time addr v h
    unfold writeRegister
    split
    · exact h
    · split
      · exact h
      · exact h
  · intro c time addr h
    unfold readRegister
    split
    · exact h
    · exact h

theorem Registers.answer_current (regs : Registers F) (packet : Packet) :
    (regs.answer packet).1.current = regs.current :=
  regs.cell.handle_outputCurrent sampleEnv packet

/-- The last part of `Update` leaves the registers alone, if the ADC reads what it read
before. -/
theorem SCBS.refresh_registers {cell : SCBS F} {regs : Registers F} (env : Env)
    (h : cell.registers = regs) (hcur : currentOfCounts env.adcRead = regs.current) :
    (cell.refresh env).registers = regs := by
  obtain ⟨hid, hvolt, hcurrent, -⟩ := refresh_spec env cell
  rw [registers, hid, hvolt, hcurrent, hcur, ← h]
  rfl

namespace LineCell

variable {a b : LineCell F} {out seen : List UInt8} {site : Site F}
  {r : Outcome (Site F) UInt8}

/-- **A call of `Update` is the machine on the bytes it takes.** -/
theorem Sim.poll (hsim : a.Sim site) (hfeed : Machine.feed step a seen = some (b, out))
    (h : site.Poll seen r) :
    ∃ taken unread a' site' tx, seen = taken ++ unread ∧ r = some (site', unread, tx) ∧
      Machine.feed step a taken = some (a', tx) ∧ Sim a' site' ∧
      (taken = [] → seen = [] ∨ a.Jammed) := by
  obtain ⟨env, hadc, rfl⟩ := h
  have hcur := hsim.adcs _ hadc
  have hspec := receivePacket_spec hsim.holds seen
  cases hrec : site.cell.toUartRx.receivePacket seen with
  | mk rx res =>
    obtain ⟨unread, n⟩ := res
    rw [hrec] at hspec
    cases hspec with
    | @partly _ u _ hread hu hh hend =>
      have hle : (a.raw ++ u).length ≤ kMaxLineLen := hh.le
      have hpoll : site.cell.toUartRx.poll seen = (rx, unread, none) := by
        simp [UartRx.poll, hrec]
      refine ⟨u, unread, ⟨a.regs, a.raw ++ u⟩,
        { site with cell := ({ site.cell with toUartRx := rx } : SCBS F).refresh env }, [], hread,
        ?_, feed_part hu hle, ?_, ?_⟩
      · rw [SCBS.update_poll, hpoll]
        rfl
      · refine ⟨SCBS.refresh_registers env hsim.registers hcur, ?_, hsim.adcs⟩
        rw [SCBS.refresh_toUartRx]
        exact hh
      · rintro rfl
        rcases hend with hend | hend
        · exact Or.inl (by rw [hread, hend]; rfl)
        · rw [List.append_nil] at hend
          exact Or.inr (by rw [Jammed, hend]; exact le_rfl)
    | @line _ u _ _ hread hu hle hh hn =>
      have hlt : (a.raw ++ u).length < kMaxLineLen := Nat.lt_succ_of_le hle
      rw [hread] at hfeed
      obtain ⟨packet, hp⟩ := packetOf_of_feed hu hlt hfeed
      have hnul : (0 : UInt8) ∉ (a.raw ++ u).filter (· ≠ 0) ++ [lineFeed] := by
        rw [List.mem_append, not_or]
        exact ⟨Holds.no_nul_filter _, by decide⟩
      have hparse := (packetOf_eq_some_iff hnul).1 hp env
      have hline : cstr rx.uartRxBuf = (a.raw ++ u).filter (· ≠ 0) ++ [lineFeed] := by
        rw [hh.cstr_buf, List.filter_append]
        rfl
      have hpoll : site.cell.toUartRx.poll seen = (UartRx.flushUARTBuf, unread,
          some ((a.raw ++ u).filter (· ≠ 0) ++ [lineFeed])) := by
        simp only [UartRx.poll, hrec, if_pos hn, hline]
      have hregs : (site.cell.received env seen).registers = a.regs := hsim.registers
      obtain ⟨hafter, htx⟩ := SCBS.handle_answer hregs env packet
      have hsite : (site.cell.update env seen).toOption.map (fun r =>
          (({ site with cell := r.cell } : Site F), r.unread, r.tx)) =
          some ({ site with cell := ({ ((site.cell.received env seen).handle env packet).1 with
            toUartRx := UartRx.flushUARTBuf } : SCBS F).refresh env }, unread,
            (a.regs.answer packet).2) := by
        rw [SCBS.update_poll, hpoll]
        simp only [SCBS.dispatch_eq, hparse, Except.map, Except.toOption, Option.map_some, htx]
      refine ⟨u ++ [lineFeed], unread, ⟨(a.regs.answer packet).1, []⟩, _,
        (a.regs.answer packet).2, by rw [hread]; simp, hsite, feed_line hu hlt hp, ?_, by simp⟩
      have hsame := (a.regs.answer_current packet).symm
      refine ⟨SCBS.refresh_registers env hafter (hcur.trans hsame), ?_,
        fun adc hadc => (hsim.adcs adc hadc).trans hsame⟩
      rw [SCBS.refresh_toUartRx]
      exact Holds.flushed

end LineCell

/-- **`Update` works like the machine.** -/
def cellPoller (F : Type) [CFloat F] : Poller (Site F) UInt8 (LineCell F) where
  poll := Site.Poll
  step := LineCell.step
  sim := LineCell.Sim
  Jammed := LineCell.Jammed
  exists_poll := Site.exists_poll
  step_jammed := LineCell.step_jammed
  poll_feed := LineCell.Sim.poll

/-! ## Lines -/

namespace LineCell

variable {a b : LineCell F} {u : List UInt8}

/-- A machine that has jammed takes everything and does nothing. -/
theorem feed_of_jammed (h : a.Jammed) (u : List UInt8) :
    Machine.feed step a u = some (a, []) := by
  have hfull : kMaxLineLen ≤ a.raw.length := h
  induction u with
  | nil => rfl
  | cons c u ih =>
    have hstep : step a c = some (a, []) := by rw [step, if_pos hfull]
    rw [Machine.feed, hstep]
    simp [ih]

/-- Bytes of a line jam the machine or are kept, and the registers stay. -/
theorem feed_open (hu : lineFeed ∉ u) :
    ∃ b, Machine.feed step a u = some (b, []) ∧ b.regs = a.regs ∧
      (b.Jammed ∨ (b = ⟨a.regs, a.raw ++ u⟩ ∧ (a.raw ++ u).length < kMaxLineLen)) := by
  by_cases hfull : a.Jammed
  · exact ⟨a, feed_of_jammed hfull u, rfl, Or.inl hfull⟩
  by_cases hle : (a.raw ++ u).length < kMaxLineLen
  · exact ⟨_, feed_part hu hle.le, rfl, Or.inr ⟨rfl, hle⟩⟩
  -- the line fills the buffer, and the rest of it waits
  have hroom : a.raw.length < kMaxLineLen := not_le.1 hfull
  rw [List.length_append] at hle
  have hlen : (a.raw ++ u.take (kMaxLineLen - a.raw.length)).length = kMaxLineLen := by
    rw [List.length_append, List.length_take]
    omega
  have hfirst := feed_part (a := a) (fun h => hu (List.mem_of_mem_take h)) hlen.le
  have hjam : Jammed ⟨a.regs, a.raw ++ u.take (kMaxLineLen - a.raw.length)⟩ := hlen.ge
  have hall := Machine.feed_concat hfirst (feed_of_jammed hjam (u.drop (kMaxLineLen - a.raw.length)))
  rw [List.take_append_drop] at hall
  exact ⟨_, hall, rfl, Or.inl hjam⟩

/-- The machine has jammed, or is between two lines. -/
def Settled (a : LineCell F) : Prop := a.Jammed ∨ a.raw = []

/-- **A line on which the parse is defined** is answered with one reply, or jams the
machine. -/
theorem exists_feed_line (hraw : a.raw = []) (hu : lineFeed ∉ u) (hdef : LineDefined u) :
    ∃ b tx, Machine.feed step a (u ++ [lineFeed]) = some (b, tx) ∧ Reply tx ∧ b.Settled := by
  obtain ⟨b, hb, -, hjam | ⟨rfl, hlt⟩⟩ := feed_open (a := a) hu
  · exact ⟨b, [], Machine.feed_concat hb (feed_of_jammed hjam _), .nothing, Or.inl hjam⟩
  · rw [hraw, List.nil_append] at hlt
    obtain ⟨packet, hp⟩ := hdef
    have hline := isLine_filter hu hlt
    refine ⟨⟨(a.regs.answer packet).1, []⟩, (a.regs.answer packet).2, ?_,
      reply_handle sampleEnv a.regs.cell (packet_cases hline hp), Or.inr rfl⟩
    exact feed_line hu (by rwa [hraw, List.nil_append]) (by rwa [hraw, List.nil_append])

/-- **A machine takes all lines that are defined**, and gives replies. -/
theorem exists_feed_lines {lines : List (List UInt8)} (ha : a.Settled)
    (hfree : ∀ line ∈ lines, lineFeed ∉ line) (hdef : ∀ line ∈ lines, LineDefined line) :
    ∃ (b : LineCell F) (replies : List (List UInt8)),
      Machine.feed step a (unlines lineFeed lines) = some (b, replies.flatten) ∧
        (∀ tx ∈ replies, Reply tx) ∧ b.Settled := by
  induction lines generalizing a with
  | nil => exact ⟨a, [], rfl, by simp, ha⟩
  | cons l ls ih =>
    obtain ⟨hl, hfree⟩ := List.forall_mem_cons.1 hfree
    obtain ⟨hldef, hdef⟩ := List.forall_mem_cons.1 hdef
    obtain ⟨c, tx, hfirst, htx, hc⟩ : ∃ c tx,
        Machine.feed step a (l ++ [lineFeed]) = some (c, tx) ∧ Reply tx ∧ c.Settled := by
      rcases ha with hjam | hraw
      · exact ⟨a, [], feed_of_jammed hjam _, .nothing, Or.inl hjam⟩
      · exact exists_feed_line hraw hl hldef
    obtain ⟨b, replies, hlater, hreplies, hb⟩ := ih hc hfree hdef
    refine ⟨b, tx :: replies, ?_, List.forall_mem_cons.2 ⟨htx, hreplies⟩, hb⟩
    rw [unlines_cons, List.append_cons]
    exact Machine.feed_concat hfirst hlater

/-- **A machine takes every stream whose lines are defined.** -/
theorem exists_feed {bytes rest : List UInt8} {lines : List (List UInt8)} (ha : a.Settled)
    (hcut : Cut lineFeed bytes lines rest) (hdef : ∀ line ∈ lines, LineDefined line) :
    ∃ (b : LineCell F) (replies : List (List UInt8)),
      Machine.feed step a bytes = some (b, replies.flatten) ∧ ∀ tx ∈ replies, Reply tx := by
  obtain ⟨c, replies, hlines, hreplies, -⟩ := exists_feed_lines ha hcut.lines_free hdef
  obtain ⟨b, hrest, -⟩ := feed_open (a := c) hcut.rest_free
  have hall := Machine.feed_concat hlines hrest
  rw [← hcut.eq, List.append_nil] at hall
  exact ⟨b, replies, hall, hreplies⟩

/-- The lines of replies are defined again. -/
theorem cut_of_replies {replies : List (List UInt8)} (h : ∀ tx ∈ replies, Reply tx) :
    ∃ lines, Cut lineFeed replies.flatten lines [] ∧ ∀ line ∈ lines, LineDefined line := by
  induction replies with
  | nil => exact ⟨[], Cut.nil, by simp⟩
  | cons tx replies ih =>
    obtain ⟨htx, hreplies⟩ := List.forall_mem_cons.1 h
    obtain ⟨lines, hcut, hdef⟩ := ih hreplies
    rw [List.flatten_cons]
    rcases defined_of_reply htx with rfl | ⟨body, rfl, hbody, hdefined⟩
    · exact ⟨lines, hcut, hdef⟩
    · refine ⟨body :: lines, ⟨?_, List.forall_mem_cons.2 ⟨hbody, hcut.lines_free⟩, by simp⟩,
        List.forall_mem_cons.2 ⟨hdefined, hdef⟩⟩
      rw [hcut.eq]
      simp

end LineCell

/-! ## Chains -/

/-- The machine of a cell that has received nothing since the last line. -/
def Site.machine (site : Site F) : LineCell F := ⟨site.cell.registers, []⟩

theorem Site.sim_machine {site : Site F} (hidle : site.Idle) (hsteady : site.Steady) :
    LineCell.Sim site.machine site := by
  obtain ⟨adc, hadcs, hcur⟩ := hsteady
  refine ⟨rfl, ?_, ?_⟩
  · unfold Site.Idle at hidle
    rw [hidle]
    exact Holds.flushed
  · intro x hx
    rw [hadcs, Set.mem_singleton_iff] at hx
    rw [hx, ← hcur]
    rfl

theorem Site.forall₂_machine {sites : List (Site F)} (hidle : ∀ site ∈ sites, site.Idle)
    (hsteady : ∀ site ∈ sites, site.Steady) :
    List.Forall₂ LineCell.Sim (sites.map Site.machine) sites := by
  rw [List.forall₂_map_left_iff, List.forall₂_same]
  exact fun site hsite => Site.sim_machine (hidle site hsite) (hsteady site hsite)

omit [CFloat F] in
theorem Site.settled_machine (sites : List (Site F)) :
    ∀ a ∈ sites.map Site.machine, a.Settled := by
  intro a ha
  obtain ⟨site, -, rfl⟩ := List.mem_map.1 ha
  exact Or.inr rfl

/-- **What every run of a chain on some bytes comes to**, in whatever pieces they are sent:
no call of `Update` runs into a fault; at any time the output is the beginning of `out`; the
run can be continued until the output is `out` and the cells are in the given states, with all
bytes consumed unless a cell has jammed; and when all bytes are consumed, this is so. -/
structure Determined (sites : List (Site F)) (bytes : List UInt8) (cells : List (LineCell F))
    (out : List UInt8) : Prop where
  sound : ∀ sent q, sent.flatten = bytes → Pipe.Run Site.Poll (Pipe.start sites) sent q →
    q.Sound Site.Poll
  output_begins : ∀ sent q, sent.flatten = bytes →
    Pipe.Run Site.Poll (Pipe.start sites) sent q → q.output <+: out
  completes : ∀ sent q, sent.flatten = bytes → Pipe.Run Site.Poll (Pipe.start sites) sent q →
    ∃ q', Pipe.Steps Site.Poll q q' ∧ q'.output = out ∧ List.Forall₂ LineCell.Sim cells q'.states ∧
      ((∀ a ∈ cells, ¬ a.Jammed) → q'.Quiet)
  result : ∀ sent q, sent.flatten = bytes → Pipe.Run Site.Poll (Pipe.start sites) sent q →
    q.Quiet → q.output = out ∧ List.Forall₂ LineCell.Sim cells q.states

/-- A chain does what its machines do. -/
theorem determined_of_feedAll {sites : List (Site F)} (hidle : ∀ site ∈ sites, site.Idle)
    (hsteady : ∀ site ∈ sites, site.Steady) {bytes out : List UInt8} {cells : List (LineCell F)}
    (h : Machine.feedAll LineCell.step (sites.map Site.machine) bytes = some (cells, out)) :
    Determined sites bytes cells out := by
  have hcomputes : ∀ sent, sent.flatten = bytes → (cellPoller F).Computes sites sent cells out := by
    rintro sent rfl
    exact Poller.computes (Site.forall₂_machine hidle hsteady) h
  constructor
  · exact fun sent q hsent hrun => (hcomputes sent hsent).sound q hrun
  · exact fun sent q hsent hrun => (hcomputes sent hsent).output_begins q hrun
  · exact fun sent q hsent hrun => (hcomputes sent hsent).completes q hrun
  · exact fun sent q hsent hrun => (hcomputes sent hsent).result q hrun

end Registers

/-- Noise with a NUL, a read of all cells, a discovery with a bad checksum, and the beginning
of a line. -/
def noisyLines : List (List UInt8) :=
  [[0, 255, 42], ascii "$BSMRD,1000*67\r", ascii "$BSDIS,6*56"]

theorem cut_noisyLines : Cut lineFeed (unlines lineFeed noisyLines ++ ascii "$BSM") noisyLines
    (ascii "$BSM") := ⟨rfl, by decide +kernel, by decide +kernel⟩

theorem lineDefined_noisyLines : ∀ body ∈ noisyLines, LineDefined body := by
  have hall : ∀ body ∈ noisyLines,
      (packetOf (body.filter (· ≠ 0) ++ [lineFeed])).isSome = true := by decide +kernel
  exact fun body hbody => Option.isSome_iff_exists.1 (hall body hbody)

end Scbs
