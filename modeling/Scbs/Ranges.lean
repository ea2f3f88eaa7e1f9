import Scbs.Store

/-!
# What holds in every state of a cell

* `InRange` — the voltage is between the rails or is not a number, the current is one that the
  sensor can measure, and the LED is on when its flag says so.
* `SCBS.update_inRange` — **every call of `Update` keeps this**, as long as the ADC gives 12
  bits.
* `always_in_range` — **it holds in every state after `Init`**; so the registers read as short
  texts, and the text of the current is the number that the last call measured.
-/

namespace Scbs

open CLib Link

/-! ## One call of `Update` -/

/-- The current that an ADC reading stands for, in mA. -/
def measured (adcCounts : UInt16) : ℚ := adcCounts.toNat * 200 / 4096

theorem currentOfCounts_eq (adcCounts : UInt16) :
    (SCBS.currentOfCounts adcCounts : ExtRat) = .num (measured adcCounts) := by
  have hpos : ((4096 : ℕ) : ℚ) ≠ 0 := by norm_num
  show ExtRat.div (.num (adcCounts.toNat * 200)) (.num ((4096 : ℕ) : ℚ)) = _
  rw [ExtRat.div, if_neg hpos]
  rfl

theorem measured_lt {adcCounts : UInt16} (h : adcCounts.toNat < kMaxADCCount) :
    measured adcCounts < 200 := by
  have hcast : (adcCounts.toNat : ℚ) < 4096 := by exact_mod_cast h
  unfold measured
  linarith

theorem measured_nonneg (adcCounts : UInt16) : 0 ≤ measured adcCounts := by
  unfold measured
  positivity

/-- What holds in every state of a cell. -/
structure InRange (cell : SCBS ExtRat) : Prop where
  voltage : cell.outputVoltage = .nan ∨ Railed cell.outputVoltage
  current : ∃ q : ℚ, cell.outputCurrent = .num q ∧ 0 ≤ q ∧ q < 200
  led : cell.ledPin = cell.statusLedOn

namespace SCBS

variable {cell : SCBS ExtRat} {call : Call} {r : Updated ExtRat}

theorem inRange_init (cellId : UInt16) : InRange (SCBS.init cellId) where
  voltage := Or.inr ⟨0, rfl, le_rfl, by norm_num⟩
  current := ⟨0, rfl, le_rfl, by norm_num⟩
  led := rfl

/-- Writes leave the voltage between the rails, or a NaN. -/
theorem voltageAfter_cases {x : ExtRat} (h : x = .nan ∨ Railed x) (hist : List Handled) :
    voltageAfter x hist = .nan ∨ Railed (voltageAfter x hist) := by
  unfold voltageAfter
  cases (hist.filterMap Handled.written).getLast? with
  | none => exact h
  | some v => exact (railVoltage_cases (CFloat.strtof v)).imp (·.2) (·.2)

/-- The pin of the LED follows its flag through the handlers. -/
theorem handle_led {F : Type} [CFloat F] {cell : SCBS F} (h : cell.ledPin = cell.statusLedOn)
    (env : Env) (packet : Packet) :
    (cell.handle env packet).1.ledPin = (cell.handle env packet).1.statusLedOn := by
  refine handle_preserves (P := fun c : SCBS F => c.ledPin = c.statusLedOn) ?_ ?_ ?_ h env packet
  · exact fun _ h => h
  · intro c time addr v h
    unfold writeRegister
    split
    · rfl
    · split
      · exact h
      · exact h
  · intro c time addr h
    unfold readRegister
    split
    · exact h
    · rfl

/-- It follows it through the end of `Update`. -/
theorem refresh_led {F : Type} [CFloat F] {cell : SCBS F} (h : cell.ledPin = cell.statusLedOn)
    (env : Env) : (cell.refresh env).ledPin = (cell.refresh env).statusLedOn := by
  rw [refresh_eq]
  simp only [h]
  cases cell.statusLedOn with
  | false => rfl
  | true => rfl

/-- A call of `Update` leaves the current that it measured. -/
theorem update_current (hupd : cell.update call.env call.readable = .ok r) :
    r.cell.outputCurrent = .num (measured call.env.adcRead) := by
  rw [← currentOfCounts_eq]
  rcases update_handled hupd with
    ⟨rx, unread, -, -, rfl⟩ | ⟨rx, unread, line, packet, -, -, -, rfl⟩
  · exact (refresh_spec call.env _).2.2.1
  · exact (refresh_spec call.env _).2.2.1

/-- **Every call of `Update` keeps a cell in range**, if the ADC gives 12 bits. -/
theorem update_inRange (h : InRange cell) (hadc : call.env.adcRead.toNat < kMaxADCCount)
    (hupd : cell.update call.env call.readable = .ok r) : InRange r.cell where
  voltage := by
    rw [(update_registers hupd).1]
    exact voltageAfter_cases h.voltage _
  current := ⟨_, update_current hupd, measured_nonneg _, measured_lt hadc⟩
  led := by
    rcases update_handled hupd with
      ⟨rx, unread, -, -, rfl⟩ | ⟨rx, unread, line, packet, -, -, -, rfl⟩
    · have hled : ({ cell with toUartRx := rx } : SCBS ExtRat).ledPin = cell.statusLedOn := h.led
      exact refresh_led hled call.env
    · have hon : (cell.received call.env call.readable).ledPin =
          (cell.received call.env call.readable).statusLedOn := rfl
      have hhandled : ({ ((cell.received call.env call.readable).handle call.env packet).1 with
          toUartRx := rx } : SCBS ExtRat).ledPin = _ := handle_led hon call.env packet
      exact refresh_led hhandled call.env

/-- **So does every run.** -/
theorem run_inRange {cell' : SCBS ExtRat} {calls : List Call} {hist : List Handled}
    (h : InRange cell) (hadc : ∀ call ∈ calls, call.env.adcRead.toNat < kMaxADCCount)
    (hrun : cell.run calls = .ok (cell', hist)) : InRange cell' := by
  induction calls generalizing cell hist with
  | nil =>
    obtain ⟨rfl, -⟩ := Prod.mk.inj (Except.ok.inj hrun)
    exact h
  | cons call calls ih =>
    obtain ⟨hcall, hadc⟩ := List.forall_mem_cons.1 hadc
    obtain ⟨r, later, hupd, hrun', -⟩ := run_cons hrun
    exact ih (update_inRange h hcall hupd) hadc hrun'

/-- A run leaves the current that its last call measured. -/
theorem run_current {cell' : SCBS ExtRat} {calls : List Call} {hist : List Handled}
    (hrun : cell.run calls = .ok (cell', hist)) (hlast : calls.getLast? = some call) :
    cell'.outputCurrent = .num (measured call.env.adcRead) := by
  obtain ⟨first, rfl⟩ := List.getLast?_eq_some_iff.1 hlast
  obtain ⟨mid, _, _, -, hrun', -⟩ := run_append hrun
  obtain ⟨r, later, hupd, hnone, -⟩ := run_cons hrun'
  obtain ⟨rfl, -⟩ := Prod.mk.inj (Except.ok.inj hnone)
  exact update_current hupd

end SCBS

/-! ## What a cell in range reads as -/

namespace InRange

variable {cell : SCBS ExtRat} (h : InRange cell)
include h

theorem length_printF2_voltage : (CFloat.printF2 cell.outputVoltage).length ≤ 6 := by
  rcases h.voltage with hnan | ⟨q, hq, h0, hle⟩
  · rw [hnan]
    exact show (ascii "nan").length ≤ 6 by decide
  · rw [hq]
    exact ExtRat.length_printF2_le h0 (lt_of_le_of_lt hle (by norm_num))

theorem length_printF2_current : (CFloat.printF2 cell.outputCurrent).length ≤ 6 := by
  obtain ⟨q, hq, h0, hlt⟩ := h.current
  rw [hq]
  exact ExtRat.length_printF2_le_six h0 (by linarith)

/-- The registers of a cell in range read as short texts. -/
theorem short : cell.registers.Short :=
  Registers.short_of_prints (le_trans h.length_printF2_voltage (by omega))
    (le_trans h.length_printF2_current (by omega))

end InRange

/-! ## Runs -/

/-- **A cell is in range in every state after `Init`**, whatever it has received: its voltage
is between the rails or is a NaN, its current is one that the sensor can measure, its LED is
on when the flag says so; its registers read as short texts, and that of the current is a
decimal number, at most 6 bytes long, within 0.005 mA of what the last call measured. -/
theorem always_in_range (cellId : UInt16) (calls : List Call) (cell : SCBS ExtRat)
    (hist : List Handled) (hadc : ∀ call ∈ calls, call.env.adcRead.toNat < kMaxADCCount)
    (hrun : (SCBS.init cellId).run calls = .ok (cell, hist)) :
    InRange cell ∧ cell.registers.Short ∧ ∀ call, calls.getLast? = some call →
      ∃ t q, cell.registers.read kRegAddrReadOutputCurrent = some t ∧ t.text.length ≤ 6 ∧
        IsDecimal t.text q ∧ |q - measured call.env.adcRead| ≤ 1 / 200 := by
  have hin := SCBS.run_inRange (SCBS.inRange_init cellId) hadc hrun
  refine ⟨hin, hin.short, ?_⟩
  intro call hlast
  have hcur := SCBS.run_current hrun hlast
  have hlen := hin.length_printF2_current
  -- all of `%.2f` fits the text
  have htext : SCBS.registerText cell.outputVoltage cell.outputCurrent kRegAddrReadOutputCurrent =
      some (CFloat.printF2 cell.outputCurrent) :=
    congrArg some (List.take_of_length_le (le_trans hlen (by decide)))
  have honWire := (SCBS.onWire_registerText htext).1
  refine ⟨⟨_, honWire⟩, ExtRat.hundredths (measured call.env.adcRead),
    Registers.read_eq_some_iff.2 htext, hlen, ?_, ExtRat.abs_hundredths_sub_le _⟩
  show IsDecimal (CFloat.printF2 cell.outputCurrent) _
  rw [hcur]
  exact ExtRat.isDecimal_printF2 _

theorem always_in_range_sample :
    ∃ cell hist, (SCBS.init 0 : SCBS ExtRat).run sampleCalls = .ok (cell, hist) ∧ InRange cell := by
  obtain ⟨cell, hist, hrun, -⟩ := exists_sampleRun
  exact ⟨cell, hist, hrun, (always_in_range 0 sampleCalls cell hist (by decide) hrun).1⟩

end Scbs
