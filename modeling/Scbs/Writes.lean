import Scbs.CLib.Decimal
import Scbs.Calibration
import Scbs.Replies

/-!
# Writes to the voltage register

What becomes of the value field of a write, from the line to the register.  The parsers keep
the first 19 bytes of it, `strtof` reads what it can of these, and neither reports anything,
so a write to the voltage register is always acknowledged.

* `WritesVoltage` — the packets that are writes to the register of this cell.
* `valueField` — the field on the line, between its comma and the `*`.
* `acknowledgement` — what a cell transmits when a write succeeded.
* `write_stores` — **every such write is acknowledged and stores what `strtof` reads in the
  first 19 bytes of its field**, which for a decimal number is that number on its rails.
-/

namespace Scbs

open CLib

/-- A write to the voltage register of a cell. -/
def WritesVoltage (cellId : UInt16) : Packet → Prop
  | .mwr p => p.isValid = true ∧ p.regAddr = kRegAddrSetOutputVoltage
  | .swr p => p.isValid = true ∧ p.cellId = cellId ∧ p.regAddr = kRegAddrSetOutputVoltage
  | _ => False

/-- The complete value field of a write on its line: the last token of the packet, up to its
`*`. -/
def valueField (line : List UInt8) : Packet → Option (List UInt8)
  | .mwr _ => (tokens comma line)[2]?.map (token star)
  | .swr _ => (tokens comma line)[3]?.map (token star)
  | _ => none

/-- What a cell transmits when a write succeeded: an `MWR` is forwarded, an `SWR` answered with
`OK`. -/
def acknowledgement (cellId : UInt16) : Packet → List UInt8
  | .mwr p => SCBS.transmitPacket p.toStr.packetStr
  | .swr _ => SCBS.transmitPacket (SRSPacket.ofValues cellId (ascii "OK")).toStr.packetStr
  | _ => []

section Fields

variable {stack : Stack} {line : List UInt8}

/-- A register address other than the default was read, so the header was the right one. -/
theorem MWRPacket.hasHeader_of_regAddr {p : MWRPacket} (hp : ofString stack line = .ok p)
    (hv : p.isValid = true) (haddr : p.regAddr ≠ 0) : HasHeader .mwr line := by
  obtain ⟨u, hu⟩ := MWRPacket.exists_accepts hp hv
  rw [ofString_tokens hu, ofTokens] at hp
  apply hasHeader_of_withHeader hp
  rintro rfl
  exact haddr rfl

theorem SWRPacket.hasHeader_of_regAddr {p : SWRPacket} (hp : ofString stack line = .ok p)
    (hv : p.isValid = true) (haddr : p.regAddr ≠ 0) : HasHeader .swr line := by
  obtain ⟨u, hu⟩ := SWRPacket.exists_accepts hp hv
  rw [ofString_tokens hu, ofTokens] at hp
  apply hasHeader_of_withHeader hp
  rintro rfl
  exact haddr rfl

/-- **The value of a write** is the beginning of its field. -/
theorem exists_valueField {env : Env} {packet : Packet} {cellId : UInt16}
    (hparse : SCBS.parse env line = .ok packet) (hwrite : WritesVoltage cellId packet) :
    ∃ field, valueField line packet = some field ∧
      Handled.written ⟨cellId, packet⟩ = some (field.take 19) := by
  have haddr : kRegAddrSetOutputVoltage ≠ 0 := by decide
  obtain ⟨b, -, ⟨-, rfl⟩ | ⟨-, hread⟩⟩ := SCBS.parse_cases hparse
  · exact absurd hwrite id
  cases packet with
  | mwr p =>
    obtain ⟨hv, hreg⟩ := hwrite
    obtain ⟨addr, value, rest, htoks, -, -, hvalue⟩ := MWRPacket.fields hread hv
      (MWRPacket.hasHeader_of_regAddr hread hv (by rw [hreg]; exact haddr))
    refine ⟨token star value, by simp [valueField, htoks], ?_⟩
    rw [Handled.written, if_pos ⟨hv, hreg⟩, hvalue]
    rfl
  | swr p =>
    obtain ⟨hv, hid, hreg⟩ := hwrite
    obtain ⟨id, addr, value, rest, htoks, -, -, -, hvalue⟩ := SWRPacket.fields hread hv
      (SWRPacket.hasHeader_of_regAddr hread hv (by rw [hreg]; exact haddr))
    refine ⟨token star value, by simp [valueField, htoks], ?_⟩
    rw [Handled.written, if_pos ⟨hv, hid, hreg⟩, hvalue]
    rfl
  | rejected | dis | mrd | srd | srs => exact absurd hwrite id

end Fields

section Ack

variable {F : Type} [CFloat F]

/-- **A write to the voltage register is acknowledged**, whatever its value. -/
theorem SCBS.handle_acknowledges (env : Env) {cell : SCBS F} {packet : Packet}
    (hwrite : WritesVoltage cell.cellId packet) :
    (cell.handle env packet).2 = acknowledgement cell.cellId packet := by
  cases packet with
  | mwr p =>
    obtain ⟨hv, hreg⟩ := hwrite
    have hok := (cell.writeRegister_cases env.timeAtRegister p.regAddr p.value).resolve_right
      fun h => h.1 hreg
    simp only [handle, mwrPacketHandler, if_pos hv, hok.2.1, ne_eq, not_true_eq_false, if_false,
      acknowledgement]
  | swr p =>
    obtain ⟨hv, hid, hreg⟩ := hwrite
    have hok := (cell.writeRegister_cases env.timeAtRegister p.regAddr p.value).resolve_right
      fun h => h.1 hreg
    have herr : errStr kErrCodeNone = ascii "OK" := by decide
    simp only [handle, swrPacketHandler, if_pos hv, if_pos hid, hok.2.1, transmitError, herr,
      hok.2.2.1, acknowledgement]
  | rejected | dis | mrd | srd | srs => exact absurd hwrite id

end Ack

/-- **What a write to the voltage register does**, in exact arithmetic.  It is acknowledged; the
register holds what `strtof` reads in the first 19 bytes of the value field, on its rails, and
the PWM level is that of the register.  When these bytes are a decimal number, the register
holds that number limited to 0 … 4.5. -/
theorem write_stores (cell : SCBS ExtRat) (call : Call) (r : SCBS.Updated ExtRat)
    (line : List UInt8) (packet : Packet)
    (hupd : cell.update call.env call.readable = .ok r)
    (hline : (cell.toUartRx.poll call.readable).2.2 = some line)
    (hparse : SCBS.parse call.env line = .ok packet)
    (hwrite : WritesVoltage cell.cellId packet) :
    ∃ field, valueField line packet = some field ∧
      r.tx = acknowledgement cell.cellId packet ∧
      r.cell.outputVoltage = SCBS.railVoltage (CFloat.strtof (field.take 19)) ∧
      r.cell.pwmChanLevel = SCBS.dutyOf r.cell.outputVoltage ∧
      ∀ q, IsDecimal (field.take 19) q →
        r.cell.outputVoltage = .num (max 0 (min (9 / 2) q)) := by
  obtain ⟨field, hfield, hvalue⟩ := exists_valueField hparse hwrite
  rcases SCBS.update_handled hupd with
    ⟨rx, unread, hpoll, -, -⟩ | ⟨rx, unread, line', packet', hpoll, hparse', hone, hr⟩
  · rw [hpoll] at hline
    exact absurd hline (by simp)
  · rw [hpoll] at hline
    obtain rfl := Option.some.inj hline
    obtain rfl := Except.ok.inj (hparse'.symm.trans hparse)
    have hvolt : r.cell.outputVoltage = SCBS.railVoltage (CFloat.strtof (field.take 19)) := by
      rw [(SCBS.update_registers hupd).1, hone, SCBS.voltageAfter]
      simp [hvalue]
    refine ⟨field, hfield, ?_, hvolt, ?_, ?_⟩
    · rw [hr]
      exact SCBS.handle_acknowledges call.env hwrite
    · rw [(SCBS.update_registers hupd).2.2, hvolt, SCBS.railVoltage_idem]
    · intro q hq
      rw [hvolt, show (CFloat.strtof (field.take 19) : ExtRat) = .num q from strtof_of_isDecimal hq]
      exact SCBS.railVoltage_num q

/-- The text `3.3`. -/
def threePointThree : Decimal where
  sign := none
  whole := ascii "3"
  frac := some (ascii "3")
  exponent := none
  whole_lt := by decide +kernel
  frac_lt := by decide +kernel
  digits_ne_nil := by decide

theorem write_stores_sample :
    ∃ r, (SCBS.init 0 : SCBS ExtRat).update sampleEnv (ascii "$BSMWR,1000,3.3*76" ++ crlf) =
      .ok r ∧ r.cell.outputVoltage = .num (33 / 10) := by
  have hline : ((SCBS.init 0 : SCBS ExtRat).toUartRx.poll
      (ascii "$BSMWR,1000,3.3*76" ++ crlf)).2.2 = some (ascii "$BSMWR,1000,3.3*76" ++ crlf) := by
    decide +kernel
  have hparse : SCBS.parse sampleEnv (ascii "$BSMWR,1000,3.3*76" ++ crlf) =
      .ok (.mwr ⟨⟨ascii "$BSMWR,1000,3.3*76" ++ crlf, true, .mwr⟩, 0x1000, ascii "3.3"⟩) := by
    decide +kernel
  cases hupd : (SCBS.init 0 : SCBS ExtRat).update sampleEnv
      (ascii "$BSMWR,1000,3.3*76" ++ crlf) with
  | error fault =>
    have hok : ((SCBS.init 0 : SCBS ExtRat).update sampleEnv
        (ascii "$BSMWR,1000,3.3*76" ++ crlf)).toOption.isSome = true := by decide +kernel
    rw [hupd] at hok
    exact absurd hok Bool.false_ne_true
  | ok r =>
    obtain ⟨field, hfield, -, -, -, hdecimal⟩ := write_stores (SCBS.init 0)
      ⟨sampleEnv, ascii "$BSMWR,1000,3.3*76" ++ crlf⟩ r _ _ hupd hline hparse ⟨rfl, rfl⟩
    have htext : field = ascii "3.3" :=
      Option.some.inj (hfield.symm.trans (by decide +kernel))
    refine ⟨r, rfl, (hdecimal (33 / 10) ⟨threePointThree, ?_, by decide +kernel⟩).trans ?_⟩
    · rw [htext]
      decide +kernel
    · norm_num

/-- **A write that was not of a number.**  The text `abc` is forwarded like a number, and sets
a cell that was at 3.3 V to 0 V. -/
theorem not_write_checked :
    (∀ q, ¬ IsDecimal (ascii "abc") q) ∧
      ((SCBS.init 0 : SCBS ExtRat).transmits [lineCall "$BSMWR,1000,3.3*76"]).toOption.map
        (fun r => (r.1.outputVoltage, r.2)) =
          some (.num (33 / 10), [ascii "$BSMWR,1000,3.3*76" ++ crlf]) ∧
      ((SCBS.init 0 : SCBS ExtRat).transmits
        [lineCall "$BSMWR,1000,3.3*76", lineCall "$BSMWR,1000,abc*38"]).toOption.map
        (fun r => (r.1.outputVoltage, r.2)) =
          some (.num 0, [ascii "$BSMWR,1000,3.3*76" ++ crlf, ascii "$BSMWR,1000,abc*38" ++ crlf]) :=
  ⟨not_isDecimal_of_head (by decide) (by decide), by decide +kernel, by decide +kernel⟩

end Scbs
