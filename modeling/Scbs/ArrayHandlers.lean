import Scbs.ArrayParsers
import Scbs.Meaning

/-!
# The handlers and their arrays

The packet handlers of a cell once more, with the arrays in which they make their packets:
`my_value`, `err_str`, the `values` of a multi-read, the fields of a new packet, `uart_tx_buf`.

* `Arrays.Frame` — what these arrays hold where they are declared.
* `Arrays.transmitNew_eq`, `Arrays.transmitSRS_eq` — a packet that is made and transmitted.
* `Arrays.Incoming` — a packet with arrays that hold its strings, as the parsers leave it.
* `Arrays.handle_eq` — what a cell does with any packet.
* `Arrays.handlers_transmit` — **what a cell transmits in answer to any packet**: no handler
  leaves an array, and it answers as the handlers on strings do.
-/

namespace Scbs

open CLib

namespace Arrays

/-! ## New packets -/

/-- The arrays of a function that makes a packet and transmits it: `my_value` or `err_str`, the
fields and `packet_str_` of the packet, `uart_tx_buf`, and those of the two calls of
`ToString`. -/
structure Frame where
  text : Vector UInt8 kMaxPacketFieldLen
  fields : ℕ → Vector UInt8 kMaxPacketFieldLen
  packetStr : Vector UInt8 kMaxPacketLen
  uartTxBuf : Vector UInt8 kMaxPacketLen
  constructed : Locals
  transmitted : Locals

/-- A field of a packet that is made from values. -/
def newField (field : Vector UInt8 kMaxPacketFieldLen) (valueIn : List UInt8) :
    Option (List UInt8) := do
  let field ← Buffer.memset field.toList 0 kMaxPacketFieldLen
  Buffer.strncpy field valueIn (kMaxPacketFieldLen - 1)

/-- The constructor of `MRDPacket` at the `i`-th of its values. -/
def newFields (frame : Frame) : (i : ℕ) → (valuesIn : List (List UInt8)) →
    Option (List (List UInt8))
  | _, [] => some []
  | i, valueIn :: valuesIn => do
    let value ← newField (frame.fields i) valueIn
    let values ← newFields frame (i + 1) valuesIn
    return value :: values

/-- The values of an `MRDPacket` that is made from values. -/
def newValues (frame : Frame) (valuesIn : List (List UInt8)) (numValuesIn : ℕ) :
    Option (List (List UInt8)) :=
  if numValuesIn ≤ valuesIn.length ∧ numValuesIn ≤ kMaxNumValues then
    newFields frame 0 (valuesIn.take numValuesIn)
  else none

/-- The text that `snprintf` puts into `my_value` or `err_str`. -/
def printText (frame : Frame) (text : List UInt8) : Option (List UInt8) := do
  let buf ← Buffer.memset frame.text.toList 0 kMaxPacketFieldLen
  Buffer.snprintf buf (kMaxPacketFieldLen - 1) text

/-- A packet is constructed, which calls `ToString(NULL)`, and transmitted. -/
def transmitNew (toString : Locals → Target → Option (Target × ℕ)) (frame : Frame) :
    Option (List UInt8) := do
  let packet ← newPacket frame.packetStr
  let (packet, _) ← toString frame.constructed ⟨packet.packetStr, none⟩
  transmitPacket toString frame.transmitted packet.packetStr frame.uartTxBuf

/-- An SRS packet with a text. -/
def transmitSRS (cellId : UInt16) (text : List UInt8) (frame : Frame) : Option (List UInt8) := do
  let valueIn ← printText frame text
  let value ← newField (frame.fields 0) valueIn
  transmitNew (srsToString .srs cellId value) frame

/-- `SCBS::TransmitError`. -/
def transmitError (cellId errCode : UInt16) : Frame → Option (List UInt8) :=
  transmitSRS cellId
    (if errCode = kErrCodeNone then ascii "OK" else ascii "ERR:" ++ printNat 16 errCode.toNat)

section Made

variable {frame : Frame}

theorem newField_holds {n : ℕ} {t valueIn : List UInt8} (field : Vector UInt8 kMaxPacketFieldLen)
    (hvalue : Buffer.Holds n t valueIn) :
    ∃ value : FieldArray, newField field valueIn = some value.mem ∧
      value.text = t.take (kMaxPacketFieldLen - 1) := by
  have hfits : Buffer.FitsIn kMaxPacketFieldLen (t.take (kMaxPacketFieldLen - 1)) := by
    refine ⟨fun hmem => hvalue.nul_not_mem (List.mem_of_mem_take hmem), ?_⟩
    rw [List.length_take, kMaxPacketFieldLen]
    omega
  refine ⟨⟨_, _, hfits.holds⟩, ?_, rfl⟩
  rw [newField, Buffer.memset_pad field.length_toList, Option.bind_eq_bind, Option.bind_some]
  exact Buffer.strncpy_pad hvalue (by decide)

theorem printText_holds (frame : Frame) {text : List UInt8} (htext : (0 : UInt8) ∉ text) :
    ∃ mem, printText frame text = some mem ∧
      Buffer.Holds kMaxPacketFieldLen (snprintf (kMaxPacketFieldLen - 1) text) mem := by
  rw [printText, Buffer.memset_pad frame.text.length_toList, Option.bind_eq_bind,
    Option.bind_some]
  refine Buffer.snprintf_holds htext (Buffer.length_pad (Nat.zero_le _)) ?_
  rw [snprintf, List.length_take, kMaxPacketFieldLen]
  omega

/-- A packet that is made is transmitted. -/
theorem transmitNew_eq (p : Outgoing) (frame : Frame) :
    transmitNew p.toString frame = some (SCBS.transmitPacket p.packetStr) := by
  have hsized : Target.Sized ⟨Buffer.pad kMaxPacketLen [], none⟩ := ⟨length_zeros, by simp⟩
  obtain ⟨packet, hall, hdst⟩ := p.toString_holds frame.constructed hsized
  rw [transmitNew, newPacket_eq, Option.bind_eq_bind, Option.bind_some]
  show (p.toString frame.constructed ⟨Buffer.pad kMaxPacketLen [], none⟩ >>= _) = _
  rw [hall]
  exact p.transmitPacket_eq _ hdst.packetStr.length_eq _

theorem transmitSRS_eq (cellId : UInt16) {text : List UInt8} (htext : (0 : UInt8) ∉ text) :
    transmitSRS cellId text frame = some (SCBS.transmitPacket
      (SRSPacket.ofValues cellId (snprintf (kMaxPacketFieldLen - 1) text)).toStr.packetStr) := by
  obtain ⟨valueIn, hprint, hholds⟩ := printText_holds frame htext
  obtain ⟨value, hcopy, hvalue⟩ := newField_holds (frame.fields 0) hholds
  have hnew := transmitNew_eq (.srs .srs cellId value) frame
  simp only [transmitSRS, hprint, hcopy, Option.bind_eq_bind, Option.bind_some]
  rw [Outgoing.toString] at hnew
  rw [hnew, Outgoing.packetStr, hvalue, SRSPacket.ofValues, fieldOf,
    cstr_of_no_nul hholds.nul_not_mem]
  rfl

end Made

/-! ## The handlers -/

section Handlers

variable {F : Type} [CFloat F]

/-- `SCBS::ReadRegister`: the new state, the error code, and `value_out`. -/
def readRegister (cell : SCBS F) (time regAddr : UInt32) (valueOut : List UInt8) :
    Option (SCBS F × UInt16 × List UInt8) := do
  if regAddr = kRegAddrSetOutputVoltage then
    let valueOut ← Buffer.snprintf valueOut (kMaxPacketFieldLen - 1)
      (CFloat.printF2 cell.outputVoltage)
    return (cell.turnOnStatusLED time kRegisterReadBlinkTimeMs, kErrCodeNone, valueOut)
  else if regAddr = kRegAddrReadOutputCurrent then
    let valueOut ← Buffer.snprintf valueOut (kMaxPacketFieldLen - 1)
      (CFloat.printF2 cell.outputCurrent)
    return (cell.turnOnStatusLED time kRegisterReadBlinkTimeMs, kErrCodeNone, valueOut)
  else if regAddr = kRegAddrReadFirmwareVersion then
    let valueOut ← Buffer.snprintf valueOut (kMaxPacketFieldLen - 1) scbsFirmwareVersion
    return (cell.turnOnStatusLED time kRegisterReadBlinkTimeMs, kErrCodeNone, valueOut)
  else return (cell, kErrCodeAddrNotRecognized, valueOut)

variable (cell : SCBS F) (frame errFrame : Frame) (time : UInt32)

/-- `SCBS::DISPacketHandler`. -/
def disPacketHandler (packetIn : DISPacket) : Option (SCBS F × List UInt8) := do
  if packetIn.isValid then
    let cell := { cell with cellId := packetIn.lastCellId + 1 }
    let tx ← transmitNew (disToString .dis cell.cellId) frame
    return (cell, tx)
  else
    let tx ← transmitError cell.cellId kErrCodeReceivedInvalidPacket errFrame
    return (cell, tx)

/-- `SCBS::MWRPacketHandler`. -/
def mwrPacketHandler (packetIn : MWRPacket) : Option (SCBS F × List UInt8) := do
  if packetIn.isValid then
    let v ← Buffer.str packetIn.value
    let (cell, errCode) := cell.writeRegister time packetIn.regAddr v
    if errCode ≠ kErrCodeNone then
      let tx ← transmitError cell.cellId errCode errFrame
      return (cell, tx)
    else
      let tx ← transmitPacket (mwrToString packetIn.packetType packetIn.regAddr packetIn.value)
        frame.transmitted packetIn.packetStr frame.uartTxBuf
      return (cell, tx)
  else
    let tx ← transmitError cell.cellId kErrCodeReceivedInvalidPacket errFrame
    return (cell, tx)

/-- `SCBS::MRDPacketHandler`. -/
def mrdPacketHandler (packetIn : MRDPacket) : Option (SCBS F × List UInt8) := do
  if packetIn.isValid then
    if kMaxNumValues ≤ packetIn.numValues then
      let tx ← transmitError cell.cellId kErrCodePacketLengthExceeded errFrame
      return (cell, tx)
    else
      let myValue ← Buffer.memset frame.text.toList 0 kMaxPacketFieldLen
      let (cell, errCode, myValue) ← readRegister cell time packetIn.regAddr myValue
      if errCode ≠ kErrCodeNone then
        let tx ← transmitError cell.cellId errCode errFrame
        return (cell, tx)
      else
        let value ← packetIn.values[packetIn.numValues]?
        let value ← Buffer.strncpy value myValue kMaxPacketFieldLen
        let values := packetIn.values.set packetIn.numValues value
        let values ← newValues frame values (packetIn.numValues + 1)
        let tx ← transmitNew (mrdToString .mrd packetIn.regAddr values) frame
        return (cell, tx)
  else
    let tx ← transmitError cell.cellId kErrCodeReceivedInvalidPacket errFrame
    return (cell, tx)

/-- `SCBS::SWRPacketHandler`. -/
def swrPacketHandler (packetIn : SWRPacket) : Option (SCBS F × List UInt8) := do
  if packetIn.isValid then
    if packetIn.cellId = cell.cellId then
      let v ← Buffer.str packetIn.value
      let (cell, errCode) := cell.writeRegister time packetIn.regAddr v
      let tx ← transmitError cell.cellId errCode errFrame
      return (cell, tx)
    else
      let tx ← transmitPacket
        (swrToString packetIn.packetType packetIn.cellId packetIn.regAddr packetIn.value)
        frame.transmitted packetIn.packetStr frame.uartTxBuf
      return (cell, tx)
  else
    let tx ← transmitError cell.cellId kErrCodeReceivedInvalidPacket errFrame
    return (cell, tx)

/-- `SCBS::SRDPacketHandler`. -/
def srdPacketHandler (packetIn : SRDPacket) : Option (SCBS F × List UInt8) := do
  if packetIn.isValid then
    if packetIn.cellId = cell.cellId then
      let myValue ← Buffer.memset frame.text.toList 0 kMaxPacketFieldLen
      let (cell, errCode, myValue) ← readRegister cell time packetIn.regAddr myValue
      if errCode ≠ kErrCodeNone then
        let tx ← transmitError cell.cellId errCode errFrame
        return (cell, tx)
      else
        let value ← newField (frame.fields 0) myValue
        let tx ← transmitNew (srsToString .srs cell.cellId value) frame
        return (cell, tx)
    else
      let tx ← transmitPacket (srdToString packetIn.packetType packetIn.cellId packetIn.regAddr)
        frame.transmitted packetIn.packetStr frame.uartTxBuf
      return (cell, tx)
  else
    let tx ← transmitError cell.cellId kErrCodeReceivedInvalidPacket errFrame
    return (cell, tx)

/-- `SCBS::SRSPacketHandler`. -/
def srsPacketHandler (packetIn : SRSPacket) : Option (SCBS F × List UInt8) := do
  if packetIn.isValid then
    let tx ← transmitPacket (srsToString packetIn.packetType packetIn.cellId packetIn.value)
      frame.transmitted packetIn.packetStr frame.uartTxBuf
    return (cell, tx)
  else
    let tx ← transmitError cell.cellId kErrCodeReceivedInvalidPacket errFrame
    return (cell, tx)

/-- The handler that `Update` calls for a packet. -/
def handle : Packet → Option (SCBS F × List UInt8)
  | .rejected => some (cell, [])
  | .dis p => disPacketHandler cell frame errFrame p
  | .mrd p => mrdPacketHandler cell frame errFrame time p
  | .mwr p => mwrPacketHandler cell frame errFrame time p
  | .srd p => srdPacketHandler cell frame errFrame time p
  | .swr p => swrPacketHandler cell frame errFrame time p
  | .srs p => srsPacketHandler cell frame errFrame p

end Handlers

/-! ## Packets in arrays -/

/-- The fields of a base packet, with the array of its string. -/
structure Base where
  packetStr : Vector UInt8 kMaxPacketLen
  isValid : Bool
  packetType : PacketType

/-- The base packet with its array. -/
def Base.array (base : Base) : BSPacket :=
  ⟨base.packetStr.toList, base.isValid, base.packetType⟩

/-- The base packet with the string in its array. -/
def Base.string (base : Base) : BSPacket :=
  ⟨cstr base.packetStr.toList, base.isValid, base.packetType⟩

/-- A packet as a parser leaves it, with arrays that hold the strings of its fields. -/
inductive Incoming where
  | rejected
  | dis (base : Base) (lastCellId : UInt16)
  | mrd (base : Base) (regAddr : UInt32) (values : Vector FieldArray kMaxNumValues)
      (numValues : ℕ)
  | mwr (base : Base) (regAddr : UInt32) (value : FieldArray)
  | srd (base : Base) (cellId : UInt16) (regAddr : UInt32)
  | swr (base : Base) (cellId : UInt16) (regAddr : UInt32) (value : FieldArray)
  | srs (base : Base) (cellId : UInt16) (value : FieldArray)

/-- The packet with its arrays. -/
def Incoming.arrays : Incoming → Packet
  | .rejected => .rejected
  | .dis base lastCellId => .dis ⟨base.array, lastCellId⟩
  | .mrd base regAddr values numValues =>
    .mrd ⟨base.array, regAddr, values.toList.map (·.mem), numValues⟩
  | .mwr base regAddr value => .mwr ⟨base.array, regAddr, value.mem⟩
  | .srd base cellId regAddr => .srd ⟨base.array, cellId, regAddr⟩
  | .swr base cellId regAddr value => .swr ⟨base.array, cellId, regAddr, value.mem⟩
  | .srs base cellId value => .srs ⟨base.array, cellId, value.mem⟩

/-- The packet with strings for its arrays. -/
def Incoming.packet : Incoming → Packet
  | .rejected => .rejected
  | .dis base lastCellId => .dis ⟨base.string, lastCellId⟩
  | .mrd base regAddr values numValues =>
    .mrd ⟨base.string, regAddr, values.toList.map (·.text), numValues⟩
  | .mwr base regAddr value => .mwr ⟨base.string, regAddr, value.text⟩
  | .srd base cellId regAddr => .srd ⟨base.string, cellId, regAddr⟩
  | .swr base cellId regAddr value => .swr ⟨base.string, cellId, regAddr, value.text⟩
  | .srs base cellId value => .srs ⟨base.string, cellId, value.text⟩

section Incoming

theorem exists_base (p : BSPacket) (hstr : IsCString p.packetStr) :
    ∃ base : Base, base.array = p.inArrays ∧ base.string = p := by
  have hlen : (Buffer.pad kMaxPacketLen p.packetStr).length = kMaxPacketLen :=
    Buffer.length_pad hstr.fits.le
  refine ⟨⟨⟨(Buffer.pad kMaxPacketLen p.packetStr).toArray, hlen⟩, p.isValid, p.packetType⟩,
    rfl, ?_⟩
  have hcstr : cstr (Buffer.pad kMaxPacketLen p.packetStr) = p.packetStr :=
    cstr_append_zeros hstr.no_nul _
  show BSPacket.mk (cstr (Buffer.pad kMaxPacketLen p.packetStr)) p.isValid p.packetType = p
  rw [hcstr]

theorem exists_fields {texts : List (List UInt8)} (hlen : texts.length = kMaxNumValues)
    (h : ∀ text ∈ texts, Buffer.FitsIn kMaxPacketFieldLen text) :
    ∃ values : Vector FieldArray kMaxNumValues,
      values.toList.map (·.mem) = texts.map (Buffer.pad kMaxPacketFieldLen) ∧
        values.toList.map (·.text) = texts := by
  obtain ⟨values, hmem, htext⟩ : ∃ values : List FieldArray,
      values.map (·.mem) = texts.map (Buffer.pad kMaxPacketFieldLen) ∧
        values.map (·.text) = texts := by
    clear hlen
    induction texts with
    | nil => exact ⟨[], rfl, rfl⟩
    | cons text texts ih =>
      obtain ⟨values, hmem, htext⟩ := ih fun t ht => h t (List.mem_cons_of_mem _ ht)
      refine ⟨.ofText (h text List.mem_cons_self) :: values, ?_, ?_⟩
      · rw [List.map_cons, List.map_cons, hmem]
        rfl
      · rw [List.map_cons, htext]
        rfl
  have hcount : values.length = kMaxNumValues := by
    rw [← hlen, ← htext, List.length_map]
  exact ⟨⟨values.toArray, hcount⟩, hmem, htext⟩

/-- **What the parsers find** is a packet with arrays that hold its strings. -/
theorem exists_incoming {p : Packet} (hfits : p.Fits) :
    ∃ i : Incoming, i.arrays = p.inArrays ∧ i.packet = p := by
  cases p with
  | rejected => exact ⟨.rejected, rfl, rfl⟩
  | dis p =>
    obtain ⟨base, harray, hstring⟩ := exists_base p.toBSPacket hfits
    refine ⟨.dis base p.lastCellId, ?_, ?_⟩
    · rw [Incoming.arrays, harray]
      rfl
    · rw [Incoming.packet, hstring]
  | mrd p =>
    obtain ⟨base, harray, hstring⟩ := exists_base p.toBSPacket hfits.1
    obtain ⟨values, hmem, htext⟩ := exists_fields hfits.2.1 hfits.2.2
    refine ⟨.mrd base p.regAddr values p.numValues, ?_, ?_⟩
    · rw [Incoming.arrays, harray, hmem]
      rfl
    · rw [Incoming.packet, hstring, htext]
  | mwr p =>
    obtain ⟨base, harray, hstring⟩ := exists_base p.toBSPacket hfits.1
    refine ⟨.mwr base p.regAddr (.ofText hfits.2), ?_, ?_⟩
    · rw [Incoming.arrays, harray]
      rfl
    · rw [Incoming.packet, hstring]
      rfl
  | srd p =>
    obtain ⟨base, harray, hstring⟩ := exists_base p.toBSPacket hfits
    refine ⟨.srd base p.cellId p.regAddr, ?_, ?_⟩
    · rw [Incoming.arrays, harray]
      rfl
    · rw [Incoming.packet, hstring]
  | swr p =>
    obtain ⟨base, harray, hstring⟩ := exists_base p.toBSPacket hfits.1
    refine ⟨.swr base p.cellId p.regAddr (.ofText hfits.2), ?_, ?_⟩
    · rw [Incoming.arrays, harray]
      rfl
    · rw [Incoming.packet, hstring]
      rfl
  | srs p =>
    obtain ⟨base, harray, hstring⟩ := exists_base p.toBSPacket hfits.1
    refine ⟨.srs base p.cellId (.ofText hfits.2), ?_, ?_⟩
    · rw [Incoming.arrays, harray]
      rfl
    · rw [Incoming.packet, hstring]
      rfl

end Incoming

/-! ## What they do -/

section Handled

variable {F : Type} [CFloat F] {frame errFrame : Frame}

omit [CFloat F] in
/-- A handler that transmits something and returns. -/
theorem answer_eq (cell : SCBS F) {tx : Option (List UInt8)} {bytes : List UInt8}
    (h : tx = some bytes) : (do let tx ← tx; return (cell, tx)) = some (cell, bytes) := by
  rw [h]
  rfl

omit [CFloat F] in
/-- **`TransmitError`.** -/
theorem transmitError_eq (cell : SCBS F) (errCode : UInt16) :
    transmitError cell.cellId errCode frame = some (cell.transmitError errCode) := by
  rw [transmitError, SCBS.transmitError, SCBS.errStr]
  by_cases hnone : errCode = kErrCodeNone
  · rw [if_pos hnone, if_pos hnone]
    exact transmitSRS_eq _ (by decide)
  · rw [if_neg hnone, if_neg hnone]
    refine transmitSRS_eq _ ?_
    rw [List.mem_append, not_or]
    exact ⟨by decide, nul_not_mem_hex _⟩

theorem nul_not_mem_printF2 (x : F) : (0 : UInt8) ∉ CFloat.printF2 x := by
  intro h
  rcases CFloat.printF2_plain x 0 h with h | h | h
  · exact absurd h (by decide)
  · exact absurd h (by decide)
  · exact absurd h (by decide)

/-- **`ReadRegister` into an array**: the text of the register, or an error code. -/
theorem readRegister_holds (cell : SCBS F) (time regAddr : UInt32) {valueOut : List UInt8}
    (hlen : valueOut.length = kMaxPacketFieldLen) :
    (∃ own mem, cell.readRegister time regAddr =
        (cell.turnOnStatusLED time kRegisterReadBlinkTimeMs, kErrCodeNone, own) ∧
      readRegister cell time regAddr valueOut =
        some (cell.turnOnStatusLED time kRegisterReadBlinkTimeMs, kErrCodeNone, mem) ∧
      Buffer.Holds kMaxPacketFieldLen own mem) ∨
    (cell.readRegister time regAddr = (cell, kErrCodeAddrNotRecognized, []) ∧
      readRegister cell time regAddr valueOut =
        some (cell, kErrCodeAddrNotRecognized, valueOut)) := by
  have hprint : ∀ {text : List UInt8}, (0 : UInt8) ∉ text → ∃ mem,
      Buffer.snprintf valueOut (kMaxPacketFieldLen - 1) text = some mem ∧
      Buffer.Holds kMaxPacketFieldLen (snprintf (kMaxPacketFieldLen - 1) text) mem := by
    intro text htext
    refine Buffer.snprintf_holds htext hlen ?_
    rw [snprintf, List.length_take, kMaxPacketFieldLen]
    omega
  unfold SCBS.readRegister SCBS.registerText readRegister
  by_cases hvolt : regAddr = kRegAddrSetOutputVoltage
  · obtain ⟨mem, hmem, hholds⟩ := hprint (nul_not_mem_printF2 cell.outputVoltage)
    refine .inl ⟨_, mem, by rw [if_pos hvolt], ?_, hholds⟩
    rw [if_pos hvolt, hmem]
    rfl
  by_cases hcur : regAddr = kRegAddrReadOutputCurrent
  · obtain ⟨mem, hmem, hholds⟩ := hprint (nul_not_mem_printF2 cell.outputCurrent)
    refine .inl ⟨_, mem, by rw [if_neg hvolt, if_pos hcur], ?_, hholds⟩
    rw [if_neg hvolt, if_pos hcur, hmem]
    rfl
  by_cases hfirm : regAddr = kRegAddrReadFirmwareVersion
  · have hversion : (0 : UInt8) ∉ scbsFirmwareVersion := by decide
    obtain ⟨mem, hmem, hholds⟩ := hprint hversion
    refine .inl ⟨_, mem, by rw [if_neg hvolt, if_neg hcur, if_pos hfirm], ?_, hholds⟩
    rw [if_neg hvolt, if_neg hcur, if_pos hfirm, hmem]
    rfl
  · rw [if_neg hvolt, if_neg hcur, if_neg hfirm, if_neg hvolt, if_neg hcur, if_neg hfirm]
    exact .inr ⟨rfl, rfl⟩

/-- The values of a new multi-read. -/
theorem newFields_holds (frame : Frame) (i : ℕ) {values : List (List UInt8)}
    {texts : List (List UInt8)} (h : List.Forall₂ (Buffer.Holds kMaxPacketFieldLen) texts values) :
    ∃ fields : List FieldArray, newFields frame i values = some (fields.map (·.mem)) ∧
      fields.map (·.text) = texts.map fieldOf := by
  induction h generalizing i with
  | nil => exact ⟨[], rfl, rfl⟩
  | cons hfirst _ ih =>
    obtain ⟨field, hfield, htext⟩ := newField_holds (frame.fields i) hfirst
    obtain ⟨fields, hfields, htexts⟩ := ih (i + 1)
    refine ⟨field :: fields, ?_, ?_⟩
    · simp only [newFields, hfield, hfields, Option.bind_eq_bind, Option.bind_some]
      rfl
    · rw [List.map_cons, List.map_cons, htext, htexts, fieldOf,
        cstr_of_no_nul hfirst.nul_not_mem]

omit [CFloat F] in
theorem dis_eq (cell : SCBS F) (base : Base) (lastCellId : UInt16) :
    disPacketHandler cell frame errFrame ⟨base.array, lastCellId⟩ =
      some (cell.disPacketHandler ⟨base.string, lastCellId⟩) := by
  obtain ⟨str, isValid, packetType⟩ := base
  cases isValid with
  | false => exact answer_eq cell (transmitError_eq cell _)
  | true => exact answer_eq _ (transmitNew_eq (.dis .dis (lastCellId + 1)) frame)

omit [CFloat F] in
theorem srs_eq (cell : SCBS F) (base : Base) (cellId : UInt16) (value : FieldArray) :
    srsPacketHandler cell frame errFrame ⟨base.array, cellId, value.mem⟩ =
      some (cell.srsPacketHandler ⟨base.string, cellId, value.text⟩) := by
  obtain ⟨str, isValid, packetType⟩ := base
  cases isValid with
  | false => exact answer_eq cell (transmitError_eq cell _)
  | true =>
    exact answer_eq cell ((Outgoing.srs packetType cellId value).transmitPacket_eq
      frame.transmitted str.length_toList frame.uartTxBuf)

theorem mwr_eq (cell : SCBS F) (time : UInt32) (base : Base) (regAddr : UInt32)
    (value : FieldArray) :
    mwrPacketHandler cell frame errFrame time ⟨base.array, regAddr, value.mem⟩ =
      some (cell.mwrPacketHandler time ⟨base.string, regAddr, value.text⟩) := by
  obtain ⟨str, isValid, packetType⟩ := base
  cases isValid with
  | false => exact answer_eq cell (transmitError_eq cell _)
  | true =>
    have hforward := (Outgoing.mwr packetType regAddr value).transmitPacket_eq frame.transmitted
      str.length_toList frame.uartTxBuf
    simp only [mwrPacketHandler, SCBS.mwrPacketHandler, Base.array, Base.string,
      value.holds.str_eq, if_true, Option.bind_eq_bind, Option.bind_some]
    split
    · exact answer_eq _ (transmitError_eq _ _)
    · exact answer_eq _ hforward

theorem swr_eq (cell : SCBS F) (time : UInt32) (base : Base) (cellId : UInt16)
    (regAddr : UInt32) (value : FieldArray) :
    swrPacketHandler cell frame errFrame time ⟨base.array, cellId, regAddr, value.mem⟩ =
      some (cell.swrPacketHandler time ⟨base.string, cellId, regAddr, value.text⟩) := by
  obtain ⟨str, isValid, packetType⟩ := base
  cases isValid with
  | false => exact answer_eq cell (transmitError_eq cell _)
  | true =>
    have hforward := (Outgoing.swr packetType cellId regAddr value).transmitPacket_eq
      frame.transmitted str.length_toList frame.uartTxBuf
    simp only [swrPacketHandler, SCBS.swrPacketHandler, Base.array, Base.string,
      value.holds.str_eq, if_true, Option.bind_eq_bind, Option.bind_some]
    split
    · exact answer_eq _ (transmitError_eq _ _)
    · exact answer_eq _ hforward

theorem srd_eq (cell : SCBS F) (time : UInt32) (base : Base) (cellId : UInt16)
    (regAddr : UInt32) :
    srdPacketHandler cell frame errFrame time ⟨base.array, cellId, regAddr⟩ =
      some (cell.srdPacketHandler time ⟨base.string, cellId, regAddr⟩) := by
  obtain ⟨str, isValid, packetType⟩ := base
  cases isValid with
  | false => exact answer_eq cell (transmitError_eq cell _)
  | true =>
    have hforward := (Outgoing.srd packetType cellId regAddr).transmitPacket_eq
      frame.transmitted str.length_toList frame.uartTxBuf
    simp only [srdPacketHandler, SCBS.srdPacketHandler, Base.array, Base.string, if_true,
      Buffer.memset_pad frame.text.length_toList, Option.bind_eq_bind, Option.bind_some]
    by_cases hid : cellId = cell.cellId
    · rw [if_pos hid, if_pos hid]
      rcases readRegister_holds cell time regAddr fitsIn_nil.holds.length_eq with
        ⟨own, mem, hown, hread, hholds⟩ | ⟨hnone, hread⟩
      · obtain ⟨value, hcopy, htext⟩ := newField_holds (frame.fields 0) hholds
        have hnew := transmitNew_eq (.srs .srs cell.cellId value) frame
        rw [Outgoing.packetStr, htext] at hnew
        rw [hown, hread, Option.bind_some]
        simp only [hcopy, Option.bind_some, ne_eq, not_true_eq_false, if_false]
        refine answer_eq _ (hnew.trans ?_)
        rw [SRSPacket.ofValues, fieldOf, cstr_of_no_nul hholds.nul_not_mem]
        rfl
      · rw [hnone, hread, Option.bind_some]
        exact answer_eq cell (transmitError_eq cell _)
    · rw [if_neg hid, if_neg hid]
      exact answer_eq cell hforward

/-- The strings in the arrays of some fields. -/
theorem forall_holds (values : List FieldArray) :
    List.Forall₂ (Buffer.Holds kMaxPacketFieldLen) (values.map (·.text)) (values.map (·.mem)) := by
  induction values with
  | nil => exact .nil
  | cons value values ih => exact .cons value.holds ih

theorem mrd_eq (cell : SCBS F) (time : UInt32) (base : Base) (regAddr : UInt32)
    (values : Vector FieldArray kMaxNumValues) (numValues : ℕ) :
    mrdPacketHandler cell frame errFrame time
        ⟨base.array, regAddr, values.toList.map (·.mem), numValues⟩ =
      some (cell.mrdPacketHandler time
        ⟨base.string, regAddr, values.toList.map (·.text), numValues⟩) := by
  obtain ⟨str, isValid, packetType⟩ := base
  have hlen := values.length_toList
  generalize values.toList = values at hlen ⊢
  cases isValid with
  | false => exact answer_eq cell (transmitError_eq cell _)
  | true =>
    simp only [mrdPacketHandler, SCBS.mrdPacketHandler, Base.array, Base.string, if_true,
      Buffer.memset_pad frame.text.length_toList, Option.bind_eq_bind, Option.bind_some]
    by_cases hfull : kMaxNumValues ≤ numValues
    · rw [if_pos hfull, if_pos hfull]
      exact answer_eq cell (transmitError_eq cell _)
    · rw [if_neg hfull, if_neg hfull]
      rcases readRegister_holds cell time regAddr fitsIn_nil.holds.length_eq with
        ⟨own, mem, hown, hread, hholds⟩ | ⟨hnone, hread⟩
      · have hnum : numValues < values.length := by omega
        -- the value goes into the slot behind those that were read
        have hslot : (values.map (·.mem))[numValues]? = some values[numValues].mem := by
          rw [List.getElem?_map, List.getElem?_eq_getElem hnum, Option.map_some]
        have hput := Buffer.strncpy_all hholds values[numValues].holds.length_eq hholds.length_lt
        let value : FieldArray := .ofText ⟨hholds.nul_not_mem, hholds.length_lt⟩
        obtain ⟨fields, hfields, htexts⟩ :=
          newFields_holds frame 0 (forall_holds ((values.set numValues value).take (numValues + 1)))
        have hnew := transmitNew_eq (.mrd .mrd regAddr fields) frame
        have hcount : fields.length = numValues + 1 := by
          have hlens := congrArg List.length htexts
          simp only [List.length_map, List.length_take, List.length_set] at hlens
          omega
        have hmake : newValues frame ((values.map (·.mem)).set numValues value.mem)
            (numValues + 1) = some (fields.map (·.mem)) := by
          rw [newValues, if_pos (by rw [List.length_set, List.length_map]; omega), ← List.map_set,
            ← List.map_take, hfields]
        rw [Outgoing.packetStr, htexts, hcount, List.map_take, List.map_set] at hnew
        rw [hown, hread, Option.bind_some]
        simp only [hslot, hput, Option.bind_some, ne_eq, not_true_eq_false, if_false]
        show (newValues frame ((values.map (·.mem)).set numValues value.mem) _).bind _ = _
        rw [hmake, Option.bind_some]
        exact answer_eq _ hnew
      · rw [hnone, hread, Option.bind_some]
        exact answer_eq cell (transmitError_eq cell _)

/-- **What a cell does with any packet**, whatever is in the arrays where they are declared. -/
theorem handle_eq (cell : SCBS F) (env : Env) (p : Incoming) :
    handle cell frame errFrame env.timeAtRegister p.arrays = some (cell.handle env p.packet) := by
  cases p with
  | rejected => rfl
  | dis base lastCellId => exact dis_eq cell base lastCellId
  | mrd base regAddr values numValues => exact mrd_eq cell _ base regAddr values numValues
  | mwr base regAddr value => exact mwr_eq cell _ base regAddr value
  | srd base cellId regAddr => exact srd_eq cell _ base cellId regAddr
  | swr base cellId regAddr value => exact swr_eq cell _ base cellId regAddr value
  | srs base cellId value => exact srs_eq cell base cellId value

/-- **What a cell transmits in answer to any packet**: no handler writes or reads past the end
of an array, whatever is in the arrays where they are declared, and it answers as the handlers
on strings do. -/
theorem handlers_transmit (cell : SCBS F) (env : Env) (frame errFrame : Frame) (p : Incoming) :
    (handle cell frame errFrame env.timeAtRegister p.arrays).map Prod.snd =
      some (cell.handle env p.packet).2 := by
  rw [handle_eq, Option.map_some]

end Handled

end Arrays

end Scbs
