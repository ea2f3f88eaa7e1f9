import Scbs.CLib.Float
import Scbs.Comms.Packets

/-!
# The cell: `scbs.hh` and `scbs.cc`

The state of one `SCBS` object, its packet handlers, its register file, its
receive buffer and `Update`.  A call of `Update` is a function of the state, of
the bytes that are readable on the UART while it runs, and of what else it reads
from outside (`Env`); its result is the new state, the bytes left unread and the
bytes transmitted.

Pin numbers and the set-up of the peripherals (`SCBSConfig_t`) select hardware
and are left out; what the program last wrote to the LED pin and to the PWM
channel is part of the state.  `printf` output goes to a debug console and is
left out as well.
-/

namespace Scbs

open CLib

def kMaxPWMCount : UInt16 := 1000
def kPWMDefaultDuty : UInt16 := 0
def kPacketReceivedBlinkTimeMs : UInt32 := 10
def kRegisterWriteBlinkTimeMs : UInt32 := 500
def kRegisterReadBlinkTimeMs : UInt32 := 100
def kMaxADCCount : ℕ := 4096

def kMaxUARTBufLen : ℕ := 200

def kRegAddrSetOutputVoltage : UInt32 := 0x1000
def kRegAddrReadOutputCurrent : UInt32 := 0x2000
def kRegAddrReadFirmwareVersion : UInt32 := 0x3000

def kErrCodeNone : UInt16 := 0x00
def kErrCodeAddrNotRecognized : UInt16 := 0x01
def kErrCodePacketLengthExceeded : UInt16 := 0x02
def kErrCodeWriteNotSupported : UInt16 := 0x03
def kErrCodeReceivedInvalidPacket : UInt16 := 0x0F

/-- `SCBS_FIRMWARE_VERSION`. -/
def scbsFirmwareVersion : List UInt8 := ascii "scbs_pico-0.1.0"

def lineFeed : UInt8 := 10
def crlf : List UInt8 := [13, 10]

/-! ## The receive buffer -/

/-- `uart_rx_buf_` and `uart_rx_buf_len_`.  The array is kept whole, since its
string and the counter are two different lengths. -/
structure UartRx where
  uartRxBuf : List UInt8
  uartRxBufLen : ℕ
  deriving DecidableEq, Repr

namespace UartRx

/-- `SCBS::FlushUARTBuf`. -/
def flushUARTBuf : UartRx where
  uartRxBuf := List.replicate kMaxUARTBufLen 0
  uartRxBufLen := 0

/-- `SCBS::AppendCharToUARTBuf`. -/
def appendCharToUARTBuf (rx : UartRx) (newChar : UInt8) : UartRx where
  uartRxBuf := strncatByte rx.uartRxBuf newChar
  uartRxBufLen := rx.uartRxBufLen + 1

/-- `SCBS::ReceivePacket` while the bytes `readable` are in the UART: the buffer,
the bytes left in the UART, and the value returned. -/
def receivePacket : UartRx → (readable : List UInt8) → UartRx × List UInt8 × ℕ
  | rx, [] => (rx, [], 0)
  | rx, newChar :: readable =>
    if rx.uartRxBufLen < kMaxUARTBufLen - 1 then
      if newChar = lineFeed then
        let rx := rx.appendCharToUARTBuf newChar
        (rx, readable, strlen rx.uartRxBuf)
      else if kMaxUARTBufLen ≤ rx.uartRxBufLen then
        -- string too long! abort
        receivePacket flushUARTBuf readable
      else receivePacket (rx.appendCharToUARTBuf newChar) readable
    else (rx, newChar :: readable, 0)

end UartRx

/-! ## The state -/

/-- `class SCBS`, with the levels last given to the LED pin and to the PWM
channel. -/
structure SCBS (F : Type) extends UartRx where
  cellId : UInt16
  outputVoltage : F
  outputCurrent : F
  statusLedOn : Bool
  statusLedOffTimestamp : UInt32
  ledPin : Bool
  pwmChanLevel : UInt16

/-- What one call of `Update` reads from outside the object: the ADC, the clock
at the up to three places it is looked at, and the uninitialised arrays of the
two header lookups. -/
structure Env where
  adcRead : UInt16
  timeAtPacket : UInt32
  timeAtRegister : UInt32
  timeAtLed : UInt32
  stack : Stack
  stackTyped : Stack

namespace SCBS

variable {F : Type} [CFloat F]

/-- The state after the constructor and `SCBS::Init`.  Neither initialises
`cell_id_`. -/
def init (cellId : UInt16) : SCBS F where
  toUartRx := UartRx.flushUARTBuf
  cellId := cellId
  outputVoltage := CFloat.lit 0
  outputCurrent := CFloat.lit 0
  statusLedOn := false
  statusLedOffTimestamp := 0
  ledPin := false
  pwmChanLevel := kPWMDefaultDuty

/-- `SCBS::TurnOnStatusLED` at clock reading `time`.  The deadline is stored
modulo 2³². -/
def turnOnStatusLED (cell : SCBS F) (time onTimeMs : UInt32) : SCBS F :=
  { cell with ledPin := true, statusLedOn := true,
              statusLedOffTimestamp := time + 1000 * onTimeMs }

/-! ## Output voltage and current -/

/-- The rails at the start of `SCBS::SetOutputVoltage`, which it returns. -/
def railVoltage (voltage : F) : F :=
  if CFloat.lt (CFloat.lit (9 / 2)) voltage then CFloat.lit (9 / 2)
  else if CFloat.lt voltage (CFloat.lit 0) then CFloat.lit 0
  else voltage

theorem railVoltage_num (q : ℚ) :
    railVoltage (.num q : ExtRat) = .num (max 0 (min (9 / 2) q)) :=
  ExtRat.clamp_num (by norm_num) q

/-- **What the rails make of a number**: it ends up between them, and only a NaN passes. -/
theorem railVoltage_cases (x : ExtRat) :
    (x = .nan ∧ railVoltage x = .nan) ∨
      (x ≠ .nan ∧ ∃ q : ℚ, railVoltage x = .num q ∧ 0 ≤ q ∧ q ≤ 9 / 2) := by
  cases x with
  | num q =>
    exact Or.inr ⟨by simp, _, railVoltage_num q, le_max_left _ _,
      max_le (by norm_num) (min_le_left _ _)⟩
  | inf neg =>
    refine Or.inr ⟨by simp, ?_⟩
    cases neg with
    | false => exact ⟨9 / 2, rfl, by norm_num, le_rfl⟩
    | true => exact ⟨0, rfl, le_rfl, by norm_num⟩
  | nan => exact Or.inl ⟨rfl, rfl⟩

/-- `estimated_offset`. -/
def estimatedOffset (voltage : F) : F :=
  let voltage2 := CFloat.mul voltage voltage
  let voltage3 := CFloat.mul voltage2 voltage
  CFloat.add
    (CFloat.add
      (CFloat.add (CFloat.mul voltage3 (CFloat.lit (-6624709 / 10 ^ 9)))
        (CFloat.mul voltage2 (CFloat.lit (7218648 / 10 ^ 8))))
      (CFloat.mul voltage (CFloat.lit (-278278555 / 10 ^ 9))))
    (CFloat.lit (79586014 / 10 ^ 9))

/-- `pwm_voltage`, calibrated and kept on the supply's rails. -/
def pwmVoltage (voltage : F) : F :=
  let pwmVoltage := CFloat.sub voltage (estimatedOffset voltage)
  if CFloat.lt (CFloat.lit 5) pwmVoltage then CFloat.lit 5
  else if CFloat.lt pwmVoltage (CFloat.lit 0) then CFloat.lit 0
  else pwmVoltage

/-- The number of PWM counts that is converted to `uint16_t`. -/
def pwmCount (voltage : F) : F :=
  CFloat.mul (CFloat.div (pwmVoltage voltage) (CFloat.lit 5)) (CFloat.ofNat kMaxPWMCount.toNat)

/-- `duty`, for a voltage already railed. -/
def dutyOf (voltage : F) : UInt16 := 1000 - CFloat.toUInt16 (pwmCount voltage)

/-- `SCBS::SetOutputVoltage`: the new state and the railed voltage. -/
def setOutputVoltage (cell : SCBS F) (voltage : F) : SCBS F × F :=
  ({ cell with pwmChanLevel := dutyOf (railVoltage voltage) }, railVoltage voltage)

/-- The current `SCBS::ReadOutputCurrent` computes from an ADC reading. -/
def currentOfCounts (adcCounts : UInt16) : F :=
  CFloat.div (CFloat.mul (CFloat.ofNat adcCounts.toNat) (CFloat.lit 200))
    (CFloat.ofNat kMaxADCCount)

/-- `SCBS::ReadOutputCurrent`. -/
def readOutputCurrent (cell : SCBS F) (adcCounts : UInt16) : SCBS F :=
  { cell with outputCurrent := currentOfCounts adcCounts }

/-! ## Registers -/

/-- `SCBS::WriteRegister`: the new state and the error code. -/
def writeRegister (cell : SCBS F) (time regAddr : UInt32) (valueIn : List UInt8) :
    SCBS F × UInt16 :=
  if regAddr = kRegAddrSetOutputVoltage then
    let newOutputVoltage := CFloat.strtof valueIn
    let (cell, railed) := cell.setOutputVoltage newOutputVoltage
    ({ cell with outputVoltage := railed }.turnOnStatusLED time kRegisterWriteBlinkTimeMs,
      kErrCodeNone)
  else if regAddr = kRegAddrReadOutputCurrent then (cell, kErrCodeWriteNotSupported)
  else (cell, kErrCodeAddrNotRecognized)

/-- The text a register reads as, or `none` for an address that is not
recognized. -/
def registerText (outputVoltage outputCurrent : F) (regAddr : UInt32) : Option (List UInt8) :=
  if regAddr = kRegAddrSetOutputVoltage then
    some (snprintf (kMaxPacketFieldLen - 1) (CFloat.printF2 outputVoltage))
  else if regAddr = kRegAddrReadOutputCurrent then
    some (snprintf (kMaxPacketFieldLen - 1) (CFloat.printF2 outputCurrent))
  else if regAddr = kRegAddrReadFirmwareVersion then
    some (snprintf (kMaxPacketFieldLen - 1) scbsFirmwareVersion)
  else none

/-- `SCBS::ReadRegister`: the new state, the error code and the text written to
`value_out`, which the callers pass in empty. -/
def readRegister (cell : SCBS F) (time regAddr : UInt32) : SCBS F × UInt16 × List UInt8 :=
  match registerText cell.outputVoltage cell.outputCurrent regAddr with
  | none => (cell, kErrCodeAddrNotRecognized, [])
  | some valueOut => (cell.turnOnStatusLED time kRegisterReadBlinkTimeMs, kErrCodeNone, valueOut)

/-! ## Transmitting -/

/-- `SCBS::TransmitPacket` of a packet whose `ToString` gives `uartTxBuf`. -/
def transmitPacket (uartTxBuf : List UInt8) : List UInt8 := uartTxBuf ++ crlf

/-- The text of an error code in `SCBS::TransmitError`. -/
def errStr (errCode : UInt16) : List UInt8 :=
  if errCode = kErrCodeNone then snprintf (kMaxPacketFieldLen - 1) (ascii "OK")
  else snprintf (kMaxPacketFieldLen - 1) (ascii "ERR:" ++ printNat 16 errCode.toNat)

/-- `SCBS::TransmitError`. -/
def transmitError (cell : SCBS F) (errCode : UInt16) : List UInt8 :=
  transmitPacket (SRSPacket.ofValues cell.cellId (errStr errCode)).toStr.packetStr

/-! ## Packet handlers

Each gives the new state and the bytes transmitted. -/

/-- `SCBS::DISPacketHandler`. -/
def disPacketHandler (cell : SCBS F) (packetIn : DISPacket) : SCBS F × List UInt8 :=
  if packetIn.isValid then
    let cell := { cell with cellId := packetIn.lastCellId + 1 }
    let packetOut := DISPacket.ofValues cell.cellId
    (cell, transmitPacket packetOut.toStr.packetStr)
  else (cell, cell.transmitError kErrCodeReceivedInvalidPacket)

/-- `SCBS::MWRPacketHandler`. -/
def mwrPacketHandler (cell : SCBS F) (time : UInt32) (packetIn : MWRPacket) :
    SCBS F × List UInt8 :=
  if packetIn.isValid then
    let (cell, errCode) := cell.writeRegister time packetIn.regAddr packetIn.value
    if errCode ≠ kErrCodeNone then (cell, cell.transmitError errCode) -- drop original packet
    else (cell, transmitPacket packetIn.toStr.packetStr)
  else (cell, cell.transmitError kErrCodeReceivedInvalidPacket)

/-- `SCBS::MRDPacketHandler`. -/
def mrdPacketHandler (cell : SCBS F) (time : UInt32) (packetIn : MRDPacket) :
    SCBS F × List UInt8 :=
  if packetIn.isValid then
    if kMaxNumValues ≤ packetIn.numValues then
      (cell, cell.transmitError kErrCodePacketLengthExceeded) -- drop original packet
    else
      let (cell, errCode, myValue) := cell.readRegister time packetIn.regAddr
      if errCode ≠ kErrCodeNone then (cell, cell.transmitError errCode)
      else
        let values := packetIn.values.set packetIn.numValues myValue
        let packetOut := MRDPacket.ofValues packetIn.regAddr values (packetIn.numValues + 1)
        (cell, transmitPacket packetOut.toStr.packetStr)
  else (cell, cell.transmitError kErrCodeReceivedInvalidPacket)

/-- `SCBS::SWRPacketHandler`. -/
def swrPacketHandler (cell : SCBS F) (time : UInt32) (packetIn : SWRPacket) :
    SCBS F × List UInt8 :=
  if packetIn.isValid then
    if packetIn.cellId = cell.cellId then
      let (cell, errCode) := cell.writeRegister time packetIn.regAddr packetIn.value
      (cell, cell.transmitError errCode) -- send back error code or OK if all went well
    else (cell, transmitPacket packetIn.toStr.packetStr)
  else (cell, cell.transmitError kErrCodeReceivedInvalidPacket)

/-- `SCBS::SRDPacketHandler`. -/
def srdPacketHandler (cell : SCBS F) (time : UInt32) (packetIn : SRDPacket) :
    SCBS F × List UInt8 :=
  if packetIn.isValid then
    if packetIn.cellId = cell.cellId then
      let (cell, errCode, myValue) := cell.readRegister time packetIn.regAddr
      if errCode ≠ kErrCodeNone then (cell, cell.transmitError errCode)
      else
        let packetOut := SRSPacket.ofValues cell.cellId myValue
        (cell, transmitPacket packetOut.toStr.packetStr)
    else (cell, transmitPacket packetIn.toStr.packetStr)
  else (cell, cell.transmitError kErrCodeReceivedInvalidPacket)

/-- `SCBS::SRSPacketHandler`. -/
def srsPacketHandler (cell : SCBS F) (packetIn : SRSPacket) : SCBS F × List UInt8 :=
  if packetIn.isValid then (cell, transmitPacket packetIn.toStr.packetStr)
  else (cell, cell.transmitError kErrCodeReceivedInvalidPacket)

/-! ## `Update` -/

/-- What `Update` does with a received line: parse it, parse it again as the type
found, and call the handler. -/
def dispatch (env : Env) (cell : SCBS F) (line : List UInt8) :
    Except Fault (SCBS F × List UInt8) := do
  let packet ← BSPacket.ofString env.stack line
  if packet.isValid then
    match packet.packetType with
    | .dis => return cell.disPacketHandler (← DISPacket.ofString env.stackTyped line)
    | .mrd =>
      return cell.mrdPacketHandler env.timeAtRegister (← MRDPacket.ofString env.stackTyped line)
    | .mwr =>
      return cell.mwrPacketHandler env.timeAtRegister (← MWRPacket.ofString env.stackTyped line)
    | .srd =>
      return cell.srdPacketHandler env.timeAtRegister (← SRDPacket.ofString env.stackTyped line)
    | .swr =>
      return cell.swrPacketHandler env.timeAtRegister (← SWRPacket.ofString env.stackTyped line)
    | .srs => return cell.srsPacketHandler (← SRSPacket.ofString env.stackTyped line)
    | .unknown => return (cell, [])
  else return (cell, [])

/-- The last part of `Update`: refresh the output, read the current, and turn the
status LED off when its time is up. -/
def refresh (env : Env) (cell : SCBS F) : SCBS F :=
  let (cell, _) := cell.setOutputVoltage cell.outputVoltage
  let cell := cell.readOutputCurrent env.adcRead
  if cell.statusLedOn ∧ cell.statusLedOffTimestamp < env.timeAtLed then
    { cell with ledPin := false, statusLedOn := false }
  else cell

/-- `refresh`, member by member. -/
theorem refresh_eq (env : Env) (cell : SCBS F) :
    cell.refresh env =
      { cell with
        outputCurrent := currentOfCounts env.adcRead
        pwmChanLevel := dutyOf (railVoltage cell.outputVoltage)
        statusLedOn := cell.statusLedOn &&
          !decide (cell.statusLedOffTimestamp < env.timeAtLed)
        ledPin := cell.ledPin &&
          !(cell.statusLedOn && decide (cell.statusLedOffTimestamp < env.timeAtLed)) } := by
  simp only [refresh, setOutputVoltage, readOutputCurrent]
  by_cases hon : cell.statusLedOn = true
  · by_cases hlate : cell.statusLedOffTimestamp < env.timeAtLed
    · simp [hon, hlate]
    · simp [hon, hlate]
  · simp [hon]

/-- What a call of `Update` leaves behind: the state, the unread bytes and the
bytes transmitted. -/
structure Updated (F : Type) where
  cell : SCBS F
  unread : List UInt8
  tx : List UInt8

/-- `SCBS::Update`. -/
def update (env : Env) (cell : SCBS F) (readable : List UInt8) : Except Fault (Updated F) := do
  let (rx, unread, len) := cell.toUartRx.receivePacket readable
  let cell := { cell with toUartRx := rx }
  if len ≠ 0 then
    let cell := cell.turnOnStatusLED env.timeAtPacket kPacketReceivedBlinkTimeMs
    let (cell, tx) ← cell.dispatch env (cstr cell.uartRxBuf)
    let cell := { cell with toUartRx := UartRx.flushUARTBuf }
    return { cell := cell.refresh env, unread := unread, tx := tx }
  else return { cell := cell.refresh env, unread := unread, tx := [] }

end SCBS

end Scbs
