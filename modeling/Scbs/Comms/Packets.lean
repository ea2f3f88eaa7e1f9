import Scbs.CLib.Numeral

/-!
# The packets: `scbs_comms.hh` and `scbs_comms.cc`

A packet is one line of text, `$<header>,<contents>*<checksum>`.  `BSPacket`
checks the tokens, the checksum and the header of a line; each of the six packet
types then cuts the fields it knows out of the line with `strtok`.

Character arrays are modelled by the C string they hold.  A `FromString` call
takes the line as the string in the caller's buffer, which in the program is
always shorter than `kMaxPacketLen`, so that `strncpy(…, kMaxPacketLen)` copies
all of it.  Two things the source leaves open are explicit:

* the header lookup of `BSPacket::FromString` copies only `kMaxPacketFieldLen`
  bytes into an uninitialised array, so it takes the array's contents (`Stack`);
* a call that C leaves undefined ends in a `Fault`: a `NULL` token that is used,
  a negative count passed to `strncpy`, a search past the end of an array.

A field that a constructor leaves uninitialised and nothing reads afterwards is
given its class default.
-/

namespace Scbs

open CLib

def kMaxPacketLen : ℕ := 200
def kMaxPacketFieldLen : ℕ := 20
def kPacketHeaderLen : ℕ := 6
def kPacketTailLen : ℕ := 3
def kMaxPacketContentsLen : ℕ := kMaxPacketLen - kPacketHeaderLen - kPacketTailLen

def scbsNumbersBase : ℕ := 10
def scbsAddrBase : ℕ := 16
def scbsChecksumBase : ℕ := 16

/-- `SCBS_PACKET_DELIM`. -/
def comma : UInt8 := ch ','
def dollar : UInt8 := ch '$'
def star : UInt8 := ch '*'

/-- The initial contents of an uninitialised `char strtok_buf[kMaxPacketLen]`. -/
abbrev Stack := Vector UInt8 kMaxPacketLen

/-- What C leaves undefined in a parser. -/
inductive Fault where
  /-- The header lookup ran off the end of `strtok_buf`. -/
  | unterminated
  /-- `NULL` from `strtok` used as the header string. -/
  | nullHeader
  /-- `NULL` from `strtok` passed to `strtoul` or `strchr`. -/
  | nullField
  /-- A negative count passed to `strncpy`. -/
  | badCount
  deriving DecidableEq, Repr

/-- `PacketType_t`. -/
inductive PacketType where
  | dis | mrd | mwr | srd | swr | srs | unknown
  deriving DecidableEq, Repr

/-- `packet_header_strs`. -/
def packetHeaderStr : PacketType → List UInt8
  | .dis => ascii "BSDIS"
  | .mrd => ascii "BSMRD"
  | .mwr => ascii "BSMWR"
  | .srd => ascii "BSSRD"
  | .swr => ascii "BSSWR"
  | .srs => ascii "BSSRS"
  | .unknown => ascii "?????"

/-- The types `BSPacket::FromString` looks through, in its order. -/
def packetTypes : List PacketType := [.dis, .mrd, .mwr, .srd, .swr, .srs]

/-! ## The base packet -/

/-- `class BSPacket`. -/
structure BSPacket where
  packetStr : List UInt8 := []
  isValid : Bool := false
  packetType : PacketType := .unknown
  deriving DecidableEq, Repr

namespace BSPacket

/-- `BSPacket::CalculateChecksum` on the string in `packet_str_`. -/
def calculateChecksum (packetStr : List UInt8) : UInt8 :=
  match strchr packetStr dollar, strchr packetStr star with
  | some startTokenPtr, some endTokenPtr =>
    let packetStartInd := packetStr.length - startTokenPtr.length + 1
    let checksumStartInd := packetStr.length - endTokenPtr.length
    ((packetStr.take (min checksumStartInd kMaxPacketLen)).drop packetStartInd).foldl (· ^^^ ·) 0
  | _, _ => 0 -- can't find start or end token

/-- `strtok_buf` of `BSPacket::FromString` after its `strncpy`. -/
def headerBuf (stack : Stack) (fromStrBuf : List UInt8) : List UInt8 :=
  strncpyMem stack.toList fromStrBuf kMaxPacketFieldLen

/-- The packet type whose header string is `headerStr`. -/
def lookupHeader (headerStr : List UInt8) : Option PacketType :=
  packetTypes.find? fun t => decide (headerStr = packetHeaderStr t)

/-- `BSPacket::FromString`. -/
def fromString (stack : Stack) (self : BSPacket) (fromStrBuf : List UInt8) :
    Except Fault BSPacket :=
  let self := { self with packetStr := fromStrBuf, isValid := false }
  match strchr self.packetStr star with
  | none => .ok self
  | some endTokenPtr =>
    let transmittedChecksum := UInt8.ofInt (strtol endTokenPtr.tail scbsChecksumBase)
    let expectedChecksum := calculateChecksum self.packetStr
    if expectedChecksum ≠ transmittedChecksum then .ok self
    else
      match strtokMem comma (headerBuf stack fromStrBuf) with
      | none => .error .unterminated
      | some none => .error .nullHeader
      | some (some headerStr) =>
        match lookupHeader headerStr.tail with
        | none => .ok self
        | some t => .ok { self with packetType := t, isValid := true }

/-- `BSPacket::BSPacket(char *)`. -/
def ofString (stack : Stack) (fromStrBuf : List UInt8) : Except Fault BSPacket :=
  fromString stack {} fromStrBuf

/-- `BSPacket::PacketizeContents`: the string it leaves in `packet_str_`. -/
def packetizeContents (self : BSPacket) (packetContentsStr : List UInt8) : BSPacket :=
  let body := snprintf (kMaxPacketLen - kPacketTailLen)
    (dollar :: packetHeaderStr self.packetType ++ comma :: packetContentsStr ++ [star])
  let checksumStr :=
    snprintf kPacketTailLen (padZeros 2 (printNat 16 (calculateChecksum body).toNat))
  { self with packetStr := body ++ checksumStr }

end BSPacket

/-! ## Fields -/

/-- The header check of a typed parser on its own copy of the line: the string
left after the header, or `none` when the header is another one. -/
def expectHeader (t : PacketType) (line : List UInt8) : Except Fault (Option (List UInt8)) :=
  match strtok comma line with
  | none => .error .nullHeader
  | some (headerStr, save) =>
    if token comma headerStr = dollar :: packetHeaderStr t then .ok (some save) else .ok none

/-- `strtok(NULL, ",")` where the result is used without a check. -/
def nextField (save : List UInt8) : Except Fault (List UInt8 × List UInt8) :=
  match strtok comma save with
  | none => .error .nullField
  | some r => .ok r

/-- `(uint16_t)strtoul(str, NULL, 10)`. -/
def readId (p : List UInt8) : UInt16 := UInt16.ofNat (strtoul (token comma p) scbsNumbersBase)

/-- `(uint32_t)strtoul(str, NULL, 16)`. -/
def readAddr (p : List UInt8) : UInt32 := UInt32.ofNat (strtoul (token comma p) scbsAddrBase)

/-- `MIN(end_token_ptr - value_str, kMaxPacketFieldLen-1)`.  Subtracting a
pointer from `NULL` is negative. -/
def copyCount (valueStr : List UInt8) (endTokenPtr : Option (List UInt8)) : ℤ :=
  match endTokenPtr with
  | none => -1
  | some e => min (valueStr.length - e.length) (kMaxPacketFieldLen - 1)

/-- `strncpy(value, value_str, count)` into a zeroed field of
`kMaxPacketFieldLen` bytes. -/
def copyValue (valueStr : List UInt8) (count : ℤ) : Except Fault (List UInt8) :=
  if count < 0 then .error .badCount else .ok ((token comma valueStr).take count.toNat)

/-- The value field of `MWR`, `SWR` and `SRS`: the bytes before the `*` that is
looked for in the field itself. -/
def readValue (valueStr : List UInt8) : Except Fault (List UInt8) :=
  copyValue valueStr (copyCount (token comma valueStr) (strchr (token comma valueStr) star))

/-- `strncpy(value, value_in, kMaxPacketFieldLen-1)` into a zeroed field. -/
def fieldOf (valueIn : List UInt8) : List UInt8 := (cstr valueIn).take (kMaxPacketFieldLen - 1)

/-! ## Cell discover -/

/-- `class DISPacket`. -/
structure DISPacket extends BSPacket where
  lastCellId : UInt16 := 0
  deriving DecidableEq, Repr

namespace DISPacket

/-- `DISPacket::FromString`. -/
def fromString (stack : Stack) (self : DISPacket) (fromStrBuf : List UInt8) :
    Except Fault DISPacket := do
  let base ← self.toBSPacket.fromString stack fromStrBuf
  let self := { self with toBSPacket := base }
  if ¬ self.isValid then return self
  match ← expectHeader .dis fromStrBuf with
  | none => return self
  | some save =>
    let (lastCellIdStr, _) ← nextField save
    return { self with lastCellId := readId lastCellIdStr, isValid := true }

/-- `DISPacket::DISPacket(char *)`. -/
def ofString (stack : Stack) (fromStrBuf : List UInt8) : Except Fault DISPacket :=
  fromString stack { packetType := .dis } fromStrBuf

/-- `DISPacket::ToString`: the packet with its string. -/
def toStr (self : DISPacket) : DISPacket :=
  let contentsStr := snprintf kMaxPacketContentsLen (printNat 10 self.lastCellId.toNat)
  { self with toBSPacket := self.toBSPacket.packetizeContents contentsStr }

/-- `DISPacket::DISPacket(uint16_t)`. -/
def ofValues (lastCellIdIn : UInt16) : DISPacket :=
  toStr { packetType := .dis, lastCellId := lastCellIdIn }

end DISPacket

/-! ## Multi write -/

/-- `class MWRPacket`. -/
structure MWRPacket extends BSPacket where
  regAddr : UInt32 := 0
  value : List UInt8 := []
  deriving DecidableEq, Repr

namespace MWRPacket

/-- `MWRPacket::FromString`. -/
def fromString (stack : Stack) (self : MWRPacket) (fromStrBuf : List UInt8) :
    Except Fault MWRPacket := do
  let base ← self.toBSPacket.fromString stack fromStrBuf
  let self := { self with toBSPacket := base, value := [] }
  if ¬ self.isValid then return self
  match ← expectHeader .mwr fromStrBuf with
  | none => return self
  | some save =>
    let (regAddrStr, save) ← nextField save
    let (valueStr, _) ← nextField save
    let value ← readValue valueStr
    return { self with regAddr := readAddr regAddrStr, value := value, isValid := true }

/-- `MWRPacket::MWRPacket(char *)`. -/
def ofString (stack : Stack) (fromStrBuf : List UInt8) : Except Fault MWRPacket :=
  fromString stack { packetType := .mwr } fromStrBuf

/-- `MWRPacket::ToString`: the packet with its string. -/
def toStr (self : MWRPacket) : MWRPacket :=
  let contentsStr := snprintf kMaxPacketContentsLen
    (printNat 16 self.regAddr.toNat ++ comma :: self.value)
  { self with toBSPacket := self.toBSPacket.packetizeContents contentsStr }

/-- `MWRPacket::MWRPacket(uint32_t, char *)`. -/
def ofValues (regAddrIn : UInt32) (valueIn : List UInt8) : MWRPacket :=
  toStr { packetType := .mwr, regAddr := regAddrIn, value := fieldOf valueIn }

end MWRPacket

/-! ## Multi read -/

/-- `MRDPacket::kMaxNumValues`. -/
def kMaxNumValues : ℕ := 20

/-- `class MRDPacket`.  `values` has a slot for each of the values the packet's
array holds. -/
structure MRDPacket extends BSPacket where
  regAddr : UInt32 := 0
  values : List (List UInt8) := []
  numValues : ℕ := 0
  deriving DecidableEq, Repr

namespace MRDPacket

/-- The `while` loop of `MRDPacket::FromString`.  `room` is what is left of
`kMaxNumValues`; the loop returns early when another value is found with no room
for it. -/
def readValues (endTokenPtr : Option (List UInt8)) :
    (room : ℕ) → MRDPacket → Option (List UInt8 × List UInt8) → Except Fault MRDPacket
  | _, self, none => .ok { self with isValid := true }
  | 0, self, some _ => .ok self -- too many values to store!
  | room + 1, self, some (valueStr, save) => do
    let value ← copyValue valueStr (copyCount valueStr endTokenPtr)
    readValues endTokenPtr room
      { self with values := self.values.set self.numValues value, numValues := self.numValues + 1 }
      (strtok comma save)

/-- `MRDPacket::FromString`. -/
def fromString (stack : Stack) (self : MRDPacket) (fromStrBuf : List UInt8) :
    Except Fault MRDPacket := do
  let self := { self with values := List.replicate kMaxNumValues [], numValues := 0 }
  let base ← self.toBSPacket.fromString stack fromStrBuf
  let self := { self with toBSPacket := base }
  if ¬ self.isValid then return self
  let self := { self with isValid := false }
  match ← expectHeader .mrd fromStrBuf with
  | none => return self
  | some save =>
    let (regAddrStr, save) ← nextField save
    let self := { self with regAddr := readAddr regAddrStr }
    readValues (strchr fromStrBuf star) kMaxNumValues self (strtok comma save)

/-- `MRDPacket::MRDPacket(char *)`. -/
def ofString (stack : Stack) (fromStrBuf : List UInt8) : Except Fault MRDPacket :=
  fromString stack { packetType := .mrd } fromStrBuf

/-- The loop of `MRDPacket::ToString` that appends the values to the contents,
until there is no room for a whole field. -/
def appendValues : List UInt8 → List (List UInt8) → List UInt8
  | contentsStr, [] => contentsStr
  | contentsStr, value :: values =>
    if kMaxPacketContentsLen - kMaxPacketFieldLen - 1 ≤ contentsStr.length then contentsStr
    else appendValues (contentsStr ++ snprintf (kMaxPacketFieldLen + 1) (comma :: value)) values

/-- `MRDPacket::ToString`: the packet with its string. -/
def toStr (self : MRDPacket) : MRDPacket :=
  let contentsStr := appendValues
    (snprintf kMaxPacketContentsLen (printNat 16 self.regAddr.toNat))
    (self.values.take self.numValues)
  { self with toBSPacket := self.toBSPacket.packetizeContents contentsStr }

/-- `MRDPacket::MRDPacket(uint32_t, char[][], uint16_t)`.  The slots past the
values given are not initialised by the source and are left out. -/
def ofValues (regAddrIn : UInt32) (valuesIn : List (List UInt8)) (numValuesIn : ℕ) : MRDPacket :=
  toStr { packetType := .mrd, regAddr := regAddrIn,
          values := (valuesIn.take numValuesIn).map fieldOf, numValues := numValuesIn }

end MRDPacket

/-! ## Single write -/

/-- `class SWRPacket`. -/
structure SWRPacket extends BSPacket where
  cellId : UInt16 := 0
  regAddr : UInt32 := 0
  value : List UInt8 := []
  deriving DecidableEq, Repr

namespace SWRPacket

/-- `SWRPacket::FromString`. -/
def fromString (stack : Stack) (self : SWRPacket) (fromStrBuf : List UInt8) :
    Except Fault SWRPacket := do
  let base ← self.toBSPacket.fromString stack fromStrBuf
  let self := { self with toBSPacket := base, value := [] }
  if ¬ self.isValid then return self
  match ← expectHeader .swr fromStrBuf with
  | none => return self
  | some save =>
    let (cellIdStr, save) ← nextField save
    let (regAddrStr, save) ← nextField save
    let (valueStr, _) ← nextField save
    let value ← readValue valueStr
    return { self with cellId := readId cellIdStr, regAddr := readAddr regAddrStr,
                       value := value, isValid := true }

/-- `SWRPacket::SWRPacket(char *)`. -/
def ofString (stack : Stack) (fromStrBuf : List UInt8) : Except Fault SWRPacket :=
  fromString stack { packetType := .swr } fromStrBuf

/-- `SWRPacket::ToString`: the packet with its string. -/
def toStr (self : SWRPacket) : SWRPacket :=
  let contentsStr := snprintf kMaxPacketContentsLen
    (printNat 10 self.cellId.toNat ++
      comma :: (printNat 16 self.regAddr.toNat ++ comma :: self.value))
  { self with toBSPacket := self.toBSPacket.packetizeContents contentsStr }

/-- `SWRPacket::SWRPacket(uint16_t, uint32_t, char *)`. -/
def ofValues (cellIdIn : UInt16) (regAddrIn : UInt32) (valueIn : List UInt8) : SWRPacket :=
  toStr { packetType := .swr, cellId := cellIdIn, regAddr := regAddrIn, value := fieldOf valueIn }

end SWRPacket

/-! ## Single read -/

/-- `class SRDPacket`. -/
structure SRDPacket extends BSPacket where
  cellId : UInt16 := 0
  regAddr : UInt32 := 0
  deriving DecidableEq, Repr

namespace SRDPacket

/-- `SRDPacket::FromString`. -/
def fromString (stack : Stack) (self : SRDPacket) (fromStrBuf : List UInt8) :
    Except Fault SRDPacket := do
  let base ← self.toBSPacket.fromString stack fromStrBuf
  let self := { self with toBSPacket := base }
  if ¬ self.isValid then return self
  let self := { self with isValid := false }
  match ← expectHeader .srd fromStrBuf with
  | none => return self
  | some save =>
    let (cellIdStr, save) ← nextField save
    let (regAddrStr, _) ← nextField save
    return { self with cellId := readId cellIdStr, regAddr := readAddr regAddrStr, isValid := true }

/-- `SRDPacket::SRDPacket(char *)`. -/
def ofString (stack : Stack) (fromStrBuf : List UInt8) : Except Fault SRDPacket :=
  fromString stack { packetType := .srd } fromStrBuf

/-- `SRDPacket::ToString`: the packet with its string. -/
def toStr (self : SRDPacket) : SRDPacket :=
  let contentsStr := snprintf kMaxPacketContentsLen
    (printNat 10 self.cellId.toNat ++ comma :: printNat 16 self.regAddr.toNat)
  { self with toBSPacket := self.toBSPacket.packetizeContents contentsStr }

/-- `SRDPacket::SRDPacket(uint16_t, uint32_t)`. -/
def ofValues (cellIdIn : UInt16) (regAddrIn : UInt32) : SRDPacket :=
  toStr { packetType := .srd, cellId := cellIdIn, regAddr := regAddrIn }

end SRDPacket

/-! ## Single response -/

/-- `class SRSPacket`. -/
structure SRSPacket extends BSPacket where
  cellId : UInt16 := 0
  value : List UInt8 := []
  deriving DecidableEq, Repr

namespace SRSPacket

/-- `SRSPacket::FromString`. -/
def fromString (stack : Stack) (self : SRSPacket) (fromStrBuf : List UInt8) :
    Except Fault SRSPacket := do
  let base ← self.toBSPacket.fromString stack fromStrBuf
  let self := { self with toBSPacket := base, value := [] }
  if ¬ self.isValid then return self
  match ← expectHeader .srs fromStrBuf with
  | none => return self
  | some save =>
    let (cellIdStr, save) ← nextField save
    let (valueStr, _) ← nextField save
    let value ← readValue valueStr
    return { self with cellId := readId cellIdStr, value := value, isValid := true }

/-- `SRSPacket::SRSPacket(char *)`. -/
def ofString (stack : Stack) (fromStrBuf : List UInt8) : Except Fault SRSPacket :=
  fromString stack { packetType := .srs } fromStrBuf

/-- `SRSPacket::ToString`: the packet with its string. -/
def toStr (self : SRSPacket) : SRSPacket :=
  let contentsStr := snprintf kMaxPacketContentsLen
    (printNat 10 self.cellId.toNat ++ comma :: self.value)
  { self with toBSPacket := self.toBSPacket.packetizeContents contentsStr }

/-- `SRSPacket::SRSPacket(uint16_t, char *)`. -/
def ofValues (cellIdIn : UInt16) (valueIn : List UInt8) : SRSPacket :=
  toStr { packetType := .srs, cellId := cellIdIn, value := fieldOf valueIn }

end SRSPacket

end Scbs
