import Scbs.Agreement
import Scbs.Arrays
import Scbs.CLib.Scan
import Scbs.ReceiveBuffer

/-!
# The packets are parsed in arrays

`FromString` once more, with the arrays that it works on: `packet_str_`, the two `strtok_buf`
that `strtok` cuts up, and the arrays of the fields.

* `Arrays.fromString`, `Arrays.parse` — `BSPacket::FromString`, and the two parsers that
  `Update` runs.
* `Packet.inArrays`, `Packet.Fits` — a packet on strings, with arrays that hold its strings.
* `Arrays.fromString_agrees`, `Arrays.mrd_agrees` and the others — each parser.
* `Arrays.parse_agrees` — **the parsers leave their arrays exactly where the ones on strings
  fault**, and otherwise find the same packet.
-/

namespace Scbs

open CLib Agreement

namespace Arrays

/-! ## The base packet -/

/-- What the arrays of a packet and of its `FromString` hold where they are declared. -/
structure Parsing where
  packetStr : Vector UInt8 kMaxPacketLen
  strtokBuf : Vector UInt8 kMaxPacketLen
  value : Vector UInt8 kMaxPacketFieldLen
  values : Vector (Vector UInt8 kMaxPacketFieldLen) kMaxNumValues

/-- `BSPacket::BSPacket()`. -/
def newPacket (packetStr : Vector UInt8 kMaxPacketLen) : Option BSPacket := do
  let packetStr ← Buffer.memset packetStr.toList 0 kMaxPacketLen
  return { packetStr := packetStr }

/-- `BSPacket::FromString`. -/
def fromString (stack : Stack) (self : BSPacket) (fromStrBuf : List UInt8) : Option BSPacket := do
  let packetStr ← Buffer.strncpy self.packetStr fromStrBuf kMaxPacketLen
  let self := { self with packetStr := packetStr, isValid := false }
  let s ← Buffer.str packetStr
  match strchr s star with
  | none => return self
  | some endTokenPtr =>
    let transmittedChecksum := UInt8.ofInt (strtol endTokenPtr.tail scbsChecksumBase)
    let expectedChecksum ← calculateChecksum packetStr
    if expectedChecksum ≠ transmittedChecksum then return self
    else
      let strtokBuf ← Buffer.strncpy stack.toList fromStrBuf kMaxPacketFieldLen
      let (headerStr, scan) ← Buffer.strtok comma ⟨strtokBuf, 0⟩
      let headerStr ← headerStr
      let header ← Buffer.strAt scan.mem (headerStr + 1)
      match BSPacket.lookupHeader header with
      | none => return self
      | some t => return { self with packetType := t, isValid := true }

/-! ## Fields -/

/-- The header check of a typed parser in its copy of the line. -/
def expectHeader (t : PacketType) (strtokBuf : List UInt8) : Option (Option Buffer.Scan) := do
  let (headerStr, scan) ← Buffer.strtok comma ⟨strtokBuf, 0⟩
  let headerStr ← headerStr
  let header ← Buffer.strAt scan.mem headerStr
  return if header = dollar :: packetHeaderStr t then some scan else none

/-- `strtok(NULL, ",")` where the result is used without a check. -/
def nextField (scan : Buffer.Scan) : Option (ℕ × Buffer.Scan) := do
  let (str, scan) ← Buffer.strtok comma scan
  let str ← str
  return (str, scan)

/-- `(uint16_t)strtoul(str, NULL, 10)`. -/
def readId (scan : Buffer.Scan) (str : ℕ) : Option UInt16 := do
  let s ← Buffer.strAt scan.mem str
  return UInt16.ofNat (strtoul s scbsNumbersBase)

/-- `(uint32_t)strtoul(str, NULL, 16)`. -/
def readAddr (scan : Buffer.Scan) (str : ℕ) : Option UInt32 := do
  let s ← Buffer.strAt scan.mem str
  return UInt32.ofNat (strtoul s scbsAddrBase)

/-- `strncpy(value, value_str, MIN(end_token_ptr - value_str, kMaxPacketFieldLen-1))`.
Subtracting a pointer from `NULL` and a negative count are faults. -/
def copyValue (value : List UInt8) (scan : Buffer.Scan) (valueStr : ℕ) (endTokenPtr : Option ℕ) :
    Option (List UInt8) := do
  let endTokenPtr ← endTokenPtr
  let count : ℤ := min (endTokenPtr - valueStr) (kMaxPacketFieldLen - 1)
  if count < 0 then none else Buffer.strncpy value (scan.mem.drop valueStr) count.toNat

/-- The value field of `MWR`, `SWR` and `SRS`. -/
def readValue (value : List UInt8) (scan : Buffer.Scan) (valueStr : ℕ) : Option (List UInt8) := do
  let endTokenPtr ← Buffer.strchr scan.mem valueStr star
  copyValue value scan valueStr endTokenPtr

/-! ## The typed parsers -/

section Typed

variable (stack : Stack) (a : Parsing) (fromStrBuf : List UInt8)

/-- `DISPacket::FromString`. -/
def disFromString (self : DISPacket) : Option DISPacket := do
  let base ← fromString stack self.toBSPacket fromStrBuf
  let self := { self with toBSPacket := base }
  if ¬ self.isValid then return self
  let strtokBuf ← Buffer.strncpy a.strtokBuf.toList fromStrBuf kMaxPacketLen
  match ← expectHeader .dis strtokBuf with
  | none => return self
  | some scan =>
    let (lastCellIdStr, scan) ← nextField scan
    let lastCellId ← readId scan lastCellIdStr
    return { self with lastCellId := lastCellId, isValid := true }

/-- `DISPacket::DISPacket(char *)`. -/
def disOfString : Option DISPacket := do
  let base ← newPacket a.packetStr
  disFromString stack a fromStrBuf { toBSPacket := { base with packetType := .dis } }

/-- `MWRPacket::FromString`. -/
def mwrFromString (self : MWRPacket) : Option MWRPacket := do
  let value ← Buffer.memset self.value 0 kMaxPacketFieldLen
  let base ← fromString stack self.toBSPacket fromStrBuf
  let self := { self with toBSPacket := base, value := value }
  if ¬ self.isValid then return self
  let strtokBuf ← Buffer.strncpy a.strtokBuf.toList fromStrBuf kMaxPacketLen
  match ← expectHeader .mwr strtokBuf with
  | none => return self
  | some scan =>
    let (regAddrStr, scan) ← nextField scan
    let regAddr ← readAddr scan regAddrStr
    let (valueStr, scan) ← nextField scan
    let value ← readValue value scan valueStr
    return { self with regAddr := regAddr, value := value, isValid := true }

/-- `MWRPacket::MWRPacket(char *)`. -/
def mwrOfString : Option MWRPacket := do
  let base ← newPacket a.packetStr
  mwrFromString stack a fromStrBuf
    { toBSPacket := { base with packetType := .mwr }, value := a.value.toList }

/-- The `while` loop of `MRDPacket::FromString`, with room for `room` more values. -/
def readValues (endTokenPtr : Option ℕ) :
    (room : ℕ) → MRDPacket → Option ℕ → Buffer.Scan → Option MRDPacket
  | _, self, none, _ => some { self with isValid := true }
  | 0, self, some _, _ => some self -- too many values to store!
  | room + 1, self, some valueStr, scan => do
    let value ← self.values[self.numValues]?
    let value ← copyValue value scan valueStr endTokenPtr
    let (valueStr, scan) ← Buffer.strtok comma scan
    readValues endTokenPtr room
      { self with values := self.values.set self.numValues value, numValues := self.numValues + 1 }
      valueStr scan

/-- `MRDPacket::FromString`. -/
def mrdFromString (self : MRDPacket) : Option MRDPacket := do
  let values ← self.values.mapM fun value => Buffer.memset value 0 kMaxPacketFieldLen
  let base ← fromString stack self.toBSPacket fromStrBuf
  let self := { self with toBSPacket := base, values := values, numValues := 0 }
  if ¬ self.isValid then return self
  let self := { self with isValid := false }
  let strtokBuf ← Buffer.strncpy a.strtokBuf.toList fromStrBuf kMaxPacketLen
  -- the `*` is looked for before `strtok` cuts the line
  let endTokenPtr ← Buffer.strchr strtokBuf 0 star
  match ← expectHeader .mrd strtokBuf with
  | none => return self
  | some scan =>
    let (regAddrStr, scan) ← nextField scan
    let regAddr ← readAddr scan regAddrStr
    let (valueStr, scan) ← Buffer.strtok comma scan
    readValues endTokenPtr kMaxNumValues { self with regAddr := regAddr } valueStr scan

/-- `MRDPacket::MRDPacket(char *)`. -/
def mrdOfString : Option MRDPacket := do
  let base ← newPacket a.packetStr
  mrdFromString stack a fromStrBuf
    { toBSPacket := { base with packetType := .mrd }, values := a.values.toList.map (·.toList) }

/-- `SWRPacket::FromString`. -/
def swrFromString (self : SWRPacket) : Option SWRPacket := do
  let value ← Buffer.memset self.value 0 kMaxPacketFieldLen
  let base ← fromString stack self.toBSPacket fromStrBuf
  let self := { self with toBSPacket := base, value := value }
  if ¬ self.isValid then return self
  let strtokBuf ← Buffer.strncpy a.strtokBuf.toList fromStrBuf kMaxPacketLen
  match ← expectHeader .swr strtokBuf with
  | none => return self
  | some scan =>
    let (cellIdStr, scan) ← nextField scan
    let cellId ← readId scan cellIdStr
    let (regAddrStr, scan) ← nextField scan
    let regAddr ← readAddr scan regAddrStr
    let (valueStr, scan) ← nextField scan
    let value ← readValue value scan valueStr
    return { self with cellId := cellId, regAddr := regAddr, value := value, isValid := true }

/-- `SWRPacket::SWRPacket(char *)`. -/
def swrOfString : Option SWRPacket := do
  let base ← newPacket a.packetStr
  swrFromString stack a fromStrBuf
    { toBSPacket := { base with packetType := .swr }, value := a.value.toList }

/-- `SRDPacket::FromString`. -/
def srdFromString (self : SRDPacket) : Option SRDPacket := do
  let base ← fromString stack self.toBSPacket fromStrBuf
  let self := { self with toBSPacket := base }
  if ¬ self.isValid then return self
  let self := { self with isValid := false }
  let strtokBuf ← Buffer.strncpy a.strtokBuf.toList fromStrBuf kMaxPacketLen
  match ← expectHeader .srd strtokBuf with
  | none => return self
  | some scan =>
    let (cellIdStr, scan) ← nextField scan
    let cellId ← readId scan cellIdStr
    let (regAddrStr, scan) ← nextField scan
    let regAddr ← readAddr scan regAddrStr
    return { self with cellId := cellId, regAddr := regAddr, isValid := true }

/-- `SRDPacket::SRDPacket(char *)`. -/
def srdOfString : Option SRDPacket := do
  let base ← newPacket a.packetStr
  srdFromString stack a fromStrBuf { toBSPacket := { base with packetType := .srd } }

/-- `SRSPacket::FromString`. -/
def srsFromString (self : SRSPacket) : Option SRSPacket := do
  let value ← Buffer.memset self.value 0 kMaxPacketFieldLen
  let base ← fromString stack self.toBSPacket fromStrBuf
  let self := { self with toBSPacket := base, value := value }
  if ¬ self.isValid then return self
  let strtokBuf ← Buffer.strncpy a.strtokBuf.toList fromStrBuf kMaxPacketLen
  match ← expectHeader .srs strtokBuf with
  | none => return self
  | some scan =>
    let (cellIdStr, scan) ← nextField scan
    let cellId ← readId scan cellIdStr
    let (valueStr, scan) ← nextField scan
    let value ← readValue value scan valueStr
    return { self with cellId := cellId, value := value, isValid := true }

/-- `SRSPacket::SRSPacket(char *)`. -/
def srsOfString : Option SRSPacket := do
  let base ← newPacket a.packetStr
  srsFromString stack a fromStrBuf
    { toBSPacket := { base with packetType := .srs }, value := a.value.toList }

/-- The two parsers that `Update` runs on `uart_rx_buf_`, the first with `packet_str_` of
its own. -/
def parse (packetStr : Vector UInt8 kMaxPacketLen) (env : Env) : Option Packet := do
  let packet ← fromString env.stack { packetStr := packetStr.toList } fromStrBuf
  if packet.isValid then
    match packet.packetType with
    | .dis => return .dis (← disOfString env.stackTyped a fromStrBuf)
    | .mrd => return .mrd (← mrdOfString env.stackTyped a fromStrBuf)
    | .mwr => return .mwr (← mwrOfString env.stackTyped a fromStrBuf)
    | .srd => return .srd (← srdOfString env.stackTyped a fromStrBuf)
    | .swr => return .swr (← swrOfString env.stackTyped a fromStrBuf)
    | .srs => return .srs (← srsOfString env.stackTyped a fromStrBuf)
    | .unknown => return .rejected
  else return .rejected

end Typed

end Arrays

/-! ## Packets in arrays -/

/-- The packet with an array for its string. -/
def BSPacket.inArrays (p : BSPacket) : BSPacket :=
  { p with packetStr := Buffer.pad kMaxPacketLen p.packetStr }

/-- The packet with arrays for its strings. -/
def Packet.inArrays : Packet → Packet
  | .rejected => .rejected
  | .dis p => .dis { p with toBSPacket := p.toBSPacket.inArrays }
  | .mrd p => .mrd { p with toBSPacket := p.toBSPacket.inArrays,
                            values := p.values.map (Buffer.pad kMaxPacketFieldLen) }
  | .mwr p => .mwr { p with toBSPacket := p.toBSPacket.inArrays,
                            value := Buffer.pad kMaxPacketFieldLen p.value }
  | .srd p => .srd { p with toBSPacket := p.toBSPacket.inArrays }
  | .swr p => .swr { p with toBSPacket := p.toBSPacket.inArrays,
                            value := Buffer.pad kMaxPacketFieldLen p.value }
  | .srs p => .srs { p with toBSPacket := p.toBSPacket.inArrays,
                            value := Buffer.pad kMaxPacketFieldLen p.value }

/-- The strings of the packet fit into its arrays. -/
def Packet.Fits : Packet → Prop
  | .rejected => True
  | .dis p => IsCString p.packetStr
  | .mrd p => IsCString p.packetStr ∧ p.values.length = kMaxNumValues ∧
      ∀ value ∈ p.values, Buffer.FitsIn kMaxPacketFieldLen value
  | .mwr p => IsCString p.packetStr ∧ Buffer.FitsIn kMaxPacketFieldLen p.value
  | .srd p => IsCString p.packetStr
  | .swr p => IsCString p.packetStr ∧ Buffer.FitsIn kMaxPacketFieldLen p.value
  | .srs p => IsCString p.packetStr ∧ Buffer.FitsIn kMaxPacketFieldLen p.value

namespace Arrays

/-! ## The parts of the parsers -/

section Parts

variable {stack : Stack} {line fromStrBuf : List UInt8} {n total : ℕ}

theorem comma_ne_nul : comma ≠ 0 := by decide

theorem newPacket_eq (packetStr : Vector UInt8 kMaxPacketLen) :
    newPacket packetStr = some (BSPacket.inArrays {}) := by
  rw [newPacket, Buffer.memset_pad packetStr.length_toList]
  rfl

theorem length_zeros : (Buffer.pad kMaxPacketLen []).length = kMaxPacketLen :=
  Buffer.length_pad (Nat.zero_le _)

theorem fitsIn_nil : Buffer.FitsIn kMaxPacketFieldLen [] := ⟨List.not_mem_nil, by decide⟩

/-- The values of a new packet are filled with NULs. -/
theorem memset_values (a : Parsing) :
    (a.values.toList.map (·.toList)).mapM
        (fun value => Buffer.memset value 0 kMaxPacketFieldLen) =
      some ((List.replicate kMaxNumValues []).map (Buffer.pad kMaxPacketFieldLen)) := by
  have hall : ∀ values : List (Vector UInt8 kMaxPacketFieldLen),
      (values.map (·.toList)).mapM (fun value => Buffer.memset value 0 kMaxPacketFieldLen) =
        some (List.replicate values.length (Buffer.pad kMaxPacketFieldLen [])) := by
    intro values
    induction values with
    | nil => rfl
    | cons value values ih =>
      rw [List.map_cons, List.mapM_cons, ih, Buffer.memset_pad value.length_toList]
      rfl
  rw [hall, a.values.length_toList, List.map_replicate]

/-- The copy of the beginning of the line. -/
theorem strncpy_headerBuf (stack : Stack) (hbuf : Buffer.Holds n line fromStrBuf) :
    Buffer.strncpy stack.toList fromStrBuf kMaxPacketFieldLen =
      some (BSPacket.headerBuf stack line) := by
  rw [Buffer.strncpy_eq hbuf (by rw [stack.length_toList]; decide), BSPacket.headerBuf, strncpyMem,
    List.append_assoc]

/-- **`BSPacket::FromString`** into any array. -/
theorem fromString_agrees (self : BSPacket) {mem : List UInt8} (hline : IsCString line)
    (hbuf : Buffer.Holds n line fromStrBuf) (hmem : mem.length = kMaxPacketLen) :
    Agrees (fun p a => p.packetStr = line ∧ a = p.inArrays)
      (self.fromString stack line)
      (fromString stack { self with packetStr := mem } fromStrBuf) := by
  have hcopy := Buffer.strncpy_all hbuf hmem hline.fits
  have hholds : Buffer.Holds kMaxPacketLen line (Buffer.pad kMaxPacketLen line) :=
    Buffer.FitsIn.holds ⟨hline.no_nul, hline.fits⟩
  unfold BSPacket.fromString fromString
  simp only [hcopy, hholds.str_eq, calculateChecksum_holds hholds, strncpy_headerBuf stack hbuf,
    Option.bind_eq_bind, Option.bind_some]
  cases strchr line star with
  | none => exact .result ⟨rfl, rfl⟩
  | some endTokenPtr =>
    refine .ite (fun _ => .result ⟨rfl, rfl⟩) fun _ => ?_
    have hfirst := Buffer.strtok_first comma_ne_nul (BSPacket.headerBuf stack line)
    generalize strtokMem comma (BSPacket.headerBuf stack line) = o at hfirst ⊢
    generalize Buffer.strtok comma ⟨BSPacket.headerBuf stack line, 0⟩ = r at hfirst ⊢
    cases hfirst with
    | endless => exact .fault _
    | null scan => exact .fault _
    | found hne hstr =>
      obtain ⟨c, u, rfl⟩ := List.exists_cons_of_ne_nil hne
      simp only [Option.bind_some, Buffer.strAt_succ hstr, List.tail_cons]
      cases BSPacket.lookupHeader u with
      | none => exact .result ⟨rfl, rfl⟩
      | some t => exact .result ⟨rfl, rfl⟩

/-- The copy of the line in a typed parser, which is still to be cut. -/
theorem unread_line (hline : IsCString line) :
    Buffer.Unread kMaxPacketLen line.length line ⟨Buffer.pad kMaxPacketLen line, 0⟩ := by
  have hholds : Buffer.Holds kMaxPacketLen line (Buffer.pad kMaxPacketLen line) :=
    Buffer.FitsIn.holds ⟨hline.no_nul, hline.fits⟩
  exact ⟨hholds.length_eq, Nat.zero_add _, hholds.str_eq⟩

/-- **The header check.** -/
theorem expectHeader_agrees (t : PacketType) (hline : IsCString line) :
    Agrees (Option.Rel (Buffer.Unread kMaxPacketLen line.length)) (Scbs.expectHeader t line)
      (expectHeader t (Buffer.pad kMaxPacketLen line)) := by
  obtain ⟨r, hr, hresult⟩ := Buffer.strtok_result comma_ne_nul (unread_line hline)
  unfold Scbs.expectHeader expectHeader
  rw [hr, Option.bind_eq_bind, Option.bind_some]
  generalize strtok comma line = found at hresult ⊢
  cases hresult with
  | null scan => exact .fault _
  | found hindex hstr hrest =>
    simp only [Option.bind_eq_bind, Option.bind_some, hstr]
    split
    · exact .result (.some hrest)
    · exact .result .none

section Fields

variable {save tok : List UInt8} {scan : Buffer.Scan} {i : ℕ}

/-- **A field that is used without a check.** -/
theorem nextField_agrees (h : Buffer.Unread n total save scan) :
    Agrees (fun r s => Buffer.Result n total comma (some r) (some s.1, s.2))
      (Scbs.nextField save) (nextField scan) := by
  obtain ⟨r, hr, hresult⟩ := Buffer.strtok_result comma_ne_nul h
  unfold Scbs.nextField nextField
  rw [hr, Option.bind_eq_bind, Option.bind_some]
  generalize strtok comma save = found at hresult ⊢
  cases hresult with
  | null scan => exact .fault _
  | found hindex hstr hrest => exact .result (.found hindex hstr hrest)

variable (h : Buffer.Result n total comma (some (tok, save)) (some i, scan))

include h

theorem readId_eq : readId scan i = some (Scbs.readId tok) := by
  rw [readId, h.str_eq]
  rfl

theorem readAddr_eq : readAddr scan i = some (Scbs.readAddr tok) := by
  rw [readAddr, h.str_eq]
  rfl

/-- **A value is copied** into an array that is filled with NULs. -/
theorem copyValue_agrees {str : List UInt8} {end₁ : Option (List UInt8)} {end₂ : Option ℕ}
    (hend : Option.Rel (fun (e : List UInt8) (j : ℕ) => (str.length : ℤ) - e.length = j - i)
      end₁ end₂) :
    Agrees (fun v a => Buffer.FitsIn kMaxPacketFieldLen v ∧ a = Buffer.pad kMaxPacketFieldLen v)
      (Scbs.copyValue tok (copyCount str end₁))
      (copyValue (Buffer.pad kMaxPacketFieldLen []) scan i end₂) := by
  have hholds : Buffer.Holds (scan.mem.drop i).length (token comma tok) (scan.mem.drop i) :=
    ⟨rfl, h.str_eq⟩
  cases hend with
  | none => exact .fault _
  | some hdiff =>
    unfold Scbs.copyValue copyValue copyCount
    simp only [hdiff, Option.bind_eq_bind, Option.bind_some]
    refine .ite (fun _ => .fault _) fun hcount => ?_
    rw [Buffer.strncpy_pad hholds (by simp only [kMaxPacketFieldLen]; omega)]
    refine .result ⟨⟨fun hmem => hholds.nul_not_mem (List.mem_of_mem_take hmem), ?_⟩, rfl⟩
    rw [List.length_take]
    simp only [kMaxPacketFieldLen]
    omega

/-- **The value field of `MWR`, `SWR` and `SRS`.** -/
theorem readValue_agrees :
    Agrees (fun v a => Buffer.FitsIn kMaxPacketFieldLen v ∧ a = Buffer.pad kMaxPacketFieldLen v)
      (Scbs.readValue tok) (readValue (Buffer.pad kMaxPacketFieldLen []) scan i) := by
  obtain ⟨endTokenPtr, hchr, hend⟩ := Buffer.strchr_spec h.str_eq star
  unfold Scbs.readValue readValue
  rw [hchr, Option.bind_eq_bind, Option.bind_some]
  exact copyValue_agrees h hend

end Fields

end Parts

/-! ## The parsers -/

section Parsers

variable {stack : Stack} {line fromStrBuf : List UInt8} {n : ℕ} (a : Parsing)
  (hline : IsCString line) (hbuf : Buffer.Holds n line fromStrBuf)

include hline hbuf

/-- **What the typed parsers have in common**: the base packet, the copy of the line and the
header check come before the fields. -/
theorem typed_agrees {γ δ : Type} {S : γ → δ → Prop} {t : PacketType} (self : BSPacket)
    {invalid other : BSPacket → γ} {invalid' other' : BSPacket → δ}
    {fields : BSPacket → List UInt8 → Except Fault γ}
    {fields' : BSPacket → Buffer.Scan → Option δ}
    (hinvalid : ∀ base, IsCString base.packetStr → S (invalid base) (invalid' base.inArrays))
    (hother : ∀ base, IsCString base.packetStr → S (other base) (other' base.inArrays))
    (hfields : ∀ base save scan, IsCString base.packetStr →
      Buffer.Unread kMaxPacketLen line.length save scan →
        Agrees S (fields base save) (fields' base.inArrays scan)) :
    Agrees S
      (do
        let base ← self.fromString stack line
        if ¬ base.isValid then return invalid base
        match ← Scbs.expectHeader t line with
        | none => return other base
        | some save => fields base save)
      (do
        let base ← fromString stack { self with packetStr := Buffer.pad kMaxPacketLen [] }
          fromStrBuf
        if ¬ base.isValid then return invalid' base
        let strtokBuf ← Buffer.strncpy a.strtokBuf.toList fromStrBuf kMaxPacketLen
        match ← expectHeader t strtokBuf with
        | none => return other' base
        | some scan => fields' base scan) := by
  have hcopy := Buffer.strncpy_all hbuf a.strtokBuf.length_toList hline.fits
  refine .bind (fromString_agrees _ hline hbuf length_zeros) ?_
  rintro base _ ⟨hstr, rfl⟩
  have hfits : IsCString base.packetStr := hstr ▸ hline
  refine .ite (fun _ => .result (hinvalid base hfits)) fun _ => ?_
  refine .step hcopy (.bind (expectHeader_agrees t hline) ?_)
  intro save scan hscan
  cases hscan with
  | none => exact .result (hother base hfits)
  | some hunread => exact hfields base _ _ hfits hunread

theorem dis_agrees :
    Agrees (fun p q => Packet.Fits (.dis p) ∧ .dis q = Packet.inArrays (.dis p))
      (DISPacket.ofString stack line) (disOfString stack a fromStrBuf) := by
  unfold DISPacket.ofString DISPacket.fromString disOfString disFromString
  refine .step (newPacket_eq _) (typed_agrees a hline hbuf { packetType := .dis }
    (fun base hfits => ⟨hfits, rfl⟩) (fun base hfits => ⟨hfits, rfl⟩) ?_)
  intro base save scan hfits hunread
  refine .bind (nextField_agrees hunread) ?_
  rintro ⟨lastCellIdStr, save⟩ ⟨i, scan⟩ hid
  exact .step (readId_eq hid) (.result ⟨hfits, rfl⟩)

theorem srd_agrees :
    Agrees (fun p q => Packet.Fits (.srd p) ∧ .srd q = Packet.inArrays (.srd p))
      (SRDPacket.ofString stack line) (srdOfString stack a fromStrBuf) := by
  unfold SRDPacket.ofString SRDPacket.fromString srdOfString srdFromString
  refine .step (newPacket_eq _) (typed_agrees a hline hbuf { packetType := .srd }
    (fun base hfits => ⟨hfits, rfl⟩) (fun base hfits => ⟨hfits, rfl⟩) ?_)
  intro base save scan hfits hunread
  refine .bind (nextField_agrees hunread) ?_
  rintro ⟨cellIdStr, save⟩ ⟨i, scan⟩ hid
  refine .step (readId_eq hid) (.bind (nextField_agrees hid.unread) ?_)
  rintro ⟨regAddrStr, save⟩ ⟨i, scan⟩ haddr
  exact .step (readAddr_eq haddr) (.result ⟨hfits, rfl⟩)

theorem mwr_agrees :
    Agrees (fun p q => Packet.Fits (.mwr p) ∧ .mwr q = Packet.inArrays (.mwr p))
      (MWRPacket.ofString stack line) (mwrOfString stack a fromStrBuf) := by
  unfold MWRPacket.ofString MWRPacket.fromString mwrOfString mwrFromString
  refine .step (newPacket_eq _) (.step (Buffer.memset_pad a.value.length_toList) ?_)
  refine typed_agrees a hline hbuf { packetType := .mwr }
    (fun base hfits => ⟨⟨hfits, fitsIn_nil⟩, rfl⟩) (fun base hfits => ⟨⟨hfits, fitsIn_nil⟩, rfl⟩) ?_
  intro base save scan hfits hunread
  refine .bind (nextField_agrees hunread) ?_
  rintro ⟨regAddrStr, save⟩ ⟨i, scan⟩ haddr
  refine .step (readAddr_eq haddr) (.bind (nextField_agrees haddr.unread) ?_)
  rintro ⟨valueStr, save⟩ ⟨i, scan⟩ hvalue
  refine .bind (readValue_agrees hvalue) ?_
  rintro value _ ⟨hvalue, rfl⟩
  exact .result ⟨⟨hfits, hvalue⟩, rfl⟩

theorem swr_agrees :
    Agrees (fun p q => Packet.Fits (.swr p) ∧ .swr q = Packet.inArrays (.swr p))
      (SWRPacket.ofString stack line) (swrOfString stack a fromStrBuf) := by
  unfold SWRPacket.ofString SWRPacket.fromString swrOfString swrFromString
  refine .step (newPacket_eq _) (.step (Buffer.memset_pad a.value.length_toList) ?_)
  refine typed_agrees a hline hbuf { packetType := .swr }
    (fun base hfits => ⟨⟨hfits, fitsIn_nil⟩, rfl⟩) (fun base hfits => ⟨⟨hfits, fitsIn_nil⟩, rfl⟩) ?_
  intro base save scan hfits hunread
  refine .bind (nextField_agrees hunread) ?_
  rintro ⟨cellIdStr, save⟩ ⟨i, scan⟩ hid
  refine .step (readId_eq hid) (.bind (nextField_agrees hid.unread) ?_)
  rintro ⟨regAddrStr, save⟩ ⟨i, scan⟩ haddr
  refine .step (readAddr_eq haddr) (.bind (nextField_agrees haddr.unread) ?_)
  rintro ⟨valueStr, save⟩ ⟨i, scan⟩ hvalue
  refine .bind (readValue_agrees hvalue) ?_
  rintro value _ ⟨hvalue, rfl⟩
  exact .result ⟨⟨hfits, hvalue⟩, rfl⟩

theorem srs_agrees :
    Agrees (fun p q => Packet.Fits (.srs p) ∧ .srs q = Packet.inArrays (.srs p))
      (SRSPacket.ofString stack line) (srsOfString stack a fromStrBuf) := by
  unfold SRSPacket.ofString SRSPacket.fromString srsOfString srsFromString
  refine .step (newPacket_eq _) (.step (Buffer.memset_pad a.value.length_toList) ?_)
  refine typed_agrees a hline hbuf { packetType := .srs }
    (fun base hfits => ⟨⟨hfits, fitsIn_nil⟩, rfl⟩) (fun base hfits => ⟨⟨hfits, fitsIn_nil⟩, rfl⟩) ?_
  intro base save scan hfits hunread
  refine .bind (nextField_agrees hunread) ?_
  rintro ⟨cellIdStr, save⟩ ⟨i, scan⟩ hid
  refine .step (readId_eq hid) (.bind (nextField_agrees hid.unread) ?_)
  rintro ⟨valueStr, save⟩ ⟨i, scan⟩ hvalue
  refine .bind (readValue_agrees hvalue) ?_
  rintro value _ ⟨hvalue, rfl⟩
  exact .result ⟨⟨hfits, hvalue⟩, rfl⟩

omit hline hbuf in
/-- The values of a packet before and after its values are read fit into their arrays. -/
theorem fits_slots {pre : List (List UInt8)} {room : ℕ} (hroom : pre.length + room = kMaxNumValues)
    (hpre : ∀ value ∈ pre, Buffer.FitsIn kMaxPacketFieldLen value) :
    (MRDPacket.slots pre room).length = kMaxNumValues ∧
      ∀ value ∈ MRDPacket.slots pre room, Buffer.FitsIn kMaxPacketFieldLen value := by
  constructor
  · rw [MRDPacket.slots, List.length_append, List.length_replicate, hroom]
  · intro value hvalue
    rcases List.mem_append.1 hvalue with h | h
    · exact hpre value h
    · rw [List.eq_of_mem_replicate h]
      exact fitsIn_nil

omit hline hbuf in
/-- **The loop of a multi-read**, with the values `pre` read so far. -/
theorem readValues_agrees {end₁ : Option (List UInt8)} {end₂ : Option ℕ}
    (hend : Option.Rel (fun (e : List UInt8) (j : ℕ) => (line.length : ℤ) - e.length = j - (0 : ℕ))
      end₁ end₂) (room : ℕ) {pre : List (List UInt8)} (self : MRDPacket)
    (hstr : IsCString self.packetStr) (hvalues : self.values = MRDPacket.slots pre room)
    (hnum : self.numValues = pre.length) (hroom : pre.length + room = kMaxNumValues)
    (hpre : ∀ value ∈ pre, Buffer.FitsIn kMaxPacketFieldLen value)
    {found : Option (List UInt8 × List UInt8)} {valueStr : Option ℕ} {scan : Buffer.Scan}
    (h : Buffer.Result kMaxPacketLen line.length comma found (valueStr, scan)) :
    Agrees (fun p q => Packet.Fits (.mrd p) ∧ .mrd q = Packet.inArrays (.mrd p))
      (MRDPacket.readValues end₁ room self found)
      (readValues end₂ room { self with toBSPacket := self.toBSPacket.inArrays,
                                        values := self.values.map (Buffer.pad kMaxPacketFieldLen) }
        valueStr scan) := by
  induction room generalizing pre self found valueStr scan with
  | zero =>
    have hfits : Packet.Fits (.mrd self) := ⟨hstr, hvalues ▸ fits_slots hroom hpre⟩
    cases h with
    | null scan => exact .result ⟨hfits, rfl⟩
    | found hindex htok hrest => exact .result ⟨hfits, rfl⟩
  | succ room ih =>
    have hfits : Packet.Fits (.mrd self) := ⟨hstr, hvalues ▸ fits_slots hroom hpre⟩
    cases hcase : h with
    | null scan => exact .result ⟨hfits, rfl⟩
    | @found tok save i _ hindex htok hrest =>
      -- the slot is still filled with NULs
      have hslot : (self.values.map (Buffer.pad kMaxPacketFieldLen))[self.numValues]? =
          some (Buffer.pad kMaxPacketFieldLen []) := by
        rw [hvalues, hnum, MRDPacket.slots, List.getElem?_map,
          List.getElem?_append_right le_rfl, Nat.sub_self, List.replicate_succ,
          List.getElem?_cons_zero, Option.map_some]
      have hend' : Option.Rel (fun (e : List UInt8) (j : ℕ) =>
          (tok.length : ℤ) - e.length = j - i) end₁ end₂ := by
        cases hend with
        | none => exact .none
        | some hdiff => exact .some (by omega)
      refine .step hslot (.bind (copyValue_agrees h hend') ?_)
      rintro value _ ⟨hvalue, rfl⟩
      obtain ⟨⟨valueStr, scan⟩, hstrtok, hnext⟩ := Buffer.strtok_result comma_ne_nul hrest
      have hset : self.values.set self.numValues value = MRDPacket.slots (pre ++ [value]) room := by
        rw [hvalues, hnum, MRDPacket.slots_set]
      have hlen : (pre ++ [value]).length = pre.length + 1 := by simp
      have hpre' : ∀ v ∈ pre ++ [value], Buffer.FitsIn kMaxPacketFieldLen v := by
        intro v hv
        rcases List.mem_append.1 hv with hv | hv
        · exact hpre v hv
        · rw [List.mem_singleton.1 hv]
          exact hvalue
      refine .step hstrtok ?_
      rw [← List.map_set]
      exact ih { self with values := self.values.set self.numValues value,
                           numValues := self.numValues + 1 } hstr hset (by rw [hlen, hnum])
        (by rw [hlen]; omega) hpre' hnext

theorem mrd_agrees :
    Agrees (fun p q => Packet.Fits (.mrd p) ∧ .mrd q = Packet.inArrays (.mrd p))
      (MRDPacket.ofString stack line) (mrdOfString stack a fromStrBuf) := by
  have hcopy := Buffer.strncpy_all hbuf a.strtokBuf.length_toList hline.fits
  have hempty : ∀ value ∈ ([] : List (List UInt8)), Buffer.FitsIn kMaxPacketFieldLen value := by
    simp
  have hslots : (MRDPacket.slots [] kMaxNumValues).length = kMaxNumValues ∧ _ :=
    fits_slots (Nat.zero_add _) hempty
  obtain ⟨endTokenPtr, hchr, hend⟩ := Buffer.strchr_spec (unread_line hline).str_eq star
  unfold MRDPacket.ofString MRDPacket.fromString mrdOfString mrdFromString
  refine .step (newPacket_eq _) (.step (memset_values a) ?_)
  refine .bind (fromString_agrees _ hline hbuf length_zeros) ?_
  rintro base _ ⟨hstr, rfl⟩
  have hfits : IsCString base.packetStr := hstr ▸ hline
  refine .ite (fun _ => .result ⟨⟨hfits, hslots⟩, rfl⟩) fun _ => ?_
  refine .step hcopy (.step hchr (.bind (expectHeader_agrees .mrd hline) ?_))
  intro save scan hscan
  cases hscan with
  | none => exact .result ⟨⟨hfits, hslots⟩, rfl⟩
  | some hunread =>
    refine .bind (nextField_agrees hunread) ?_
    rintro ⟨regAddrStr, save⟩ ⟨i, scan⟩ haddr
    obtain ⟨⟨valueStr, scan⟩, hstrtok, hnext⟩ :=
      Buffer.strtok_result comma_ne_nul haddr.unread
    refine .step (readAddr_eq haddr) (.step hstrtok ?_)
    exact readValues_agrees hend kMaxNumValues _ hfits rfl rfl (Nat.zero_add _) hempty hnext

/-- **The parsers in arrays** leave them exactly where those on strings fault, and otherwise
find the same packet. -/
theorem parse_agrees (packetStr : Vector UInt8 kMaxPacketLen) (env : Env) :
    Agrees (fun p q => p.Fits ∧ q = p.inArrays) (SCBS.parse env line)
      (parse a fromStrBuf packetStr env) := by
  unfold SCBS.parse parse
  refine .bind (fromString_agrees _ hline hbuf packetStr.length_toList) ?_
  rintro base _ ⟨hstr, rfl⟩
  refine .ite (fun _ => ?_) fun _ => .result ⟨trivial, rfl⟩
  obtain ⟨str, isValid, packetType⟩ := base
  cases packetType with
  | dis => exact .bind (dis_agrees a hline hbuf) fun p q h => .result h
  | mrd => exact .bind (mrd_agrees a hline hbuf) fun p q h => .result h
  | mwr => exact .bind (mwr_agrees a hline hbuf) fun p q h => .result h
  | srd => exact .bind (srd_agrees a hline hbuf) fun p q h => .result h
  | swr => exact .bind (swr_agrees a hline hbuf) fun p q h => .result h
  | srs => exact .bind (srs_agrees a hline hbuf) fun p q h => .result h
  | unknown => exact .result ⟨trivial, rfl⟩

end Parsers

end Arrays

end Scbs
