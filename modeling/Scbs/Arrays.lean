import Scbs.CLib.Buffer
import Scbs.Comms.MultiRead
import Scbs.Handlers

/-!
# The packets are written into arrays

`ToString`, `PacketizeContents` and `CalculateChecksum` once more, with the arrays that they
write into: `contents_str`, `checksum_str`, `value_str`, `packet_str_`, `to_str_buf`.  Whatever
the arrays hold before, no write leaves them and no read runs off their end, and the strings
that they hold afterwards are those of the encoders on strings.

* `Arrays.calculateChecksum_holds` — the checksum of the string in `packet_str_`.
* `Arrays.packetizeContents_holds`, `Arrays.appendValues_holds` — the two parts of an encoder.
* `Arrays.Outgoing.transmitPacket_eq` — **what is transmitted for a packet with any fields.**
-/

namespace Scbs

open CLib

/-- What the local arrays of the encoders hold where they are declared, `value_str` each time
that the loop comes to it. -/
structure Locals where
  contentsStr : Vector UInt8 kMaxPacketContentsLen
  checksumStr : Vector UInt8 kPacketTailLen
  valueStr : ℕ → Vector UInt8 (kMaxPacketFieldLen + 1)

/-- The array of a field, which holds a string. -/
structure FieldArray where
  mem : List UInt8
  text : List UInt8
  holds : Buffer.Holds kMaxPacketFieldLen text mem

/-- A field with NULs behind its string. -/
def FieldArray.ofText {text : List UInt8} (h : Buffer.FitsIn kMaxPacketFieldLen text) :
    FieldArray where
  mem := Buffer.pad kMaxPacketFieldLen text
  text := text
  holds := h.holds

/-- The arrays that a packet is written into: `packet_str_`, and `to_str_buf` unless it is
`NULL`. -/
structure Target where
  packetStr : List UInt8
  toStrBuf : Option (List UInt8)

/-- Both arrays have `kMaxPacketLen` bytes. -/
structure Target.Sized (dst : Target) : Prop where
  packetStr : dst.packetStr.length = kMaxPacketLen
  toStrBuf : ∀ buf ∈ dst.toStrBuf, buf.length = kMaxPacketLen

/-- What the arrays hold once the string is written. -/
structure Target.Writes (s : List UInt8) (dst dst' : Target) : Prop where
  packetStr : Buffer.Holds kMaxPacketLen s dst'.packetStr
  toStrBuf : Option.Rel (fun _ buf => Buffer.Holds kMaxPacketLen s buf) dst.toStrBuf dst'.toStrBuf

namespace Arrays

/-! ## The encoders -/

/-- The loop of `BSPacket::CalculateChecksum` over `n` bytes from the `i`-th on. -/
def xorBytes (mem : List UInt8) : (n i : ℕ) → (checksum : UInt8) → Option UInt8
  | 0, _, checksum => some checksum
  | n + 1, i, checksum => do
    let c ← mem[i]?
    xorBytes mem n (i + 1) (checksum ^^^ c)

/-- `BSPacket::CalculateChecksum`. -/
def calculateChecksum (packetStr : List UInt8) : Option UInt8 := do
  let s ← Buffer.str packetStr
  match strchr s dollar, strchr s star with
  | some startTokenPtr, some endTokenPtr =>
    let packetStartInd := s.length - startTokenPtr.length + 1
    let checksumStartInd := s.length - endTokenPtr.length
    xorBytes packetStr (min checksumStartInd kMaxPacketLen - packetStartInd) packetStartInd 0
  | _, _ => some 0 -- can't find start or end token

/-- `BSPacket::PacketizeContents`: the arrays, and the length returned. -/
def packetizeContents (packetType : PacketType) (packetContentsStr : List UInt8) (locals : Locals)
    (dst : Target) : Option (Target × ℕ) := do
  let contents ← Buffer.str packetContentsStr
  let packetStr ← Buffer.snprintf dst.packetStr (kMaxPacketLen - kPacketTailLen)
    (dollar :: packetHeaderStr packetType ++ comma :: contents ++ [star])
  let checksum ← calculateChecksum packetStr
  let checksumStr ← Buffer.snprintf locals.checksumStr.toList kPacketTailLen
    (padZeros 2 (printNat 16 checksum.toNat))
  let packetStr ← Buffer.strcat packetStr checksumStr
  let toStrBuf ← dst.toStrBuf.mapM fun buf => Buffer.strncpy buf packetStr kMaxPacketLen
  let s ← Buffer.str packetStr
  return (⟨packetStr, toStrBuf⟩, s.length)

/-- The encoders whose contents are one text. -/
def writeText (packetType : PacketType) (text : Option (List UInt8)) (locals : Locals)
    (dst : Target) : Option (Target × ℕ) := do
  let text ← text
  let contentsStr ← Buffer.snprintf locals.contentsStr.toList kMaxPacketContentsLen text
  packetizeContents packetType contentsStr locals dst

/-- `DISPacket::ToString`. -/
def disToString (packetType : PacketType) (lastCellId : UInt16) :
    Locals → Target → Option (Target × ℕ) :=
  writeText packetType (some (printNat 10 lastCellId.toNat))

/-- `MWRPacket::ToString`. -/
def mwrToString (packetType : PacketType) (regAddr : UInt32) (value : List UInt8) :
    Locals → Target → Option (Target × ℕ) :=
  writeText packetType do
    let v ← Buffer.str value
    return printNat 16 regAddr.toNat ++ comma :: v

/-- `SWRPacket::ToString`. -/
def swrToString (packetType : PacketType) (cellId : UInt16) (regAddr : UInt32)
    (value : List UInt8) : Locals → Target → Option (Target × ℕ) :=
  writeText packetType do
    let v ← Buffer.str value
    return printNat 10 cellId.toNat ++ comma :: (printNat 16 regAddr.toNat ++ comma :: v)

/-- `SRDPacket::ToString`. -/
def srdToString (packetType : PacketType) (cellId : UInt16) (regAddr : UInt32) :
    Locals → Target → Option (Target × ℕ) :=
  writeText packetType (some (printNat 10 cellId.toNat ++ comma :: printNat 16 regAddr.toNat))

/-- `SRSPacket::ToString`. -/
def srsToString (packetType : PacketType) (cellId : UInt16) (value : List UInt8) :
    Locals → Target → Option (Target × ℕ) :=
  writeText packetType do
    let v ← Buffer.str value
    return printNat 10 cellId.toNat ++ comma :: v

/-- The loop of `MRDPacket::ToString`, at the `i`-th value. -/
def appendValues (locals : Locals) : (i : ℕ) → (contentsStr : List UInt8) →
    (values : List (List UInt8)) → Option (List UInt8)
  | _, contentsStr, [] => some contentsStr
  | i, contentsStr, value :: values => do
    let s ← Buffer.str contentsStr
    if kMaxPacketContentsLen - kMaxPacketFieldLen - 1 ≤ s.length then return contentsStr
    else
      let v ← Buffer.str value
      let valueStr ← Buffer.snprintf (locals.valueStr i).toList (kMaxPacketFieldLen + 1)
        (comma :: v)
      let contentsStr ← Buffer.strncat contentsStr valueStr (kMaxPacketFieldLen + 1)
      appendValues locals (i + 1) contentsStr values

/-- `MRDPacket::ToString` of the first `num_values` arrays. -/
def mrdToString (packetType : PacketType) (regAddr : UInt32) (values : List (List UInt8))
    (locals : Locals) (dst : Target) : Option (Target × ℕ) := do
  let contentsStr ← Buffer.snprintf locals.contentsStr.toList kMaxPacketContentsLen
    (printNat 16 regAddr.toNat)
  let contentsStr ← appendValues locals 0 contentsStr values
  packetizeContents packetType contentsStr locals dst

/-! ## The checksum -/

section Checksum

variable {mem s : List UInt8} {n i : ℕ}

/-- The loop within an array. -/
theorem xorBytes_eq (checksum : UInt8) (h : i + n ≤ mem.length) :
    xorBytes mem n i checksum = some (((mem.drop i).take n).foldl (· ^^^ ·) checksum) := by
  induction n generalizing i checksum with
  | zero => rfl
  | succ n ih =>
    have hi : i < mem.length := by omega
    rw [xorBytes, List.getElem?_eq_getElem hi, Option.bind_eq_bind, Option.bind_some,
      ih (checksum ^^^ mem[i]) (by omega), List.drop_eq_getElem_cons hi, List.take_succ_cons,
      List.foldl_cons]

/-- **The checksum of the string in an array.** -/
theorem calculateChecksum_holds (h : Buffer.Holds n s mem) :
    calculateChecksum mem = some (BSPacket.calculateChecksum s) := by
  have hlt := h.length_lt
  obtain ⟨-, rest, rfl⟩ := Buffer.exists_rest h.str_eq
  rw [calculateChecksum, h.str_eq, Option.bind_eq_bind, Option.bind_some,
    BSPacket.calculateChecksum]
  cases hstart : strchr s dollar with
  | none => rfl
  | some startTokenPtr =>
    cases hend : strchr s star with
    | none => rfl
    | some endTokenPtr =>
      have hle : s.length - endTokenPtr.length ≤ s.length := Nat.sub_le _ _
      have hmin : min (s.length - endTokenPtr.length) kMaxPacketLen ≤ s.length := by omega
      have htake : s.take (min (s.length - endTokenPtr.length) kMaxPacketLen) =
          (s ++ 0 :: rest).take (min (s.length - endTokenPtr.length) kMaxPacketLen) :=
        (List.take_append_of_le_length hmin).symm
      simp only [htake, List.drop_take]
      by_cases hfit : s.length - startTokenPtr.length + 1 ≤
          min (s.length - endTokenPtr.length) kMaxPacketLen
      · refine xorBytes_eq 0 ?_
        rw [List.length_append]
        omega
      · rw [Nat.sub_eq_zero_of_le (Nat.le_of_not_le hfit)]
        rfl

end Checksum

/-! ## The parts of the encoders -/

section Encoders

variable {locals : Locals} {dst : Target} {mem text contents : List UInt8} {t : PacketType}

/-- The copy into `to_str_buf`. -/
theorem exists_toStrBuf {s : List UInt8} (hmem : Buffer.Holds kMaxPacketLen s mem)
    (hdst : dst.Sized) :
    ∃ toStrBuf, dst.toStrBuf.mapM (fun buf => Buffer.strncpy buf mem kMaxPacketLen) =
      some toStrBuf ∧
        Option.Rel (fun _ buf => Buffer.Holds kMaxPacketLen s buf) dst.toStrBuf toStrBuf := by
  have hsized := hdst.toStrBuf
  cases hbuf : dst.toStrBuf with
  | none => exact ⟨none, rfl, .none⟩
  | some buf =>
    obtain ⟨buf', hcopy, hholds⟩ :=
      Buffer.strncpy_holds hmem (hsized buf hbuf) le_rfl hmem.length_lt
    refine ⟨some buf', ?_, .some hholds⟩
    simp [hcopy]

/-- **`PacketizeContents` stays within its arrays** and leaves the packet in them. -/
theorem packetizeContents_holds {n : ℕ} (hmem : Buffer.Holds n contents mem) (hdst : dst.Sized) :
    ∃ dst', packetizeContents t mem locals dst =
        some (dst', (BSPacket.packetizeContents { packetType := t } contents).packetStr.length) ∧
      dst.Writes (BSPacket.packetizeContents { packetType := t } contents).packetStr dst' := by
  have hnul := hmem.nul_not_mem
  have hbody : (0 : UInt8) ∉ dollar :: packetHeaderStr t ++ comma :: contents ++ [star] := by
    have hheader : (0 : UInt8) ∉ packetHeaderStr t :=
      fun h => (packetHeaderStr_plain t 0 h).1 rfl
    simp only [List.mem_append, List.mem_cons, List.not_mem_nil, or_false, not_or]
    exact ⟨⟨⟨by decide, hheader⟩, by decide, hnul⟩, by decide⟩
  obtain ⟨packetStr, hpacket, hholds⟩ := Buffer.snprintf_holds hbody hdst.packetStr
    (m := kMaxPacketLen - kPacketTailLen) (by
      rw [snprintf, List.length_take, kMaxPacketLen, kPacketTailLen]
      omega)
  have hchecksum := calculateChecksum_holds hholds
  have hdigits : ∀ checksum : UInt8, (0 : UInt8) ∉ padZeros 2 (printNat 16 checksum.toNat) :=
    fun checksum => not_mem_checksumText (by decide)
  obtain ⟨checksumStr, hprint, hholds'⟩ := Buffer.snprintf_holds (hdigits _)
    (locals.checksumStr.length_toList) (m := kPacketTailLen) (by
      rw [snprintf, List.length_take, kPacketTailLen]
      omega)
  obtain ⟨packetStr', hcat, hholds''⟩ := Buffer.strcat_holds hholds hholds' (by
    rw [snprintf, snprintf, List.length_take, List.length_take, kMaxPacketLen, kPacketTailLen]
    omega)
  obtain ⟨toStrBuf, hcopy, hbuf⟩ := exists_toStrBuf hholds'' hdst
  refine ⟨⟨packetStr', toStrBuf⟩, ?_, hholds'', hbuf⟩
  simp only [packetizeContents, hmem.str_eq, hpacket, hchecksum, hprint, hcat, hcopy,
    hholds''.str_eq, Option.bind_eq_bind, Option.bind_some]
  rfl

/-- An encoder whose contents are one text. -/
theorem writeText_holds (htext : (0 : UInt8) ∉ text) (hdst : dst.Sized) :
    ∃ dst', writeText t (some text) locals dst = some (dst', (BSPacket.packetizeContents
        { packetType := t } (snprintf kMaxPacketContentsLen text)).packetStr.length) ∧
      dst.Writes (BSPacket.packetizeContents { packetType := t }
        (snprintf kMaxPacketContentsLen text)).packetStr dst' := by
  obtain ⟨contentsStr, hprint, hholds⟩ := Buffer.snprintf_holds htext
    (locals.contentsStr.length_toList) (m := kMaxPacketContentsLen) (by
      rw [snprintf, List.length_take, kMaxPacketContentsLen, kMaxPacketLen, kPacketHeaderLen,
        kPacketTailLen]
      omega)
  obtain ⟨dst', hall, hdst'⟩ : ∃ dst', packetizeContents t contentsStr locals dst =
      some (dst', _) ∧ dst.Writes _ dst' := packetizeContents_holds hholds hdst
  refine ⟨dst', ?_, hdst'⟩
  simp only [writeText, hprint, hall, Option.bind_eq_bind, Option.bind_some]

/-- **The loop of a multi-read stays within its arrays** and leaves what fits. -/
theorem appendValues_holds (values : List FieldArray) (i : ℕ)
    (hmem : Buffer.Holds kMaxPacketContentsLen contents mem) :
    ∃ mem', appendValues locals i mem (values.map (·.mem)) = some mem' ∧
      Buffer.Holds kMaxPacketContentsLen
        (MRDPacket.appendValues contents (values.map (·.text))) mem' := by
  induction values generalizing i mem contents with
  | nil => exact ⟨mem, rfl, hmem⟩
  | cons value values ih =>
    rw [List.map_cons, List.map_cons, appendValues, MRDPacket.appendValues]
    by_cases hfull : kMaxPacketContentsLen - kMaxPacketFieldLen - 1 ≤ contents.length
    · refine ⟨mem, ?_, by rwa [if_pos hfull]⟩
      simp only [hmem.str_eq, Option.bind_eq_bind, Option.bind_some, if_pos hfull]
      rfl
    · have hnul : (0 : UInt8) ∉ comma :: value.text := by
        rw [List.mem_cons, not_or]
        exact ⟨by decide, value.holds.nul_not_mem⟩
      obtain ⟨valueStr, hprint, hholds⟩ := Buffer.snprintf_holds hnul
        ((locals.valueStr i).length_toList) (m := kMaxPacketFieldLen + 1) (by
          rw [snprintf, List.length_take, kMaxPacketFieldLen]
          omega)
      have htake : (snprintf (kMaxPacketFieldLen + 1) (comma :: value.text)).take
          (kMaxPacketFieldLen + 1) = snprintf (kMaxPacketFieldLen + 1) (comma :: value.text) :=
        List.take_of_length_le hholds.length_lt.le
      obtain ⟨mem', hcat, hholds'⟩ := Buffer.strncat_holds hmem hholds
        (m := kMaxPacketFieldLen + 1) (by
          have hlt := hholds.length_lt
          rw [htake]
          simp only [kMaxPacketContentsLen, kMaxPacketLen, kPacketHeaderLen, kPacketTailLen,
            kMaxPacketFieldLen] at hfull hlt ⊢
          omega)
      rw [htake] at hholds'
      obtain ⟨mem'', hrest, hholds''⟩ := ih (i + 1) hholds'
      refine ⟨mem'', ?_, by rwa [if_neg hfull]⟩
      simp only [hmem.str_eq, value.holds.str_eq, hprint, hcat, hrest, Option.bind_eq_bind,
        Option.bind_some, if_neg hfull]

end Encoders

/-! ## The packets -/

/-- A packet that is written, with the arrays of its fields. -/
inductive Outgoing where
  | dis (packetType : PacketType) (lastCellId : UInt16)
  | mwr (packetType : PacketType) (regAddr : UInt32) (value : FieldArray)
  | mrd (packetType : PacketType) (regAddr : UInt32) (values : List FieldArray)
  | swr (packetType : PacketType) (cellId : UInt16) (regAddr : UInt32) (value : FieldArray)
  | srd (packetType : PacketType) (cellId : UInt16) (regAddr : UInt32)
  | srs (packetType : PacketType) (cellId : UInt16) (value : FieldArray)

/-- The `ToString` of a packet. -/
def Outgoing.toString : Outgoing → Locals → Target → Option (Target × ℕ)
  | .dis t lastCellId => disToString t lastCellId
  | .mwr t regAddr value => mwrToString t regAddr value.mem
  | .mrd t regAddr values => mrdToString t regAddr (values.map (·.mem))
  | .swr t cellId regAddr value => swrToString t cellId regAddr value.mem
  | .srd t cellId regAddr => srdToString t cellId regAddr
  | .srs t cellId value => srsToString t cellId value.mem

/-- The string of a packet. -/
def Outgoing.packetStr : Outgoing → List UInt8
  | .dis t lastCellId => DISPacket.toStr { packetType := t, lastCellId := lastCellId } |>.packetStr
  | .mwr t regAddr value =>
    MWRPacket.toStr { packetType := t, regAddr := regAddr, value := value.text } |>.packetStr
  | .mrd t regAddr values =>
    MRDPacket.toStr { packetType := t, regAddr := regAddr, values := values.map (·.text),
                      numValues := values.length } |>.packetStr
  | .swr t cellId regAddr value =>
    SWRPacket.toStr { packetType := t, cellId := cellId, regAddr := regAddr,
                      value := value.text } |>.packetStr
  | .srd t cellId regAddr =>
    SRDPacket.toStr { packetType := t, cellId := cellId, regAddr := regAddr } |>.packetStr
  | .srs t cellId value =>
    SRSPacket.toStr { packetType := t, cellId := cellId, value := value.text } |>.packetStr

section Packets

variable {locals : Locals} {dst : Target}

theorem nul_not_mem_dec (n : ℕ) : (0 : UInt8) ∉ printNat 10 n :=
  not_mem_printNat (by omega) (by omega) (by decide)

theorem nul_not_mem_hex (n : ℕ) : (0 : UInt8) ∉ printNat 16 n :=
  not_mem_printNat (by omega) (by omega) (by decide)

theorem mrdToString_holds {t : PacketType} {regAddr : UInt32} (values : List FieldArray)
    (hdst : dst.Sized) :
    ∃ dst', mrdToString t regAddr (values.map (·.mem)) locals dst =
        some (dst', (Outgoing.mrd t regAddr values).packetStr.length) ∧
      dst.Writes (Outgoing.mrd t regAddr values).packetStr dst' := by
  obtain ⟨contentsStr, hprint, hholds⟩ := Buffer.snprintf_holds (nul_not_mem_hex regAddr.toNat)
    (locals.contentsStr.length_toList) (m := kMaxPacketContentsLen) (by
      rw [snprintf, List.length_take, kMaxPacketContentsLen, kMaxPacketLen, kPacketHeaderLen,
        kPacketTailLen]
      omega)
  obtain ⟨contentsStr', happend, hholds'⟩ : ∃ mem, appendValues locals 0 contentsStr
      (values.map (·.mem)) = some mem ∧ Buffer.Holds _ _ mem := appendValues_holds values 0 hholds
  obtain ⟨dst', hall, hdst'⟩ : ∃ dst', packetizeContents t contentsStr' locals dst =
      some (dst', _) ∧ dst.Writes _ dst' := packetizeContents_holds hholds' hdst
  have htake : (values.map (·.text)).take values.length = values.map (·.text) :=
    List.take_of_length_le (List.length_map _).le
  simp only [Outgoing.packetStr, MRDPacket.toStr, htake]
  refine ⟨dst', ?_, hdst'⟩
  simp only [mrdToString, hprint, happend, hall, Option.bind_eq_bind, Option.bind_some]

/-- **`ToString` stays within its arrays**, for a packet with any fields, and leaves the string
of the packet in them. -/
theorem Outgoing.toString_holds (p : Outgoing) (locals : Locals) (hdst : dst.Sized) :
    ∃ dst', p.toString locals dst = some (dst', p.packetStr.length) ∧
      dst.Writes p.packetStr dst' := by
  have hcomma : (0 : UInt8) ≠ comma := by decide
  cases p with
  | dis t lastCellId => exact writeText_holds (nul_not_mem_dec _) hdst
  | mwr t regAddr value =>
    simp only [toString, mwrToString, value.holds.str_eq, Option.bind_eq_bind, Option.bind_some]
    exact writeText_holds
      (not_mem_append_cons (nul_not_mem_hex _) hcomma value.holds.nul_not_mem) hdst
  | mrd t regAddr values => exact mrdToString_holds values hdst
  | swr t cellId regAddr value =>
    simp only [toString, swrToString, value.holds.str_eq, Option.bind_eq_bind, Option.bind_some]
    exact writeText_holds (not_mem_append_cons (nul_not_mem_dec _) hcomma
      (not_mem_append_cons (nul_not_mem_hex _) hcomma value.holds.nul_not_mem)) hdst
  | srd t cellId regAddr =>
    exact writeText_holds
      (not_mem_append_cons (nul_not_mem_dec _) hcomma (nul_not_mem_hex _)) hdst
  | srs t cellId value =>
    simp only [toString, srsToString, value.holds.str_eq, Option.bind_eq_bind, Option.bind_some]
    exact writeText_holds
      (not_mem_append_cons (nul_not_mem_dec _) hcomma value.holds.nul_not_mem) hdst

/-- `SCBS::TransmitPacket` of a packet with this `ToString`. -/
def transmitPacket (toString : Locals → Target → Option (Target × ℕ)) (locals : Locals)
    (packetStr : List UInt8) (uartTxBuf : Vector UInt8 kMaxPacketLen) : Option (List UInt8) := do
  let (packet, _) ← toString locals ⟨packetStr, some uartTxBuf.toList⟩
  let buf ← packet.toStrBuf
  let s ← Buffer.str buf
  return s ++ crlf

/-- **What is transmitted for a packet** does not depend on what the arrays held before, and
the encoders on strings say what it is. -/
theorem Outgoing.transmitPacket_eq (p : Outgoing) (locals : Locals) {packetStr : List UInt8}
    (hlen : packetStr.length = kMaxPacketLen) (uartTxBuf : Vector UInt8 kMaxPacketLen) :
    Arrays.transmitPacket p.toString locals packetStr uartTxBuf =
      some (SCBS.transmitPacket p.packetStr) := by
  have hsized : Target.Sized ⟨packetStr, some uartTxBuf.toList⟩ := ⟨hlen, by simp⟩
  obtain ⟨⟨packetStr', toStrBuf⟩, hall, hdst⟩ := p.toString_holds locals hsized
  obtain ⟨hholds⟩ := hdst.toStrBuf
  simp only [Arrays.transmitPacket, hall, hholds.str_eq, Option.bind_eq_bind, Option.bind_some]
  rfl

end Packets

end Arrays

end Scbs
