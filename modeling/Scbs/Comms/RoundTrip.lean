import Scbs.Comms.Frame

/-!
# Decoding undoes encoding

For each packet type with a fixed number of fields: the string its value
constructor and `ToString` produce is a frame (`packetStr_ofValues`), and its
string constructor reads the same fields back from that frame, with or without
a line end after it (`ofString_frame`).

`Field` is a value that can travel: at most 19 bytes, none of which is a NUL, a
`,` or a `*`.
-/

namespace Scbs

open CLib

/-- A value that fits into a packet field and keeps its delimiters. -/
structure Field where
  text : List UInt8
  length_le : text.length ≤ 19
  no_nul : (0 : UInt8) ∉ text
  no_comma : comma ∉ text
  no_star : star ∉ text

@[ext] theorem Field.ext {v w : Field} (h : v.text = w.text) : v = w := by
  cases v; cases w; cases h; rfl

/-- A field is stored whole. -/
@[simp] theorem Field.fieldOf_text (v : Field) : fieldOf v.text = v.text := by
  rw [fieldOf, cstr_of_no_nul v.no_nul]
  exact List.take_of_length_le v.length_le

/-- A text that a field can carry within a line. -/
structure OnWire (v : List UInt8) : Prop where
  length_le : v.length ≤ 19
  no_nul : (0 : UInt8) ∉ v
  no_comma : comma ∉ v
  no_star : star ∉ v
  no_lf : (10 : UInt8) ∉ v

/-- It has neither a NUL nor a newline. -/
theorem OnWire.not_mem {v : List UInt8} (h : OnWire v) {c : UInt8} (hc : c = 0 ∨ c = 10) :
    c ∉ v := by
  rcases hc with rfl | rfl
  · exact h.no_nul
  · exact h.no_lf

theorem forall_onWire_concat {vs : List (List UInt8)} {v : List UInt8} (hvs : ∀ w ∈ vs, OnWire w)
    (hv : OnWire v) : ∀ w ∈ vs ++ [v], OnWire w := by
  intro w hw
  rcases List.mem_append.1 hw with hw | hw
  · exact hvs w hw
  · rw [List.mem_singleton.1 hw]
    exact hv

/-- The field with such a text. -/
def OnWire.field {v : List UInt8} (h : OnWire v) : Field :=
  ⟨v, h.length_le, h.no_nul, h.no_comma, h.no_star⟩

/-- What may stand after a packet: nothing that could be read as part of it. -/
structure Tail (tail : List UInt8) : Prop where
  ends : Ends tail
  no_comma : comma ∉ tail

theorem tail_nil : Tail [] := ⟨ends_nil, by simp⟩

theorem tail_crlf : Tail [13, 10] := ⟨ends_cons.2 (by decide), by decide⟩

/-! ## Cutting a frame into fields -/

section Cut

variable {u rest : List UInt8}

theorem expectHeader_eq (t : PacketType) (rest : List UInt8) :
    expectHeader t (dollar :: (packetHeaderStr t ++ comma :: rest)) = .ok (some rest) := by
  have hc := comma_not_mem_header t
  rw [expectHeader, ← List.cons_append, strtok_field (List.cons_ne_nil _ _) hc]
  simp only [token_field hc, if_true]

theorem nextField_field (hu : u ≠ []) (hc : comma ∉ u) :
    nextField (u ++ comma :: rest) = .ok (u ++ comma :: rest, rest) := by
  rw [nextField, strtok_field hu hc]

theorem nextField_last (hu : u ≠ []) (hc : comma ∉ u) : nextField u = .ok (u, []) := by
  rw [nextField, strtok_last hu hc]

/-- A delimiter is no part of an id or an address. -/
theorem not_mem_numeral {c : UInt8} (hc : digitVal c = 36) {base n : ℕ}
    (hb : base = 10 ∨ base = 16) : c ∉ printNat base n := by
  rcases hb with rfl | rfl
  · exact not_mem_printNat (by omega) (by omega) hc
  · exact not_mem_printNat (by omega) (by omega) hc

theorem comma_not_mem_printNat {base n : ℕ} (hb : base = 10 ∨ base = 16) :
    comma ∉ printNat base n :=
  not_mem_numeral (by decide) hb

theorem star_not_mem_printNat {base n : ℕ} (hb : base = 10 ∨ base = 16) :
    star ∉ printNat base n :=
  not_mem_numeral (by decide) hb

theorem readId_of_token {p : List UInt8} (id : UInt16)
    (hp : token comma p = printNat 10 id.toNat ++ rest) (hr : Ends rest) : readId p = id := by
  have hlt : id.toNat < 2 ^ 32 := lt_trans id.toNat_lt (by norm_num)
  rw [readId, hp, show scbsNumbersBase = 10 from rfl, strtoul_printNat (Or.inl rfl) hlt hr,
    UInt16.ofNat_toNat]

theorem readAddr_of_token {p : List UInt8} (addr : UInt32)
    (hp : token comma p = printNat 16 addr.toNat ++ rest) (hr : Ends rest) :
    readAddr p = addr := by
  rw [readAddr, hp, show scbsAddrBase = 16 from rfl,
    strtoul_printNat (Or.inr rfl) addr.toNat_lt hr, UInt32.ofNat_toNat]

/-- An id or address field that another field follows. -/
theorem readId_field (id : UInt16) : readId (printNat 10 id.toNat ++ comma :: rest) = id := by
  have htoken : token comma (printNat 10 id.toNat ++ comma :: rest) =
      printNat 10 id.toNat ++ [] := by
    rw [token_field (comma_not_mem_printNat (Or.inl rfl)), List.append_nil]
  exact readId_of_token id htoken ends_nil

theorem readAddr_field (addr : UInt32) :
    readAddr (printNat 16 addr.toNat ++ comma :: rest) = addr := by
  have htoken : token comma (printNat 16 addr.toNat ++ comma :: rest) =
      printNat 16 addr.toNat ++ [] := by
    rw [token_field (comma_not_mem_printNat (Or.inr rfl)), List.append_nil]
  exact readAddr_of_token addr htoken ends_nil

/-- An id or address field that the end of the packet follows. -/
theorem readId_last (id : UInt16) (hc : comma ∉ rest) :
    readId (printNat 10 id.toNat ++ star :: rest) = id := by
  have hcomma : comma ∉ printNat 10 id.toNat ++ star :: rest :=
    not_mem_append_cons (comma_not_mem_printNat (Or.inl rfl)) comma_ne_star hc
  exact readId_of_token id (token_last hcomma) (ends_cons.2 (by decide))

theorem readAddr_last (addr : UInt32) (hc : comma ∉ rest) :
    readAddr (printNat 16 addr.toNat ++ star :: rest) = addr := by
  have hcomma : comma ∉ printNat 16 addr.toNat ++ star :: rest :=
    not_mem_append_cons (comma_not_mem_printNat (Or.inr rfl)) comma_ne_star hc
  exact readAddr_of_token addr (token_last hcomma) (ends_cons.2 (by decide))

/-- The value field is what stands before the `*`. -/
theorem readValue_field (v : Field) (hc : comma ∉ rest) :
    readValue (v.text ++ star :: rest) = .ok v.text := by
  have htok : token comma (v.text ++ star :: rest) = v.text ++ star :: rest :=
    token_last (not_mem_append_cons v.no_comma comma_ne_star hc)
  have hcount : copyCount (v.text ++ star :: rest) (some (star :: rest)) = v.text.length := by
    have := v.length_le
    simp only [copyCount, List.length_append, List.length_cons, kMaxPacketFieldLen]
    omega
  rw [readValue, htok, strchr_append v.no_star, hcount, copyValue, htok]
  simp

end Cut

/-- The line of a frame, with the header and the contents cut off. -/
theorem frame_append (t : PacketType) (contents tail : List UInt8) :
    frame t contents ++ tail = dollar :: (packetHeaderStr t ++ comma :: (contents ++
      star :: (checksumText (xorSum (frameBody t contents)) ++ tail))) := by
  simp [frame, frameBody]

theorem comma_not_mem_ending {tail : List UInt8} (ht : Tail tail) (c : UInt8) :
    comma ∉ checksumText c ++ tail := by
  simp only [List.mem_append, not_or]
  exact ⟨not_mem_checksumText (by decide), ht.no_comma⟩

theorem expectHeader_frame (t : PacketType) (contents tail : List UInt8) :
    expectHeader t (frame t contents ++ tail) = .ok (some (contents ++
      star :: (checksumText (xorSum (frameBody t contents)) ++ tail))) := by
  rw [frame_append, expectHeader_eq]

/-- The last field of a packet, empty or not, comes with the end of the packet. -/
theorem nextField_ending {v rest : List UInt8} (hv : comma ∉ v) (hr : comma ∉ rest) :
    nextField (v ++ star :: rest) = .ok (v ++ star :: rest, []) :=
  nextField_last (by simp) (not_mem_append_cons hv comma_ne_star hr)

/-! ## The lengths of numerals -/

theorem length_printNat_id (id : UInt16) : (printNat 10 id.toNat).length ≤ 5 :=
  length_printNat_le (by omega) (by omega) (lt_trans id.toNat_lt (by norm_num))

theorem length_printNat_addr (addr : UInt32) : (printNat 16 addr.toNat).length ≤ 8 :=
  length_printNat_le (by omega) (by omega) (lt_of_lt_of_eq addr.toNat_lt (by norm_num))

/-- Contents that are short enough are not cut by `snprintf`. -/
theorem snprintf_contents {s : List UInt8} (h : s.length ≤ 190) :
    snprintf kMaxPacketContentsLen s = s :=
  List.take_of_length_le h

/-! ## The contents of each packet type -/

/-- The contents of a `DIS` packet. -/
def disContents (lastCellId : UInt16) : List UInt8 := printNat 10 lastCellId.toNat

/-- The contents of an `MWR` packet. -/
def mwrContents (regAddr : UInt32) (value : List UInt8) : List UInt8 :=
  printNat 16 regAddr.toNat ++ comma :: value

/-- The contents of an `SRD` packet. -/
def srdContents (cellId : UInt16) (regAddr : UInt32) : List UInt8 :=
  printNat 10 cellId.toNat ++ comma :: printNat 16 regAddr.toNat

/-- The contents of an `SWR` packet. -/
def swrContents (cellId : UInt16) (regAddr : UInt32) (value : List UInt8) : List UInt8 :=
  printNat 10 cellId.toNat ++ comma :: (printNat 16 regAddr.toNat ++ comma :: value)

/-- The contents of an `SRS` packet. -/
def srsContents (cellId : UInt16) (value : List UInt8) : List UInt8 :=
  printNat 10 cellId.toNat ++ comma :: value

section Contents

variable (id : UInt16) (addr : UInt32) {v : List UInt8}

theorem length_disContents : (disContents id).length ≤ 5 := length_printNat_id id

theorem length_mwrContents (hv : v.length ≤ 19) : (mwrContents addr v).length ≤ 28 := by
  have := length_printNat_addr addr
  simp only [mwrContents, List.length_append, List.length_cons]
  omega

theorem length_srdContents : (srdContents id addr).length ≤ 14 := by
  have := length_printNat_id id
  have := length_printNat_addr addr
  simp only [srdContents, List.length_append, List.length_cons]
  omega

theorem length_swrContents (hv : v.length ≤ 19) : (swrContents id addr v).length ≤ 34 := by
  have := length_printNat_id id
  have := length_printNat_addr addr
  simp only [swrContents, List.length_append, List.length_cons]
  omega

theorem length_srsContents (hv : v.length ≤ 19) : (srsContents id v).length ≤ 25 := by
  have := length_printNat_id id
  simp only [srsContents, List.length_append, List.length_cons]
  omega

theorem star_not_mem_disContents : star ∉ disContents id :=
  star_not_mem_printNat (Or.inl rfl)

theorem star_not_mem_mwrContents (hv : star ∉ v) : star ∉ mwrContents addr v :=
  not_mem_append_cons (star_not_mem_printNat (Or.inr rfl)) star_ne_comma hv

theorem star_not_mem_srdContents : star ∉ srdContents id addr :=
  not_mem_append_cons (star_not_mem_printNat (Or.inl rfl)) star_ne_comma
    (star_not_mem_printNat (Or.inr rfl))

theorem star_not_mem_swrContents (hv : star ∉ v) : star ∉ swrContents id addr v :=
  not_mem_append_cons (star_not_mem_printNat (Or.inl rfl)) star_ne_comma
    (not_mem_append_cons (star_not_mem_printNat (Or.inr rfl)) star_ne_comma hv)

theorem star_not_mem_srsContents (hv : star ∉ v) : star ∉ srsContents id v :=
  not_mem_append_cons (star_not_mem_printNat (Or.inl rfl)) star_ne_comma hv

end Contents

/-! ## Encoding and decoding, type by type -/

section RoundTrip

variable (stack : Stack) {tail : List UInt8}

namespace DISPacket

theorem packetStr_toStr (p : DISPacket) :
    p.toStr.packetStr = frame p.packetType (disContents p.lastCellId) := by
  have hlen := length_disContents p.lastCellId
  have hsn := snprintf_contents (s := disContents p.lastCellId) (by omega)
  rw [toStr, ← disContents, hsn]
  exact BSPacket.packetStr_packetizeContents _ (star_not_mem_disContents _) (by omega)

theorem packetStr_ofValues (id : UInt16) :
    (ofValues id).toStr.packetStr = frame .dis (disContents id) :=
  packetStr_toStr _

theorem accepts_frame (id : UInt16) (ht : Tail tail) :
    BSPacket.Accepts stack (frame .dis (disContents id) ++ tail) .dis := by
  have hlen := length_disContents id
  exact BSPacket.accepts_frame stack (by decide) (star_not_mem_disContents id) ht.ends
    (by omega)

theorem ofString_frame (id : UInt16) (ht : Tail tail) :
    ofString stack (frame .dis (disContents id) ++ tail) =
      .ok { packetStr := frame .dis (disContents id) ++ tail, isValid := true,
            packetType := .dis, lastCellId := id } := by
  have hacc := accepts_frame stack id ht
  have hend := comma_not_mem_ending ht (xorSum (frameBody .dis (disContents id)))
  have hfields : expectHeader .dis (frame .dis (disContents id) ++ tail) =
      .ok (some (printNat 10 id.toNat ++
        star :: (checksumText (xorSum (frameBody .dis (disContents id))) ++ tail))) := by
    rw [expectHeader_frame, disContents]
  simp only [ofString, fromString, BSPacket.fromString_of_accepts hacc, bind, Except.bind, hfields,
    nextField_ending (comma_not_mem_printNat (Or.inl rfl)) hend, readId_last id hend]
  rfl

end DISPacket

namespace MWRPacket

theorem packetStr_toStr (p : MWRPacket) (hl : p.value.length ≤ 19) (hs : star ∉ p.value) :
    p.toStr.packetStr = frame p.packetType (mwrContents p.regAddr p.value) := by
  have hlen := length_mwrContents p.regAddr hl
  have hsn := snprintf_contents (s := mwrContents p.regAddr p.value) (by omega)
  rw [toStr, ← mwrContents, hsn]
  exact BSPacket.packetStr_packetizeContents _ (star_not_mem_mwrContents _ hs) (by omega)

theorem packetStr_of_value {p : MWRPacket} (ht : p.packetType = .mwr) {v : Field}
    (hv : p.value = v.text) :
    p.toStr.packetStr = frame .mwr (mwrContents p.regAddr v.text) := by
  rw [packetStr_toStr p (by rw [hv]; exact v.length_le) (by rw [hv]; exact v.no_star), ht, hv]

theorem packetStr_ofValues (addr : UInt32) (v : Field) :
    (ofValues addr v.text).toStr.packetStr = frame .mwr (mwrContents addr v.text) :=
  packetStr_of_value rfl v.fieldOf_text

theorem accepts_frame (addr : UInt32) (v : Field) (ht : Tail tail) :
    BSPacket.Accepts stack (frame .mwr (mwrContents addr v.text) ++ tail) .mwr := by
  have hlen := length_mwrContents addr v.length_le
  exact BSPacket.accepts_frame stack (by decide) (star_not_mem_mwrContents addr v.no_star) ht.ends
    (by omega)

theorem ofString_frame (addr : UInt32) (v : Field) (ht : Tail tail) :
    ofString stack (frame .mwr (mwrContents addr v.text) ++ tail) =
      .ok { packetStr := frame .mwr (mwrContents addr v.text) ++ tail, isValid := true,
            packetType := .mwr, regAddr := addr, value := v.text } := by
  have hacc := accepts_frame stack addr v ht
  have hend := comma_not_mem_ending ht (xorSum (frameBody .mwr (mwrContents addr v.text)))
  have hfields : expectHeader .mwr (frame .mwr (mwrContents addr v.text) ++ tail) =
      .ok (some (printNat 16 addr.toNat ++ comma :: (v.text ++
        star :: (checksumText (xorSum (frameBody .mwr (mwrContents addr v.text))) ++ tail)))) := by
    rw [expectHeader_frame, mwrContents]
    simp
  simp only [ofString, fromString, BSPacket.fromString_of_accepts hacc, bind, Except.bind, hfields,
    nextField_field (printNat_ne_nil _ _) (comma_not_mem_printNat (Or.inr rfl)),
    nextField_ending v.no_comma hend, readValue_field v hend, readAddr_field]
  rfl

end MWRPacket

namespace SRDPacket

theorem packetStr_toStr (p : SRDPacket) :
    p.toStr.packetStr = frame p.packetType (srdContents p.cellId p.regAddr) := by
  have hlen := length_srdContents p.cellId p.regAddr
  have hsn := snprintf_contents (s := srdContents p.cellId p.regAddr) (by omega)
  rw [toStr, ← srdContents, hsn]
  exact BSPacket.packetStr_packetizeContents _ (star_not_mem_srdContents _ _) (by omega)

theorem packetStr_ofValues (id : UInt16) (addr : UInt32) :
    (ofValues id addr).toStr.packetStr = frame .srd (srdContents id addr) :=
  packetStr_toStr _

theorem accepts_frame (id : UInt16) (addr : UInt32) (ht : Tail tail) :
    BSPacket.Accepts stack (frame .srd (srdContents id addr) ++ tail) .srd := by
  have hlen := length_srdContents id addr
  exact BSPacket.accepts_frame stack (by decide) (star_not_mem_srdContents id addr) ht.ends
    (by omega)

theorem ofString_frame (id : UInt16) (addr : UInt32) (ht : Tail tail) :
    ofString stack (frame .srd (srdContents id addr) ++ tail) =
      .ok { packetStr := frame .srd (srdContents id addr) ++ tail, isValid := true,
            packetType := .srd, cellId := id, regAddr := addr } := by
  have hacc := accepts_frame stack id addr ht
  have hend := comma_not_mem_ending ht (xorSum (frameBody .srd (srdContents id addr)))
  have hfields : expectHeader .srd (frame .srd (srdContents id addr) ++ tail) =
      .ok (some (printNat 10 id.toNat ++ comma :: (printNat 16 addr.toNat ++
        star :: (checksumText (xorSum (frameBody .srd (srdContents id addr))) ++ tail)))) := by
    rw [expectHeader_frame, srdContents]
    simp
  simp only [ofString, fromString, BSPacket.fromString_of_accepts hacc, bind, Except.bind, hfields,
    nextField_field (printNat_ne_nil _ _) (comma_not_mem_printNat (Or.inl rfl)),
    nextField_ending (comma_not_mem_printNat (Or.inr rfl)) hend, readId_field,
    readAddr_last addr hend]
  rfl

end SRDPacket

namespace SWRPacket

theorem packetStr_toStr (p : SWRPacket) (hl : p.value.length ≤ 19) (hs : star ∉ p.value) :
    p.toStr.packetStr = frame p.packetType (swrContents p.cellId p.regAddr p.value) := by
  have hlen := length_swrContents p.cellId p.regAddr hl
  have hsn := snprintf_contents (s := swrContents p.cellId p.regAddr p.value) (by omega)
  rw [toStr, ← swrContents, hsn]
  exact BSPacket.packetStr_packetizeContents _ (star_not_mem_swrContents _ _ hs) (by omega)

theorem packetStr_of_value {p : SWRPacket} (ht : p.packetType = .swr) {v : Field}
    (hv : p.value = v.text) :
    p.toStr.packetStr = frame .swr (swrContents p.cellId p.regAddr v.text) := by
  rw [packetStr_toStr p (by rw [hv]; exact v.length_le) (by rw [hv]; exact v.no_star), ht, hv]

theorem packetStr_ofValues (id : UInt16) (addr : UInt32) (v : Field) :
    (ofValues id addr v.text).toStr.packetStr = frame .swr (swrContents id addr v.text) :=
  packetStr_of_value rfl v.fieldOf_text

theorem accepts_frame (id : UInt16) (addr : UInt32) (v : Field) (ht : Tail tail) :
    BSPacket.Accepts stack (frame .swr (swrContents id addr v.text) ++ tail) .swr := by
  have hlen := length_swrContents id addr v.length_le
  exact BSPacket.accepts_frame stack (by decide) (star_not_mem_swrContents id addr v.no_star)
    ht.ends (by omega)

theorem ofString_frame (id : UInt16) (addr : UInt32) (v : Field) (ht : Tail tail) :
    ofString stack (frame .swr (swrContents id addr v.text) ++ tail) =
      .ok { packetStr := frame .swr (swrContents id addr v.text) ++ tail, isValid := true,
            packetType := .swr, cellId := id, regAddr := addr, value := v.text } := by
  have hacc := accepts_frame stack id addr v ht
  have hend := comma_not_mem_ending ht (xorSum (frameBody .swr (swrContents id addr v.text)))
  have hfields : expectHeader .swr (frame .swr (swrContents id addr v.text) ++ tail) =
      .ok (some (printNat 10 id.toNat ++ comma ::
        (printNat 16 addr.toNat ++ comma :: (v.text ++
        star ::
          (checksumText (xorSum (frameBody .swr (swrContents id addr v.text))) ++ tail))))) := by
    rw [expectHeader_frame, swrContents]
    simp
  simp only [ofString, fromString, BSPacket.fromString_of_accepts hacc, bind, Except.bind, hfields,
    nextField_field (printNat_ne_nil _ _) (comma_not_mem_printNat (Or.inl rfl)),
    nextField_field (printNat_ne_nil _ _) (comma_not_mem_printNat (Or.inr rfl)),
    nextField_ending v.no_comma hend, readValue_field v hend, readId_field, readAddr_field]
  rfl

end SWRPacket

namespace SRSPacket

theorem packetStr_toStr (p : SRSPacket) (hl : p.value.length ≤ 19) (hs : star ∉ p.value) :
    p.toStr.packetStr = frame p.packetType (srsContents p.cellId p.value) := by
  have hlen := length_srsContents p.cellId hl
  have hsn := snprintf_contents (s := srsContents p.cellId p.value) (by omega)
  rw [toStr, ← srsContents, hsn]
  exact BSPacket.packetStr_packetizeContents _ (star_not_mem_srsContents _ hs) (by omega)

theorem packetStr_of_value {p : SRSPacket} (ht : p.packetType = .srs) {v : Field}
    (hv : p.value = v.text) :
    p.toStr.packetStr = frame .srs (srsContents p.cellId v.text) := by
  rw [packetStr_toStr p (by rw [hv]; exact v.length_le) (by rw [hv]; exact v.no_star), ht, hv]

theorem packetStr_ofValues (id : UInt16) (v : Field) :
    (ofValues id v.text).toStr.packetStr = frame .srs (srsContents id v.text) :=
  packetStr_of_value rfl v.fieldOf_text

theorem accepts_frame (id : UInt16) (v : Field) (ht : Tail tail) :
    BSPacket.Accepts stack (frame .srs (srsContents id v.text) ++ tail) .srs := by
  have hlen := length_srsContents id v.length_le
  exact BSPacket.accepts_frame stack (by decide) (star_not_mem_srsContents id v.no_star) ht.ends
    (by omega)

theorem ofString_frame (id : UInt16) (v : Field) (ht : Tail tail) :
    ofString stack (frame .srs (srsContents id v.text) ++ tail) =
      .ok { packetStr := frame .srs (srsContents id v.text) ++ tail, isValid := true,
            packetType := .srs, cellId := id, value := v.text } := by
  have hacc := accepts_frame stack id v ht
  have hend := comma_not_mem_ending ht (xorSum (frameBody .srs (srsContents id v.text)))
  have hfields : expectHeader .srs (frame .srs (srsContents id v.text) ++ tail) =
      .ok (some (printNat 10 id.toNat ++ comma :: (v.text ++
        star :: (checksumText (xorSum (frameBody .srs (srsContents id v.text))) ++ tail)))) := by
    rw [expectHeader_frame, srsContents]
    simp
  simp only [ofString, fromString, BSPacket.fromString_of_accepts hacc, bind, Except.bind, hfields,
    nextField_field (printNat_ne_nil _ _) (comma_not_mem_printNat (Or.inl rfl)),
    nextField_ending v.no_comma hend, readValue_field v hend, readId_field]
  rfl

end SRSPacket

end RoundTrip

/-! ## All five together -/

/-- `BSPacket`'s constructor gives a valid packet of type `t`. -/
def ReadsAs (stack : Stack) (line : List UInt8) (t : PacketType) : Prop :=
  ∃ p, BSPacket.ofString stack line = .ok p ∧ p.isValid = true ∧ p.packetType = t

theorem readsAs_of_accepts {stack : Stack} {line : List UInt8} {t : PacketType}
    (h : BSPacket.Accepts stack line t) : ReadsAs stack line t :=
  ⟨_, BSPacket.fromString_of_accepts h _, rfl, rfl⟩

/-- **Decode undoes encode** for the packets with a fixed number of fields:
`BSPacket` accepts the string with its type, and the typed parser reads back the
fields, whatever the uninitialised arrays held. -/
theorem decode_encode (stack stackTyped : Stack) (id : UInt16) (addr : UInt32) (v : Field)
    (tail : List UInt8) (htail : tail = [] ∨ tail = [13, 10]) :
    (ReadsAs stack ((DISPacket.ofValues id).toStr.packetStr ++ tail) .dis ∧
      ∃ p, DISPacket.ofString stackTyped ((DISPacket.ofValues id).toStr.packetStr ++ tail) = .ok p ∧
        p.isValid = true ∧ p.lastCellId = id) ∧
    (ReadsAs stack ((SRDPacket.ofValues id addr).toStr.packetStr ++ tail) .srd ∧
      ∃ p, SRDPacket.ofString stackTyped ((SRDPacket.ofValues id addr).toStr.packetStr ++ tail) =
          .ok p ∧
        p.isValid = true ∧ p.cellId = id ∧ p.regAddr = addr) ∧
    (ReadsAs stack ((MWRPacket.ofValues addr v.text).toStr.packetStr ++ tail) .mwr ∧
      ∃ p, MWRPacket.ofString stackTyped
          ((MWRPacket.ofValues addr v.text).toStr.packetStr ++ tail) = .ok p ∧
        p.isValid = true ∧ p.regAddr = addr ∧ p.value = v.text) ∧
    (ReadsAs stack ((SWRPacket.ofValues id addr v.text).toStr.packetStr ++ tail) .swr ∧
      ∃ p, SWRPacket.ofString stackTyped
          ((SWRPacket.ofValues id addr v.text).toStr.packetStr ++ tail) = .ok p ∧
        p.isValid = true ∧ p.cellId = id ∧ p.regAddr = addr ∧ p.value = v.text) ∧
    (ReadsAs stack ((SRSPacket.ofValues id v.text).toStr.packetStr ++ tail) .srs ∧
      ∃ p, SRSPacket.ofString stackTyped ((SRSPacket.ofValues id v.text).toStr.packetStr ++ tail) =
          .ok p ∧
        p.isValid = true ∧ p.cellId = id ∧ p.value = v.text) := by
  have ht : Tail tail := by
    rcases htail with rfl | rfl
    · exact tail_nil
    · exact tail_crlf
  rw [DISPacket.packetStr_ofValues, SRDPacket.packetStr_ofValues, MWRPacket.packetStr_ofValues,
    SWRPacket.packetStr_ofValues, SRSPacket.packetStr_ofValues]
  exact ⟨⟨readsAs_of_accepts (DISPacket.accepts_frame stack id ht), _,
      DISPacket.ofString_frame stackTyped id ht, rfl, rfl⟩,
    ⟨readsAs_of_accepts (SRDPacket.accepts_frame stack id addr ht), _,
      SRDPacket.ofString_frame stackTyped id addr ht, rfl, rfl, rfl⟩,
    ⟨readsAs_of_accepts (MWRPacket.accepts_frame stack addr v ht), _,
      MWRPacket.ofString_frame stackTyped addr v ht, rfl, rfl, rfl⟩,
    ⟨readsAs_of_accepts (SWRPacket.accepts_frame stack id addr v ht), _,
      SWRPacket.ofString_frame stackTyped id addr v ht, rfl, rfl, rfl, rfl⟩,
    ⟨readsAs_of_accepts (SRSPacket.accepts_frame stack id v ht), _,
      SRSPacket.ofString_frame stackTyped id v ht, rfl, rfl, rfl⟩⟩

/-- The text `3.3`, with `$` and a blank before it. -/
def sampleField : Field := ⟨ascii "$ 3.3", by decide, by decide, by decide, by decide⟩

theorem decode_encode_sample :
    ∃ p, SWRPacket.ofString (Vector.replicate 200 44)
        ((SWRPacket.ofValues 65535 0x1000 sampleField.text).toStr.packetStr ++ [13, 10]) = .ok p ∧
      p.isValid = true ∧ p.cellId = 65535 ∧ p.regAddr = 0x1000 ∧ p.value = sampleField.text :=
  (decode_encode (Vector.replicate 200 44) (Vector.replicate 200 44) 65535 0x1000 sampleField
    [13, 10] (Or.inr rfl)).2.2.2.1.2

end Scbs
