import Scbs.Handlers
import Scbs.MultiReadHop

/-!
# The protocol: messages and responses

What a cell does with a packet, without bytes, buffers, clocks and LEDs.

* `Msg` — the packets as values; `Msg.line` is what `ToString` makes of them.
* `Cell`, `Responds` — the state of a cell that the protocol is about, and how a cell
  answers each message.
* `SCBS.dispatch_msg` — **the packet handlers refine `Responds`**: on the line of a
  message, `Update` transmits the line of the answer and leaves the state that the
  answer goes with.
-/

namespace Scbs

open CLib

/-! ## Messages -/

/-- A text that can be carried by a field. -/
@[ext] structure Text where
  text : List UInt8
  onWire : OnWire text

def Text.field (v : Text) : Field := v.onWire.field

/-- A packet as a value. -/
inductive Msg where
  | dis (lastCellId : UInt16)
  | mrd (regAddr : UInt32) (values : List Text)
  | mwr (regAddr : UInt32) (value : Text)
  | srd (cellId : UInt16) (regAddr : UInt32)
  | swr (cellId : UInt16) (regAddr : UInt32) (value : Text)
  | srs (cellId : UInt16) (value : Text)

namespace Msg

def packetType : Msg → PacketType
  | dis _ => .dis
  | mrd _ _ => .mrd
  | mwr _ _ => .mwr
  | srd _ _ => .srd
  | swr _ _ _ => .swr
  | srs _ _ => .srs

def contents : Msg → List UInt8
  | dis id => disContents id
  | mrd addr vs => printNat 16 addr.toNat ++ joinFields (vs.map (·.text))
  | mwr addr v => mwrContents addr v.text
  | srd id addr => srdContents id addr
  | swr id addr v => swrContents id addr v.text
  | srs id v => srsContents id v.text

/-- The string of the packet. -/
def packetStr (m : Msg) : List UInt8 := frame m.packetType m.contents

/-- What `TransmitPacket` sends. -/
def line (m : Msg) : List UInt8 := SCBS.transmitPacket m.packetStr

/-- The line without its newline. -/
def body (m : Msg) : List UInt8 := m.packetStr ++ [13]

theorem line_eq (m : Msg) : m.line = m.body ++ [lineFeed] := by
  rw [line, body, SCBS.transmitPacket, List.append_assoc]
  rfl

end Msg

/-- There is room in a multi-read for any further value. -/
structure MrdFits (regAddr : UInt32) (values : List Text) : Prop where
  count : values.length < kMaxNumValues
  ne_nil : ∀ v ∈ values, v.text ≠ []
  room : usedLen (printNat 16 regAddr.toNat).length (values.map (·.text)) ≤ 160

/-- The message can be handled by a cell. -/
def Msg.Fits : Msg → Prop
  | .mrd addr vs => MrdFits addr vs
  | _ => True

section Contents

theorem onWire_of_mem_map {vs : List Text} {v : List UInt8} (h : v ∈ vs.map (·.text)) :
    OnWire v := by
  obtain ⟨t, -, rfl⟩ := List.mem_map.1 h
  exact t.onWire

/-- The contents of a message are free of what is in no number and no text, except for
commas. -/
theorem Msg.not_mem_contents_of {c : UInt8} (hcomma : c ≠ comma) (hval : digitVal c = 36)
    (htext : ∀ v, OnWire v → c ∉ v) (m : Msg) : c ∉ m.contents := by
  have hid : ∀ n, c ∉ printNat 10 n := fun n => not_mem_numeral hval (Or.inl rfl)
  have haddr : ∀ n, c ∉ printNat 16 n := fun n => not_mem_numeral hval (Or.inr rfl)
  cases m with
  | dis id => exact hid _
  | mrd addr vs =>
    rw [contents, List.mem_append, not_or]
    refine ⟨haddr _, not_mem_joinFields hcomma ?_⟩
    intro v hv
    exact htext v (onWire_of_mem_map hv)
  | mwr addr v => exact not_mem_append_cons (haddr _) hcomma (htext _ v.onWire)
  | srd id addr => exact not_mem_append_cons (hid _) hcomma (haddr _)
  | swr id addr v =>
    exact not_mem_append_cons (hid _) hcomma
      (not_mem_append_cons (haddr _) hcomma (htext _ v.onWire))
  | srs id v => exact not_mem_append_cons (hid _) hcomma (htext _ v.onWire)

/-- They stay within a line. -/
theorem Msg.not_mem_contents {c : UInt8} (hc : c = 0 ∨ c = 10) (m : Msg) : c ∉ m.contents :=
  m.not_mem_contents_of (ne_comma_of_end hc) (digitVal_of_end hc) fun _ hv => hv.not_mem hc

/-- They stay before the `*`. -/
theorem Msg.star_not_mem_contents (m : Msg) : star ∉ m.contents :=
  m.not_mem_contents_of star_ne_comma (by decide) fun _ hv => hv.no_star

theorem Msg.length_contents_le {m : Msg} (hm : m.Fits) : m.contents.length ≤ 160 := by
  cases m with
  | dis id => exact le_trans (length_disContents id) (by omega)
  | mrd addr vs =>
    rw [contents, List.length_append, length_joinFields]
    exact hm.room
  | mwr addr v => exact le_trans (length_mwrContents addr v.onWire.length_le) (by omega)
  | srd id addr => exact le_trans (length_srdContents id addr) (by omega)
  | swr id addr v => exact le_trans (length_swrContents id addr v.onWire.length_le) (by omega)
  | srs id v => exact le_trans (length_srsContents id v.onWire.length_le) (by omega)

theorem Msg.not_mem_body {c : UInt8} (hc : c = 0 ∨ c = 10) (m : Msg) : c ∉ m.body := by
  simp only [body, List.mem_append, List.mem_singleton, not_or]
  exact ⟨not_mem_frame hc (m.not_mem_contents hc), by rcases hc with rfl | rfl <;> decide⟩

/-- So a message is one line. -/
theorem Msg.lineFeed_not_mem_body (m : Msg) : lineFeed ∉ m.body := m.not_mem_body (Or.inr rfl)

theorem Msg.length_body_le {m : Msg} (hm : m.Fits) : m.body.length ≤ 198 := by
  have := m.length_contents_le hm
  rw [body, packetStr, List.length_append, length_frame, List.length_singleton]
  omega

end Contents

/-! ## Responses -/

/-- The state of a cell as the protocol sees it.  The current a cell measures is not
under its control, so it is only known to be in a set. -/
structure Cell (F : Type) where
  cellId : UInt16
  voltage : F
  currents : Set F

/-- The text of an error code. -/
def errText (errCode : UInt16) : Text := ⟨SCBS.errStr errCode, SCBS.onWire_errStr errCode⟩

/-- The error code of a write to an address other than the voltage register. -/
def writeErr (regAddr : UInt32) : UInt16 :=
  if regAddr = kRegAddrReadOutputCurrent then kErrCodeWriteNotSupported
  else kErrCodeAddrNotRecognized

section Response

variable {F : Type} [CFloat F]

/-- The voltage that the text of a write sets. -/
def setVoltage (v : Text) : F := SCBS.railVoltage (CFloat.strtof v.text)

/-- **How a cell answers a message** while it measures `current`. -/
inductive Responds (cell : Cell F) (current : F) : Msg → Cell F → Msg → Prop
  | dis (id : UInt16) :
      Responds cell current (.dis id) { cell with cellId := id + 1 } (.dis (id + 1))
  | mwr (v : Text) :
      Responds cell current (.mwr kRegAddrSetOutputVoltage v) { cell with voltage := setVoltage v }
        (.mwr kRegAddrSetOutputVoltage v)
  | mwrErr {addr : UInt32} (v : Text) : addr ≠ kRegAddrSetOutputVoltage →
      Responds cell current (.mwr addr v) cell (.srs cell.cellId (errText (writeErr addr)))
  | mrd {addr : UInt32} {own : Text} (vs : List Text) :
      SCBS.registerText cell.voltage current addr = some own.text →
      Responds cell current (.mrd addr vs) cell (.mrd addr (vs ++ [own]))
  | mrdErr {addr : UInt32} (vs : List Text) : SCBS.registerText cell.voltage current addr = none →
      Responds cell current (.mrd addr vs) cell
        (.srs cell.cellId (errText kErrCodeAddrNotRecognized))
  | srd {addr : UInt32} {own : Text} :
      SCBS.registerText cell.voltage current addr = some own.text →
      Responds cell current (.srd cell.cellId addr) cell (.srs cell.cellId own)
  | srdErr {addr : UInt32} : SCBS.registerText cell.voltage current addr = none →
      Responds cell current (.srd cell.cellId addr) cell
        (.srs cell.cellId (errText kErrCodeAddrNotRecognized))
  | srdOther {id : UInt16} (addr : UInt32) : id ≠ cell.cellId →
      Responds cell current (.srd id addr) cell (.srd id addr)
  | swr (v : Text) :
      Responds cell current (.swr cell.cellId kRegAddrSetOutputVoltage v)
        { cell with voltage := setVoltage v } (.srs cell.cellId (errText kErrCodeNone))
  | swrErr {addr : UInt32} (v : Text) : addr ≠ kRegAddrSetOutputVoltage →
      Responds cell current (.swr cell.cellId addr v) cell
        (.srs cell.cellId (errText (writeErr addr)))
  | swrOther {id : UInt16} (addr : UInt32) (v : Text) : id ≠ cell.cellId →
      Responds cell current (.swr id addr v) cell (.swr id addr v)
  | srs (id : UInt16) (v : Text) : Responds cell current (.srs id v) cell (.srs id v)

/-- A cell that measures a known current is a function. -/
theorem Responds.unique {cell c₁ c₂ : Cell F} {current : F} {m m₁ m₂ : Msg}
    (h₁ : Responds cell current m c₁ m₁) (h₂ : Responds cell current m c₂ m₂) :
    c₁ = c₂ ∧ m₁ = m₂ := by
  -- the two readings of one register, where there are two
  have hown : ∀ {addr : UInt32} {own own' : Text},
      SCBS.registerText cell.voltage current addr = some own.text →
      SCBS.registerText cell.voltage current addr = some own'.text → own = own' :=
    fun h h' => Text.ext (Option.some.inj (h.symm.trans h'))
  have hno : ∀ {addr : UInt32} {own : Text},
      SCBS.registerText cell.voltage current addr = some own.text →
      SCBS.registerText cell.voltage current addr ≠ none :=
    fun h h' => Option.some_ne_none _ (h.symm.trans h')
  cases h₁ with
  | dis id =>
    cases h₂
    exact ⟨rfl, rfl⟩
  | mwr v =>
    cases h₂ with
    | mwr => exact ⟨rfl, rfl⟩
    | mwrErr _ haddr => exact absurd rfl haddr
  | mwrErr v haddr =>
    cases h₂ with
    | mwr => exact absurd rfl haddr
    | mwrErr => exact ⟨rfl, rfl⟩
  | mrd vs htext =>
    cases h₂ with
    | mrd _ htext' => exact ⟨rfl, by rw [hown htext htext']⟩
    | mrdErr _ hnone => exact absurd hnone (hno htext)
  | mrdErr vs hnone =>
    cases h₂ with
    | mrd _ htext => exact absurd hnone (hno htext)
    | mrdErr => exact ⟨rfl, rfl⟩
  | srd htext =>
    cases h₂ with
    | srd htext' => exact ⟨rfl, by rw [hown htext htext']⟩
    | srdErr hnone => exact absurd hnone (hno htext)
    | srdOther _ hid => exact absurd rfl hid
  | srdErr hnone =>
    cases h₂ with
    | srd htext => exact absurd hnone (hno htext)
    | srdErr => exact ⟨rfl, rfl⟩
    | srdOther _ hid => exact absurd rfl hid
  | srdOther addr hid =>
    cases h₂ with
    | srd => exact absurd rfl hid
    | srdErr => exact absurd rfl hid
    | srdOther => exact ⟨rfl, rfl⟩
  | swr v =>
    cases h₂ with
    | swr => exact ⟨rfl, rfl⟩
    | swrErr _ haddr => exact absurd rfl haddr
    | swrOther _ _ hid => exact absurd rfl hid
  | swrErr v haddr =>
    cases h₂ with
    | swr => exact absurd rfl haddr
    | swrErr => exact ⟨rfl, rfl⟩
    | swrOther _ _ hid => exact absurd rfl hid
  | swrOther addr v hid =>
    cases h₂ with
    | swr => exact absurd rfl hid
    | swrErr => exact absurd rfl hid
    | swrOther => exact ⟨rfl, rfl⟩
  | srs id v =>
    cases h₂
    exact ⟨rfl, rfl⟩

/-- The measured currents are no part of an answer. -/
theorem Responds.currents_eq {cell c' : Cell F} {current : F} {m m' : Msg}
    (h : Responds cell current m c' m') : c'.currents = cell.currents := by
  cases h <;> rfl

end Response

/-! ## The handlers refine the protocol -/

section Refinement

variable {F : Type} [CFloat F]

/-- The base parser accepts the line of a message that is not too long. -/
theorem Msg.ofString_line_of_le {m : Msg} (hlen : m.contents.length ≤ 190) (stack : Stack) :
    BSPacket.ofString stack m.line =
      .ok { packetStr := m.line, isValid := true, packetType := m.packetType } := by
  have htype : m.packetType ≠ .unknown := by cases m <;> exact fun h => by cases h
  exact BSPacket.fromString_of_accepts (BSPacket.accepts_frame stack htype
    m.star_not_mem_contents tail_crlf.ends hlen) _

theorem Msg.ofString_line {m : Msg} (hm : m.Fits) (stack : Stack) :
    BSPacket.ofString stack m.line =
      .ok { packetStr := m.line, isValid := true, packetType := m.packetType } :=
  Msg.ofString_line_of_le (le_trans (m.length_contents_le hm) (by omega)) stack

namespace SCBS

/-- The cell as the protocol sees it. -/
def model (cell : SCBS F) (currents : Set F) : Cell F := ⟨cell.cellId, cell.outputVoltage, currents⟩

omit [CFloat F] in
theorem transmitError_eq (cell : SCBS F) (errCode : UInt16) :
    cell.transmitError errCode = (Msg.srs cell.cellId (errText errCode)).line :=
  congrArg transmitPacket (SRSPacket.packetStr_ofValues cell.cellId (errText errCode).field)

theorem writeErr_ne (addr : UInt32) : writeErr addr ≠ kErrCodeNone := by
  unfold writeErr
  split <;> decide

/-- **What `WriteRegister` can do**: set the voltage, or report an error. -/
theorem writeRegister_cases (cell : SCBS F) (time addr : UInt32) (v : List UInt8) :
    (addr = kRegAddrSetOutputVoltage ∧ (cell.writeRegister time addr v).2 = kErrCodeNone ∧
      (cell.writeRegister time addr v).1.cellId = cell.cellId ∧
      (cell.writeRegister time addr v).1.outputVoltage = railVoltage (CFloat.strtof v)) ∨
    (addr ≠ kRegAddrSetOutputVoltage ∧ cell.writeRegister time addr v = (cell, writeErr addr)) := by
  by_cases haddr : addr = kRegAddrSetOutputVoltage
  · subst haddr
    exact Or.inl ⟨rfl, rfl, rfl, rfl⟩
  · refine Or.inr ⟨haddr, ?_⟩
    rw [writeRegister, if_neg haddr, writeErr]
    split <;> rfl

/-- **What `ReadRegister` can do**: give the text, or report an error. -/
theorem readRegister_cases (cell : SCBS F) (time addr : UInt32) :
    (∃ own : Text, registerText cell.outputVoltage cell.outputCurrent addr = some own.text ∧
      cell.readRegister time addr =
        (cell.turnOnStatusLED time kRegisterReadBlinkTimeMs, kErrCodeNone, own.text)) ∨
    (registerText cell.outputVoltage cell.outputCurrent addr = none ∧
      cell.readRegister time addr = (cell, kErrCodeAddrNotRecognized, [])) := by
  unfold readRegister
  cases h : registerText cell.outputVoltage cell.outputCurrent addr with
  | none => exact Or.inr ⟨rfl, rfl⟩
  | some text => exact Or.inl ⟨⟨text, (onWire_registerText h).1⟩, rfl, rfl⟩

section Handlers

variable (cell : SCBS F) (currents : Set F) (time : UInt32)

theorem disPacketHandler_msg {p : DISPacket} (hv : p.isValid = true) :
    ∃ cell' m', cell.disPacketHandler p = (cell', Msg.line m') ∧
      Responds (cell.model currents) cell.outputCurrent (.dis p.lastCellId)
        (cell'.model currents) m' := by
  refine ⟨{ cell with cellId := p.lastCellId + 1 }, .dis (p.lastCellId + 1), ?_, .dis _⟩
  simp only [disPacketHandler, if_pos hv, DISPacket.packetStr_ofValues]
  rfl

theorem mwrPacketHandler_msg {p : MWRPacket} (hv : p.isValid = true) (ht : p.packetType = .mwr)
    {v : Text} (hval : p.value = v.text) :
    ∃ cell' m', cell.mwrPacketHandler time p = (cell', Msg.line m') ∧
      Responds (cell.model currents) cell.outputCurrent (.mwr p.regAddr v)
        (cell'.model currents) m' := by
  have hstr : p.toStr.packetStr = frame .mwr (mwrContents p.regAddr v.text) :=
    MWRPacket.packetStr_of_value ht (v := v.field) hval
  rw [mwrPacketHandler, if_pos hv, hval]
  rcases cell.writeRegister_cases time p.regAddr v.text with
    ⟨haddr, herr, hid, hvolt⟩ | ⟨haddr, hwr⟩
  · generalize cell.writeRegister time p.regAddr v.text = w at herr hid hvolt ⊢
    obtain ⟨cell', errCode⟩ := w
    simp only at herr hid hvolt
    refine ⟨cell', .mwr p.regAddr v, ?_, ?_⟩
    · simp only [herr, ne_eq, not_true_eq_false, if_false, hstr]
      rfl
    · rw [model, model, hid, hvolt, haddr]
      exact .mwr v
  · refine ⟨cell, .srs cell.cellId (errText (writeErr p.regAddr)), ?_, .mwrErr v haddr⟩
    simp only [hwr, ne_eq, writeErr_ne, not_false_eq_true, if_true, transmitError_eq]

theorem swrPacketHandler_msg {p : SWRPacket} (hv : p.isValid = true) (ht : p.packetType = .swr)
    {v : Text} (hval : p.value = v.text) :
    ∃ cell' m', cell.swrPacketHandler time p = (cell', Msg.line m') ∧
      Responds (cell.model currents) cell.outputCurrent (.swr p.cellId p.regAddr v)
        (cell'.model currents) m' := by
  have hstr : p.toStr.packetStr = frame .swr (swrContents p.cellId p.regAddr v.text) :=
    SWRPacket.packetStr_of_value ht (v := v.field) hval
  rw [swrPacketHandler, if_pos hv, hval]
  by_cases hid : p.cellId = cell.cellId
  · rw [if_pos hid, hid]
    rcases cell.writeRegister_cases time p.regAddr v.text with
      ⟨haddr, herr, hid', hvolt⟩ | ⟨haddr, hwr⟩
    · generalize cell.writeRegister time p.regAddr v.text = w at herr hid' hvolt ⊢
      obtain ⟨cell', errCode⟩ := w
      simp only at herr hid' hvolt
      refine ⟨cell', .srs cell.cellId (errText kErrCodeNone), ?_, ?_⟩
      · simp only [herr, transmitError_eq, hid']
      · rw [model, model, hid', hvolt, haddr]
        exact .swr v
    · refine ⟨cell, .srs cell.cellId (errText (writeErr p.regAddr)), ?_, .swrErr v haddr⟩
      simp only [hwr, transmitError_eq]
  · refine ⟨cell, .swr p.cellId p.regAddr v, ?_, .swrOther p.regAddr v hid⟩
    rw [if_neg hid, hstr]
    rfl

theorem srdPacketHandler_msg {p : SRDPacket} (hv : p.isValid = true) (ht : p.packetType = .srd) :
    ∃ cell' m', cell.srdPacketHandler time p = (cell', Msg.line m') ∧
      Responds (cell.model currents) cell.outputCurrent (.srd p.cellId p.regAddr)
        (cell'.model currents) m' := by
  have hstr := SRDPacket.packetStr_toStr p
  rw [ht] at hstr
  rw [srdPacketHandler, if_pos hv]
  by_cases hid : p.cellId = cell.cellId
  · rw [if_pos hid, hid]
    rcases cell.readRegister_cases time p.regAddr with ⟨own, hown, hread⟩ | ⟨hown, hread⟩
    · refine ⟨cell.turnOnStatusLED time kRegisterReadBlinkTimeMs, .srs cell.cellId own, ?_,
        .srd hown⟩
      simp only [hread, ne_eq, not_true_eq_false, if_false]
      exact congrArg (fun s => (_, transmitPacket s)) (SRSPacket.packetStr_ofValues _ own.field)
    · refine ⟨cell, .srs cell.cellId (errText kErrCodeAddrNotRecognized), ?_, .srdErr hown⟩
      simp only [hread, ne_eq, transmitError_eq]
      rfl
  · refine ⟨cell, .srd p.cellId p.regAddr, ?_, .srdOther p.regAddr hid⟩
    rw [if_neg hid, hstr]
    rfl

theorem srsPacketHandler_msg {p : SRSPacket} (hv : p.isValid = true) (ht : p.packetType = .srs)
    {v : Text} (hval : p.value = v.text) :
    ∃ cell' m', cell.srsPacketHandler p = (cell', Msg.line m') ∧
      Responds (cell.model currents) cell.outputCurrent (.srs p.cellId v)
        (cell'.model currents) m' := by
  have hstr : p.toStr.packetStr = frame .srs (srsContents p.cellId v.text) :=
    SRSPacket.packetStr_of_value ht (v := v.field) hval
  refine ⟨cell, .srs p.cellId v, ?_, .srs _ v⟩
  rw [srsPacketHandler, if_pos hv, hstr]
  rfl

theorem mrdPacketHandler_msg {p : MRDPacket} (hv : p.isValid = true) {vs : List Text}
    (hfits : MrdFits p.regAddr vs) (hnum : p.numValues = (vs.map (·.text)).length)
    (hvalues : p.values = MRDPacket.slots (vs.map (·.text))
      (kMaxNumValues - (vs.map (·.text)).length)) :
    ∃ cell' m', cell.mrdPacketHandler time p = (cell', Msg.line m') ∧
      Responds (cell.model currents) cell.outputCurrent (.mrd p.regAddr vs)
        (cell'.model currents) m' := by
  have hcount : (vs.map (·.text)).length < kMaxNumValues := by
    rw [List.length_map]
    exact hfits.count
  have hguard := le_trans hfits.room (by omega : 160 ≤ 169)
  rcases cell.readRegister_cases time p.regAddr with ⟨own, hown, hread⟩ | ⟨hown, hread⟩
  · have hcell : (cell.mrdPacketHandler time p).1 =
        cell.turnOnStatusLED time kRegisterReadBlinkTimeMs := by
      simp only [mrdPacketHandler, if_pos hv, hnum, if_neg (Nat.not_le.2 hcount), hread]
      rfl
    have htx := cell.mrdPacketHandler_tx time hv hcount hvalues hnum hown
    have hws : ∀ v ∈ vs.map (·.text) ++ [own.text], OnWire v :=
      forall_onWire_concat (fun v hv => onWire_of_mem_map hv) own.onWire
    have hlen : (MRDPacket.contents p.regAddr (vs.map (·.text) ++ [own.text])).length ≤ 188 := by
      have hroom := hfits.room
      have hownlen := own.onWire.length_le
      rw [MRDPacket.length_contents_of_guard _ hguard, usedLen_append, usedLen_cons, usedLen_nil]
      omega
    rw [MRDPacket.written_eq _ hws hlen, MRDPacket.contents_of_guard _ hguard] at htx
    refine ⟨_, .mrd p.regAddr (vs ++ [own]), Prod.ext hcell (htx.trans ?_), .mrd vs hown⟩
    rw [Msg.line, Msg.packetStr, Msg.contents, List.map_append, List.map_singleton]
    rfl
  · refine ⟨cell, .srs cell.cellId (errText kErrCodeAddrNotRecognized), ?_, .mrdErr vs hown⟩
    simp only [mrdPacketHandler, if_pos hv, hnum, if_neg (Nat.not_le.2 hcount), hread, ne_eq,
      transmitError_eq]
    rfl

end Handlers

/-- A parser reads the values of a multi-read back from its line. -/
theorem ofString_mrd (stack : Stack) {addr : UInt32} {vs : List Text}
    (hcount : vs.length ≤ kMaxNumValues) (hne : ∀ v ∈ vs, v.text ≠ [])
    (hlen : (Msg.mrd addr vs).contents.length ≤ 190) :
    ∃ p, MRDPacket.ofString stack (Msg.mrd addr vs).line = .ok p ∧ p.isValid = true ∧
      p.regAddr = addr ∧ p.numValues = (vs.map (·.text)).length ∧
      p.values = MRDPacket.slots (vs.map (·.text)) (kMaxNumValues - (vs.map (·.text)).length) := by
  have hne' : ∀ v ∈ (vs.map (·.text)).dropLast, v ≠ [] := by
    intro v hv
    obtain ⟨t, ht, rfl⟩ := List.mem_map.1 (List.mem_of_mem_dropLast hv)
    exact hne t ht
  refine ⟨_, MRDPacket.ofString_frame stack addr tail_crlf (fun v hv =>
    ⟨(onWire_of_mem_map hv).no_comma, (onWire_of_mem_map hv).no_star⟩) hlen, ?_⟩
  rw [MRDPacket.foundValues_eq (fun v hv => (onWire_of_mem_map hv).length_le) hne',
    MRDPacket.stored_eq _ (by rw [List.length_map]; exact hcount)]
  exact ⟨rfl, rfl, rfl, rfl⟩

/-- **The handlers refine the protocol.**  On the line of a message, `Update` calls the
handler of its type, which transmits the line of the answer and leaves the state that
goes with it. -/
theorem dispatch_msg (env : Env) (cell : SCBS F) (currents : Set F) {m : Msg} (hm : m.Fits) :
    ∃ cell' m', cell.dispatch env m.line = .ok (cell', m'.line) ∧
      Responds (cell.model currents) cell.outputCurrent m (cell'.model currents) m' := by
  have hbase := Msg.ofString_line hm env.stack
  cases m with
  | dis id =>
    have hp : DISPacket.ofString env.stackTyped (Msg.dis id).line = _ :=
      DISPacket.ofString_frame env.stackTyped id tail_crlf
    simp only [dispatch, hbase, hp, bind, Except.bind, pure, Except.pure, if_true, Msg.packetType,
      Except.ok.injEq]
    exact cell.disPacketHandler_msg currents rfl
  | mrd addr vs =>
    have hlen := Msg.length_contents_le (m := .mrd addr vs) hm
    obtain ⟨p, hp, hv, rfl, hnum, hvalues⟩ :=
      ofString_mrd env.stackTyped hm.count.le hm.ne_nil (le_trans hlen (by omega))
    simp only [dispatch, hbase, hp, bind, Except.bind, pure, Except.pure, if_true, Msg.packetType,
      Except.ok.injEq]
    exact cell.mrdPacketHandler_msg currents env.timeAtRegister hv hm hnum hvalues
  | mwr addr v =>
    have hp : MWRPacket.ofString env.stackTyped (Msg.mwr addr v).line = _ :=
      MWRPacket.ofString_frame env.stackTyped addr v.field tail_crlf
    simp only [dispatch, hbase, hp, bind, Except.bind, pure, Except.pure, if_true, Msg.packetType,
      Except.ok.injEq]
    exact cell.mwrPacketHandler_msg currents env.timeAtRegister rfl rfl rfl
  | srd id addr =>
    have hp : SRDPacket.ofString env.stackTyped (Msg.srd id addr).line = _ :=
      SRDPacket.ofString_frame env.stackTyped id addr tail_crlf
    simp only [dispatch, hbase, hp, bind, Except.bind, pure, Except.pure, if_true, Msg.packetType,
      Except.ok.injEq]
    exact cell.srdPacketHandler_msg currents env.timeAtRegister rfl rfl
  | swr id addr v =>
    have hp : SWRPacket.ofString env.stackTyped (Msg.swr id addr v).line = _ :=
      SWRPacket.ofString_frame env.stackTyped id addr v.field tail_crlf
    simp only [dispatch, hbase, hp, bind, Except.bind, pure, Except.pure, if_true, Msg.packetType,
      Except.ok.injEq]
    exact cell.swrPacketHandler_msg currents env.timeAtRegister rfl rfl rfl
  | srs id v =>
    have hp : SRSPacket.ofString env.stackTyped (Msg.srs id v).line = _ :=
      SRSPacket.ofString_frame env.stackTyped id v.field tail_crlf
    simp only [dispatch, hbase, hp, bind, Except.bind, pure, Except.pure, if_true, Msg.packetType,
      Except.ok.injEq]
    exact cell.srsPacketHandler_msg currents rfl rfl rfl

end SCBS

end Refinement

end Scbs
