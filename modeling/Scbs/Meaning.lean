import Scbs.Comms.Lookup
import Scbs.Protocol
import Scbs.Replies

/-!
# What lines mean

A line is answered by what it says and not by how it is written: the parsers turn every line
on which they are defined into a packet that is rejected, malformed or a message, and the
handlers answer messages only.

* `packetOf` — what the parsers make of a line, if that does not depend on uninitialised
  memory (`packetOf_eq_some_iff`); `Msg.packetOf_line` for the line of a message.
* `Packet.Means`, `packet_cases` — the message that a packet stands for, and that there is
  one.
* `SCBS.handle_means` — the handlers answer the message.
* `Reply` — what a cell can transmit, and `reply_handle`, that it transmits nothing else.
* `defined_of_reply` — **a cell never sends a line on which the parse is not defined.**
-/

namespace Scbs

open CLib Link

/-! ## Lines and packets -/

/-- `ChecksumMatches`, evaluated. -/
theorem checksumMatches_iff (line : List UInt8) :
    ChecksumMatches line ↔ (strchr line star).any (fun endTokenPtr =>
      BSPacket.calculateChecksum line = UInt8.ofInt (strtol endTokenPtr.tail scbsChecksumBase)) := by
  rw [Option.any_eq_true]
  simp only [decide_eq_true_eq]
  rfl

instance (line : List UInt8) : Decidable (ChecksumMatches line) :=
  decidable_of_iff _ (checksumMatches_iff line).symm

/-- What the parsers make of a line, if it is the same whatever their uninitialised arrays
hold: the line does not carry its checksum, or its first token ends among the bytes that are
copied, and no parser runs into a fault. -/
def packetOf (line : List UInt8) : Option Packet :=
  if ChecksumMatches line → headerEnd line < kMaxPacketFieldLen then
    (SCBS.parse sampleEnv line).toOption
  else none

section Parse

variable {line : List UInt8}

/-- Where the lookup answers from the line, the arrays play no part in it. -/
theorem BSPacket.fromString_congr (hnul : (0 : UInt8) ∉ line)
    (h : ChecksumMatches line → headerEnd line < kMaxPacketFieldLen) (stack stack' : Stack)
    (self : BSPacket) : self.fromString stack line = self.fromString stack' line := by
  by_cases hsum : ChecksumMatches line
  · obtain ⟨p, save, hstrtok⟩ := exists_strtok_of_star_mem hsum.star_mem
    rw [fromString_of_checksumMatches hsum, fromString_of_checksumMatches hsum,
      strtokMem_headerBuf_of_lt hstrtok hnul (h hsum),
      strtokMem_headerBuf_of_lt hstrtok hnul (h hsum)]
  · rw [fromString_of_not_checksumMatches hsum, fromString_of_not_checksumMatches hsum]

theorem SCBS.parse_congr (hnul : (0 : UInt8) ∉ line)
    (h : ChecksumMatches line → headerEnd line < kMaxPacketFieldLen) (env env' : Env) :
    parse env line = parse env' line := by
  have hbase := BSPacket.fromString_congr hnul h
  unfold parse BSPacket.ofString DISPacket.ofString DISPacket.fromString MRDPacket.ofString
    MRDPacket.fromString MWRPacket.ofString MWRPacket.fromString SRDPacket.ofString
    SRDPacket.fromString SWRPacket.ofString SWRPacket.fromString SRSPacket.ofString
    SRSPacket.fromString
  simp only [hbase env.stack env'.stack, hbase env.stackTyped env'.stackTyped]

/-- A line on which the parse is defined whatever the arrays hold has its first token end
among the bytes that are copied: an array of letters would make the search run off the end. -/
theorem headerEnd_lt_of_parse (hnul : (0 : UInt8) ∉ line)
    (h : ∀ env, ∃ packet, SCBS.parse env line = .ok packet) (hsum : ChecksumMatches line) :
    headerEnd line < kMaxPacketFieldLen := by
  by_contra hend
  obtain ⟨p, save, hstrtok⟩ := exists_strtok_of_star_mem hsum.star_mem
  obtain ⟨packet, hparse⟩ := h { sampleEnv with stack := lettersStack }
  unfold SCBS.parse at hparse
  simp only [BSPacket.ofString, BSPacket.fromString_of_checksumMatches hsum,
    strtokMem_headerBuf_letters hstrtok hnul (not_lt.1 hend)] at hparse
  exact absurd hparse (by simp [bind, Except.bind])

/-- **`packetOf` is what the parsers make of a line whatever their arrays hold.** -/
theorem packetOf_eq_some_iff (hnul : (0 : UInt8) ∉ line) {packet : Packet} :
    packetOf line = some packet ↔ ∀ env, SCBS.parse env line = .ok packet := by
  unfold packetOf
  constructor
  · intro h env
    split at h
    · rename_i hdef
      rw [SCBS.parse_congr hnul hdef env sampleEnv]
      cases hp : SCBS.parse sampleEnv line with
      | error fault =>
        rw [hp] at h
        exact absurd h (by simp [Except.toOption])
      | ok q =>
        rw [hp] at h
        rw [Option.some.inj h]
    · exact absurd h (by simp)
  · intro h
    rw [if_pos (headerEnd_lt_of_parse hnul fun env => ⟨packet, h env⟩), h sampleEnv]
    rfl

/-- There is such a packet when no parser faults, whatever the arrays hold. -/
theorem exists_packetOf_iff (hnul : (0 : UInt8) ∉ line) :
    (∃ packet, packetOf line = some packet) ↔
      ∀ env, ∃ packet, SCBS.parse env line = .ok packet := by
  constructor
  · rintro ⟨packet, hp⟩ env
    exact ⟨packet, (packetOf_eq_some_iff hnul).1 hp env⟩
  · intro h
    obtain ⟨packet, hp⟩ := h sampleEnv
    refine ⟨packet, ?_⟩
    rw [packetOf, if_pos (headerEnd_lt_of_parse hnul h), hp]
    rfl

end Parse

/-! ## Messages -/

/-- The type of a packet. -/
def Packet.packetType : Packet → PacketType
  | .rejected => .unknown
  | .dis _ => .dis
  | .mrd _ => .mrd
  | .mwr _ => .mwr
  | .srd _ => .srd
  | .swr _ => .swr
  | .srs _ => .srs

/-- A packet of a typed parser that is not valid. -/
def Packet.Malformed : Packet → Prop
  | .rejected => False
  | .dis p => p.isValid = false
  | .mrd p => p.isValid = false
  | .mwr p => p.isValid = false
  | .srd p => p.isValid = false
  | .swr p => p.isValid = false
  | .srs p => p.isValid = false

/-- The packet has the fields of the message. -/
inductive Packet.Means : Packet → Msg → Prop
  | dis {p : DISPacket} : p.isValid = true → Means (.dis p) (.dis p.lastCellId)
  | mrd {p : MRDPacket} {vs : List Text} : p.isValid = true → vs.length ≤ kMaxNumValues →
      p.numValues = (vs.map (·.text)).length →
      p.values = MRDPacket.slots (vs.map (·.text)) (kMaxNumValues - (vs.map (·.text)).length) →
      Means (.mrd p) (.mrd p.regAddr vs)
  | mwr {p : MWRPacket} {v : Text} : p.isValid = true → p.packetType = .mwr → p.value = v.text →
      Means (.mwr p) (.mwr p.regAddr v)
  | srd {p : SRDPacket} : p.isValid = true → p.packetType = .srd →
      Means (.srd p) (.srd p.cellId p.regAddr)
  | swr {p : SWRPacket} {v : Text} : p.isValid = true → p.packetType = .swr → p.value = v.text →
      Means (.swr p) (.swr p.cellId p.regAddr v)
  | srs {p : SRSPacket} {v : Text} : p.isValid = true → p.packetType = .srs → p.value = v.text →
      Means (.srs p) (.srs p.cellId v)

section Cases

variable {env : Env} {line body : List UInt8} {packet : Packet}

/-- The type that `BSPacket` finds is the type of the packet. -/
theorem SCBS.parse_type (h : parse env line = .ok packet) (hne : packet ≠ .rejected) :
    ReadsAs env.stack line packet.packetType := by
  unfold parse at h
  cases hb : BSPacket.ofString env.stack line with
  | error fault => simp [hb, bind, Except.bind] at h
  | ok b =>
    simp only [hb, bind, Except.bind] at h
    by_cases hv : b.isValid = true
    · rw [if_pos hv] at h
      refine ⟨b, hb, hv, ?_⟩
      cases ht : b.packetType with
      | unknown =>
        rw [ht] at h
        exact absurd (Except.ok.inj h).symm hne
      | dis | mrd | mwr | srd | swr | srs =>
        rw [ht] at h
        exact of_bind_eq_ok (P := fun q => _ = q.packetType) h fun _ _ => rfl
    · rw [if_neg hv] at h
      exact absurd (Except.ok.inj h).symm hne

/-- The parse is defined on a line, so the header lookup is. -/
theorem headerDefined_of_packetOf (hnul : (0 : UInt8) ∉ line) (h : packetOf line = some packet) :
    HeaderDefined line := by
  intro stack
  obtain ⟨b, hb, -⟩ :=
    SCBS.parse_cases ((packetOf_eq_some_iff hnul).1 h { sampleEnv with stack := stack })
  exact ⟨b, hb⟩

/-- A value that was cut out of a line before its last byte, as a text. -/
theorem exists_text {v : List UInt8} (hval : ValueIn (body ++ [lineFeed]) v)
    (hnul : (0 : UInt8) ∉ body ++ [lineFeed]) (hlf : lineFeed ∉ body) : ∃ t : Text, v = t.text := by
  obtain ⟨f, hf⟩ := hval.exists_field hnul
  have hno := hval.not_mem_of_last hlf
  rw [← hf] at hno ⊢
  exact ⟨⟨f.text, f.length_le, f.no_nul, f.no_comma, f.no_star, hno⟩, rfl⟩

theorem exists_texts {vs : List (List UInt8)} (h : ∀ v ∈ vs, OnWire v) :
    ∃ ts : List Text, vs = ts.map (·.text) := by
  induction vs with
  | nil => exact ⟨[], rfl⟩
  | cons v vs ih =>
    obtain ⟨ts, hts⟩ := ih fun w hw => h w (List.mem_cons_of_mem _ hw)
    exact ⟨⟨v, h v (List.mem_cons_self ..)⟩ :: ts, by rw [List.map_cons, ← hts]⟩

/-- **What the parsers make of a line**: nothing, something malformed, or a message. -/
theorem packet_cases (hline : IsLine line) (h : packetOf line = some packet) :
    packet = .rejected ∨ packet.Malformed ∨ ∃ m, packet.Means m := by
  obtain ⟨body, rfl, hlf, hno⟩ := hline.body
  have hnul : (0 : UInt8) ∉ body ++ [lineFeed] := by
    rw [List.mem_append, not_or]
    exact ⟨hno, by decide⟩
  have hparse := (packetOf_eq_some_iff hnul).1 h sampleEnv
  by_cases hrej : packet = .rejected
  · exact Or.inl hrej
  have hdef := headerDefined_of_packetOf hnul h
  have htype := SCBS.parse_type hparse hrej
  obtain ⟨b, -, ⟨-, hrej'⟩ | ⟨-, hread⟩⟩ := SCBS.parse_cases hparse
  · exact absurd hrej' hrej
  refine Or.inr ?_
  cases packet with
  | rejected => exact absurd rfl hrej
  | dis p =>
    cases hv : p.isValid with
    | false => exact Or.inl hv
    | true => exact Or.inr ⟨_, .dis hv⟩
  | mrd p =>
    cases hv : p.isValid with
    | false => exact Or.inl hv
    | true =>
      obtain ⟨hstar, vals, hcount, hvalues, hnum, hkept⟩ := MRDPacket.ofString_inv hread hv
      obtain ⟨vs, rfl⟩ := exists_texts fun v hv => onWire_of_kept hline hstar (hkept v hv)
      rw [List.length_map] at hcount
      exact Or.inr ⟨_, .mrd hv hcount hnum hvalues⟩
  | mwr p =>
    cases hv : p.isValid with
    | false => exact Or.inl hv
    | true =>
      obtain ⟨hacc, hval⟩ := MWRPacket.ofString_spec hread hv
      obtain ⟨v, hv'⟩ := exists_text hval hnul hlf
      exact Or.inr ⟨_, .mwr hv (hdef.eq_of_accepts htype hacc) hv'⟩
  | srd p =>
    cases hv : p.isValid with
    | false => exact Or.inl hv
    | true =>
      have hacc := SRDPacket.ofString_spec hread hv
      exact Or.inr ⟨_, .srd hv (hdef.eq_of_accepts htype hacc)⟩
  | swr p =>
    cases hv : p.isValid with
    | false => exact Or.inl hv
    | true =>
      obtain ⟨hacc, hval⟩ := SWRPacket.ofString_spec hread hv
      obtain ⟨v, hv'⟩ := exists_text hval hnul hlf
      exact Or.inr ⟨_, .swr hv (hdef.eq_of_accepts htype hacc) hv'⟩
  | srs p =>
    cases hv : p.isValid with
    | false => exact Or.inl hv
    | true =>
      obtain ⟨hacc, hval⟩ := SRSPacket.ofString_spec hread hv
      obtain ⟨v, hv'⟩ := exists_text hval hnul hlf
      exact Or.inr ⟨_, .srs hv (hdef.eq_of_accepts htype hacc) hv'⟩

end Cases

/-! ## The lines of messages -/

/-- A multi-read has as many values as a packet can hold, and none is empty. -/
def Msg.Whole : Msg → Prop
  | .mrd _ vs => vs.length ≤ kMaxNumValues ∧ ∀ v ∈ vs, v.text ≠ []
  | _ => True

/-- What the parsers make of the line of a message. -/
def Msg.packet (m : Msg) : Packet :=
  match m with
  | .dis id =>
    .dis { packetStr := m.line, isValid := true, packetType := .dis, lastCellId := id }
  | .mrd addr vs =>
    .mrd (MRDPacket.stored
      { packetStr := m.line, isValid := false, packetType := .mrd, regAddr := addr }
      [] (MRDPacket.foundValues (vs.map (·.text))) kMaxNumValues)
  | .mwr addr v =>
    .mwr { packetStr := m.line, isValid := true, packetType := .mwr, regAddr := addr,
           value := v.text }
  | .srd id addr =>
    .srd { packetStr := m.line, isValid := true, packetType := .srd, cellId := id,
           regAddr := addr }
  | .swr id addr v =>
    .swr { packetStr := m.line, isValid := true, packetType := .swr, cellId := id,
           regAddr := addr, value := v.text }
  | .srs id v =>
    .srs { packetStr := m.line, isValid := true, packetType := .srs, cellId := id,
           value := v.text }

theorem Msg.parse_line {m : Msg} (hlen : m.contents.length ≤ 190) (env : Env) :
    SCBS.parse env m.line = .ok m.packet := by
  have hbase := Msg.ofString_line_of_le hlen env.stack
  unfold SCBS.parse
  cases m with
  | dis id =>
    have hp : DISPacket.ofString env.stackTyped (Msg.dis id).line = _ :=
      DISPacket.ofString_frame env.stackTyped id tail_crlf
    simp only [hbase, Msg.packetType, hp, bind, Except.bind, if_true]
    rfl
  | mrd addr vs =>
    have hfree : ∀ v ∈ vs.map (·.text), comma ∉ v ∧ star ∉ v := fun v hv =>
      ⟨(onWire_of_mem_map hv).no_comma, (onWire_of_mem_map hv).no_star⟩
    have hp : MRDPacket.ofString env.stackTyped (Msg.mrd addr vs).line = _ :=
      MRDPacket.ofString_frame env.stackTyped addr tail_crlf hfree hlen
    simp only [hbase, Msg.packetType, hp, bind, Except.bind, if_true]
    rfl
  | mwr addr v =>
    have hp : MWRPacket.ofString env.stackTyped (Msg.mwr addr v).line = _ :=
      MWRPacket.ofString_frame env.stackTyped addr v.field tail_crlf
    simp only [hbase, Msg.packetType, hp, bind, Except.bind, if_true]
    rfl
  | srd id addr =>
    have hp : SRDPacket.ofString env.stackTyped (Msg.srd id addr).line = _ :=
      SRDPacket.ofString_frame env.stackTyped id addr tail_crlf
    simp only [hbase, Msg.packetType, hp, bind, Except.bind, if_true]
    rfl
  | swr id addr v =>
    have hp : SWRPacket.ofString env.stackTyped (Msg.swr id addr v).line = _ :=
      SWRPacket.ofString_frame env.stackTyped id addr v.field tail_crlf
    simp only [hbase, Msg.packetType, hp, bind, Except.bind, if_true]
    rfl
  | srs id v =>
    have hp : SRSPacket.ofString env.stackTyped (Msg.srs id v).line = _ :=
      SRSPacket.ofString_frame env.stackTyped id v.field tail_crlf
    simp only [hbase, Msg.packetType, hp, bind, Except.bind, if_true]
    rfl

/-- **The parsers read the line of a message**, whatever their arrays hold. -/
theorem Msg.packetOf_line {m : Msg} (hlen : m.contents.length ≤ 190) :
    packetOf m.line = some m.packet := by
  refine (packetOf_eq_some_iff ?_).2 (Msg.parse_line hlen)
  rw [Msg.line_eq, List.mem_append, not_or]
  exact ⟨m.not_mem_body (Or.inl rfl), by decide⟩

/-- They read the message from it. -/
theorem Msg.packet_means {m : Msg} (h : m.Whole) : m.packet.Means m := by
  cases m with
  | dis id => exact .dis rfl
  | mrd addr vs =>
    have hne : ∀ v ∈ (vs.map (·.text)).dropLast, v ≠ [] := by
      intro v hv
      obtain ⟨t, ht, rfl⟩ := List.mem_map.1 (List.mem_of_mem_dropLast hv)
      exact h.2 t ht
    have hcount : (vs.map (·.text)).length ≤ kMaxNumValues := by
      rw [List.length_map]
      exact h.1
    rw [Msg.packet, MRDPacket.foundValues_eq (fun v hv => (onWire_of_mem_map hv).length_le) hne,
      MRDPacket.stored_eq _ hcount]
    exact .mrd rfl h.1 rfl rfl
  | mwr addr v => exact .mwr rfl rfl rfl
  | srd id addr => exact .srd rfl rfl
  | swr id addr v => exact .swr rfl rfl rfl
  | srs id v => exact .srs rfl rfl rfl

/-! ## The answers -/

section Answers

variable {F : Type} [CFloat F]

/-- **The handlers answer the message that a packet stands for.** -/
theorem SCBS.handle_means (env : Env) (cell : SCBS F) (currents : Set F) {packet : Packet}
    {m : Msg} (h : packet.Means m) (hm : m.Fits) :
    ∃ cell' m', cell.handle env packet = (cell', m'.line) ∧
      Responds (cell.model currents) cell.outputCurrent m (cell'.model currents) m' := by
  cases h with
  | dis hv => exact cell.disPacketHandler_msg currents hv
  | mrd hv _ hnum hvalues =>
    exact cell.mrdPacketHandler_msg currents env.timeAtRegister hv hm hnum hvalues
  | mwr hv ht hval => exact cell.mwrPacketHandler_msg currents env.timeAtRegister hv ht hval
  | srd hv ht => exact cell.srdPacketHandler_msg currents env.timeAtRegister hv ht
  | swr hv ht hval => exact cell.swrPacketHandler_msg currents env.timeAtRegister hv ht hval
  | srs hv ht hval => exact cell.srsPacketHandler_msg currents hv ht hval

/-- Only a multi-read is answered with a multi-read. -/
theorem Responds.fits {a a' : Cell F} {current : F} {m m' : Msg} (h : Responds a current m a' m')
    (hm : m.packetType ≠ .mrd) : m'.Fits := by
  cases h with
  | mrd => exact absurd rfl hm
  | _ => trivial

/-- A malformed packet is answered with an error. -/
theorem SCBS.handle_malformed (env : Env) (cell : SCBS F) {packet : Packet}
    (h : packet.Malformed) :
    cell.handle env packet =
      (cell, (Msg.srs cell.cellId (errText kErrCodeReceivedInvalidPacket)).line) := by
  rw [← SCBS.transmitError_eq]
  cases packet with
  | rejected => exact h.elim
  | dis p => exact if_neg (by rw [h]; decide)
  | mrd p => exact if_neg (by rw [h]; decide)
  | mwr p => exact if_neg (by rw [h]; decide)
  | srd p => exact if_neg (by rw [h]; decide)
  | swr p => exact if_neg (by rw [h]; decide)
  | srs p => exact if_neg (by rw [h]; decide)

/-- What a cell can transmit for a line: nothing, the line of a message, or a multi-read that
grew so long that its `*` was cut off. -/
inductive Reply : List UInt8 → Prop
  | nothing : Reply []
  | line (m : Msg) : m.contents.length ≤ 188 → Reply m.line
  | cut {s : List UInt8} : IsReply s → star ∉ s → Reply (s ++ crlf)

theorem reply_srs (id : UInt16) (v : Text) : Reply (Msg.srs id v).line :=
  .line _ (le_trans (Msg.length_contents_le (m := .srs id v) trivial) (by omega))

/-- The line of a multi-read that was written with values that a field can carry. -/
theorem reply_written (addr : UInt32) (ts : List Text) :
    Reply (SCBS.transmitPacket (MRDPacket.written addr (ts.map (·.text)))) := by
  have hvs : ∀ v ∈ ts.map (·.text), OnWire v := fun v hv => onWire_of_mem_map hv
  have hle := MRDPacket.length_contents_le_of_onWire addr hvs
  by_cases hlen : (MRDPacket.contents addr (ts.map (·.text))).length ≤ 188
  · rw [MRDPacket.written_eq addr hvs hlen]
    rw [MRDPacket.contents, ← List.map_take] at hlen ⊢
    exact .line (.mrd addr (ts.take _)) hlen
  · have hstar := MRDPacket.star_not_mem_written addr hvs (by omega)
    obtain ⟨s, hs, hreply⟩ := answers_mrd (p := MRDPacket.ofValues addr (ts.map (·.text))
      (ts.map (·.text)).length) (by
        intro v hv
        obtain ⟨w, hw, rfl⟩ := List.mem_map.1 hv
        exact lf_not_mem_fieldOf (hvs w (List.mem_of_mem_take hw)).no_lf)
    obtain rfl := List.append_cancel_right hs
    exact .cut hreply hstar

/-- A multi-read is answered with an error or passed on with one value more. -/
theorem reply_mrdPacketHandler (cell : SCBS F) (time : UInt32) {p : MRDPacket} {vs : List Text}
    (hv : p.isValid = true) (hnum : p.numValues = (vs.map (·.text)).length)
    (hvalues : p.values = MRDPacket.slots (vs.map (·.text))
      (kMaxNumValues - (vs.map (·.text)).length)) :
    Reply (cell.mrdPacketHandler time p).2 := by
  by_cases hfull : kMaxNumValues ≤ p.numValues
  · simp only [SCBS.mrdPacketHandler, if_pos hv, if_pos hfull, SCBS.transmitError_eq]
    exact reply_srs _ _
  · rcases cell.readRegister_cases time p.regAddr with ⟨own, hown, -⟩ | ⟨-, hread⟩
    · rw [cell.mrdPacketHandler_tx time hv (by omega) hvalues hnum hown, ← List.map_singleton,
        ← List.map_append]
      exact reply_written _ _
    · simp only [SCBS.mrdPacketHandler, if_pos hv, if_neg hfull, hread, ne_eq,
        SCBS.transmitError_eq]
      exact reply_srs _ _

/-- **What a cell can transmit for a packet.** -/
theorem reply_handle (env : Env) (cell : SCBS F) {packet : Packet}
    (h : packet = .rejected ∨ packet.Malformed ∨ ∃ m, packet.Means m) :
    Reply (cell.handle env packet).2 := by
  rcases h with rfl | hmal | ⟨m, hmeans⟩
  · exact .nothing
  · rw [cell.handle_malformed env hmal]
    exact reply_srs _ _
  · have hline : m.packetType ≠ .mrd → m.Fits → Reply (cell.handle env packet).2 := by
      intro hne hm
      obtain ⟨cell', m', hhandle, hresp⟩ := cell.handle_means env Set.univ hmeans hm
      rw [hhandle]
      exact .line m' (le_trans (m'.length_contents_le (hresp.fits hne)) (by omega))
    cases hmeans with
    | mrd hv _ hnum hvalues =>
      exact reply_mrdPacketHandler cell env.timeAtRegister hv hnum hvalues
    | _ => exact hline (fun h => by cases h) trivial

end Answers

/-! ## Definedness -/

/-- The parse is defined on the line with this body, from which the buffer drops NULs. -/
def LineDefined (body : List UInt8) : Prop :=
  ∃ packet, packetOf (body.filter (· ≠ 0) ++ [lineFeed]) = some packet

/-- A line without a `*` is rejected. -/
theorem packetOf_of_no_star {line : List UInt8} (h : star ∉ line) :
    packetOf line = some .rejected := by
  have hsum : ¬ ChecksumMatches line := fun hmatch => h hmatch.star_mem
  rw [packetOf, if_pos fun hmatch => absurd hmatch hsum]
  simp [SCBS.parse, BSPacket.ofString, BSPacket.fromString_of_not_checksumMatches hsum, bind,
    Except.bind, pure, Except.pure, Except.toOption]

/-- **A cell never sends a line on which the parse is not defined.** -/
theorem defined_of_reply {tx : List UInt8} (h : Reply tx) :
    tx = [] ∨ ∃ body, tx = body ++ [lineFeed] ∧ lineFeed ∉ body ∧ LineDefined body := by
  cases h with
  | nothing => exact Or.inl rfl
  | line m hlen =>
    refine Or.inr ⟨m.body, m.line_eq, m.lineFeed_not_mem_body, m.packet, ?_⟩
    have hnul := m.not_mem_body (c := 0) (Or.inl rfl)
    rw [List.filter_eq_self.2 fun c hc => decide_eq_true (ne_of_mem_of_not_mem hc hnul),
      ← Msg.line_eq]
    exact Msg.packetOf_line (by omega)
  | @cut s hreply hstar =>
    refine Or.inr ⟨s ++ [13], by rw [List.append_assoc]; rfl, ?_, .rejected, ?_⟩
    · rw [List.mem_append, not_or]
      exact ⟨hreply.no_lf, by decide⟩
    · apply packetOf_of_no_star
      rw [List.mem_append, not_or]
      refine ⟨fun hmem => ?_, by decide⟩
      rcases List.mem_append.1 (List.mem_of_mem_filter hmem) with hmem | hmem
      · exact hstar hmem
      · exact absurd hmem (by decide)

end Scbs
