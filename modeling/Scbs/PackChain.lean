import Scbs.Pack

/-!
# A chain of cells is a pack

* `Asks` — what a line asks of a pack, and `Request.Compact`, what a multi-read may carry.
* `Registers.answer_means` — a cell answers a packet as `Registers.respond` says.
* `Pack.feedAll_asks` — a row of cells answers a line as the pack does, and
  `Pack.feedAll_run` a list of lines.
* `pack_refines` — **a chain refines the pack**: for all lines of compact requests, sent in any
  pieces, with any interleaving of the calls of `Update`, the responses and the registers are
  the pack's.
* `version_read` — so at most 11 cells report their firmware version.
-/

namespace Scbs

open CLib Link

/-! ## Lines -/

/-- The line with this body asks this of a pack. -/
inductive Asks (body : List UInt8) : Request → Prop
  | noise : packetOf (body.filter (· ≠ 0) ++ [lineFeed]) = some .rejected → Asks body .noise
  | malformed {packet : Packet} :
      packetOf (body.filter (· ≠ 0) ++ [lineFeed]) = some packet → packet.Malformed →
      Asks body .malformed
  | msg {packet : Packet} {m : Msg} :
      packetOf (body.filter (· ≠ 0) ++ [lineFeed]) = some packet → packet.Means m →
      Asks body (.msg m)

/-- The values of a multi-read are at most 20, none is empty, and none is longer than the
texts of registers are.  A multi-read with longer values can grow on its way until the next
cell jams. -/
def Msg.Compact : Msg → Prop
  | .mrd _ vs => vs.length ≤ kMaxNumValues ∧ ∀ v ∈ vs, v.text ≠ [] ∧ v.text.length ≤ 17
  | _ => True

def Request.Compact : Request → Prop
  | .msg m => m.Compact
  | _ => True

theorem Msg.Compact.whole {m : Msg} (h : m.Compact) : m.Whole := by
  cases m with
  | mrd addr vs => exact ⟨h.1, fun v hv => (h.2 v hv).1⟩
  | _ => trivial

/-- The line of a compact message asks for it. -/
theorem Msg.asks_body {m : Msg} (hcompact : m.Compact) (hlen : m.contents.length ≤ 190) :
    Asks m.body (.msg m) := by
  refine .msg ?_ (Msg.packet_means hcompact.whole)
  have hnul := m.not_mem_body (c := 0) (Or.inl rfl)
  rw [List.filter_eq_self.2 fun c hc => decide_eq_true (ne_of_mem_of_not_mem hc hnul),
    ← Msg.line_eq]
  exact Msg.packetOf_line hlen

/-- A message with room for its line end fits the receive buffer. -/
theorem Msg.length_body_lt {m : Msg} (h : m.contents.length ≤ 187) :
    m.body.length < kMaxLineLen := by
  rw [Msg.body, Msg.packetStr, List.length_append, length_frame, List.length_singleton,
    kMaxLineLen, kMaxUARTBufLen]
  omega

/-- Short values that fit leave room for the line end. -/
theorem length_contents_fitting {addr : UInt32} {vs : List Text}
    (h : ∀ v ∈ vs, v.text.length ≤ 17) :
    (Msg.mrd addr (fitting addr vs)).contents.length ≤ 187 := by
  rw [Msg.contents, fitting, List.map_take, ← MRDPacket.contents,
    MRDPacket.length_contents_le_iff]
  rintro ⟨j, hj, hlt, hge⟩
  have hv : (vs.map fun v : Text => v.text)[j].length ≤ 17 := by
    rw [List.getElem_map]
    exact h _ (List.getElem_mem _)
  rw [List.take_succ_eq_append_getElem hj, usedLen_append, usedLen_cons, usedLen_nil] at hge
  omega

section Refinement

variable {F : Type} [CFloat F]

/-! ## One cell -/

/-- The texts of the registers are not longer than 17 bytes. -/
def Registers.Short (regs : Registers F) : Prop :=
  ∀ addr own, regs.read addr = some own → own.text.length ≤ 17

/-- The text of a voltage that a write sets is not longer than 17 bytes.  It is a number
between the rails, or not a number. -/
def WritesShort (F : Type) [CFloat F] : Prop :=
  ∀ v : Text, (CFloat.printF2 (setVoltage v : F)).length ≤ 17

/-- What the protocol says a cell answers is what `respond` says. -/
theorem Responds.respond {regs : Registers F} {currents : Set F} {a' : Cell F} {m m' : Msg}
    (h : Responds ⟨regs.cellId, regs.voltage, currents⟩ regs.current m a' m')
    (hm : m.packetType ≠ .mrd) :
    regs.respond m = (⟨a'.cellId, a'.voltage, regs.current⟩, m') := by
  cases h with
  | dis id => rfl
  | mwr v => rfl
  | mwrErr v haddr => rw [Registers.respond, if_neg haddr]; rfl
  | mrd => exact absurd rfl hm
  | mrdErr => exact absurd rfl hm
  | srd hown =>
    rw [Registers.respond, if_pos rfl, Registers.reading, Registers.read_eq_some_iff.2 hown]
    rfl
  | @srdErr addr hnone =>
    have hread : regs.read addr = none := by
      rw [← Option.map_eq_none_iff (f := (·.text)), Registers.map_read]
      exact hnone
    rw [Registers.respond, if_pos rfl, Registers.reading, hread]
    rfl
  | srdOther addr hid => rw [Registers.respond, if_neg hid]
  | swr v => rw [Registers.respond, if_pos rfl]; rfl
  | swrErr v haddr =>
    rw [Registers.respond, if_pos rfl, Registers.write, if_neg haddr, writeCode, if_neg haddr]
    rfl
  | swrOther addr v hid => rw [Registers.respond, if_neg hid]
  | srs id v => rfl

namespace Registers

variable {regs : Registers F}

/-- A multi-read, for which the protocol has no rule when it is full or there is no room. -/
theorem answer_mrd {p : MRDPacket} {vs : List Text} (hv : p.isValid = true)
    (hnum : p.numValues = (vs.map (·.text)).length)
    (hvalues : p.values = MRDPacket.slots (vs.map (·.text))
      (kMaxNumValues - (vs.map (·.text)).length))
    (hshort : regs.Short) (hvs : ∀ v ∈ vs, v.text.length ≤ 17) :
    regs.answer (.mrd p) =
      ((regs.respond (.mrd p.regAddr vs)).1, (regs.respond (.mrd p.regAddr vs)).2.line) := by
  have hlen : (vs.map (·.text)).length = vs.length := List.length_map _
  have hanswer : regs.answer (.mrd p) =
      ((regs.cell.mrdPacketHandler sampleEnv.timeAtRegister p).1.registers,
        (regs.cell.mrdPacketHandler sampleEnv.timeAtRegister p).2) := rfl
  rw [hanswer, respond]
  by_cases hfull : kMaxNumValues ≤ vs.length
  · rw [if_pos hfull]
    simp only [SCBS.mrdPacketHandler, if_pos hv, hnum, hlen, if_pos hfull, SCBS.transmitError_eq]
    rfl
  · rw [if_neg hfull]
    rcases regs.cell.readRegister_cases sampleEnv.timeAtRegister p.regAddr with
      ⟨own, hown, hread⟩ | ⟨hnone, hread⟩
    · have hown' : regs.read p.regAddr = some own := read_eq_some_iff.2 hown
      have htx := regs.cell.mrdPacketHandler_tx sampleEnv.timeAtRegister hv
        (by omega) hvalues hnum hown
      have hws : ∀ v ∈ (vs ++ [own]).map (·.text), OnWire v := fun v hv => onWire_of_mem_map hv
      have hcontents : (MRDPacket.contents p.regAddr ((vs ++ [own]).map (·.text))).length ≤ 187 := by
        have hle : (Msg.mrd p.regAddr (fitting p.regAddr (vs ++ [own]))).contents.length ≤ 187 := by
          refine length_contents_fitting fun v hv => ?_
          rcases List.mem_append.1 hv with hv | hv
          · exact hvs v hv
          · rw [List.mem_singleton.1 hv]
            exact hshort _ _ hown'
        rwa [Msg.contents, fitting, List.map_take, ← MRDPacket.contents] at hle
      rw [← List.map_singleton, ← List.map_append,
        MRDPacket.written_eq _ hws (by omega)] at htx
      rw [htx, hown']
      refine Prod.ext ?_ ?_
      · simp only [SCBS.mrdPacketHandler, if_pos hv, hnum, hlen, if_neg hfull, hread]
        rfl
      · rw [Msg.line, Msg.packetStr, Msg.contents, fitting, List.map_take]
        rfl
    · have hnone' : regs.read p.regAddr = none := by
        rw [← Option.map_eq_none_iff (f := (·.text)), map_read]
        exact hnone
      rw [hnone']
      simp only [SCBS.mrdPacketHandler, if_pos hv, hnum, hlen, if_neg hfull, hread, ne_eq,
        SCBS.transmitError_eq]
      rfl

/-- **A cell answers the message that a packet stands for**, as `respond` says. -/
theorem answer_means {packet : Packet} {m : Msg} (hmeans : packet.Means m) (hcompact : m.Compact)
    (hshort : regs.Short) :
    regs.answer packet = ((regs.respond m).1, (regs.respond m).2.line) := by
  have hother : m.packetType ≠ .mrd → m.Fits →
      regs.answer packet = ((regs.respond m).1, (regs.respond m).2.line) := by
    intro hne hfits
    obtain ⟨cell', m', hhandle, hresp⟩ :=
      regs.cell.handle_means sampleEnv Set.univ hmeans hfits
    have hcur := regs.cell.handle_outputCurrent sampleEnv packet
    rw [hhandle] at hcur
    have hcur' : cell'.outputCurrent = regs.current := hcur
    have hresp' : Responds ⟨regs.cellId, regs.voltage, Set.univ⟩ regs.current m
      (cell'.model Set.univ) m' := hresp
    rw [hresp'.respond hne]
    simp only [answer, hhandle, SCBS.registers, hcur', SCBS.model]
  cases hmeans with
  | mrd hv _ hnum hvalues =>
    exact answer_mrd hv hnum hvalues hshort fun v hv => (hcompact.2 v hv).2
  | _ => exact hother (fun h => by cases h) trivial

/-- A malformed packet is answered with an error. -/
theorem answer_malformed {packet : Packet} (h : packet.Malformed) :
    regs.answer packet = (regs, (regs.error kErrCodeReceivedInvalidPacket).line) := by
  rw [answer, regs.cell.handle_malformed sampleEnv h]
  rfl

/-- A message that has been answered can be answered again. -/
theorem compact_respond {m : Msg} (hcompact : m.Compact) (hshort : regs.Short) :
    (regs.respond m).2.Compact ∧ (regs.respond m).2.contents.length ≤ 187 := by
  have hfits : ∀ m' : Msg, m'.packetType ≠ .mrd → m'.Compact ∧ m'.contents.length ≤ 187 := by
    intro m' hm'
    have hfits : m'.Fits := by
      cases m' with
      | mrd => exact absurd rfl hm'
      | _ => trivial
    refine ⟨?_, le_trans (Msg.length_contents_le hfits) (by omega)⟩
    cases m' with
    | mrd => exact absurd rfl hm'
    | _ => trivial
  cases m with
  | mrd addr vs =>
    rw [respond]
    by_cases hfull : kMaxNumValues ≤ vs.length
    · rw [if_pos hfull]
      exact hfits _ fun h => by cases h
    · rw [if_neg hfull]
      cases hread : regs.read addr with
      | none => exact hfits _ fun h => by cases h
      | some own =>
        have hws : ∀ v ∈ vs ++ [own], v.text ≠ [] ∧ v.text.length ≤ 17 := by
          intro v hv
          rcases List.mem_append.1 hv with hv | hv
          · exact hcompact.2 v hv
          · rw [List.mem_singleton.1 hv]
            exact ⟨(SCBS.onWire_registerText (read_eq_some_iff.1 hread)).2, hshort _ _ hread⟩
        refine ⟨⟨?_, fun v hv => hws v (List.mem_of_mem_take hv)⟩,
          length_contents_fitting fun v hv => (hws v hv).2⟩
        rw [fitting, List.length_take, List.length_append, List.length_singleton]
        omega
  | dis id => exact hfits _ fun h => by cases h
  | srs id v => exact hfits _ fun h => by cases h
  | mwr addr v =>
    refine hfits _ fun h => ?_
    rw [respond] at h
    split at h <;> cases h
  | srd id addr =>
    refine hfits _ fun h => ?_
    rw [respond] at h
    split at h <;> cases h
  | swr id addr v =>
    refine hfits _ fun h => ?_
    rw [respond] at h
    split at h <;> cases h

/-- The texts of the registers stay short. -/
theorem short_respond (hwrites : WritesShort F) {m : Msg} (hshort : regs.Short) :
    (regs.respond m).1.Short := by
  have hstore : ∀ v, (regs.store v).Short := by
    intro v addr own hown
    rw [read_eq_some_iff] at hown
    unfold SCBS.registerText at hown
    by_cases hvolt : addr = kRegAddrSetOutputVoltage
    · rw [if_pos hvolt] at hown
      rw [← Option.some.inj hown]
      exact le_trans (List.length_take_le' _ _) (hwrites v)
    · refine hshort addr own ?_
      rw [if_neg hvolt] at hown
      rw [read_eq_some_iff, SCBS.registerText, if_neg hvolt]
      exact hown
  cases m with
  | dis id => exact hshort
  | srs id v => exact hshort
  | srd id addr => exact hshort
  | mrd addr vs =>
    rw [respond]
    split
    · exact hshort
    · split
      · exact hshort
      · exact hshort
  | mwr addr v =>
    rw [respond]
    split
    · exact hstore v
    · exact hshort
  | swr id addr v =>
    rw [respond]
    split
    · rw [write]
      split
      · exact hstore v
      · exact hshort
    · exact hshort

/-- A cell that has received nothing since the last line. -/
def idle (regs : Registers F) : LineCell F := ⟨regs, []⟩

/-- **A cell answers a line** with what it asks. -/
theorem feed_asks {body : List UInt8} {m : Msg} (hbody : lineFeed ∉ body)
    (hlen : body.length < kMaxLineLen) (hasks : Asks body (.msg m)) (hcompact : m.Compact)
    (hshort : regs.Short) :
    Machine.feed LineCell.step regs.idle (body ++ [lineFeed]) =
      some ((regs.respond m).1.idle, (regs.respond m).2.line) := by
  cases hasks with
  | msg hp hmeans =>
    rw [LineCell.feed_line (a := regs.idle) hbody hlen hp]
    simp only [idle, answer_means hmeans hcompact hshort]

end Registers

/-! ## All cells -/

namespace Pack

variable {pack : Pack F}

/-- The cells of a pack that has received nothing since the last line. -/
def idle (pack : Pack F) : List (LineCell F) := pack.map Registers.idle

/-- What goes out for responses. -/
def linesOf (responses : List Msg) : List UInt8 := (responses.map Msg.line).flatten

theorem linesOf_append (ms ns : List Msg) : linesOf (ms ++ ns) = linesOf ms ++ linesOf ns := by
  rw [linesOf, List.map_append, List.flatten_append]
  rfl

theorem linesOf_singleton (m : Msg) : linesOf [m] = m.line := by simp [linesOf]

omit [CFloat F] in
theorem free_idle (pack : Pack F) : ∀ a ∈ pack.idle, ¬ a.Jammed := by
  intro a ha
  obtain ⟨regs, -, rfl⟩ := List.mem_map.1 ha
  exact Nat.not_le.2 (Nat.zero_lt_succ _)

/-- The line of a message goes through a row of cells. -/
theorem feedAll_line (hshort : ∀ regs ∈ pack, regs.Short) {m : Msg} (hcompact : m.Compact)
    (hlen : m.contents.length ≤ 187) :
    Machine.feedAll LineCell.step pack.idle m.line =
      some ((pass pack m).1.idle, (pass pack m).2.line) := by
  induction pack generalizing m with
  | nil => rfl
  | cons regs pack ih =>
    obtain ⟨hregs, hpack⟩ := List.forall_mem_cons.1 hshort
    obtain ⟨hcompact', hlen'⟩ := regs.compact_respond hcompact hregs
    have hbody := m.length_body_lt hlen
    have hfeed := regs.feed_asks m.lineFeed_not_mem_body hbody
      (m.asks_body hcompact (by omega)) hcompact hregs
    rw [← Msg.line_eq] at hfeed
    exact Machine.feedAll_of_feed hfeed (ih hpack hcompact' hlen')

/-- The line of a response goes through a row of cells as it is. -/
theorem feedAll_srs (hshort : ∀ regs ∈ pack, regs.Short) (id : UInt16) (v : Text) :
    Machine.feedAll LineCell.step pack.idle (Msg.srs id v).line =
      some (pack.idle, (Msg.srs id v).line) := by
  have hlen := Msg.length_contents_le (m := .srs id v) trivial
  have hall := feedAll_line hshort (m := .srs id v) trivial (by omega)
  rw [pass_srs] at hall
  exact hall

/-- **A row of cells answers a line as the pack does.** -/
theorem feedAll_asks (hne : pack ≠ []) (hshort : ∀ regs ∈ pack, regs.Short)
    {body : List UInt8} {r : Request} (hbody : lineFeed ∉ body) (hlen : body.length < kMaxLineLen)
    (hasks : Asks body r) (hcompact : r.Compact) :
    Machine.feedAll LineCell.step pack.idle (body ++ [lineFeed]) =
      some ((pack.step r).1.idle, linesOf (pack.step r).2.toList) := by
  obtain ⟨regs, pack, rfl⟩ := List.exists_cons_of_ne_nil hne
  obtain ⟨hregs, hpack⟩ := List.forall_mem_cons.1 hshort
  cases r with
  | noise =>
    cases hasks with
    | noise hp =>
      exact Machine.feedAll_of_feed (LineCell.feed_line (a := regs.idle) hbody hlen hp)
        (Machine.feedAll_nil _)
  | malformed =>
    cases hasks with
    | malformed hp hmal =>
      have hfeed := LineCell.feed_line (a := regs.idle) hbody hlen hp
      simp only [Registers.idle, Registers.answer_malformed hmal] at hfeed
      rw [step, List.head?_cons, Option.map_some, Option.toList_some, linesOf_singleton]
      exact Machine.feedAll_of_feed hfeed (feedAll_srs hpack _ _)
  | msg m =>
    obtain ⟨hcompact', hlen'⟩ := regs.compact_respond (m := m) hcompact hregs
    simp only [step, ← pass_eq_serve hne, Option.toList_some, linesOf_singleton]
    exact Machine.feedAll_of_feed (regs.feed_asks hbody hlen hasks hcompact hregs)
      (feedAll_line hpack hcompact' hlen')

theorem short_pass (hwrites : WritesShort F) (hshort : ∀ regs ∈ pack, regs.Short) (m : Msg) :
    ∀ regs ∈ (pass pack m).1, regs.Short := by
  induction pack generalizing m with
  | nil => simp [pass]
  | cons regs pack ih =>
    obtain ⟨hregs, hpack⟩ := List.forall_mem_cons.1 hshort
    exact List.forall_mem_cons.2 ⟨regs.short_respond hwrites hregs, ih hpack _⟩

/-- What a request leaves behind. -/
theorem step_keeps (hwrites : WritesShort F) (hne : pack ≠ [])
    (hshort : ∀ regs ∈ pack, regs.Short) (r : Request) :
    (pack.step r).1 ≠ [] ∧ ∀ regs ∈ (pack.step r).1, regs.Short := by
  cases r with
  | noise => exact ⟨hne, hshort⟩
  | malformed => exact ⟨hne, hshort⟩
  | msg m =>
    refine ⟨?_, ?_⟩
    · rw [← List.length_pos_iff, length_step]
      exact List.length_pos_iff.2 hne
    · simp only [step, ← pass_eq_serve hne]
      exact short_pass hwrites hshort m

/-- **A row of cells answers lines as the pack does.** -/
theorem feedAll_run (hwrites : WritesShort F) (hne : pack ≠ [])
    (hshort : ∀ regs ∈ pack, regs.Short) {lines : List (List UInt8)} {requests : List Request}
    (hlines : ∀ line ∈ lines, lineFeed ∉ line ∧ line.length < kMaxLineLen)
    (hasks : List.Forall₂ Asks lines requests) (hcompact : ∀ r ∈ requests, r.Compact) :
    Machine.feedAll LineCell.step pack.idle (unlines lineFeed lines) =
      some ((pack.run requests).1.idle, linesOf (pack.run requests).2) := by
  induction hasks generalizing pack with
  | nil => exact Machine.feedAll_nil _
  | @cons line r lines requests hline hrest ih =>
    obtain ⟨⟨hfree, hlen⟩, hlines⟩ := List.forall_mem_cons.1 hlines
    obtain ⟨hr, hcompact⟩ := List.forall_mem_cons.1 hcompact
    obtain ⟨hne', hshort'⟩ := step_keeps hwrites hne hshort r
    have hfirst := feedAll_asks hne hshort hfree hlen hline hr
    have hall := Machine.feedAll_concat hfirst (ih hne' hshort' hlines hcompact)
    rw [List.append_assoc, List.singleton_append, ← linesOf_append] at hall
    rw [unlines_cons]
    exact hall

end Pack

/-! ## Chains -/

/-- **What every run of a chain on some bytes comes to**, when it serves them like a pack:
no call of `Update` runs into a fault; at any time the output is the beginning of the
responses; the run can be continued until all bytes are consumed; and then the output is all
of the responses, and the registers of the cells are those of the pack. -/
structure Serves (sites : List (Site F)) (bytes : List UInt8) (pack : Pack F)
    (responses : List Msg) : Prop where
  sound : ∀ sent q, sent.flatten = bytes → Pipe.Run Site.Poll (Pipe.start sites) sent q →
    q.Sound Site.Poll
  output_begins : ∀ sent q, sent.flatten = bytes →
    Pipe.Run Site.Poll (Pipe.start sites) sent q → q.output <+: Pack.linesOf responses
  settles : ∀ sent q, sent.flatten = bytes → Pipe.Run Site.Poll (Pipe.start sites) sent q →
    ∃ q', Pipe.Steps Site.Poll q q' ∧ q'.Quiet
  result : ∀ sent q, sent.flatten = bytes → Pipe.Run Site.Poll (Pipe.start sites) sent q →
    q.Quiet → q.output = Pack.linesOf responses ∧
      q.states.map (·.cell.registers) = pack

/-- What a chain does that is determined by a pack. -/
theorem Determined.serves {sites : List (Site F)} {bytes : List UInt8} {pack : Pack F}
    {responses : List Msg}
    (h : Determined sites bytes pack.idle (Pack.linesOf responses)) :
    Serves sites bytes pack responses := by
  have hfree := pack.free_idle
  refine ⟨h.sound, h.output_begins, ?_, ?_⟩
  · intro sent q hsent hrun
    obtain ⟨q', hsteps, -, -, hquiet⟩ := h.completes sent q hsent hrun
    exact ⟨q', hsteps, hquiet hfree⟩
  intro sent q hsent hrun hquiet
  obtain ⟨hout, hcells⟩ := h.result sent q hsent hrun hquiet
  refine ⟨hout, ?_⟩
  rw [Pack.idle, List.forall₂_map_left_iff] at hcells
  rw [← List.forall₂_eq_eq_eq, List.forall₂_map_left_iff]
  exact hcells.flip.imp fun site regs hsim => hsim.registers

section Chain

variable {sites : List (Site F)} (hne : sites ≠ []) (hidle : ∀ site ∈ sites, site.Idle)
  (hsteady : ∀ site ∈ sites, site.Steady)
  (hshort : ∀ site ∈ sites, site.cell.registers.Short)

/-- The pack of a chain. -/
def packOf (sites : List (Site F)) : Pack F := sites.map (·.cell.registers)

omit [CFloat F] in
theorem idle_packOf (sites : List (Site F)) : (packOf sites).idle = sites.map Site.machine := by
  rw [packOf, Pack.idle, List.map_map]
  rfl

include hidle hsteady in
/-- What the cells of a chain make of a stream is what every run comes to. -/
theorem serves_of_feedAll {bytes : List UInt8} {pack : Pack F} {responses : List Msg}
    (h : Machine.feedAll LineCell.step (packOf sites).idle bytes =
      some (pack.idle, Pack.linesOf responses)) : Serves sites bytes pack responses := by
  rw [idle_packOf] at h
  exact (determined_of_feedAll hidle hsteady h).serves

omit [CFloat F] in
include hne in
theorem packOf_ne_nil : packOf sites ≠ [] := fun h => hne (List.map_eq_nil_iff.1 h)

include hshort in
theorem short_packOf : ∀ regs ∈ packOf sites, regs.Short := by
  intro regs hregs
  obtain ⟨site, hsite, rfl⟩ := List.mem_map.1 hregs
  exact hshort site hsite

include hne hidle hsteady hshort

/-- **A chain of cells refines the pack.**  For idle cells whose ADC readings are constant, and
every list of lines that a cell can receive and that make compact requests or are noise: sent
in any pieces and however the calls of `Update` interleave, the chain sends the responses of
the pack, in order, and leaves the registers as the pack does. -/
theorem pack_refines (hwrites : WritesShort F) {lines : List (List UInt8)}
    {requests : List Request}
    (hlines : ∀ line ∈ lines, lineFeed ∉ line ∧ line.length < kMaxLineLen)
    (hasks : List.Forall₂ Asks lines requests) (hcompact : ∀ r ∈ requests, r.Compact) :
    Serves sites (unlines lineFeed lines) ((packOf sites).run requests).1
      ((packOf sites).run requests).2 :=
  serves_of_feedAll hidle hsteady (Pack.feedAll_run hwrites (packOf_ne_nil hne)
    (short_packOf hshort) hlines hasks hcompact)

end Chain

/-! ## The firmware version -/

/-- The firmware version, as a register reads. -/
def versionText : Text :=
  ⟨scbsFirmwareVersion, onWire_of_plain (by decide) (by decide +kernel)⟩

theorem Registers.read_version (regs : Registers F) :
    regs.read kRegAddrReadFirmwareVersion = some versionText :=
  read_eq_some_iff.2 rfl

omit [CFloat F] in
/-- Eleven versions fill a packet. -/
theorem numAppended_versions (n : ℕ) :
    MRDPacket.numAppended 4 (List.replicate n scbsFirmwareVersion) = min 11 n := by
  have hpart : ∀ k m, MRDPacket.numAppended 4 (List.replicate k scbsFirmwareVersion) =
      min (MRDPacket.numAppended 4 (List.replicate (k + m) scbsFirmwareVersion)) k := by
    intro k m
    have hmin := MRDPacket.numAppended_eq_min 4 (List.replicate k scbsFirmwareVersion)
      (List.replicate m scbsFirmwareVersion)
    rwa [List.replicate_append_replicate, List.length_replicate] at hmin
  have htwelve : MRDPacket.numAppended 4 (List.replicate 12 scbsFirmwareVersion) = 11 := by
    decide +kernel
  rcases Nat.le_total n 12 with hle | hge
  · have hn := hpart n (12 - n)
    rw [Nat.add_sub_cancel' hle, htwelve] at hn
    exact hn
  · have hn := hpart 12 (n - 12)
    rw [Nat.add_sub_cancel' hge, htwelve] at hn
    omega

theorem fitting_versions (n : ℕ) :
    fitting kRegAddrReadFirmwareVersion (List.replicate n versionText) =
      List.replicate (min 11 n) versionText := by
  have haddr : (printNat 16 kRegAddrReadFirmwareVersion.toNat).length = 4 := by decide +kernel
  rw [fitting, List.map_replicate, haddr]
  show (List.replicate n versionText).take
    (MRDPacket.numAppended 4 (List.replicate n scbsFirmwareVersion)) = _
  rw [numAppended_versions, List.take_replicate]
  congr 1
  omega

/-- A pack of any size serves a multi-read of the firmware version with at most 11 of them,
and no error. -/
theorem Pack.serve_version (pack : Pack F) :
    pack.serve (.mrd kRegAddrReadFirmwareVersion []) =
      (pack, .mrd kRegAddrReadFirmwareVersion
        (List.replicate (min 11 pack.length) versionText)) := by
  have hvalues : pack.values kRegAddrReadFirmwareVersion =
      List.replicate pack.length versionText := by
    rw [values, List.filterMap_congr fun regs _ => regs.read_version, ← List.map_const',
      List.filterMap_eq_map']
  have hreadable : Readable kRegAddrReadFirmwareVersion := Or.inr (Or.inr rfl)
  have hcount : ¬ kMaxNumValues ≤ min 11 pack.length := by
    rw [kMaxNumValues]
    omega
  simp only [serve, if_pos hreadable, List.nil_append, hvalues, fitting_versions,
    List.length_nil, List.length_replicate, Nat.zero_max, if_neg hcount]
  rfl

/-- **At most 11 cells report their firmware version.**  However many idle cells with constant
ADC readings there are, a multi-read of the version comes back with the versions of the first
11 and without an error, as if there were no others. -/
theorem version_read {sites : List (Site F)} (hne : sites ≠ [])
    (hidle : ∀ site ∈ sites, site.Idle) (hsteady : ∀ site ∈ sites, site.Steady)
    (hshort : ∀ site ∈ sites, site.cell.registers.Short) {body : List UInt8}
    (hbody : lineFeed ∉ body) (hlen : body.length < kMaxLineLen)
    (hasks : Asks body (.msg (.mrd kRegAddrReadFirmwareVersion []))) :
    Serves sites (body ++ [lineFeed]) (packOf sites)
      [.mrd kRegAddrReadFirmwareVersion (List.replicate (min 11 sites.length) versionText)] := by
  have hall := Pack.feedAll_asks (packOf_ne_nil hne) (short_packOf hshort) hbody hlen hasks
    ⟨Nat.zero_le _, by simp⟩
  rw [Pack.step, Pack.serve_version, packOf, List.length_map] at hall
  exact serves_of_feedAll hidle hsteady hall

end Refinement

/-! ## Exact arithmetic -/

theorem writesShort_extRat : WritesShort ExtRat :=
  fun v => le_trans (printsShort_railVoltage (CFloat.strtof v.text)) (by omega)

theorem Registers.short_of_prints {F : Type} [CFloat F] {regs : Registers F}
    (hvolt : (CFloat.printF2 regs.voltage).length ≤ 17)
    (hcur : (CFloat.printF2 regs.current).length ≤ 17) : regs.Short := by
  intro addr own hown
  rcases SCBS.registerText_cases (read_eq_some_iff.1 hown) with h | h | ⟨-, h⟩
  · rw [h]
    exact le_trans (List.length_take_le' _ _) hvolt
  · rw [h]
    exact le_trans (List.length_take_le' _ _) hcur
  · rw [h]
    exact (by decide : (snprintf (kMaxPacketFieldLen - 1) scbsFirmwareVersion).length ≤ 17)

theorem steady_init {ids : List UInt16} : ∀ site ∈ ids.map Site.init, site.Steady := by
  intro site hsite
  obtain ⟨id, -, rfl⟩ := List.mem_map.1 hsite
  exact Site.steady_init id

theorem short_init {ids : List UInt16} :
    ∀ site ∈ ids.map Site.init, site.cell.registers.Short := by
  intro site hsite
  obtain ⟨id, -, rfl⟩ := List.mem_map.1 hsite
  have hzero : (CFloat.printF2 (ExtRat.num 0)).length ≤ 17 :=
    le_trans (ExtRat.length_printF2_le le_rfl (by norm_num)) (by omega)
  exact Registers.short_of_prints hzero hzero

/-- Twelve cells after `Init`, one of which is missing in the answer. -/
theorem version_read_sample :
    Serves (([1, 2, 3, 4, 5, 6, 7, 8, 9, 10, 11, 12] : List UInt16).map Site.init)
      (ascii "$BSMRD,3000*65\r" ++ [lineFeed])
      (packOf (([1, 2, 3, 4, 5, 6, 7, 8, 9, 10, 11, 12] : List UInt16).map Site.init))
      [.mrd kRegAddrReadFirmwareVersion (List.replicate 11 versionText)] := by
  have hread : ascii "$BSMRD,3000*65\r" = (Msg.mrd kRegAddrReadFirmwareVersion []).body := by
    decide +kernel
  refine version_read (by simp) Site.idle_init steady_init short_init (by decide +kernel)
    (by decide +kernel) ?_
  rw [hread]
  exact Msg.asks_body ⟨Nat.zero_le _, by simp⟩ (by decide +kernel)

/-- What `noisyLines` ask. -/
def noisyRequests : List Request := [.noise, .msg (.mrd 0x1000 []), .noise]

theorem compact_readVoltages : (Msg.mrd 0x1000 []).Compact := ⟨Nat.zero_le _, by simp⟩

theorem asks_noisyLines : List.Forall₂ Asks noisyLines noisyRequests := by
  have hread : ascii "$BSMRD,1000*67\r" = (Msg.mrd 0x1000 []).body := by decide +kernel
  refine .cons (.noise (by decide +kernel)) (.cons ?_ (.cons (.noise (by decide +kernel)) .nil))
  rw [hread]
  exact Msg.asks_body compact_readVoltages (by decide +kernel)

theorem compact_noisyRequests : ∀ r ∈ noisyRequests, r.Compact := by
  simp only [noisyRequests, List.forall_mem_cons, List.not_mem_nil, false_imp_iff,
    implies_true, and_true]
  exact ⟨trivial, compact_readVoltages, trivial⟩

theorem pack_refines_sample :
    Serves ([8, 9].map Site.init) (unlines lineFeed noisyLines)
      ((packOf ([8, 9].map Site.init)).run noisyRequests).1
      ((packOf ([8, 9].map Site.init)).run noisyRequests).2 :=
  pack_refines (by simp) Site.idle_init steady_init short_init writesShort_extRat
    (by decide +kernel) asks_noisyLines compact_noisyRequests

end Scbs
