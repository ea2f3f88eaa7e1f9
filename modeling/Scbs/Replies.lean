import Scbs.Comms.Reencoding
import Scbs.Runs

/-!
# One reply for a line

Whatever a line makes a cell do, it transmits one line at most.

* `IsReply` — what a reply looks like: it starts with `$`, has no newline and at most 198
  bytes, whatever the packet was made of (`isReply_packetizeContents`).
* `Packet.ReadFrom`, `SCBS.parse_cases` — the packets `Update` can make of a line.
* `SCBS.answers_handle` — **every branch of every handler transmits one reply**.
* `one_reply` — **an accepted line is answered by one line**, and a rejected one by
  nothing.
-/

namespace Scbs

open CLib Link

/-! ## The form of a reply -/

/-- A packet string that makes up one line. -/
structure IsReply (s : List UInt8) : Prop where
  head : s.head? = some dollar
  no_lf : lineFeed ∉ s
  length_le : s.length ≤ 198

/-- What is transmitted is one reply with its line end. -/
def Answers (tx : List UInt8) : Prop := ∃ s, tx = s ++ crlf ∧ IsReply s

theorem lf_not_mem_packetHeaderStr (t : PacketType) : lineFeed ∉ packetHeaderStr t := by
  cases t <;> decide

theorem not_mem_snprintf {c : UInt8} {size : ℕ} {text : List UInt8} (h : c ∉ text) :
    c ∉ snprintf size text :=
  fun hc => h (List.mem_of_mem_take hc)

theorem length_snprintf_le (size : ℕ) (text : List UInt8) :
    (snprintf size text).length ≤ size - 1 := by
  rw [snprintf, List.length_take]
  exact min_le_left _ _

/-- **The buffers of `PacketizeContents` keep a packet to one line** of at most 198 bytes,
whatever the contents. -/
theorem isReply_packetizeContents (self : BSPacket) {contents : List UInt8}
    (h : lineFeed ∉ contents) : IsReply (self.packetizeContents contents).packetStr := by
  have hbody : lineFeed ∉ snprintf (kMaxPacketLen - kPacketTailLen)
      (dollar :: packetHeaderStr self.packetType ++ comma :: contents ++ [star]) := by
    apply not_mem_snprintf
    simp only [List.mem_append, List.mem_cons, List.not_mem_nil, or_false, not_or]
    exact ⟨⟨⟨by decide, lf_not_mem_packetHeaderStr _⟩, by decide, h⟩, by decide⟩
  unfold BSPacket.packetizeContents
  constructor
  · rfl
  · rw [List.mem_append, not_or]
    exact ⟨hbody, not_mem_snprintf (not_mem_checksumText (by decide))⟩
  · rw [List.length_append]
    have hb := length_snprintf_le (kMaxPacketLen - kPacketTailLen)
      (dollar :: packetHeaderStr self.packetType ++ comma :: contents ++ [star])
    have hc := length_snprintf_le kPacketTailLen (padZeros 2 (printNat 16
      (BSPacket.calculateChecksum (snprintf (kMaxPacketLen - kPacketTailLen)
        (dollar :: packetHeaderStr self.packetType ++ comma :: contents ++ [star]))).toNat))
    simp only [kMaxPacketLen, kPacketTailLen] at hb hc ⊢
    omega

/-- The string of a packet, once its contents are known to have no newline. -/
theorem answers_packetizeContents (self : BSPacket) {contents : List UInt8}
    (h : lineFeed ∉ contents) :
    Answers (SCBS.transmitPacket (self.packetizeContents contents).packetStr) :=
  ⟨_, rfl, isReply_packetizeContents self h⟩

section Packets

theorem lf_not_mem_id (n : ℕ) : lineFeed ∉ printNat 10 n :=
  not_mem_numeral (by decide) (Or.inl rfl)

theorem lf_not_mem_addr (n : ℕ) : lineFeed ∉ printNat 16 n :=
  not_mem_numeral (by decide) (Or.inr rfl)

theorem answers_dis (p : DISPacket) : Answers (SCBS.transmitPacket p.toStr.packetStr) :=
  answers_packetizeContents _ (not_mem_snprintf (lf_not_mem_id _))

theorem answers_srd (p : SRDPacket) : Answers (SCBS.transmitPacket p.toStr.packetStr) :=
  answers_packetizeContents _ (not_mem_snprintf
    (not_mem_append_cons (lf_not_mem_id _) (by decide) (lf_not_mem_addr _)))

theorem answers_mwr {p : MWRPacket} (h : lineFeed ∉ p.value) :
    Answers (SCBS.transmitPacket p.toStr.packetStr) :=
  answers_packetizeContents _ (not_mem_snprintf
    (not_mem_append_cons (lf_not_mem_addr _) (by decide) h))

theorem answers_swr {p : SWRPacket} (h : lineFeed ∉ p.value) :
    Answers (SCBS.transmitPacket p.toStr.packetStr) :=
  answers_packetizeContents _ (not_mem_snprintf
    (not_mem_append_cons (lf_not_mem_id _) (by decide)
      (not_mem_append_cons (lf_not_mem_addr _) (by decide) h)))

theorem answers_srs {p : SRSPacket} (h : lineFeed ∉ p.value) :
    Answers (SCBS.transmitPacket p.toStr.packetStr) :=
  answers_packetizeContents _ (not_mem_snprintf
    (not_mem_append_cons (lf_not_mem_id _) (by decide) h))

/-- The loop of `MRDPacket::ToString` adds nothing but values and commas. -/
theorem lf_not_mem_appendValues (vs : List (List UInt8)) :
    ∀ contentsStr : List UInt8, lineFeed ∉ contentsStr → (∀ v ∈ vs, lineFeed ∉ v) →
      lineFeed ∉ MRDPacket.appendValues contentsStr vs := by
  induction vs with
  | nil =>
    intro contentsStr h _
    exact h
  | cons v vs ih =>
    intro contentsStr h hvs
    unfold MRDPacket.appendValues
    split
    · exact h
    · apply ih
      · rw [List.mem_append, not_or]
        refine ⟨h, not_mem_snprintf ?_⟩
        rw [List.mem_cons, not_or]
        exact ⟨by decide, hvs v (by simp)⟩
      · intro w hw
        exact hvs w (by simp [hw])

theorem answers_mrd {p : MRDPacket} (h : ∀ v ∈ p.values, lineFeed ∉ v) :
    Answers (SCBS.transmitPacket p.toStr.packetStr) :=
  answers_packetizeContents _ (lf_not_mem_appendValues _ _ (not_mem_snprintf (lf_not_mem_addr _))
    fun v hv => h v (List.mem_of_mem_take hv))

theorem lf_not_mem_fieldOf {v : List UInt8} (h : lineFeed ∉ v) : lineFeed ∉ fieldOf v :=
  fun hc => h ((List.takeWhile_prefix _).subset (List.mem_of_mem_take hc))

end Packets

/-! ## The packets of a line -/

/-- The packet is what the typed parser makes of the line. -/
def Packet.ReadFrom (stack : Stack) (line : List UInt8) : Packet → Prop
  | .rejected => False
  | .dis p => DISPacket.ofString stack line = .ok p
  | .mrd p => MRDPacket.ofString stack line = .ok p
  | .mwr p => MWRPacket.ofString stack line = .ok p
  | .srd p => SRDPacket.ofString stack line = .ok p
  | .swr p => SWRPacket.ofString stack line = .ok p
  | .srs p => SRSPacket.ofString stack line = .ok p

/-- A packet that `Update` has is one that its parser has returned. -/
theorem of_bind_eq_ok {α : Type} {x : Except Fault α} {f : α → Packet} {packet : Packet}
    {P : Packet → Prop} (h : (x.bind fun p => .ok (f p)) = .ok packet)
    (hP : ∀ p, x = .ok p → P (f p)) : P packet := by
  cases x with
  | error fault => exact absurd h (by simp [Except.bind])
  | ok p =>
    obtain rfl : f p = packet := Except.ok.inj h
    exact hP p rfl

/-- **What `Update` can make of a line**: nothing, if `BSPacket` rejects it, or else the packet
of a typed parser. -/
theorem SCBS.parse_cases {env : Env} {line : List UInt8} {packet : Packet}
    (h : parse env line = .ok packet) :
    ∃ b, BSPacket.ofString env.stack line = .ok b ∧
      ((b.isValid = false ∧ packet = .rejected) ∨
        (b.isValid = true ∧ packet.ReadFrom env.stackTyped line)) := by
  unfold parse at h
  cases hb : BSPacket.ofString env.stack line with
  | error fault => simp [hb, bind, Except.bind] at h
  | ok b =>
    simp only [hb, bind, Except.bind] at h
    refine ⟨b, rfl, ?_⟩
    by_cases hv : b.isValid = true
    · rw [if_pos hv] at h
      refine Or.inr ⟨hv, ?_⟩
      cases ht : b.packetType with
      | unknown =>
        obtain ⟨-, hdr, -, hlookup⟩ := BSPacket.accepts_of_isValid hb hv
        exact absurd ht (lookupHeader_eq_some hlookup).2
      | dis | mrd | mwr | srd | swr | srs =>
        rw [ht] at h
        exact of_bind_eq_ok h fun _ hp => hp
    · rw [if_neg hv] at h
      exact Or.inl ⟨by simpa using hv, (Except.ok.inj h).symm⟩

/-! ## The handlers -/

section Handlers

variable {F : Type} [CFloat F]

namespace SCBS

omit [CFloat F] in
/-- **An error is one reply.** -/
theorem answers_transmitError (cell : SCBS F) (errCode : UInt16) :
    Answers (cell.transmitError errCode) :=
  answers_srs (lf_not_mem_fieldOf (onWire_errStr errCode).no_lf)

variable (cell : SCBS F) (time : UInt32) {stack : Stack} {body : List UInt8}

omit [CFloat F] in
theorem answers_disPacketHandler (p : DISPacket) : Answers (cell.disPacketHandler p).2 := by
  unfold disPacketHandler
  split
  · exact answers_dis _
  · exact cell.answers_transmitError _

theorem answers_mwrPacketHandler {p : MWRPacket}
    (h : p.isValid = true → lineFeed ∉ p.value) : Answers (cell.mwrPacketHandler time p).2 := by
  unfold mwrPacketHandler
  split
  · rename_i hv
    dsimp only
    split
    · exact answers_transmitError _ _
    · exact answers_mwr (h hv)
  · exact cell.answers_transmitError _

theorem answers_swrPacketHandler {p : SWRPacket}
    (h : p.isValid = true → lineFeed ∉ p.value) : Answers (cell.swrPacketHandler time p).2 := by
  unfold swrPacketHandler
  split
  · rename_i hv
    split
    · exact answers_transmitError _ _
    · exact answers_swr (h hv)
  · exact cell.answers_transmitError _

omit [CFloat F] in
theorem answers_srsPacketHandler {p : SRSPacket}
    (h : p.isValid = true → lineFeed ∉ p.value) : Answers (cell.srsPacketHandler p).2 := by
  unfold srsPacketHandler
  split
  · rename_i hv
    exact answers_srs (h hv)
  · exact cell.answers_transmitError _

/-- A register text has no newline; where there is none, the callers' buffer is empty. -/
theorem lf_not_mem_readRegister (addr : UInt32) :
    lineFeed ∉ (cell.readRegister time addr).2.2 := by
  rcases cell.readRegister_cases time addr with ⟨own, -, hread⟩ | ⟨-, hread⟩
  · rw [hread]
    exact own.onWire.no_lf
  · rw [hread]
    exact List.not_mem_nil

theorem answers_srdPacketHandler (p : SRDPacket) : Answers (cell.srdPacketHandler time p).2 := by
  unfold srdPacketHandler
  split
  · split
    · dsimp only
      split
      · exact answers_transmitError _ _
      · exact answers_srs (lf_not_mem_fieldOf (cell.lf_not_mem_readRegister time p.regAddr))
    · exact answers_srd _
  · exact cell.answers_transmitError _

theorem answers_mrdPacketHandler {p : MRDPacket}
    (h : p.isValid = true → ∀ v ∈ p.values, lineFeed ∉ v) :
    Answers (cell.mrdPacketHandler time p).2 := by
  unfold mrdPacketHandler
  split
  · rename_i hv
    split
    · exact cell.answers_transmitError _
    · dsimp only
      split
      · exact answers_transmitError _ _
      · apply answers_mrd
        intro v hvalue
        obtain ⟨w, hw, rfl⟩ := List.mem_map.1 hvalue
        apply lf_not_mem_fieldOf
        rcases List.mem_or_eq_of_mem_set (List.mem_of_mem_take hw) with hw | rfl
        · exact h hv w hw
        · exact cell.lf_not_mem_readRegister time p.regAddr
  · exact cell.answers_transmitError _

/-- The values of a multi-read stand before the `*`, so the newline is in none of them. -/
theorem lf_not_mem_values {p : MRDPacket}
    (hp : MRDPacket.ofString stack (body ++ [lineFeed]) = .ok p) (hv : p.isValid = true)
    (hbody : lineFeed ∉ body) : ∀ v ∈ p.values, lineFeed ∉ v := by
  obtain ⟨hstar, vals, -, hvalues, -, hkept⟩ := MRDPacket.ofString_inv hp hv
  have hstar' : star ∈ body := by
    rcases List.mem_append.1 hstar with h | h
    · exact h
    · exact absurd (List.mem_singleton.1 h) (by decide)
  obtain ⟨a, b, rfl, ha⟩ := List.eq_append_cons_of_mem hstar'
  have hpre : (a ++ star :: b ++ [lineFeed]).takeWhile (· ≠ star) = a := by
    rw [List.append_assoc, List.cons_append, takeWhile_ne_append ha]
  rw [hpre] at hkept
  intro v hvmem hlf
  rw [hvalues] at hvmem
  rcases List.mem_append.1 hvmem with hmem | hmem
  · exact hbody (List.mem_append_left _ ((hkept v hmem).mem_pre _ hlf))
  · rw [List.eq_of_mem_replicate hmem] at hlf
    exact absurd hlf List.not_mem_nil

/-- **Every branch of every handler transmits one reply.** -/
theorem answers_handle (env : Env) {packet : Packet}
    (hread : packet.ReadFrom stack (body ++ [lineFeed])) (hbody : lineFeed ∉ body) :
    Answers (cell.handle env packet).2 := by
  cases packet with
  | rejected => exact hread.elim
  | dis p => exact cell.answers_disPacketHandler p
  | mrd p => exact cell.answers_mrdPacketHandler _ fun hv => lf_not_mem_values hread hv hbody
  | mwr p =>
    refine cell.answers_mwrPacketHandler _ fun hv => ?_
    exact (MWRPacket.ofString_spec hread hv).2.not_mem_of_last hbody
  | srd p => exact cell.answers_srdPacketHandler _ p
  | swr p =>
    refine cell.answers_swrPacketHandler _ fun hv => ?_
    exact (SWRPacket.ofString_spec hread hv).2.not_mem_of_last hbody
  | srs p =>
    refine cell.answers_srsPacketHandler fun hv => ?_
    exact (SRSPacket.ofString_spec hread hv).2.not_mem_of_last hbody

end SCBS

/-! ## The reply to a line -/

/-- **One reply for an accepted line, none for a rejected one.**  A line of at most 199 bytes
without a NUL, of which `raw` may have been received before, is answered by the call of
`Update` that sees its newline, in whatever state the cell is, as soon as the parsers are
defined on it. -/
theorem one_reply (env : Env) (cell : SCBS F) (raw u v : List UInt8) (packet : Packet)
    (hholds : Holds cell.toUartRx raw) (hnul : (0 : UInt8) ∉ raw ++ u)
    (hlf : lineFeed ∉ raw ++ u) (hle : (raw ++ u ++ [lineFeed]).length ≤ 199)
    (hparse : SCBS.parse env (raw ++ u ++ [lineFeed]) = .ok packet) :
    ∃ r b, cell.update env (u ++ lineFeed :: v) = .ok r ∧
      BSPacket.ofString env.stack (raw ++ u ++ [lineFeed]) = .ok b ∧
      (b.isValid = true → ∃ s, r.tx = s ++ crlf ∧ s.head? = some dollar ∧ lineFeed ∉ s ∧
        s.length ≤ 198) ∧
      (b.isValid = false → r.tx = []) := by
  have hle' : (raw ++ u).length ≤ 198 := by
    rw [List.length_append, List.length_singleton] at hle
    omega
  obtain ⟨b, hb, hcases⟩ := SCBS.parse_cases hparse
  have hupd := SCBS.update_at_line env hholds hnul hlf hle' v
  rw [SCBS.dispatch_eq, hparse] at hupd
  refine ⟨_, b, hupd, hb, ?_, ?_⟩
  · intro hv
    rcases hcases with ⟨hinv, -⟩ | ⟨-, hread⟩
    · exact absurd (hinv.symm.trans hv) (by decide)
    · obtain ⟨s, hs, hreply⟩ :=
        (cell.received env (u ++ lineFeed :: v)).answers_handle env hread hlf
      exact ⟨s, hs, hreply.head, hreply.no_lf, hreply.length_le⟩
  · intro hv
    rcases hcases with ⟨-, rfl⟩ | ⟨hval, -⟩
    · rfl
    · exact absurd (hval.symm.trans hv) (by decide)

end Handlers

/-- A discovery packet for a cell that has just been initialised. -/
theorem one_reply_sample :
    ∃ r, (SCBS.init 0 : SCBS ExtRat).update sampleEnv (ascii "$BSDIS,6*55\r" ++ [lineFeed]) =
        .ok r ∧
      ∃ s, r.tx = s ++ crlf ∧ s.head? = some dollar ∧ lineFeed ∉ s ∧ s.length ≤ 198 := by
  obtain ⟨r, b, hupd, hb, hvalid, -⟩ := one_reply sampleEnv (SCBS.init 0 : SCBS ExtRat) []
    (ascii "$BSDIS,6*55\r") [] (.dis ⟨⟨ascii "$BSDIS,6*55\r\n", true, .dis⟩, 6⟩) Holds.flushed
    (by decide) (by decide) (by decide) (by decide +kernel)
  have hb' : BSPacket.ofString sampleEnv.stack (ascii "$BSDIS,6*55\r\n") =
      .ok ⟨ascii "$BSDIS,6*55\r\n", true, .dis⟩ := by decide +kernel
  obtain rfl := Except.ok.inj (hb.symm.trans hb')
  exact ⟨r, hupd, hvalid rfl⟩

end Scbs
