import Scbs.Comms.MultiRead

/-!
# Corrupted packets

What `BSPacket` makes of a packet in which a single byte, up to the `*`, has been
replaced.

* `Encoded` — the packets that `ToString` writes.
* `rejects_of_changed` — **a replaced byte of the header or the contents shows in the
  XOR**, as long as it does not become a `*`.
* `rejects_iff` — **which corruptions are rejected**: all but two kinds.  Where the
  leading `$` is lost, `CalculateChecksum` returns 0, or what is left behind another
  `$`, and that can be the checksum of the packet.  Where a byte of the contents
  becomes a `*`, the packet ends there, and the contents behind it are read as the
  checksum.
-/

namespace Scbs

open CLib

/-! ## The packets -/

/-- The string in a field of a packet that can be told from the packet's `*`. -/
structure Storable (v : List UInt8) : Prop where
  length_le : v.length ≤ 19
  no_nul : (0 : UInt8) ∉ v
  no_star : star ∉ v

/-- **The packets that `ToString` writes**, for each type with the fields it has.  The
values of a multi-read are ones that leave room for its `*`. -/
inductive Encoded : List UInt8 → Prop
  | dis (p : DISPacket) : p.packetType = .dis → Encoded p.toStr.packetStr
  | mrd (p : MRDPacket) : p.packetType = .mrd → (∀ v ∈ p.values.take p.numValues, Storable v) →
      (MRDPacket.contents p.regAddr (p.values.take p.numValues)).length ≤ 188 →
      Encoded p.toStr.packetStr
  | mwr (p : MWRPacket) : p.packetType = .mwr → Storable p.value → Encoded p.toStr.packetStr
  | srd (p : SRDPacket) : p.packetType = .srd → Encoded p.toStr.packetStr
  | swr (p : SWRPacket) : p.packetType = .swr → Storable p.value → Encoded p.toStr.packetStr
  | srs (p : SRSPacket) : p.packetType = .srs → Storable p.value → Encoded p.toStr.packetStr

/-- What the contents of these packets have in common: a short numeral in front. -/
structure Numbered (contents : List UInt8) : Prop where
  no_star : star ∉ contents
  length_le : contents.length ≤ 188
  numeral : ∃ num rest, contents = num ++ rest ∧ num.length ≤ 8 ∧ (∀ c ∈ num, digitVal c < 16) ∧
    (rest = [] ∨ ∃ fields, rest = comma :: fields)

section Contents

variable (id : UInt16) (addr : UInt32)

theorem digitVal_of_mem_id : ∀ c ∈ printNat 10 id.toNat, digitVal c < 16 := fun _ hc =>
  lt_trans (digitVal_of_mem_printNat (by omega) (by omega) hc) (by omega)

theorem digitVal_of_mem_addr : ∀ c ∈ printNat 16 addr.toNat, digitVal c < 16 := fun _ hc =>
  digitVal_of_mem_printNat (by omega) (by omega) hc

theorem numbered_id {fields : List UInt8} (hstar : star ∉ fields) (hlen : fields.length ≤ 182) :
    Numbered (printNat 10 id.toNat ++ comma :: fields) := by
  have hid := length_printNat_id id
  refine ⟨not_mem_append_cons (star_not_mem_printNat (Or.inl rfl)) star_ne_comma hstar, ?_,
    _, _, rfl, by omega, digitVal_of_mem_id id, Or.inr ⟨fields, rfl⟩⟩
  rw [List.length_append, List.length_cons]
  omega

theorem numbered_mrd {vs : List (List UInt8)} (hstar : ∀ v ∈ vs, star ∉ v)
    (hlen : (MRDPacket.contents addr vs).length ≤ 188) : Numbered (MRDPacket.contents addr vs) := by
  refine ⟨MRDPacket.star_not_mem_contents addr hstar, hlen, _, _, rfl, length_printNat_addr addr,
    digitVal_of_mem_addr addr, ?_⟩
  cases vs.take (MRDPacket.numAppended (printNat 16 addr.toNat).length vs) with
  | nil => exact Or.inl rfl
  | cons v ws => exact Or.inr ⟨_, joinFields_cons v ws⟩

end Contents

/-- **The packets are frames.** -/
theorem Encoded.exists_frame {p : List UInt8} (h : Encoded p) :
    ∃ t contents, t ≠ .unknown ∧ p = frame t contents ∧ Numbered contents := by
  cases h with
  | dis p ht =>
    refine ⟨.dis, _, by decide, by rw [DISPacket.packetStr_toStr, ht],
      star_not_mem_disContents _, ?_, _, [], (List.append_nil _).symm, ?_,
      digitVal_of_mem_id _, Or.inl rfl⟩
    · exact le_trans (length_disContents _) (by omega)
    · exact le_trans (length_printNat_id _) (by omega)
  | mrd p ht hv hlen =>
    refine ⟨.mrd, _, by decide, ?_, numbered_mrd _ (fun v hm => (hv v hm).no_star) hlen⟩
    rw [MRDPacket.packetStr_toStr p (fun v hm => (hv v hm).length_le)
      (fun v hm => (hv v hm).no_star) hlen, ht]
  | mwr p ht hv =>
    have hlen := length_mwrContents p.regAddr hv.length_le
    refine ⟨.mwr, _, by decide,
      by rw [MWRPacket.packetStr_toStr p hv.length_le hv.no_star, ht],
      star_not_mem_mwrContents _ hv.no_star, by omega, _, _, rfl, length_printNat_addr _,
      digitVal_of_mem_addr _, Or.inr ⟨p.value, rfl⟩⟩
  | srd p ht =>
    refine ⟨.srd, srdContents p.cellId p.regAddr, by decide,
      by rw [SRDPacket.packetStr_toStr, ht],
      numbered_id p.cellId (star_not_mem_printNat (Or.inr rfl)) ?_⟩
    exact le_trans (length_printNat_addr _) (by omega)
  | swr p ht hv =>
    refine ⟨.swr, swrContents p.cellId p.regAddr p.value, by decide,
      by rw [SWRPacket.packetStr_toStr p hv.length_le hv.no_star, ht],
      numbered_id p.cellId (not_mem_append_cons (star_not_mem_printNat (Or.inr rfl))
        star_ne_comma hv.no_star) ?_⟩
    have := length_printNat_addr p.regAddr
    have := hv.length_le
    rw [List.length_append, List.length_cons]
    omega
  | srs p ht hv =>
    refine ⟨.srs, srsContents p.cellId p.value, by decide,
      by rw [SRSPacket.packetStr_toStr p hv.length_le hv.no_star, ht],
      numbered_id p.cellId hv.no_star (le_trans hv.length_le (by omega))⟩

/-! ## Rejection -/

/-- `BSPacket` says that a line is no packet. -/
def Rejects (stack : Stack) (line : List UInt8) : Prop :=
  ∃ p, BSPacket.ofString stack line = .ok p ∧ p.isValid = false

section Rejection

variable {stack : Stack} {line : List UInt8} {t : PacketType}

theorem not_rejects_of_accepts (h : BSPacket.Accepts stack line t) : ¬ Rejects stack line := by
  rintro ⟨p, hp, hv⟩
  rw [BSPacket.ofString, BSPacket.fromString_of_accepts h] at hp
  obtain rfl := Except.ok.inj hp
  exact absurd hv (by simp)

theorem rejects_of_no_star (h : star ∉ line) : Rejects stack line := by
  refine ⟨{ packetStr := line }, ?_, rfl⟩
  simp only [BSPacket.ofString, BSPacket.fromString, strchr_none h]

theorem rejects_of_checksum {u rest : List UInt8} (hu : star ∉ u) (hline : line = u ++ star :: rest)
    (h : BSPacket.calculateChecksum line ≠ UInt8.ofInt (strtol rest scbsChecksumBase)) :
    Rejects stack line := by
  refine ⟨{ packetStr := line }, ?_, rfl⟩
  have hfind : strchr line star = some (star :: rest) := by rw [hline, strchr_append hu]
  simp only [BSPacket.ofString, BSPacket.fromString, hfind, List.tail_cons]
  exact if_pos h

/-- A line with another first token is rejected, whatever its checksum. -/
theorem rejects_of_header {headerStr : List UInt8}
    (h : strtokMem comma (BSPacket.headerBuf stack line) = some (some headerStr))
    (hno : BSPacket.lookupHeader headerStr.tail = none) : Rejects stack line := by
  refine ⟨{ packetStr := line }, ?_, rfl⟩
  simp only [BSPacket.ofString, BSPacket.fromString, h, hno]
  cases strchr line star with
  | none => rfl
  | some e => simp

/-- No header has a `*`. -/
theorem lookupHeader_of_star_mem {h : List UInt8} (hstar : star ∈ h) :
    BSPacket.lookupHeader h = none := by
  cases hl : BSPacket.lookupHeader h with
  | none => rfl
  | some t =>
    obtain ⟨rfl, -⟩ := lookupHeader_eq_some hl
    exact absurd rfl (packetHeaderStr_plain t _ hstar).2.2.1

end Rejection

/-! ## One replaced byte -/

/-- What the checksum of a packet does not cover when its leading `$` is lost: the
bytes up to the next `$`, or all of them. -/
def uncovered (body : List UInt8) : List UInt8 :=
  if dollar ∈ body then body.takeWhile (· ≠ dollar) ++ [dollar] else body

section Positions

variable (stack : Stack) {t : PacketType} {contents u v : List UInt8} {a b : UInt8}

theorem length_frameBody (t : PacketType) (contents : List UInt8) :
    (frameBody t contents).length = contents.length + 6 := by
  rw [frameBody, List.length_append, List.length_cons, length_packetHeaderStr]
  omega

/-- A packet's own checksum text, with nothing behind it. -/
theorem ofInt_strtol_checksum (c : UInt8) :
    UInt8.ofInt (strtol (checksumText c) scbsChecksumBase) = c := by
  have := ofInt_strtol_checksumText c ends_nil
  rwa [List.append_nil] at this

/-- **A changed byte of the header or the contents** is found, unless it became a `*`. -/
theorem rejects_of_changed {body : List UInt8} {j : ℕ} (hj : j < body.length)
    (hbody : star ∉ body) (hlen : body.length ≤ 194) (hb : b ≠ star) (hne : body[j] ≠ b) :
    Rejects stack (dollar :: (body.set j b ++ star :: checksumText (xorSum body))) := by
  have hset : star ∉ body.set j b := by
    intro hm
    rcases List.mem_or_eq_of_mem_set hm with hm | hm
    · exact hbody hm
    · exact hb hm.symm
  have hno : star ∉ dollar :: body.set j b :=
    List.not_mem_cons_of_ne_of_not_mem star_ne_dollar hset
  have hsum : BSPacket.calculateChecksum
      (dollar :: (body.set j b ++ star :: checksumText (xorSum body))) =
      xorSum (body.set j b) := by
    apply BSPacket.calculateChecksum_eq (List.not_mem_nil (a := dollar)) (by simp) hset
    rw [List.length_set, List.length_nil, kMaxPacketLen]
    omega
  refine rejects_of_checksum hno rfl ?_
  rw [hsum, ofInt_strtol_checksum, Ne, xorSum_set_eq_iff body hj]
  exact hne

/-- **A lost `*`** is found, since no other is there. -/
theorem rejects_of_lost_star (hstar : star ∉ contents) (hb : b ≠ star) :
    Rejects stack (dollar :: (frameBody t contents ++
      b :: checksumText (xorSum (frameBody t contents)))) := by
  apply rejects_of_no_star
  apply List.not_mem_cons_of_ne_of_not_mem star_ne_dollar
  exact not_mem_append_cons (star_not_mem_frameBody t hstar) (Ne.symm hb)
    (not_mem_checksumText (by decide))

/-- The checksum of a packet without its `$`. -/
theorem calculateChecksum_lost_start {body tail : List UInt8} (hbody : star ∉ body)
    (hlen : body.length ≤ 194) (htail : dollar ∉ tail) (hb : b ≠ dollar) (hb' : b ≠ star) :
    BSPacket.calculateChecksum (b :: (body ++ star :: tail)) =
      xorSum body ^^^ xorSum (uncovered body) := by
  unfold uncovered
  rcases mem_split body dollar with hno | ⟨skipped, rest, rfl, hskipped⟩
  · have hnone : dollar ∉ b :: (body ++ star :: tail) :=
      List.not_mem_cons_of_ne_of_not_mem (Ne.symm hb)
        (not_mem_append_cons hno (Ne.symm star_ne_dollar) htail)
    rw [if_neg hno, UInt8.xor_self, BSPacket.calculateChecksum, strchr_none hnone]
  · have hpre : dollar ∉ b :: skipped :=
      List.not_mem_cons_of_ne_of_not_mem (Ne.symm hb) hskipped
    have hpre' : star ∉ b :: skipped :=
      List.not_mem_cons_of_ne_of_not_mem (Ne.symm hb') fun h =>
        hbody (List.mem_append_left _ h)
    have hrest : star ∉ rest := fun h =>
      hbody (List.mem_append_right _ (List.mem_cons_of_mem _ h))
    have hline : b :: (skipped ++ dollar :: rest ++ star :: tail) =
        (b :: skipped) ++ dollar :: (rest ++ star :: tail) := by simp
    simp only [List.length_append, List.length_cons] at hlen
    rw [hline, BSPacket.calculateChecksum_eq hpre hpre' hrest
      (by simp only [List.length_cons, kMaxPacketLen]; omega),
      if_pos (by simp), takeWhile_ne_append hskipped,
      show skipped ++ dollar :: rest = (skipped ++ [dollar]) ++ rest by simp,
      xorSum_append _ rest, UInt8.xor_comm (xorSum (skipped ++ [dollar])), UInt8.xor_assoc,
      UInt8.xor_self, UInt8.xor_zero]

/-- Nothing is covered when the line starts with its `*`. -/
theorem calculateChecksum_star (s : List UInt8) : BSPacket.calculateChecksum (star :: s) = 0 := by
  have hfind : strchr (star :: s) star = some (star :: s) := strchr_append List.not_mem_nil
  rw [BSPacket.calculateChecksum, hfind]
  cases strchr (star :: s) dollar with
  | none => rfl
  | some e => simp

/-- The headers start with a `B` and a letter that is no hexadecimal digit. -/
theorem strtol_header (ht : t ≠ .unknown) (rest : List UInt8) :
    strtol (packetHeaderStr t ++ rest) scbsChecksumBase = 11 := by
  cases t
  all_goals first | exact absurd rfl ht | rfl

theorem comma_nul_not_mem_header (t : PacketType) :
    comma ∉ packetHeaderStr t ∧ (0 : UInt8) ∉ packetHeaderStr t :=
  ⟨fun h => (packetHeaderStr_plain t _ h).2.1 rfl, fun h => (packetHeaderStr_plain t _ h).1 rfl⟩

theorem cons_frameBody (c : UInt8) (contents rest : List UInt8) :
    c :: (frameBody t contents ++ rest) =
      c :: (packetHeaderStr t ++ comma :: (contents ++ rest)) := by
  simp [frameBody]

/-- A comma before the header is skipped, and the first letter of the header with it. -/
theorem rejects_of_comma_start (rest : List UInt8) :
    Rejects stack (comma :: (packetHeaderStr t ++ comma :: rest)) := by
  have hhead := length_packetHeaderStr t
  have hheader := comma_nul_not_mem_header t
  have htok := BSPacket.strtokMem_headerBuf_field stack 1 rest
    (List.ne_nil_of_length_pos (by rw [hhead]; decide)) hheader.1 hheader.2
    (by rw [hhead]; decide)
  apply rejects_of_header htok
  cases t <;> decide

/-- Nothing stands before a `*` at the start, and the header is read as the number 11. -/
theorem rejects_of_star_start (ht : t ≠ .unknown) (rest : List UInt8) :
    Rejects stack (star :: (packetHeaderStr t ++ rest)) := by
  refine rejects_of_checksum (List.not_mem_nil (a := star)) rfl ?_
  rw [calculateChecksum_star, strtol_header ht]
  decide

/-- Any other byte is skipped like the `$`. -/
theorem accepts_of_other_start (ht : t ≠ .unknown) {rest : List UInt8} (h0 : b ≠ 0)
    (hcomma : b ≠ comma)
    (hsum : ∃ endTokenPtr,
      strchr (b :: (packetHeaderStr t ++ comma :: rest)) star = some endTokenPtr ∧
      BSPacket.calculateChecksum (b :: (packetHeaderStr t ++ comma :: rest)) =
        UInt8.ofInt (strtol endTokenPtr.tail scbsChecksumBase)) :
    BSPacket.Accepts stack (b :: (packetHeaderStr t ++ comma :: rest)) t := by
  have hhead := length_packetHeaderStr t
  have hheader := comma_nul_not_mem_header t
  have htok := BSPacket.strtokMem_headerBuf_field stack 0 (u := b :: packetHeaderStr t)
    rest (List.cons_ne_nil _ _)
    (List.not_mem_cons_of_ne_of_not_mem (Ne.symm hcomma) hheader.1)
    (List.not_mem_cons_of_ne_of_not_mem (Ne.symm h0) hheader.2)
    (by rw [List.length_cons, hhead]; decide)
  exact ⟨hsum, b :: packetHeaderStr t, htok, by
    rw [List.tail_cons, lookupHeader_packetHeaderStr ht]⟩

/-- **A lost `$`** is found, except where what the checksum no longer covers has XOR 0.
A comma in its place takes the header's first letter away, and a `*` everything. -/
theorem rejects_of_lost_start_iff (ht : t ≠ .unknown) (hc : Numbered contents) (h0 : b ≠ 0)
    (hb : b ≠ dollar) :
    Rejects stack (b :: (frameBody t contents ++
        star :: checksumText (xorSum (frameBody t contents)))) ↔
      ¬ (b ≠ comma ∧ b ≠ star ∧ xorSum (uncovered (frameBody t contents)) = 0) := by
  have hbody := star_not_mem_frameBody t hc.no_star
  have hlen := length_frameBody t contents
  have hle := hc.length_le
  have hdollar : dollar ∉ checksumText (xorSum (frameBody t contents)) :=
    not_mem_checksumText (by decide)
  by_cases hcomma : b = comma
  · refine iff_of_true ?_ fun h => h.1 hcomma
    rw [hcomma, cons_frameBody]
    exact rejects_of_comma_start stack _
  by_cases hstar : b = star
  · refine iff_of_true ?_ fun h => h.2.1 hstar
    rw [hstar, cons_frameBody]
    exact rejects_of_star_start stack ht _
  have htrans := ofInt_strtol_checksum (xorSum (frameBody t contents))
  have hno : star ∉ b :: frameBody t contents :=
    List.not_mem_cons_of_ne_of_not_mem (Ne.symm hstar) hbody
  have hsum : BSPacket.calculateChecksum (b :: (frameBody t contents ++
      star :: checksumText (xorSum (frameBody t contents)))) = _ :=
    calculateChecksum_lost_start hbody (by omega) hdollar hb hstar
  by_cases hzero : xorSum (uncovered (frameBody t contents)) = 0
  · refine iff_of_false ?_ (not_not.2 ⟨hcomma, hstar, hzero⟩)
    rw [hzero, UInt8.xor_zero] at hsum
    have hfind : strchr (b :: (frameBody t contents ++
        star :: checksumText (xorSum (frameBody t contents)))) star =
        some (star :: checksumText (xorSum (frameBody t contents))) := by
      simpa using strchr_append (v := checksumText (xorSum (frameBody t contents))) hno
    have hmatches : ∃ endTokenPtr, strchr (b :: (frameBody t contents ++
        star :: checksumText (xorSum (frameBody t contents)))) star = some endTokenPtr ∧
        BSPacket.calculateChecksum (b :: (frameBody t contents ++
          star :: checksumText (xorSum (frameBody t contents)))) =
          UInt8.ofInt (strtol endTokenPtr.tail scbsChecksumBase) :=
      ⟨_, hfind, by rw [hsum, List.tail_cons, htrans]⟩
    rw [cons_frameBody] at hmatches ⊢
    exact not_rejects_of_accepts (accepts_of_other_start stack ht h0 hcomma hmatches)
  · refine iff_of_true ?_ fun h => hzero h.2.2
    refine rejects_of_checksum hno rfl ?_
    rw [hsum, htrans]
    intro h
    exact hzero (UInt8.xor_right_inj (xorSum (frameBody t contents)) |>.1
      (h.trans (UInt8.xor_zero).symm))

/-- **A packet that ends early** is rejected unless the rest of it is read as the checksum of
what stands before its end. -/
theorem rejects_of_early_star_iff (ht : t ≠ .unknown) (hstar : star ∉ u) (hlen : u.length ≤ 193)
    (rest : List UInt8) :
    Rejects stack (dollar :: (frameBody t u ++ star :: rest)) ↔
      UInt8.ofInt (strtol rest scbsChecksumBase) ≠ xorSum (frameBody t u) := by
  have hacc : BSPacket.Accepts stack (dollar :: (frameBody t u ++ star :: rest)) t ↔ _ :=
    BSPacket.accepts_line_iff stack ht hstar hlen
  by_cases hsum : UInt8.ofInt (strtol rest scbsChecksumBase) = xorSum (frameBody t u)
  · exact iff_of_false (not_rejects_of_accepts (hacc.2 hsum)) (not_not.2 hsum)
  · refine iff_of_true ?_ hsum
    have hbody := star_not_mem_frameBody t hstar
    have hno : star ∉ dollar :: frameBody t u :=
      List.not_mem_cons_of_ne_of_not_mem star_ne_dollar hbody
    have hcover : BSPacket.calculateChecksum (dollar :: (frameBody t u ++ star :: rest)) =
        xorSum (frameBody t u) := by
      apply BSPacket.calculateChecksum_eq (List.not_mem_nil (a := dollar)) (by simp) hbody
      rw [length_frameBody, List.length_nil, kMaxPacketLen]
      omega
    refine rejects_of_checksum hno rfl ?_
    rw [hcover]
    exact Ne.symm hsum

/-- **A `*` in the header**, or in the place of the comma behind it, makes it another
header. -/
theorem rejects_of_star_in_header (hc : Numbered contents) {i : ℕ} (hi : i ≤ 5)
    (rest : List UInt8) (hrest : (0 : UInt8) ∉ rest ∧ comma ∉ rest ∧ rest.length ≤ 2) :
    Rejects stack (dollar :: ((frameBody t contents).set i star ++ star :: rest)) := by
  have hhead := length_packetHeaderStr t
  have hheader := comma_nul_not_mem_header t
  rcases Nat.lt_or_ge i 5 with hlt | hge
  · -- the header is followed by its comma
    have hset : (frameBody t contents).set i star =
        (packetHeaderStr t).set i star ++ comma :: contents :=
      List.set_append_left _ _ (by omega)
    have hmem : ∀ c ∈ (packetHeaderStr t).set i star, c = star ∨ c ∈ packetHeaderStr t :=
      fun c hm => (List.mem_or_eq_of_mem_set hm).symm
    have hno : ∀ c : UInt8, c ≠ star → c ≠ dollar → c ∉ packetHeaderStr t →
        c ∉ dollar :: (packetHeaderStr t).set i star := by
      intro c h₁ h₂ h₃
      refine List.not_mem_cons_of_ne_of_not_mem h₂ fun hm => ?_
      exact (hmem c hm).elim h₁ h₃
    have htok := BSPacket.strtokMem_headerBuf_field stack 0
      (u := dollar :: (packetHeaderStr t).set i star) (contents ++ star :: rest)
      (List.cons_ne_nil _ _) (hno comma (by decide) (by decide) hheader.1)
      (hno 0 (by decide) (by decide) hheader.2)
      (by rw [List.length_cons, List.length_set, hhead]; decide)
    rw [hset]
    apply rejects_of_header (by simpa using htok)
    exact lookupHeader_of_star_mem (List.mem_set (by omega) star)
  · -- the numeral has become a part of the header
    obtain ⟨num, fields, rfl, hnum, hdigits, hfields⟩ := hc.numeral
    obtain rfl : i = 5 := by omega
    have hset : (frameBody t (num ++ fields)).set 5 star =
        packetHeaderStr t ++ star :: (num ++ fields) := by
      rw [frameBody, List.set_append_right _ _ (by omega), hhead]
      rfl
    have hno : ∀ c : UInt8, c ≠ star → c ≠ dollar → c ∉ packetHeaderStr t → digitVal c = 36 →
        c ∉ dollar :: (packetHeaderStr t ++ star :: num) := by
      intro c h₁ h₂ h₃ h₄
      refine List.not_mem_cons_of_ne_of_not_mem h₂ (not_mem_append_cons h₃ h₁ fun hm => ?_)
      have := hdigits c hm
      omega
    have hnocomma := hno comma (by decide) (by decide) hheader.1 (by decide)
    have hnonul := hno 0 (by decide) (by decide) hheader.2 (by decide)
    have hlen : (dollar :: (packetHeaderStr t ++ star :: num)).length ≤ 15 := by
      rw [List.length_cons, List.length_append, List.length_cons, hhead]
      omega
    rw [hset]
    rcases hfields with rfl | ⟨rest', rfl⟩
    · have htok := BSPacket.strtokMem_headerBuf_whole stack 0
        (u := dollar :: (packetHeaderStr t ++ star :: num) ++ star :: rest)
        (List.cons_ne_nil _ _) (not_mem_append_cons hnocomma comma_ne_star hrest.2.1)
        (not_mem_append_cons hnonul (by decide) hrest.1)
        (by
          simp only [List.length_append, List.length_cons, kMaxPacketFieldLen] at hlen ⊢
          omega)
      apply rejects_of_header (by simpa using htok)
      exact lookupHeader_of_star_mem (by simp)
    · have htok := BSPacket.strtokMem_headerBuf_field stack 0
        (u := dollar :: (packetHeaderStr t ++ star :: num)) (rest' ++ star :: rest)
        (List.cons_ne_nil _ _) hnocomma hnonul (by rw [kMaxPacketFieldLen]; omega)
      apply rejects_of_header (by simpa using htok)
      exact lookupHeader_of_star_mem (by simp)

/-- **A `*` in the contents** ends the packet there, and is found unless the rest of the
contents is read as the checksum of what stands before it. -/
theorem rejects_of_star_in_contents_iff (ht : t ≠ .unknown) (hstar : star ∉ contents)
    (hle : contents.length ≤ 193) {j : ℕ} (hhead : 6 ≤ j)
    (hlt : j < (frameBody t contents).length) (rest : List UInt8) :
    Rejects stack (dollar :: ((frameBody t contents).set j star ++ star :: rest)) ↔
      UInt8.ofInt (strtol ((frameBody t contents).drop (j + 1) ++ star :: rest)
        scbsChecksumBase) ≠ xorSum ((frameBody t contents).take j) := by
  have htake : (frameBody t contents).take j = frameBody t (contents.take (j - 6)) := by
    rw [frameBody, List.take_append, List.take_of_length_le (by rw [length_packetHeaderStr]; omega),
      length_packetHeaderStr, show j - 5 = j - 6 + 1 by omega, List.take_succ_cons]
    rfl
  have hset : (frameBody t contents).set j star ++ star :: rest =
      frameBody t (contents.take (j - 6)) ++
        star :: ((frameBody t contents).drop (j + 1) ++ star :: rest) := by
    rw [List.set_eq_take_append_cons_drop, if_pos hlt, htake, List.append_assoc, List.cons_append]
  have hstar' : star ∉ contents.take (j - 6) := fun h => hstar (List.mem_of_mem_take h)
  have hlen : (contents.take (j - 6)).length ≤ 193 := by
    rw [List.length_take]
    omega
  rw [hset, htake, rejects_of_early_star_iff stack ht hstar' hlen]

end Positions

/-! ## Which corruptions are rejected -/

/-- **A corruption that does not show**: the leading `$` became a byte other than `,` and
`*` while what the checksum then leaves out has XOR 0, or a byte behind the header
became a `*` while the rest of the packet is read as the XOR of what is now before
it. -/
def Undetected (p : List UInt8) (i : ℕ) (b : UInt8) : Prop :=
  (i = 0 ∧ b ≠ comma ∧ b ≠ star ∧ xorSum (uncovered (p.tail.takeWhile (· ≠ star))) = 0) ∨
    (kPacketHeaderLen < i ∧ b = star ∧
      UInt8.ofInt (strtol (p.drop (i + 1)) scbsChecksumBase) = xorSum (p.take i).tail)

instance (p : List UInt8) (i : ℕ) (b : UInt8) : Decidable (Undetected p i b) :=
  inferInstanceAs (Decidable (_ ∨ _))

/-- **Corruptions.**  A packet with one byte up to its `*` replaced by another one that is
no NUL is rejected, whatever the uninitialised array holds, unless the corruption is
one of the two kinds that do not show. -/
theorem rejects_iff (stack : Stack) {p : List UInt8} (hp : Encoded p) {i : ℕ}
    (hi : i ≤ p.idxOf star) {b : UInt8} (hne : p[i]? ≠ some b) (h0 : b ≠ 0) :
    Rejects stack (p.set i b) ↔ ¬ Undetected p i b := by
  obtain ⟨t, contents, ht, rfl, hc⟩ := hp.exists_frame
  have hbody := star_not_mem_frameBody t hc.no_star
  have hlen := length_frameBody t contents
  have hle := hc.length_le
  rw [frame] at hi hne ⊢
  generalize hcs : checksumText (xorSum (frameBody t contents)) = cs at hi hne ⊢
  have hidx : (dollar :: (frameBody t contents ++ star :: cs)).idxOf star =
      (frameBody t contents).length + 1 := by
    rw [List.idxOf_cons_ne _ (by decide), List.idxOf_append_of_notMem hbody, List.idxOf_cons_self]
  rw [hidx] at hi
  unfold Undetected
  cases i with
  | zero =>
    have hb : b ≠ dollar := fun h => hne (by simp [h])
    have hiff := rejects_of_lost_start_iff stack ht hc h0 hb
    rw [hcs] at hiff
    rw [List.set_cons_zero, hiff, List.tail_cons, takeWhile_ne_append hbody]
    simp
  | succ j =>
    rw [List.set_cons_succ]
    rcases Nat.lt_or_ge j (frameBody t contents).length with hlt | hge
    · rw [List.set_append_left _ _ hlt]
      by_cases hb : b = star
      · subst hb
        rcases Nat.lt_or_ge j 6 with hhead | hhead
        · refine iff_of_true ?_ ?_
          · apply rejects_of_star_in_header stack hc (by omega) cs
            rw [← hcs]
            exact ⟨not_mem_checksumText (by decide), not_mem_checksumText (by decide),
              (length_checksumText _).le⟩
          · rw [kPacketHeaderLen]
            omega
        · rw [rejects_of_star_in_contents_iff stack ht hc.no_star (by omega) hhead hlt,
            List.drop_succ_cons, List.take_succ_cons, List.tail_cons,
            List.take_append_of_le_length hlt.le, List.drop_append_of_le_length hlt]
          have hpos : kPacketHeaderLen < j + 1 := by
            rw [kPacketHeaderLen]
            omega
          simp [hpos]
      · refine iff_of_true ?_ (by simp [hb])
        have hget : (frameBody t contents)[j] ≠ b := by
          intro h
          apply hne
          rw [List.getElem?_cons_succ, List.getElem?_append_left hlt,
            List.getElem?_eq_getElem hlt, h]
        rw [← hcs]
        exact rejects_of_changed stack hlt hbody (by omega) hb hget
    · obtain rfl : j = (frameBody t contents).length := by omega
      have hb : b ≠ star := by
        intro h
        apply hne
        rw [List.getElem?_cons_succ, List.getElem?_append_right le_rfl, Nat.sub_self, h]
        rfl
      refine iff_of_true ?_ (by simp [hb])
      rw [List.set_append_right _ _ le_rfl, Nat.sub_self, List.set_cons_zero, ← hcs]
      exact rejects_of_lost_star stack hc.no_star hb

/-- A digit of a cell discover packet replaced by another one. -/
theorem rejects_sample : Rejects (Vector.replicate kMaxPacketLen 0)
    ((DISPacket.ofValues 60055).toStr.packetStr.set 8 (ch '1')) :=
  (rejects_iff (Vector.replicate kMaxPacketLen 0) (.dis (DISPacket.ofValues 60055) rfl)
    (by decide +kernel) (by decide +kernel) (by decide)).2 (by decide +kernel)

/-- The `$` of `$BSSRS,49,ERR:1*00` can be lost, and the second digit of
`$BSDIS,60055*55` can become a `*`. -/
theorem not_rejects_corrupted :
    (Encoded (SRSPacket.ofValues 49 (ascii "ERR:1")).toStr.packetStr ∧
      (SRSPacket.ofValues 49 (ascii "ERR:1")).toStr.packetStr.set 0 (ch '#') =
        ascii "#BSSRS,49,ERR:1*00" ∧
      ¬ Rejects (Vector.replicate kMaxPacketLen 0) (ascii "#BSSRS,49,ERR:1*00")) ∧
    (Encoded (DISPacket.ofValues 60055).toStr.packetStr ∧
      (DISPacket.ofValues 60055).toStr.packetStr.set 8 star = ascii "$BSDIS,6*055*55" ∧
      ¬ Rejects (Vector.replicate kMaxPacketLen 0) (ascii "$BSDIS,6*055*55")) := by
  refine ⟨⟨.srs (SRSPacket.ofValues 49 (ascii "ERR:1")) rfl ⟨by decide, by decide, by decide⟩,
    by decide +kernel, ?_⟩, ⟨.dis (DISPacket.ofValues 60055) rfl, by decide +kernel, ?_⟩⟩
  · have hvalid : BSPacket.ofString (Vector.replicate kMaxPacketLen 0)
        (ascii "#BSSRS,49,ERR:1*00") = .ok ⟨ascii "#BSSRS,49,ERR:1*00", true, .srs⟩ := by
      decide +kernel
    rintro ⟨p, hp, hv⟩
    rw [hvalid] at hp
    obtain rfl := Except.ok.inj hp
    exact absurd hv (by simp)
  · have hvalid : BSPacket.ofString (Vector.replicate kMaxPacketLen 0)
        (ascii "$BSDIS,6*055*55") = .ok ⟨ascii "$BSDIS,6*055*55", true, .dis⟩ := by
      decide +kernel
    rintro ⟨p, hp, hv⟩
    rw [hvalid] at hp
    obtain rfl := Except.ok.inj hp
    exact absurd hv (by simp)

end Scbs
