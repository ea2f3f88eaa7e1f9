import Scbs.Comms.Packets

/-!
# The frame of a packet: tokens, checksum, header

What `BSPacket` does on its own, before any field is read.

* `frame t contents` — the line of a packet, and `packetStr_packetizeContents`:
  it is what `PacketizeContents` writes as long as the contents leave room for
  the `*`.
* `Accepts` — the condition under which `BSPacket::FromString` accepts a line as
  a type, with `fromString_cases` saying that acceptance, rejection and a fault
  are all that can happen.
* `accepts_frame` — a frame is accepted as its own type, whatever the
  uninitialised array of the header lookup holds and whatever non-alphanumeric
  text follows the checksum.
-/

namespace Scbs

open CLib

/-- The XOR of a list of bytes. -/
def xorSum (s : List UInt8) : UInt8 := s.foldl (· ^^^ ·) 0

/-- The two hexadecimal digits of a checksum. -/
def checksumText (c : UInt8) : List UInt8 := padZeros 2 (printNat 16 c.toNat)

/-- What the checksum of a packet covers: header and contents. -/
def frameBody (t : PacketType) (contents : List UInt8) : List UInt8 :=
  packetHeaderStr t ++ comma :: contents

/-- The line of a packet. -/
def frame (t : PacketType) (contents : List UInt8) : List UInt8 :=
  dollar :: (frameBody t contents ++ star :: checksumText (xorSum (frameBody t contents)))

/-! ## XOR -/

theorem foldl_xor (a : UInt8) (s : List UInt8) : s.foldl (· ^^^ ·) a = a ^^^ xorSum s := by
  induction s generalizing a with
  | nil => simp [xorSum]
  | cons c s ih =>
    have hcons : xorSum (c :: s) = c ^^^ xorSum s := by
      rw [xorSum, List.foldl_cons, ih, UInt8.zero_xor]
    rw [List.foldl_cons, ih, hcons, UInt8.xor_assoc]

theorem xorSum_cons (c : UInt8) (s : List UInt8) : xorSum (c :: s) = c ^^^ xorSum s := by
  rw [xorSum, List.foldl_cons, UInt8.zero_xor, foldl_xor]

theorem xorSum_append (s t : List UInt8) : xorSum (s ++ t) = xorSum s ^^^ xorSum t := by
  rw [xorSum, List.foldl_append, foldl_xor]
  rfl

/-- **A single changed byte always shows in the XOR.** -/
theorem xorSum_set_eq_iff (s : List UInt8) {j : ℕ} (hj : j < s.length) (b : UInt8) :
    xorSum (s.set j b) = xorSum s ↔ s[j] = b := by
  have hsplit : xorSum s = xorSum (s.take j ++ s[j] :: s.drop (j + 1)) := by
    rw [← List.drop_eq_getElem_cons hj, List.take_append_drop]
  rw [hsplit, List.set_eq_take_append_cons_drop, if_pos hj, xorSum_append, xorSum_append,
    xorSum_cons, xorSum_cons, UInt8.xor_right_inj, UInt8.xor_left_inj]
  exact eq_comm

/-! ## Checksum text -/

theorem length_checksumText (c : UInt8) : (checksumText c).length = 2 :=
  length_padZeros_byte c.toNat_lt

theorem digitVal_of_mem_checksumText {c d : UInt8} (h : d ∈ checksumText c) : digitVal d < 16 :=
  digitVal_of_mem_padZeros h

theorem not_mem_checksumText {c d : UInt8} (h : digitVal d = 36) : d ∉ checksumText c := by
  intro hd
  have := digitVal_of_mem_checksumText hd
  omega

/-- A byte in hexadecimal digits, however many and in whatever case. -/
theorem ofInt_strtol_digits {c : UInt8} {digits rest : List UInt8} (hne : digits ≠ [])
    (hdigits : ∀ d ∈ digits, digitVal d < 16) (hval : readNat 16 digits = c.toNat)
    (hr : Ends rest) : UInt8.ofInt (strtol (digits ++ rest) scbsChecksumBase) = c := by
  have hlt := c.toNat_lt
  have hmod : ((c.toNat : ℤ) % 2 ^ 8).toNat = c.toNat := by omega
  rw [show scbsChecksumBase = 16 from rfl,
    strtol_digits (Or.inr rfl) hne hdigits hr (by omega), hval, UInt8.ofInt, hmod,
    UInt8.ofNat_toNat]

theorem ofInt_strtol_checksumText (c : UInt8) {rest : List UInt8} (hr : Ends rest) :
    UInt8.ofInt (strtol (checksumText c ++ rest) scbsChecksumBase) = c := by
  refine ofInt_strtol_digits ?_ (fun d hd => digitVal_of_mem_checksumText hd) ?_ hr
  · exact List.ne_nil_of_length_pos (by rw [length_checksumText]; decide)
  · rw [checksumText, readNat_padZeros (by omega), readNat_printNat_self (by omega) (by omega)]

/-! ## Headers -/

theorem length_packetHeaderStr (t : PacketType) : (packetHeaderStr t).length = 5 := by
  cases t <;> decide

theorem packetHeaderStr_plain (t : PacketType) :
    ∀ c ∈ packetHeaderStr t, c ≠ 0 ∧ c ≠ comma ∧ c ≠ star ∧ c ≠ dollar ∧ c ≠ 10 := by
  cases t <;> decide +kernel

theorem mem_packetTypes {t : PacketType} : t ∈ packetTypes ↔ t ≠ .unknown := by
  cases t <;> decide

theorem lookupHeader_packetHeaderStr {t : PacketType} (ht : t ≠ .unknown) :
    BSPacket.lookupHeader (packetHeaderStr t) = some t := by
  cases t
  all_goals first | exact absurd rfl ht | decide

theorem lookupHeader_eq_some {h : List UInt8} {t : PacketType}
    (hl : BSPacket.lookupHeader h = some t) : h = packetHeaderStr t ∧ t ≠ .unknown := by
  have hmem := List.mem_of_find?_eq_some hl
  have hp := List.find?_some hl
  exact ⟨by simpa using hp, mem_packetTypes.1 hmem⟩

theorem length_frame (t : PacketType) (contents : List UInt8) :
    (frame t contents).length = contents.length + 10 := by
  simp only [frame, frameBody, List.length_cons, List.length_append, length_packetHeaderStr,
    length_checksumText]
  omega

/-- A NUL and a newline are no part of a number. -/
theorem digitVal_of_end {c : UInt8} (hc : c = 0 ∨ c = 10) : digitVal c = 36 := by
  rcases hc with rfl | rfl <;> decide

theorem ne_comma_of_end {c : UInt8} (hc : c = 0 ∨ c = 10) : c ≠ comma := by
  rcases hc with rfl | rfl <;> decide

theorem comma_ne_star : comma ≠ star := by decide

theorem star_ne_comma : star ≠ comma := by decide

theorem star_ne_dollar : star ≠ dollar := by decide

/-- The first token of a frame is its header. -/
theorem comma_not_mem_header (t : PacketType) : comma ∉ dollar :: packetHeaderStr t :=
  List.not_mem_cons_of_ne_of_not_mem (by decide) fun h => (packetHeaderStr_plain t _ h).2.1 rfl

/-- The `*` that ends a frame is its first one. -/
theorem star_not_mem_frameBody (t : PacketType) {contents : List UInt8} (h : star ∉ contents) :
    star ∉ frameBody t contents :=
  not_mem_append_cons (fun hm => (packetHeaderStr_plain t _ hm).2.2.1 rfl) star_ne_comma h

/-- A NUL or a newline can only come into a frame with its contents. -/
theorem not_mem_frame {t : PacketType} {contents : List UInt8} {c : UInt8} (hc : c = 0 ∨ c = 10)
    (h : c ∉ contents) : c ∉ frame t contents := by
  have hhead : c ∉ packetHeaderStr t := by
    intro hm
    obtain ⟨h0, -, -, -, h10⟩ := packetHeaderStr_plain t c hm
    exact hc.elim h0 h10
  have hsum : c ∉ checksumText (xorSum (frameBody t contents)) :=
    not_mem_checksumText (digitVal_of_end hc)
  have hdollar : c ≠ dollar := by rcases hc with rfl | rfl <;> decide
  have hstar : c ≠ star := by rcases hc with rfl | rfl <;> decide
  have hbody : c ∉ frameBody t contents := not_mem_append_cons hhead (ne_comma_of_end hc) h
  exact List.not_mem_cons_of_ne_of_not_mem hdollar (not_mem_append_cons hbody hstar hsum)

/-! ## The checksum of a line -/

namespace BSPacket

/-- The checksum covers what stands between the first `$` and the first `*`. -/
theorem calculateChecksum_eq {pre body rest : List UInt8} (hpre : dollar ∉ pre)
    (hpre' : star ∉ pre) (hbody : star ∉ body)
    (hlen : pre.length + body.length + 1 ≤ kMaxPacketLen) :
    calculateChecksum (pre ++ dollar :: (body ++ star :: rest)) = xorSum body := by
  have hstar : strchr (pre ++ dollar :: (body ++ star :: rest)) star = some (star :: rest) := by
    have hno : star ∉ pre ++ dollar :: body := not_mem_append_cons hpre' star_ne_dollar hbody
    simpa using strchr_append (v := rest) hno
  have htake : pre.length + 1 + (body.length + (rest.length + 1)) - (rest.length + 1)
      = (pre ++ dollar :: body).length := by
    rw [List.length_append, List.length_cons]; omega
  have hdrop : pre.length + 1 + (body.length + (rest.length + 1)) -
      (1 + (body.length + (rest.length + 1))) + 1 = (pre ++ [dollar]).length := by
    rw [List.length_append, List.length_singleton]; omega
  have hsplit : pre ++ dollar :: (body ++ star :: rest) =
      (pre ++ dollar :: body) ++ star :: rest := by
    simp
  simp only [calculateChecksum, strchr_append hpre, hstar, List.length_append, List.length_cons]
  rw [show pre.length + (body.length + (rest.length + 1) + 1) - (rest.length + 1)
      = (pre ++ dollar :: body).length by rw [List.length_append, List.length_cons]; omega,
    show pre.length + (body.length + (rest.length + 1) + 1) - (body.length + (rest.length + 1) + 1)
      + 1 = (pre ++ [dollar]).length by rw [List.length_append, List.length_singleton]; omega,
    min_eq_left (by rw [List.length_append, List.length_cons]; omega), hsplit, List.take_left,
    show pre ++ dollar :: body = (pre ++ [dollar]) ++ body by simp, List.drop_left, xorSum]

/-- A line without a `*` has checksum 0. -/
theorem calculateChecksum_no_star {s : List UInt8} (h : star ∉ s) : calculateChecksum s = 0 := by
  rw [calculateChecksum, strchr_none h]
  cases strchr s dollar <;> rfl

/-! ## Writing a frame -/

/-- **What `PacketizeContents` writes**, as long as there is room for the `*`. -/
theorem packetStr_packetizeContents (self : BSPacket) {contents : List UInt8}
    (hstar : star ∉ contents) (hlen : contents.length ≤ 188) :
    (self.packetizeContents contents).packetStr = frame self.packetType contents := by
  have hh := length_packetHeaderStr self.packetType
  have hbody := star_not_mem_frameBody self.packetType hstar
  have htext : dollar :: packetHeaderStr self.packetType ++ comma :: contents ++ [star]
      = [] ++ dollar :: (frameBody self.packetType contents ++ star :: []) := by
    simp [frameBody]
  have hsnp : snprintf (kMaxPacketLen - kPacketTailLen)
      (dollar :: packetHeaderStr self.packetType ++ comma :: contents ++ [star])
      = [] ++ dollar :: (frameBody self.packetType contents ++ star :: []) := by
    rw [snprintf, List.take_of_length_le, htext]
    simp only [List.length_append, List.length_cons, List.length_nil, hh]
    simp only [kMaxPacketLen, kPacketTailLen]
    omega
  have hsum : calculateChecksum ([] ++ dollar :: (frameBody self.packetType contents ++ star :: []))
      = xorSum (frameBody self.packetType contents) := by
    refine calculateChecksum_eq (by simp) (by simp) hbody ?_
    simp only [frameBody, List.length_append, List.length_cons, List.length_nil, hh]
    simp only [kMaxPacketLen]
    omega
  have htail : snprintf kPacketTailLen (checksumText (xorSum (frameBody self.packetType contents)))
      = checksumText (xorSum (frameBody self.packetType contents)) :=
    List.take_of_length_le (length_checksumText _).le
  simp only [packetizeContents, hsnp, hsum]
  rw [← checksumText, htail]
  simp [frame]

/-- Whatever the contents, a packet's string starts with its header. -/
theorem take_packetStr_packetizeContents (self : BSPacket) (contents : List UInt8) :
    (self.packetizeContents contents).packetStr.take 6 =
      dollar :: packetHeaderStr self.packetType := by
  have hh := length_packetHeaderStr self.packetType
  have hbody : snprintf (kMaxPacketLen - kPacketTailLen)
      (dollar :: packetHeaderStr self.packetType ++ comma :: contents ++ [star]) =
      dollar :: packetHeaderStr self.packetType ++ (comma :: contents ++ [star]).take 190 := by
    rw [snprintf, List.append_assoc, List.take_append,
      List.take_of_length_le (by rw [List.length_cons, hh]; decide), List.length_cons, hh]
    rfl
  simp only [packetizeContents, hbody]
  rw [List.append_assoc]
  exact List.take_left' (by rw [List.length_cons, hh])

/-! ## Reading a frame -/

/-- `BSPacket::FromString` accepts `line` as a packet of type `t`. -/
structure Accepts (stack : Stack) (line : List UInt8) (t : PacketType) : Prop where
  checksum : ∃ endTokenPtr, strchr line star = some endTokenPtr ∧
    calculateChecksum line = UInt8.ofInt (strtol endTokenPtr.tail scbsChecksumBase)
  header : ∃ headerStr, strtokMem comma (headerBuf stack line) = some (some headerStr) ∧
    lookupHeader headerStr.tail = some t

theorem fromString_of_accepts {stack : Stack} {line : List UInt8} {t : PacketType}
    (h : Accepts stack line t) (self : BSPacket) :
    fromString stack self line = .ok { packetStr := line, isValid := true, packetType := t } := by
  obtain ⟨⟨e, he, hsum⟩, hdr, hh, ht⟩ := h
  simp only [fromString, he, hsum, ne_eq, not_true_eq_false, if_false, hh, ht]

/-- **What `BSPacket::FromString` can do**: accept, or reject and say so. -/
theorem fromString_cases {stack : Stack} {self p : BSPacket} {line : List UInt8}
    (h : fromString stack self line = .ok p) :
    p = { self with packetStr := line, isValid := false } ∨
      ∃ t, Accepts stack line t ∧ p = { packetStr := line, isValid := true, packetType := t } := by
  simp only [fromString] at h
  split at h
  · exact Or.inl (Except.ok.inj h).symm
  · rename_i e he
    split at h
    · exact Or.inl (Except.ok.inj h).symm
    · rename_i hsum
      split at h
      · exact absurd h (by simp)
      · exact absurd h (by simp)
      · rename_i hdr hh
        split at h
        · exact Or.inl (Except.ok.inj h).symm
        · rename_i t ht
          exact Or.inr ⟨t, ⟨⟨e, he, not_not.1 hsum⟩, hdr, hh, ht⟩, (Except.ok.inj h).symm⟩

theorem Accepts.star_mem {stack : Stack} {line : List UInt8} {t : PacketType}
    (h : Accepts stack line t) : star ∈ line := by
  obtain ⟨⟨e, he, -⟩, -⟩ := h
  by_contra hs
  rw [strchr_none hs] at he
  exact absurd he (by simp)

/-- A valid `BSPacket` was accepted as its type. -/
theorem accepts_of_isValid {stack : Stack} {line : List UInt8} {p : BSPacket}
    (h : ofString stack line = .ok p) (hv : p.isValid = true) :
    Accepts stack line p.packetType := by
  rcases fromString_cases h with rfl | ⟨t, ht, rfl⟩
  · exact absurd hv (by simp)
  · exact ht

/-- A copy that takes in a delimiter takes in what stands before it. -/
theorem strncpyMem_append (dst : List UInt8) {u v : List UInt8} {c : UInt8} {n : ℕ}
    (h : u.length < n) :
    ∃ rest, strncpyMem dst (u ++ c :: v) n = u ++ c :: rest := by
  obtain ⟨m, rfl⟩ : ∃ m, n = u.length + 1 + m := ⟨n - u.length - 1, by omega⟩
  refine ⟨v.take m ++ List.replicate (u.length + 1 + m - (u ++ c :: v).length) 0 ++
    dst.drop (u.length + 1 + m), ?_⟩
  have htake : (u ++ c :: v).take (u.length + 1 + m) = u ++ c :: v.take m := by
    rw [List.take_append, List.take_of_length_le (by omega)]
    simp [show u.length + 1 + m - u.length = m + 1 by omega]
  rw [strncpyMem, htake]
  simp

/-- The first token of a line is found when its delimiter is among the bytes copied. -/
theorem strtokMem_headerBuf_field (stack : Stack) (k : ℕ) {u : List UInt8} (rest : List UInt8)
    (hu : u ≠ []) (hcomma : comma ∉ u) (h0 : (0 : UInt8) ∉ u)
    (hlen : k + u.length < kMaxPacketFieldLen) :
    strtokMem comma (headerBuf stack (List.replicate k comma ++ u ++ comma :: rest)) =
      some (some u) := by
  obtain ⟨r, hr⟩ : ∃ r, strncpyMem stack.toList (List.replicate k comma ++ u ++ comma :: rest)
      kMaxPacketFieldLen = List.replicate k comma ++ u ++ comma :: r := by
    refine strncpyMem_append stack.toList ?_
    rw [List.length_append, List.length_replicate]
    exact hlen
  rw [headerBuf, hr, List.append_assoc]
  exact strtokMem_field k hu hcomma h0 (Or.inl rfl)

/-- So is one that ends with a short line. -/
theorem strtokMem_headerBuf_whole (stack : Stack) (k : ℕ) {u : List UInt8} (hu : u ≠ [])
    (hcomma : comma ∉ u) (h0 : (0 : UInt8) ∉ u) (hlen : k + u.length < kMaxPacketFieldLen) :
    strtokMem comma (headerBuf stack (List.replicate k comma ++ u)) = some (some u) := by
  have hline : (List.replicate k comma ++ u).length = k + u.length := by
    rw [List.length_append, List.length_replicate]
  obtain ⟨m, hm⟩ : ∃ m, kMaxPacketFieldLen - (k + u.length) = m + 1 :=
    ⟨kMaxPacketFieldLen - (k + u.length) - 1, by omega⟩
  have hcopy : strncpyMem stack.toList (List.replicate k comma ++ u) kMaxPacketFieldLen =
      List.replicate k comma ++
        (u ++ 0 :: (List.replicate m 0 ++ stack.toList.drop kMaxPacketFieldLen)) := by
    rw [strncpyMem, List.take_of_length_le (hline.trans_le hlen.le), hline, hm,
      List.replicate_succ, List.append_assoc, List.append_assoc, List.cons_append]
  rw [headerBuf, hcopy]
  exact strtokMem_field k hu hcomma h0 (Or.inr rfl)

/-- The header of a line that starts with one is found, whatever the array held. -/
theorem strtokMem_headerBuf (stack : Stack) (t : PacketType) (rest : List UInt8) :
    strtokMem comma (headerBuf stack (dollar :: (packetHeaderStr t ++ comma :: rest)))
      = some (some (dollar :: packetHeaderStr t)) := by
  have hnul : (0 : UInt8) ∉ dollar :: packetHeaderStr t :=
    List.not_mem_cons_of_ne_of_not_mem (by decide) fun h => (packetHeaderStr_plain t _ h).1 rfl
  have hlen : 0 + (dollar :: packetHeaderStr t).length < kMaxPacketFieldLen := by
    rw [List.length_cons, length_packetHeaderStr]
    decide
  exact strtokMem_headerBuf_field stack 0 rest (List.cons_ne_nil _ _) (comma_not_mem_header t)
    hnul hlen

/-- **A line with a header is accepted** as the type of the header exactly when `strtol`
reads the XOR of header and contents behind the first `*`. -/
theorem accepts_line_iff (stack : Stack) {t : PacketType} (ht : t ≠ .unknown)
    {contents rest : List UInt8} (hstar : star ∉ contents) (hlen : contents.length ≤ 193) :
    Accepts stack (dollar :: (frameBody t contents ++ star :: rest)) t ↔
      UInt8.ofInt (strtol rest scbsChecksumBase) = xorSum (frameBody t contents) := by
  have hh := length_packetHeaderStr t
  have hbody := star_not_mem_frameBody t hstar
  have hno : star ∉ dollar :: frameBody t contents :=
    List.not_mem_cons_of_ne_of_not_mem star_ne_dollar hbody
  have hfind : strchr (dollar :: (frameBody t contents ++ star :: rest)) star =
      some (star :: rest) := by simpa using strchr_append (v := rest) hno
  have hsum : calculateChecksum (dollar :: (frameBody t contents ++ star :: rest)) =
      xorSum (frameBody t contents) := by
    refine calculateChecksum_eq (List.not_mem_nil (a := dollar)) (by simp) hbody ?_
    simp only [frameBody, List.length_append, List.length_cons, List.length_nil, hh]
    simp only [kMaxPacketLen]
    omega
  constructor
  · rintro ⟨⟨e, he, hcheck⟩, -⟩
    rw [hfind] at he
    obtain rfl := Option.some.inj he
    rw [hsum] at hcheck
    exact hcheck.symm
  · intro hcheck
    refine ⟨⟨star :: rest, hfind, by rw [hsum, List.tail_cons, hcheck]⟩, dollar ::
      packetHeaderStr t, ?_, by rw [List.tail_cons, lookupHeader_packetHeaderStr ht]⟩
    rw [show dollar :: (frameBody t contents ++ star :: rest) =
      dollar :: (packetHeaderStr t ++ comma :: (contents ++ star :: rest)) by simp [frameBody]]
    exact strtokMem_headerBuf stack t _

/-- **A frame is accepted as its own type.** -/
theorem accepts_frame (stack : Stack) {t : PacketType} (ht : t ≠ .unknown)
    {contents tail : List UInt8} (hstar : star ∉ contents) (htail : Ends tail)
    (hlen : contents.length ≤ 190) : Accepts stack (frame t contents ++ tail) t := by
  have hline : frame t contents ++ tail = dollar :: (frameBody t contents ++
      star :: (checksumText (xorSum (frameBody t contents)) ++ tail)) := by
    simp [frame]
  rw [hline, accepts_line_iff stack ht hstar (by omega)]
  exact ofInt_strtol_checksumText _ htail

end BSPacket

end Scbs
