import Scbs.Comms.RoundTrip
import Scbs.Comms.Tokens

/-!
# Multi-read packets

`MRDPacket::ToString` appends values until less than a whole field of room is
left, and `MRDPacket::FromString` cuts a list of any length back out of a line.

* `joinFields` — values as they stand in a packet, each with its comma;
  `appendValues_eq`: the loop of `ToString` joins the first `numAppended` of them.
* `keptFields` — the values `strtok` finds among fields that may be empty.
* `ofString_fields` — **what the parser reads** from a packet with any list of
  fields: at most 20 values, each cut to 19 bytes.
-/

namespace Scbs

open CLib

/-- Values as they stand in a packet, each with its comma. -/
def joinFields (vs : List (List UInt8)) : List UInt8 := (vs.map (comma :: ·)).flatten

@[simp] theorem joinFields_nil : joinFields [] = [] := rfl

@[simp] theorem joinFields_cons (v : List UInt8) (vs : List (List UInt8)) :
    joinFields (v :: vs) = comma :: (v ++ joinFields vs) := by
  simp [joinFields]

theorem not_mem_joinFields {c : UInt8} {vs : List (List UInt8)} (hc : c ≠ comma)
    (h : ∀ v ∈ vs, c ∉ v) : c ∉ joinFields vs := by
  induction vs with
  | nil => simp
  | cons v vs ih =>
    obtain ⟨hv, hvs⟩ := List.forall_mem_cons.1 h
    rw [joinFields_cons, List.mem_cons, List.mem_append, not_or, not_or]
    exact ⟨hc, hv, ih hvs⟩

/-- The length of contents that start with `len` bytes and go on with the fields. -/
def usedLen (len : ℕ) (vs : List (List UInt8)) : ℕ := len + (vs.map (·.length + 1)).sum

@[simp] theorem usedLen_nil (len : ℕ) : usedLen len [] = len := by simp [usedLen]

theorem usedLen_cons (len : ℕ) (v : List UInt8) (vs : List (List UInt8)) :
    usedLen len (v :: vs) = usedLen (len + (v.length + 1)) vs := by
  simp only [usedLen, List.map_cons, List.sum_cons]
  omega

theorem usedLen_append (len : ℕ) (vs ws : List (List UInt8)) :
    usedLen len (vs ++ ws) = usedLen (usedLen len vs) ws := by
  simp only [usedLen, List.map_append, List.sum_append]
  omega

theorem length_joinFields (len : ℕ) (vs : List (List UInt8)) :
    len + (joinFields vs).length = usedLen len vs := by
  induction vs generalizing len with
  | nil => simp
  | cons v vs ih =>
    rw [usedLen_cons, ← ih, joinFields_cons, List.length_cons, List.length_append]
    omega

theorem usedLen_take_le (len : ℕ) {i j : ℕ} (h : i ≤ j) (vs : List (List UInt8)) :
    usedLen len (vs.take i) ≤ usedLen len (vs.take j) := by
  have hsplit := List.take_append_drop i (vs.take j)
  rw [List.take_take, min_eq_left h] at hsplit
  rw [← hsplit, usedLen_append]
  exact Nat.le_add_right _ _

/-! ## Writing -/

namespace MRDPacket

/-- How many of the values `ToString` appends to contents of length `len`. -/
def numAppended : ℕ → List (List UInt8) → ℕ
  | _, [] => 0
  | len, v :: vs => if 170 ≤ len then 0 else numAppended (len + (v.length + 1)) vs + 1

theorem numAppended_le (len : ℕ) (vs : List (List UInt8)) : numAppended len vs ≤ vs.length := by
  induction vs generalizing len with
  | nil => simp [numAppended]
  | cons v vs ih =>
    rw [numAppended, List.length_cons]
    by_cases hlen : 170 ≤ len
    · rw [if_pos hlen]
      omega
    · rw [if_neg hlen]
      have := ih (len + (v.length + 1))
      omega

/-- Each value that is appended found room for a whole field. -/
theorem usedLen_lt_of_lt_numAppended {len i : ℕ} {vs : List (List UInt8)}
    (h : i < numAppended len vs) : usedLen len (vs.take i) < 170 := by
  induction vs generalizing len i with
  | nil => simp [numAppended] at h
  | cons v vs ih =>
    unfold numAppended at h
    by_cases hlen : 170 ≤ len
    · rw [if_pos hlen] at h
      omega
    · rw [if_neg hlen] at h
      cases i with
      | zero => simp only [List.take_zero, usedLen_nil]; omega
      | succ i =>
        rw [List.take_succ_cons, usedLen_cons]
        exact ih (by omega)

/-- The loop stops early only where a whole field has no room. -/
theorem le_usedLen_of_numAppended_lt {len : ℕ} {vs : List (List UInt8)}
    (h : numAppended len vs < vs.length) : 170 ≤ usedLen len (vs.take (numAppended len vs)) := by
  induction vs generalizing len with
  | nil => simp at h
  | cons v vs ih =>
    rw [numAppended, List.length_cons] at h
    unfold numAppended
    by_cases hlen : 170 ≤ len
    · rw [if_pos hlen]
      simpa using hlen
    · rw [if_neg hlen] at h
      rw [if_neg hlen, List.take_succ_cons, usedLen_cons]
      exact ih (by omega)

/-- The loop of `ToString` joins the values it appends. -/
theorem appendValues_eq {vs : List (List UInt8)} (hvs : ∀ v ∈ vs, v.length ≤ 19)
    (contents : List UInt8) :
    appendValues contents vs =
      contents ++ joinFields (vs.take (numAppended contents.length vs)) := by
  induction vs generalizing contents with
  | nil => simp [appendValues]
  | cons v vs ih =>
    rw [appendValues, show kMaxPacketContentsLen - kMaxPacketFieldLen - 1 = 170 from rfl,
      numAppended]
    by_cases h : 170 ≤ contents.length
    · rw [if_pos h, if_pos h]
      simp
    · have hv := hvs v (by simp)
      have hsn : snprintf (kMaxPacketFieldLen + 1) (comma :: v) = comma :: v :=
        List.take_of_length_le (by simp only [List.length_cons, kMaxPacketFieldLen]; omega)
      rw [if_neg h, if_neg h, hsn, ih fun w hw => hvs w (by simp [hw])]
      simp

/-- The contents that `ToString` builds. -/
def contents (addr : UInt32) (vs : List (List UInt8)) : List UInt8 :=
  printNat 16 addr.toNat ++
    joinFields (vs.take (numAppended (printNat 16 addr.toNat).length vs))

section Contents

variable (addr : UInt32) {vs : List (List UInt8)}

theorem length_contents (vs : List (List UInt8)) : (contents addr vs).length =
    usedLen (printNat 16 addr.toNat).length
      (vs.take (numAppended (printNat 16 addr.toNat).length vs)) := by
  rw [contents, List.length_append, length_joinFields]

/-- The last value can take the contents one byte past the room for the `*`. -/
theorem length_contents_le (hvs : ∀ v ∈ vs, v.length ≤ 19) : (contents addr vs).length ≤ 189 := by
  rw [length_contents]
  have haddr := length_printNat_addr addr
  cases hk : numAppended (printNat 16 addr.toNat).length vs with
  | zero => simp only [List.take_zero, usedLen_nil]; omega
  | succ k =>
    have hkle := numAppended_le (printNat 16 addr.toNat).length vs
    have hlt := usedLen_lt_of_lt_numAppended
      (show k < numAppended (printNat 16 addr.toNat).length vs by omega)
    have hklt : k < vs.length := by omega
    have hlen : vs[k].length ≤ 19 := hvs _ (List.getElem_mem hklt)
    rw [List.take_succ_eq_append_getElem hklt, usedLen_append]
    simp only [usedLen, List.map_cons, List.map_nil, List.sum_cons, List.sum_nil] at hlt ⊢
    omega

theorem star_not_mem_contents (hvs : ∀ v ∈ vs, star ∉ v) : star ∉ contents addr vs := by
  rw [contents, List.mem_append, not_or]
  refine ⟨star_not_mem_printNat (Or.inr rfl), not_mem_joinFields star_ne_comma ?_⟩
  intro v hv
  exact hvs v (List.mem_of_mem_take hv)

omit addr in
theorem toStr_contents (p : MRDPacket) (hvs : ∀ v ∈ p.values.take p.numValues, v.length ≤ 19) :
    p.toStr.packetStr = (p.toBSPacket.packetizeContents
      (contents p.regAddr (p.values.take p.numValues))).packetStr := by
  have haddr := length_printNat_addr p.regAddr
  have hsn := snprintf_contents (s := printNat 16 p.regAddr.toNat) (by omega)
  rw [toStr, hsn, appendValues_eq hvs, ← contents]

omit addr in
/-- The string of a multi-read packet whose contents leave room for the `*`. -/
theorem packetStr_toStr (p : MRDPacket) (hvs : ∀ v ∈ p.values.take p.numValues, v.length ≤ 19)
    (hstar : ∀ v ∈ p.values.take p.numValues, star ∉ v)
    (hlen : (contents p.regAddr (p.values.take p.numValues)).length ≤ 188) :
    p.toStr.packetStr = frame p.packetType (contents p.regAddr (p.values.take p.numValues)) := by
  rw [toStr_contents p hvs]
  exact BSPacket.packetStr_packetizeContents _ (star_not_mem_contents _ hstar) hlen

theorem ofValues_contents (hvs : ∀ v ∈ vs, v.length ≤ 19) (h0 : ∀ v ∈ vs, (0 : UInt8) ∉ v) :
    (ofValues addr vs vs.length).toStr = (ofValues addr vs vs.length) ∧
    (ofValues addr vs vs.length).packetStr =
      (BSPacket.packetizeContents { packetType := .mrd } (contents addr vs)).packetStr := by
  have hmap : (vs.take vs.length).map fieldOf = vs := by
    rw [List.take_length]
    refine (List.map_congr_left ?_).trans (List.map_id vs)
    intro v hv
    rw [fieldOf, cstr_of_no_nul (h0 v hv)]
    exact List.take_of_length_le (hvs v hv)
  refine ⟨rfl, ?_⟩
  rw [ofValues, hmap]
  have hstr := toStr_contents
    { packetType := .mrd, regAddr := addr, values := vs, numValues := vs.length }
    (by rw [List.take_length]; exact hvs)
  rw [List.take_length] at hstr
  exact hstr

/-- The same for a packet built from its values. -/
theorem packetStr_ofValues (hvs : ∀ v ∈ vs, v.length ≤ 19) (h0 : ∀ v ∈ vs, (0 : UInt8) ∉ v)
    (hstar : ∀ v ∈ vs, star ∉ v) (hlen : (contents addr vs).length ≤ 188) :
    (ofValues addr vs vs.length).toStr.packetStr = frame .mrd (contents addr vs) := by
  obtain ⟨hstr, hpacket⟩ := ofValues_contents addr hvs h0
  rw [hstr, hpacket]
  exact BSPacket.packetStr_packetizeContents _ (star_not_mem_contents addr hstar) hlen

/-- Contents of 189 bytes push the `*` out of the packet. -/
theorem star_not_mem_packetStr (hvs : ∀ v ∈ vs, v.length ≤ 19) (h0 : ∀ v ∈ vs, (0 : UInt8) ∉ v)
    (hstar : ∀ v ∈ vs, star ∉ v) (hlen : (contents addr vs).length = 189) :
    star ∉ (ofValues addr vs vs.length).toStr.packetStr := by
  obtain ⟨hstr, hpacket⟩ := ofValues_contents addr hvs h0
  have hcont := star_not_mem_contents addr hstar
  have hhead := length_packetHeaderStr .mrd
  have htake : snprintf (kMaxPacketLen - kPacketTailLen)
      (dollar :: packetHeaderStr .mrd ++ comma :: contents addr vs ++ [star])
      = dollar :: packetHeaderStr .mrd ++ comma :: contents addr vs := by
    refine List.take_left' ?_
    simp only [List.length_append, List.length_cons, hhead, hlen, kMaxPacketLen, kPacketTailLen]
  have hbody : star ∉ dollar :: packetHeaderStr .mrd ++ comma :: contents addr vs :=
    List.not_mem_cons_of_ne_of_not_mem star_ne_dollar (star_not_mem_frameBody .mrd hcont)
  rw [hstr, hpacket, BSPacket.packetizeContents]
  simp only [htake, BSPacket.calculateChecksum_no_star hbody, List.mem_append, not_or]
  exact ⟨by simpa [and_assoc] using hbody, by decide⟩

end Contents

end MRDPacket

/-! ## Reading -/

/-- The values `strtok` finds in the fields `v`, then `vs`: an empty field vanishes,
except for the last one, which has the `*` behind it. -/
def keptFields : List UInt8 → List (List UInt8) → List (List UInt8)
  | v, [] => [v]
  | v, w :: ws => if v = [] then keptFields w ws else v :: keptFields w ws

theorem length_keptFields_le (v : List UInt8) (vs : List (List UInt8)) :
    (keptFields v vs).length ≤ vs.length + 1 := by
  induction vs generalizing v with
  | nil => simp [keptFields]
  | cons w ws ih =>
    have := ih w
    unfold keptFields
    by_cases hv : v = []
    · rw [if_pos hv, List.length_cons]
      omega
    · rw [if_neg hv, List.length_cons, List.length_cons]
      omega

/-- Nothing vanishes exactly when all fields but the last are non-empty. -/
theorem keptFields_eq_iff (v : List UInt8) (vs : List (List UInt8)) :
    keptFields v vs = v :: vs ↔ ∀ w ∈ (v :: vs).dropLast, w ≠ [] := by
  induction vs generalizing v with
  | nil => simp [keptFields]
  | cons w ws ih =>
    rw [keptFields, List.dropLast_cons_cons]
    by_cases hv : v = []
    · rw [if_pos hv]
      constructor
      · intro h
        have hlen := congrArg List.length h
        have := length_keptFields_le w ws
        simp only [List.length_cons] at hlen
        omega
      · intro h
        exact absurd hv (h v (by simp))
    · rw [if_neg hv, List.cons.injEq, ih w]
      simp only [List.mem_cons, forall_eq_or_imp, true_and]
      constructor
      · intro h
        exact ⟨hv, h⟩
      · intro h
        exact h.2

/-- With nothing lost in number, nothing is lost at all. -/
theorem keptFields_eq_of_length {v : List UInt8} {vs : List (List UInt8)}
    (h : (keptFields v vs).length = vs.length + 1) : keptFields v vs = v :: vs := by
  induction vs generalizing v with
  | nil => rfl
  | cons w ws ih =>
    have hle := length_keptFields_le w ws
    unfold keptFields at h ⊢
    by_cases hv : v = []
    · rw [if_pos hv, List.length_cons] at h
      omega
    · rw [if_neg hv] at h
      rw [if_neg hv, ih (by simpa using h)]

theorem mem_of_mem_keptFields {v w : List UInt8} {vs : List (List UInt8)}
    (h : w ∈ keptFields v vs) : w ∈ v :: vs := by
  induction vs generalizing v with
  | nil => exact h
  | cons x xs ih =>
    unfold keptFields at h
    by_cases hv : v = []
    · rw [if_pos hv] at h
      exact List.mem_cons_of_mem _ (ih h)
    · rw [if_neg hv] at h
      rcases List.mem_cons.1 h with rfl | h
      · exact List.mem_cons_self
      · exact List.mem_cons_of_mem _ (ih h)

/-- **The tokens of fields that end in the packet's end**, which stays with the
last one. -/
theorem tokens_fields {E : List UInt8} (hE : comma ∉ E) (v : List UInt8) (vs : List (List UInt8))
    (hvs : ∀ w ∈ v :: vs, comma ∉ w) :
    ∃ ini last, keptFields v vs = ini ++ [last] ∧
      tokens comma (v ++ (joinFields vs ++ star :: E)) = ini ++ [last ++ star :: E] := by
  induction vs generalizing v with
  | nil =>
    refine ⟨[], v, rfl, tokens_last (by simp) ?_⟩
    rw [joinFields_nil, List.nil_append]
    exact not_mem_append_cons (hvs v (by simp)) comma_ne_star hE
  | cons w ws ih =>
    obtain ⟨ini, last, hkept, htok⟩ := ih w fun x hx => hvs x (List.mem_cons_of_mem _ hx)
    rw [keptFields, joinFields_cons, List.cons_append, List.append_assoc]
    by_cases hv : v = []
    · exact ⟨ini, last, by rw [if_pos hv, hkept], by rw [hv, List.nil_append, tokens_delim, htok]⟩
    · exact ⟨v :: ini, last, by rw [if_neg hv, hkept]; rfl,
        by rw [tokens_field hv (hvs v (by simp)), htok]; rfl⟩

namespace MRDPacket

section Read

variable {E : List UInt8}

/-- The values found in a line with the fields `vs` after the address. -/
def foundValues : List (List UInt8) → List (List UInt8)
  | [] => []
  | v :: vs => (keptFields v vs).map (·.take 19)

/-- **What `MRDPacket::FromString` reads** from an accepted line with the address
text `a` and the fields `vs`. -/
theorem ofString_fields {stack : Stack} {t : PacketType} {line a : List UInt8} {addr : UInt32}
    {vs : List (List UInt8)} (hacc : BSPacket.Accepts stack line t)
    (hline : line = dollar :: (packetHeaderStr .mrd ++
      comma :: (a ++ (joinFields vs ++ star :: E))))
    (ha : a ≠ []) (hac : comma ∉ a)
    (haddr : ∀ rest, Ends rest → UInt32.ofNat (strtoul (a ++ rest) 16) = addr)
    (has : star ∉ a) (hvs : ∀ v ∈ vs, comma ∉ v ∧ star ∉ v) (hE : comma ∉ E) :
    ofString stack line = .ok (stored
      { packetStr := line, isValid := false, packetType := t, regAddr := addr }
      [] (foundValues vs) kMaxNumValues) := by
  have htok : tokens comma line = (dollar :: packetHeaderStr .mrd) ::
      tokens comma (a ++ (joinFields vs ++ star :: E)) := by
    rw [hline, ← List.cons_append, tokens_field (List.cons_ne_nil _ _) (by decide)]
  rw [ofString_tokens hacc, htok, ofTokens, withHeader, if_pos rfl]
  cases vs with
  | nil =>
    have hlast : tokens comma (a ++ star :: E) = [a ++ star :: E] :=
      tokens_last (by simp) (not_mem_append_cons hac comma_ne_star hE)
    rw [joinFields_nil, List.nil_append, hlast]
    simp only [addrOf, show scbsAddrBase = 16 from rfl,
      haddr _ (ends_cons.2 (by decide : digitVal star = 36))]
    exact storeTokens_of_free [] kMaxNumValues (by simp) rfl rfl
  | cons v vs =>
    obtain ⟨ini, last, hkept, hini⟩ := tokens_fields hE v vs fun w hw => (hvs w hw).1
    have hfree : ∀ w ∈ ini ++ [last], star ∉ w := fun w hw =>
      (hvs w (mem_of_mem_keptFields (by rw [hkept]; exact hw))).2
    have hmap : (ini ++ [last ++ star :: E]).map valueOf = (ini ++ [last]).map (·.take 19) := by
      rw [List.map_append, List.map_append, List.map_congr_left fun w hw =>
        valueOf_of_not_mem (hfree w (List.mem_append_left _ hw))]
      simp [valueOf_append (hfree last (by simp))]
    have hread : addrOf a = addr := by
      rw [addrOf, show scbsAddrBase = 16 from rfl]
      simpa using haddr [] ends_nil
    rw [joinFields_cons, List.cons_append, List.append_assoc, tokens_field ha hac, hini]
    rw [foundValues, hkept, ← hmap]
    simp only [hread]
    refine storeTokens_of_free [] kMaxNumValues ?_ rfl rfl
    rw [← List.cons_append, List.dropLast_concat]
    intro tok htok
    rcases List.mem_cons.1 htok with rfl | htok
    · exact has
    · exact hfree tok (List.mem_append_left _ htok)

/-- The same for the string of a packet that was written with the address and the
fields. -/
theorem ofString_frame (stack : Stack) (addr : UInt32) {vs : List (List UInt8)}
    {tail : List UInt8} (ht : Tail tail) (hvs : ∀ v ∈ vs, comma ∉ v ∧ star ∉ v)
    (hlen : (printNat 16 addr.toNat ++ joinFields vs).length ≤ 190) :
    ofString stack (frame .mrd (printNat 16 addr.toNat ++ joinFields vs) ++ tail) =
      .ok (stored { packetStr := frame .mrd (printNat 16 addr.toNat ++ joinFields vs) ++ tail,
                    isValid := false, packetType := .mrd, regAddr := addr }
        [] (foundValues vs) kMaxNumValues) := by
  have hstar : star ∉ printNat 16 addr.toNat ++ joinFields vs := by
    rw [List.mem_append, not_or]
    refine ⟨star_not_mem_printNat (Or.inr rfl), not_mem_joinFields star_ne_comma ?_⟩
    intro v hv
    exact (hvs v hv).2
  have hacc := BSPacket.accepts_frame stack (t := .mrd) (by decide) hstar ht.ends hlen
  refine ofString_fields (a := printNat 16 addr.toNat) hacc ?_ (printNat_ne_nil _ _)
    (comma_not_mem_printNat (Or.inr rfl)) (fun rest hr => ?_)
    (star_not_mem_printNat (Or.inr rfl)) hvs (comma_not_mem_ending ht
      (xorSum (frameBody .mrd (printNat 16 addr.toNat ++ joinFields vs))))
  · rw [frame_append, List.append_assoc]
  · rw [strtoul_printNat (Or.inr rfl) addr.toNat_lt hr, UInt32.ofNat_toNat]

end Read

end MRDPacket

/-! ## Lines from elsewhere -/

/-- **A multi-read line**: an address of one to eight hexadecimal digits and fields that are
not empty, then two digits that make up the checksum, and a line end or none. -/
structure IsMultiRead (line addr : List UInt8) (fields : List (List UInt8)) : Prop where
  fits : line.length < kMaxPacketLen
  addr_ne_nil : addr ≠ []
  addr_length : addr.length ≤ 8
  addr_digits : ∀ c ∈ addr, digitVal c < 16
  fields_plain : ∀ f ∈ fields, f ≠ [] ∧ comma ∉ f ∧ star ∉ f ∧ (0 : UInt8) ∉ f
  form : ∃ digits tail, line = dollar :: (frameBody .mrd (addr ++ joinFields fields) ++
      star :: (digits ++ tail)) ∧ digits.length = 2 ∧ (∀ c ∈ digits, digitVal c < 16) ∧
    readNat 16 digits = (xorSum (frameBody .mrd (addr ++ joinFields fields))).toNat ∧
    (tail = [] ∨ tail = [13, 10])

namespace IsMultiRead

variable {line addr : List UInt8} {fields : List (List UInt8)}

theorem not_mem_addr (h : IsMultiRead line addr fields) {c : UInt8} (hc : digitVal c = 36) :
    c ∉ addr := by
  intro hm
  have := h.addr_digits c hm
  omega

theorem star_not_mem_contents (h : IsMultiRead line addr fields) :
    star ∉ addr ++ joinFields fields := by
  rw [List.mem_append, not_or]
  exact ⟨h.not_mem_addr (by decide), not_mem_joinFields star_ne_comma fun f hf =>
    (h.fields_plain f hf).2.2.1⟩

/-- The address fits into its member. -/
theorem readNat_lt (h : IsMultiRead line addr fields) : readNat 16 addr < 2 ^ 32 := by
  refine lt_of_lt_of_le (readNat_lt_pow h.addr_digits) ?_
  exact Nat.pow_le_pow_right (by omega) h.addr_length

/-- **The base parser accepts the line.** -/
theorem accepts (h : IsMultiRead line addr fields) (stack : Stack) :
    BSPacket.Accepts stack line .mrd := by
  obtain ⟨digits, tail, hline, hlen, hdigits, hval, htail⟩ := h.form
  have hends : Ends tail := by
    rcases htail with rfl | rfl
    · exact tail_nil.ends
    · exact tail_crlf.ends
  have hcontents : (addr ++ joinFields fields).length ≤ 193 := by
    have hfits := h.fits
    rw [hline, frameBody] at hfits
    simp only [List.length_cons, List.length_append, length_packetHeaderStr, kMaxPacketLen]
      at hfits ⊢
    omega
  rw [hline, BSPacket.accepts_line_iff stack (by decide) h.star_not_mem_contents hcontents]
  exact ofInt_strtol_digits (List.ne_nil_of_length_pos (by omega)) hdigits hval hends

end IsMultiRead

namespace MRDPacket

/-- No field vanishes when none is empty. -/
theorem foundValues_of_ne_nil {vs : List (List UInt8)} (hne : ∀ v ∈ vs.dropLast, v ≠ []) :
    foundValues vs = vs.map (·.take 19) := by
  cases vs with
  | nil => rfl
  | cons v vs => rw [foundValues, (keptFields_eq_iff v vs).2 hne]

/-- **The parser is exact up to its limit.**  From a multi-read line it takes the address
and, if there are at most 20 fields, the first 19 bytes of each; with more fields the
packet is invalid, and the first 20 are in its slots. -/
theorem ofString_exact (stack : Stack) (line addr : List UInt8) (fields : List (List UInt8))
    (h : IsMultiRead line addr fields) :
    ∃ p, ofString stack line = .ok p ∧ p.regAddr.toNat = readNat 16 addr ∧
      (p.isValid = true ↔ fields.length ≤ kMaxNumValues) ∧
      (fields.length ≤ kMaxNumValues → p.numValues = fields.length ∧
        p.values = fields.map (·.take 19) ++ List.replicate (kMaxNumValues - fields.length) []) ∧
      (kMaxNumValues < fields.length → p.numValues = kMaxNumValues ∧
        p.values = (fields.take kMaxNumValues).map (·.take 19)) := by
  obtain ⟨digits, tail, hline, -, hdigits, -, htail⟩ := h.form
  have hcomma : comma ∉ digits ++ tail := by
    rw [List.mem_append, not_or]
    refine ⟨fun hm => absurd (hdigits comma hm) (by decide), ?_⟩
    rcases htail with rfl | rfl
    · exact tail_nil.no_comma
    · exact tail_crlf.no_comma
  have hread : ∀ rest, Ends rest →
      UInt32.ofNat (strtoul (addr ++ rest) 16) = UInt32.ofNat (readNat 16 addr) := by
    intro rest hr
    rw [strtoul_digits (Or.inr rfl) h.addr_ne_nil h.addr_digits hr h.readNat_lt]
  have hparse := ofString_fields (h.accepts stack)
    (show line = dollar :: (packetHeaderStr .mrd ++
      comma :: (addr ++ (joinFields fields ++ star :: (digits ++ tail)))) by
        rw [hline, frameBody]; simp)
    h.addr_ne_nil (h.not_mem_addr (by decide)) hread (h.not_mem_addr (by decide))
    (fun f hf => ⟨(h.fields_plain f hf).2.1, (h.fields_plain f hf).2.2.1⟩) hcomma
  rw [foundValues_of_ne_nil fun f hf => (h.fields_plain f (List.mem_of_mem_dropLast hf)).1]
    at hparse
  have haddr : (UInt32.ofNat (readNat 16 addr)).toNat = readNat 16 addr :=
    UInt32.toNat_ofNat_of_lt' h.readNat_lt
  refine ⟨_, hparse, ?_⟩
  by_cases hcount : fields.length ≤ kMaxNumValues
  · rw [stored_eq _ (by rw [List.length_map]; exact hcount), List.length_map]
    exact ⟨haddr, iff_of_true rfl hcount, fun _ => ⟨rfl, rfl⟩, fun hlt => by omega⟩
  · rw [stored, if_neg (by rw [List.length_map]; exact hcount)]
    refine ⟨haddr, iff_of_false (by simp) hcount, fun hle => absurd hle hcount, fun _ => ?_⟩
    exact ⟨by rw [List.length_nil, Nat.zero_add], by rw [List.nil_append, List.map_take]⟩

/-- Two values, of which the second one is cut. -/
theorem ofString_exact_sample :
    ∃ p, ofString (Vector.replicate kMaxPacketLen 0)
        (ascii "$BSMRD,10aF,3.30,12345678901234567890*5e" ++ [13, 10]) = .ok p ∧
      p.regAddr.toNat = 0x10af ∧ (p.isValid = true ↔ 2 ≤ kMaxNumValues) ∧
      (2 ≤ kMaxNumValues → p.numValues = 2 ∧
        p.values = [ascii "3.30", ascii "1234567890123456789"] ++ List.replicate 18 []) ∧
      (kMaxNumValues < 2 → p.numValues = kMaxNumValues ∧
        p.values = [ascii "3.30", ascii "1234567890123456789"]) :=
  ofString_exact (Vector.replicate kMaxPacketLen 0)
    (ascii "$BSMRD,10aF,3.30,12345678901234567890*5e" ++ [13, 10]) (ascii "10aF")
    [ascii "3.30", ascii "12345678901234567890"]
    ⟨by decide, by decide, by decide, by decide +kernel, by decide +kernel, ascii "5e", [13, 10],
      by decide +kernel, by decide, by decide +kernel, by decide +kernel, Or.inr rfl⟩

end MRDPacket

end Scbs
