import Scbs.Comms.Reencoding

/-!
# The header lookup

`BSPacket::FromString` looks for the header in a copy of the first `kMaxPacketFieldLen`
bytes of the line, at the beginning of an array it did not initialise; the typed parsers
look in a copy of the whole line.

* `headerEnd` — where the first token of a line ends.
* `strtokMem_headerBuf_of_lt`, `strtokMem_headerBuf_letters` — a token that ends among the
  bytes copied is found whatever the array held, and any other one is not.
* `HeaderFromLine` — the result depends on the line alone, and the header is the token that
  the typed parsers find.
* `header_from_line_iff` — **this holds exactly when** the line is rejected before the
  lookup or its first token ends among the bytes copied.
-/

namespace Scbs

open CLib

/-- Where the first token of a line ends: behind the commas that come first and the bytes
up to the next comma. -/
def headerEnd (line : List UInt8) : ℕ :=
  (line.takeWhile (· = comma)).length + (token comma (line.dropWhile (· = comma))).length

/-- `strtol` reads the checksum of the line behind its first `*`. -/
def ChecksumMatches (line : List UInt8) : Prop :=
  ∃ endTokenPtr, strchr line star = some endTokenPtr ∧
    BSPacket.calculateChecksum line = UInt8.ofInt (strtol endTokenPtr.tail scbsChecksumBase)

/-- The header lookup answers from the line.  Whatever two arrays held, the call comes to
the same answer; and a header that it recognises is, behind its first byte, the first token
of the line, which is the one the typed parsers find. -/
structure HeaderFromLine (packet : BSPacket) (line : List UInt8) : Prop where
  same : ∀ stack stack' : Stack, ∃ p p', packet.fromString stack line = .ok p ∧
    packet.fromString stack' line = .ok p' ∧ p.isValid = p'.isValid ∧ p.packetType = p'.packetType
  first : ∀ stack p, packet.fromString stack line = .ok p → p.isValid = true →
    ∃ headerStr save, strtok comma line = some (headerStr, save) ∧
      (tokens comma line).head? = some (token comma headerStr) ∧
      (token comma headerStr).tail = packetHeaderStr p.packetType

section Lookup

variable {line p save : List UInt8}

theorem ChecksumMatches.star_mem (h : ChecksumMatches line) : star ∈ line := by
  obtain ⟨e, he, -⟩ := h
  by_contra hs
  rw [strchr_none hs] at he
  exact absurd he (by simp)

/-- A line with a `*` has a first token. -/
theorem exists_strtok_of_star_mem (h : star ∈ line) :
    ∃ p save, strtok comma line = some (p, save) := by
  cases hs : strtok comma line with
  | none =>
    rw [strtok_eq_none hs] at h
    exact absurd (List.eq_of_mem_replicate h) star_ne_comma
  | some r => exact ⟨r.1, r.2, rfl⟩

/-- The first token and where it ends. -/
theorem headerEnd_of_strtok (h : strtok comma line = some (p, save)) :
    ∃ k rest, line = List.replicate k comma ++ (token comma p ++ rest) ∧
      headerEnd line = k + (token comma p).length ∧ (rest = [] ∨ ∃ r, rest = comma :: r) := by
  obtain ⟨k, hk, hne, hp⟩ := strtok_eq_some h
  have hcommas : ∀ x ∈ List.replicate k comma, decide (x = comma) = true :=
    fun x hx => decide_eq_true (List.eq_of_mem_replicate hx)
  have hhead : ∃ c p', p = c :: p' ∧ ¬ c = comma := by
    cases p with
    | nil => exact absurd rfl hne
    | cons c p' =>
      refine ⟨c, p', rfl, ?_⟩
      rintro rfl
      exact hne (List.takeWhile_cons_of_neg (by simp))
  obtain ⟨c, p', hcp, hc⟩ := hhead
  have hend : headerEnd line = k + (token comma p).length := by
    have htake : line.takeWhile (· = comma) = List.replicate k comma := by
      rw [hk, List.takeWhile_append_of_pos hcommas, hcp,
        List.takeWhile_cons_of_neg (by simpa using hc), List.append_nil]
    have hdrop : line.dropWhile (· = comma) = p := by
      rw [hk, List.dropWhile_append_of_pos hcommas, hcp,
        List.dropWhile_cons_of_neg (by simpa using hc)]
    rw [headerEnd, htake, hdrop, List.length_replicate]
  rcases hp with ⟨hp, -⟩ | hp
  · exact ⟨k, [], by rw [List.append_nil, ← hp]; exact hk, hend, Or.inl rfl⟩
  · exact ⟨k, comma :: save, by rw [← hp]; exact hk, hend, Or.inr ⟨save, rfl⟩⟩

/-- **A first token that ends among the bytes copied is found**, whatever the array held. -/
theorem strtokMem_headerBuf_of_lt (h : strtok comma line = some (p, save))
    (h0 : (0 : UInt8) ∉ line) (hend : headerEnd line < kMaxPacketFieldLen) (stack : Stack) :
    strtokMem comma (BSPacket.headerBuf stack line) = some (some (token comma p)) := by
  obtain ⟨-, -, hne, -⟩ := strtok_eq_some h
  obtain ⟨k, rest, hline, hk, hrest⟩ := headerEnd_of_strtok h
  have hcomma := delim_not_mem_token comma p
  rw [hk] at hend
  rw [hline, List.mem_append, List.mem_append, not_or, not_or] at h0
  rcases hrest with rfl | ⟨r, rfl⟩
  · rw [hline, List.append_nil]
    exact BSPacket.strtokMem_headerBuf_whole stack k hne hcomma h0.2.1 hend
  · rw [hline, ← List.append_assoc]
    exact BSPacket.strtokMem_headerBuf_field stack k r hne hcomma h0.2.1 hend

/-- **Any other first token is not found** in an array full of letters: there the search runs
off the end. -/
theorem strtokMem_headerBuf_letters (h : strtok comma line = some (p, save))
    (h0 : (0 : UInt8) ∉ line) (hend : kMaxPacketFieldLen ≤ headerEnd line) :
    strtokMem comma (BSPacket.headerBuf lettersStack line) = none := by
  obtain ⟨k, rest, hline, hk, -⟩ := headerEnd_of_strtok h
  rw [hline, List.mem_append, List.mem_append, not_or, not_or] at h0
  rw [hk] at hend
  have hlen : kMaxPacketFieldLen - line.length = 0 := by
    rw [hline, List.length_append, List.length_append, List.length_replicate]
    omega
  have htake : line.take kMaxPacketFieldLen =
      List.replicate (min kMaxPacketFieldLen k) comma ++
        (token comma p).take (kMaxPacketFieldLen - k) := by
    rw [hline, List.take_append, List.take_append, List.take_replicate, List.length_replicate,
      show kMaxPacketFieldLen - k - (token comma p).length = 0 by omega, List.take_zero,
      List.append_nil]
  apply strtokMem_eq_none
  intro x hx
  rw [BSPacket.headerBuf, strncpyMem, htake, hlen, List.replicate_zero, List.append_nil,
    List.append_assoc,
    List.dropWhile_append_of_pos fun y hy => decide_eq_true (List.eq_of_mem_replicate hy)] at hx
  rcases List.mem_append.1 ((List.dropWhile_suffix _).subset hx) with hx | hx
  · have hmem := List.mem_of_mem_take hx
    exact inToken_iff.2 ⟨ne_of_mem_of_not_mem hmem (delim_not_mem_token comma p),
      ne_of_mem_of_not_mem hmem h0.2.1⟩
  · exact inToken_of_mem_lettersStack hx

namespace BSPacket

/-- A line without its checksum is rejected before the lookup. -/
theorem fromString_of_not_checksumMatches (h : ¬ ChecksumMatches line) (stack : Stack)
    (self : BSPacket) :
    self.fromString stack line = .ok { self with packetStr := line, isValid := false } := by
  simp only [fromString]
  cases he : strchr line star with
  | none => rfl
  | some e => exact if_pos fun hsum => h ⟨e, he, hsum⟩

/-- With its checksum, the lookup decides. -/
theorem fromString_of_checksumMatches (h : ChecksumMatches line) (stack : Stack)
    (self : BSPacket) :
    self.fromString stack line =
      match strtokMem comma (headerBuf stack line) with
      | none => .error .unterminated
      | some none => .error .nullHeader
      | some (some headerStr) =>
        match lookupHeader headerStr.tail with
        | none => .ok { self with packetStr := line, isValid := false }
        | some t => .ok { packetStr := line, isValid := true, packetType := t } := by
  obtain ⟨e, he, hsum⟩ := h
  simp only [fromString, he]
  exact if_neg fun hne => hne hsum

end BSPacket

/-- A line that is rejected whatever the array held. -/
theorem HeaderFromLine.of_rejected {packet : BSPacket}
    (h : ∀ stack, packet.fromString stack line =
      .ok { packet with packetStr := line, isValid := false }) : HeaderFromLine packet line := by
  refine ⟨fun stack stack' => ⟨_, _, h stack, h stack', rfl, rfl⟩, ?_⟩
  intro stack r hr hv
  obtain rfl := Except.ok.inj ((h stack).symm.trans hr)
  exact absurd hv (by simp)

end Lookup

/-- **When the lookup answers from the line.**  Exactly when the line does not carry its
checksum, or its first token ends within the `kMaxPacketFieldLen` bytes that are copied. -/
theorem header_from_line_iff (packet : BSPacket) (line : List UInt8) (hline : IsCString line) :
    HeaderFromLine packet line ↔
      (ChecksumMatches line → headerEnd line < kMaxPacketFieldLen) := by
  constructor
  · intro h hsum
    by_contra hend
    obtain ⟨p, save, hstrtok⟩ := exists_strtok_of_star_mem hsum.star_mem
    obtain ⟨r, -, hr, -⟩ := h.same lettersStack lettersStack
    rw [BSPacket.fromString_of_checksumMatches hsum,
      strtokMem_headerBuf_letters hstrtok hline.no_nul (not_lt.1 hend)] at hr
    exact absurd hr (by simp)
  · intro h
    by_cases hsum : ChecksumMatches line
    · obtain ⟨p, save, hstrtok⟩ := exists_strtok_of_star_mem hsum.star_mem
      have hres : ∀ stack, packet.fromString stack line =
          match BSPacket.lookupHeader (token comma p).tail with
          | none => .ok { packet with packetStr := line, isValid := false }
          | some t => .ok { packetStr := line, isValid := true, packetType := t } := by
        intro stack
        rw [BSPacket.fromString_of_checksumMatches hsum,
          strtokMem_headerBuf_of_lt hstrtok hline.no_nul (h hsum)]
      cases hlook : BSPacket.lookupHeader (token comma p).tail with
      | none =>
        simp only [hlook] at hres
        exact HeaderFromLine.of_rejected hres
      | some t =>
        simp only [hlook] at hres
        refine ⟨fun stack stack' => ⟨_, _, hres stack, hres stack', rfl, rfl⟩, ?_⟩
        intro stack r hr hv
        obtain rfl := Except.ok.inj ((hres stack).symm.trans hr)
        exact ⟨p, save, hstrtok, by rw [tokens_of_strtok hstrtok, List.head?_cons],
          (lookupHeader_eq_some hlook).1⟩
    · exact HeaderFromLine.of_rejected fun stack =>
        BSPacket.fromString_of_not_checksumMatches hsum stack packet

/-- Commas before the header do no harm as long as it ends within the bytes copied. -/
theorem header_from_line_sample : HeaderFromLine {} (ascii ",,$BSDIS,0*53") :=
  (header_from_line_iff {} (ascii ",,$BSDIS,0*53") ⟨by decide, by decide⟩).2
    fun _ => by decide +kernel

/-- 19 commas, and of the header only the `$` is copied. -/
def commasLine : List UInt8 := List.replicate 19 comma ++ ascii "$BSDIS,0*53"

/-- An array that still holds the rest of a header. -/
def headerStack : Stack :=
  ⟨(List.replicate 20 0 ++ ascii "BSDIS," ++ List.replicate 174 0).toArray, by decide +kernel⟩

/-- **The answer comes from the array.**  The same line is a discovery packet or nothing. -/
theorem not_header_from_line :
    IsCString commasLine ∧
      BSPacket.ofString headerStack commasLine =
        .ok { packetStr := commasLine, isValid := true, packetType := .dis } ∧
      BSPacket.ofString (Vector.replicate kMaxPacketLen 0) commasLine =
        .ok { packetStr := commasLine, isValid := false, packetType := .unknown } ∧
      ¬ HeaderFromLine {} commasLine := by
  have hdis : BSPacket.ofString headerStack commasLine =
      .ok { packetStr := commasLine, isValid := true, packetType := .dis } := by decide +kernel
  have hnone : BSPacket.ofString (Vector.replicate kMaxPacketLen 0) commasLine =
      .ok { packetStr := commasLine, isValid := false, packetType := .unknown } := by
    decide +kernel
  refine ⟨⟨by decide, by decide⟩, hdis, hnone, fun h => ?_⟩
  obtain ⟨p, p', hp, hp', hv, -⟩ := h.same headerStack (Vector.replicate kMaxPacketLen 0)
  obtain rfl := Except.ok.inj (hdis.symm.trans hp)
  obtain rfl := Except.ok.inj (hnone.symm.trans hp')
  exact absurd hv (by decide)

end Scbs
