import Scbs.Comms.MultiRead
import Scbs.Link.Framing

/-!
# Which lines the typed parsers handle, and which they accept

* `Safe`, `safe_iff` — **when a typed parser stays within C**: on a line that
  `BSPacket` found valid, no missing field is used and no negative count reaches
  `strncpy` exactly when the fields of the packet type are present.
* `Reads`, `grammar_of_isValid` — **what an accepted line looks like**: commas, `$`,
  the header, at least the fields of the type with whatever `strtoul` finds at
  their beginning, and a checksum text that `strtol` reads as the XOR.
-/

namespace Scbs

open CLib Link

/-! ## Safety -/

/-- Neither a missing field nor a negative count. -/
def Safe {α : Type} (r : Except Fault α) : Prop := r ≠ .error .nullField ∧ r ≠ .error .badCount

/-- `TPacket::FromString` for the type found, as `Update` runs it. -/
def parseAs (t : PacketType) (stack : Stack) (line : List UInt8) : Except Fault Unit :=
  match t with
  | .dis => (DISPacket.ofString stack line).map fun _ => ()
  | .mrd => (MRDPacket.ofString stack line).map fun _ => ()
  | .mwr => (MWRPacket.ofString stack line).map fun _ => ()
  | .srd => (SRDPacket.ofString stack line).map fun _ => ()
  | .swr => (SWRPacket.ofString stack line).map fun _ => ()
  | .srs => (SRSPacket.ofString stack line).map fun _ => ()
  | .unknown => .ok ()

/-- The tokens after the header have the fields of a type: as many as the parser
uses, with the `*` in the value token or, for a multi-read, not before a value that
is stored. -/
def FieldsPresent : PacketType → List (List UInt8) → Prop
  | .dis, toks => ∃ id rest, toks = id :: rest
  | .srd, toks => ∃ id addr rest, toks = id :: addr :: rest
  | .mwr, toks => ∃ addr value rest, toks = addr :: value :: rest ∧ star ∈ value
  | .srs, toks => ∃ id value rest, toks = id :: value :: rest ∧ star ∈ value
  | .swr, toks => ∃ id addr value rest, toks = id :: addr :: value :: rest ∧ star ∈ value
  | .mrd, toks => ∃ addr values, toks = addr :: values ∧
      ∀ tok ∈ (addr :: values.take kMaxNumValues).dropLast, star ∉ tok
  | .unknown, _ => True

section Safety

variable {α β : Type} {stack : Stack} {line : List UInt8} {t : PacketType}

@[simp] theorem safe_ok (a : α) : Safe (.ok a : Except Fault α) := ⟨by simp, by simp⟩

theorem safe_error_iff {e : Fault} :
    Safe (.error e : Except Fault α) ↔ e ≠ .nullField ∧ e ≠ .badCount := by
  simp [Safe]

@[simp] theorem safe_map_iff (f : α → β) (r : Except Fault α) : Safe (r.map f) ↔ Safe r := by
  cases r with
  | error e => rw [Except.map, safe_error_iff, safe_error_iff]
  | ok a => exact iff_of_true (safe_ok _) (safe_ok _)

theorem safe_valueOfToken_iff (tok : List UInt8) : Safe (valueOfToken tok) ↔ star ∈ tok := by
  unfold valueOfToken
  by_cases hstar : star ∈ tok
  · rw [if_pos hstar]
    exact iff_of_true (safe_ok _) hstar
  · rw [if_neg hstar]
    exact iff_of_false (by simp [Safe]) hstar

/-- The base parser never uses a field. -/
theorem BSPacket.safe_fromString (self : BSPacket) : Safe (fromString stack self line) := by
  simp only [fromString]
  split
  · exact safe_ok _
  · split
    · exact safe_ok _
    · split
      · exact safe_error_iff.2 ⟨by simp, by simp⟩
      · exact safe_error_iff.2 ⟨by simp, by simp⟩
      · split <;> exact safe_ok _

/-- A parser with a header of its own is safe when what it does after the header
is. -/
theorem safe_withHeader_iff {other : α} {parse : List (List UInt8) → Except Fault α}
    (toks : List (List UInt8)) :
    Safe (withHeader t other parse toks) ↔
      ∀ ts, toks = (dollar :: packetHeaderStr t) :: ts → Safe (parse ts) := by
  cases toks with
  | nil => exact iff_of_true (safe_error_iff.2 ⟨by simp, by simp⟩) (by simp)
  | cons hd ts =>
    rw [withHeader]
    by_cases hhd : hd = dollar :: packetHeaderStr t
    · rw [if_pos hhd]
      simp [hhd]
    · rw [if_neg hhd]
      exact iff_of_true (safe_ok _) fun _ h => absurd (List.cons.inj h).1 hhd

/-- **Safety of a parser on an accepted line.** -/
theorem safe_parseAs_iff {u : PacketType} (hacc : BSPacket.Accepts stack line u) :
    Safe (parseAs t stack line) ↔
      ∀ toks, tokens comma line = (dollar :: packetHeaderStr t) :: toks → FieldsPresent t toks := by
  have hvalue : ∀ {γ : Type} (f : List UInt8 → γ) (v : List UInt8),
      Safe ((valueOfToken v).map f) ↔ star ∈ v := by
    intro γ f v
    rw [safe_map_iff, safe_valueOfToken_iff]
  cases t with
  | dis =>
    rw [parseAs, safe_map_iff, DISPacket.ofString_tokens hacc, DISPacket.ofTokens,
      safe_withHeader_iff]
    refine forall₂_congr ?_
    intro toks _
    cases toks with
    | nil => simp [Safe, FieldsPresent]
    | cons id rest => simp [FieldsPresent]
  | mrd =>
    rw [parseAs, safe_map_iff, MRDPacket.ofString_tokens hacc, MRDPacket.ofTokens,
      safe_withHeader_iff]
    refine forall₂_congr ?_
    intro toks _
    cases toks with
    | nil => simp [Safe, FieldsPresent]
    | cons addr values =>
      dsimp only
      rw [MRDPacket.storeTokens_eq values addr [] kMaxNumValues]
      · split
        · exact iff_of_true (safe_ok _) ⟨addr, values, rfl, ‹_›⟩
        · refine iff_of_false (by simp [Safe]) ?_
          rintro ⟨a, vs, heq, hfree⟩
          obtain ⟨rfl, rfl⟩ := List.cons.inj heq
          exact absurd hfree ‹_›
      · rfl
      · rfl
  | mwr =>
    rw [parseAs, safe_map_iff, MWRPacket.ofString_tokens hacc, MWRPacket.ofTokens,
      safe_withHeader_iff]
    refine forall₂_congr ?_
    intro toks _
    rcases toks with - | ⟨addr, - | ⟨value, rest⟩⟩
    · simp [Safe, FieldsPresent]
    · simp [Safe, FieldsPresent]
    · simp [FieldsPresent, hvalue]
  | srd =>
    rw [parseAs, safe_map_iff, SRDPacket.ofString_tokens hacc, SRDPacket.ofTokens,
      safe_withHeader_iff]
    refine forall₂_congr ?_
    intro toks _
    rcases toks with - | ⟨id, - | ⟨addr, rest⟩⟩
    · simp [Safe, FieldsPresent]
    · simp [Safe, FieldsPresent]
    · simp [FieldsPresent]
  | swr =>
    rw [parseAs, safe_map_iff, SWRPacket.ofString_tokens hacc, SWRPacket.ofTokens,
      safe_withHeader_iff]
    refine forall₂_congr ?_
    intro toks _
    rcases toks with - | ⟨id, - | ⟨addr, - | ⟨value, rest⟩⟩⟩
    · simp [Safe, FieldsPresent]
    · simp [Safe, FieldsPresent]
    · simp [Safe, FieldsPresent]
    · simp [FieldsPresent, hvalue]
  | srs =>
    rw [parseAs, safe_map_iff, SRSPacket.ofString_tokens hacc, SRSPacket.ofTokens,
      safe_withHeader_iff]
    refine forall₂_congr ?_
    intro toks _
    rcases toks with - | ⟨id, - | ⟨value, rest⟩⟩
    · simp [Safe, FieldsPresent]
    · simp [Safe, FieldsPresent]
    · simp [FieldsPresent, hvalue]
  | unknown => exact iff_of_true (safe_ok _) fun _ _ => trivial

/-- A line that the base parser rejects is not looked at any further. -/
theorem safe_parseAs_of_not_accepts (h : ∀ u, ¬ BSPacket.Accepts stack line u) :
    Safe (parseAs t stack line) := by
  have herror : ∀ self e, BSPacket.fromString stack self line = .error e →
      e ≠ .nullField ∧ e ≠ .badCount := by
    intro self e he
    have hsafe : Safe (BSPacket.fromString stack self line) := BSPacket.safe_fromString self
    rw [he] at hsafe
    exact safe_error_iff.1 hsafe
  have hok : ∀ self p, BSPacket.fromString stack self line = .ok p → p.isValid = false := by
    intro self p hp
    rcases BSPacket.fromString_cases hp with rfl | ⟨u, hu, -⟩
    · rfl
    · exact absurd hu (h u)
  cases t <;> simp only [parseAs, safe_map_iff, safe_ok] <;>
  · simp only [DISPacket.ofString, DISPacket.fromString, MRDPacket.ofString, MRDPacket.fromString,
      MWRPacket.ofString, MWRPacket.fromString, SRDPacket.ofString, SRDPacket.fromString,
      SWRPacket.ofString, SWRPacket.fromString, SRSPacket.ofString, SRSPacket.fromString, bind,
      Except.bind]
    split
    · rename_i e he
      exact safe_error_iff.2 (herror _ e he)
    · rename_i p hp
      simp [hok _ p hp, pure, Except.pure]

/-- **When a typed parser is safe.**  Parsing a line as a type uses no missing field
and passes `strncpy` only counts from 0 to 19 exactly when the fields of the type
are there; they need not be where the parser turns back before its first field. -/
theorem safe_iff (stack : Stack) (line : List UInt8) (t : PacketType) :
    (Safe (parseAs t stack line) ∧ ∀ valueStr endTokenPtr, copyCount valueStr endTokenPtr ≤ 19) ↔
      ((∃ u, BSPacket.Accepts stack line u) →
        ∀ toks, tokens comma line = (dollar :: packetHeaderStr t) :: toks →
          FieldsPresent t toks) := by
  rw [and_iff_left copyCount_le]
  by_cases hacc : ∃ u, BSPacket.Accepts stack line u
  · obtain ⟨u, hu⟩ := hacc
    rw [safe_parseAs_iff hu]
    exact ⟨fun h _ => h, fun h => h ⟨u, hu⟩⟩
  · exact iff_of_true (safe_parseAs_of_not_accepts (not_exists.1 hacc)) fun h => absurd h hacc

end Safety

/-- A read without an address, and a value behind the checksum. -/
theorem not_safe_missing_field :
    (∃ p, BSPacket.ofString (Vector.replicate kMaxPacketLen 0) (ascii "$BSSRD,1*49") = .ok p ∧
      p.isValid = true ∧ ¬ Safe (parseAs p.packetType (Vector.replicate kMaxPacketLen 0)
        (ascii "$BSSRD,1*49"))) ∧
    ∃ p, BSPacket.ofString (Vector.replicate kMaxPacketLen 0) (ascii "$BSMWR,1000*74,5") = .ok p ∧
      p.isValid = true ∧ ¬ Safe (parseAs p.packetType (Vector.replicate kMaxPacketLen 0)
        (ascii "$BSMWR,1000*74,5")) := by
  refine ⟨⟨⟨ascii "$BSSRD,1*49", true, .srd⟩, by decide +kernel, rfl, fun h => h.1 ?_⟩,
    ⟨ascii "$BSMWR,1000*74,5", true, .mwr⟩, by decide +kernel, rfl, fun h => h.2 ?_⟩
  · decide +kernel
  · decide +kernel

/-! ## The lines that are accepted -/

/-- A NUL-terminated line that fits into a packet buffer. -/
structure IsCString (line : List UInt8) : Prop where
  no_nul : (0 : UInt8) ∉ line
  fits : line.length < kMaxPacketLen

/-- The line passes the header check of a typed parser. -/
def HasHeader (t : PacketType) (line : List UInt8) : Prop :=
  (tokens comma line).head? = some (dollar :: packetHeaderStr t)

instance (t : PacketType) (line : List UInt8) : Decidable (HasHeader t line) :=
  inferInstanceAs (Decidable (_ = _))

/-- **The lines of a packet type.**  Commas may come first; then `$`, the header and a
comma, then text up to the first `*`, and behind it something that `strtol` reads as
the XOR of what stands between the `$` and the `*`, modulo 2⁸.  The fields are the
tokens `toks` after the header. -/
def Reads (t : PacketType) (line : List UInt8) (toks : List (List UInt8)) : Prop :=
  ∃ k body tail, line = List.replicate k comma ++
      dollar :: (packetHeaderStr t ++ comma :: (body ++ star :: tail)) ∧ star ∉ body ∧
    UInt8.ofInt (strtol tail scbsChecksumBase) = xorSum (packetHeaderStr t ++ comma :: body) ∧
    toks = tokens comma (body ++ star :: tail)

section Accepted

variable {stack : Stack} {line : List UInt8} {t u : PacketType}

/-- A line that has the header as its first token, and a `*`, starts with it. -/
theorem line_of_hasHeader {toks : List (List UInt8)} (hstar : star ∈ line)
    (h : tokens comma line = (dollar :: packetHeaderStr t) :: toks) :
    ∃ k save, line = List.replicate k comma ++ dollar :: (packetHeaderStr t ++ comma :: save) ∧
      toks = tokens comma save := by
  cases hs : strtok comma line with
  | none => exact absurd (h.symm.trans (tokens_of_strtok_none hs)) (by simp)
  | some r =>
    obtain ⟨p, save⟩ := r
    rw [tokens_of_strtok hs] at h
    obtain ⟨hp, rfl⟩ := List.cons.inj h
    obtain ⟨k, hk, -, hcut⟩ := strtok_eq_some hs
    rw [hp] at hcut
    rcases hcut with ⟨hcut, -⟩ | hcut
    · rw [hk, hcut] at hstar
      rcases List.mem_append.1 hstar with hm | hm
      · exact absurd (List.eq_of_mem_replicate hm) (by decide)
      · rcases List.mem_cons.1 hm with hm | hm
        · exact absurd hm (by decide)
        · exact absurd rfl (packetHeaderStr_plain t _ hm).2.2.1
    · exact ⟨k, save, by rw [hk, hcut]; simp, rfl⟩

/-- **An accepted line with a header of its own reads as a packet.** -/
theorem reads_of_accepts (hacc : BSPacket.Accepts stack line u) (hline : IsCString line)
    {toks : List (List UInt8)} (h : tokens comma line = (dollar :: packetHeaderStr t) :: toks) :
    Reads t line toks := by
  obtain ⟨k, save, hk, rfl⟩ := line_of_hasHeader hacc.star_mem h
  have hhead : ∀ c ∈ packetHeaderStr t, c ≠ star := fun c hc => (packetHeaderStr_plain t c hc).2.2.1
  have hpre : star ∉ List.replicate k comma := fun hm =>
    absurd (List.eq_of_mem_replicate hm) (by decide)
  have hdollar : dollar ∉ List.replicate k comma := fun hm =>
    absurd (List.eq_of_mem_replicate hm) (by decide)
  have hsave : star ∈ save := by
    have := hacc.star_mem
    rw [hk] at this
    simp only [List.mem_append, List.mem_cons] at this
    rcases this with hm | hm | hm | hm | hm
    · exact absurd hm hpre
    · exact absurd hm (by decide)
    · exact absurd rfl (hhead _ hm)
    · exact absurd hm (by decide)
    · exact hm
  obtain ⟨body, tail, rfl, hbody⟩ := List.eq_append_cons_of_mem hsave
  refine ⟨k, body, tail, hk, hbody, ?_, rfl⟩
  have hcover : star ∉ packetHeaderStr t ++ comma :: body := star_not_mem_frameBody t hbody
  have hline' : line = List.replicate k comma ++
      dollar :: ((packetHeaderStr t ++ comma :: body) ++ star :: tail) := by
    rw [hk]; simp
  obtain ⟨⟨e, he, hsum⟩, -⟩ := hacc
  have hfits := hline.fits
  rw [hline'] at he hsum hfits
  simp only [List.length_append, List.length_cons, List.length_replicate] at hfits
  have hno : star ∉ List.replicate k comma ++ dollar :: (packetHeaderStr t ++ comma :: body) :=
    not_mem_append_cons hpre star_ne_dollar hcover
  have hfind := strchr_append (v := tail) hno
  rw [List.append_assoc, List.cons_append, he] at hfind
  obtain rfl := Option.some.inj hfind
  rw [BSPacket.calculateChecksum_eq hdollar hpre hcover
    (by simp only [List.length_append, List.length_cons, List.length_replicate]; omega)] at hsum
  exact hsum.symm

/-- A line that the base parser rejects is accepted by no parser that gives up on it. -/
theorem BSPacket.exists_accepts_of_bind {α : Type} {self : BSPacket}
    {rest : BSPacket → Except Fault α} {r : α}
    (h : (self.fromString stack line).bind rest = .ok r)
    (hrest : ∀ base : BSPacket, base.isValid = false → rest base ≠ .ok r) :
    ∃ u, BSPacket.Accepts stack line u := by
  cases hbase : self.fromString stack line with
  | error fault =>
    rw [hbase] at h
    exact absurd h (by simp [Except.bind])
  | ok base =>
    rw [hbase] at h
    rcases BSPacket.fromString_cases hbase with rfl | ⟨u, hu, -⟩
    · exact absurd h (hrest _ rfl)
    · exact ⟨u, hu⟩

theorem DISPacket.exists_accepts {p : DISPacket} (hp : ofString stack line = .ok p)
    (hv : p.isValid = true) : ∃ u, BSPacket.Accepts stack line u := by
  apply BSPacket.exists_accepts_of_bind hp
  intro base hbase hr
  simp only [hbase, Bool.false_eq_true, not_false_eq_true, if_true] at hr
  obtain rfl := Except.ok.inj hr
  exact absurd (hbase.symm.trans hv) Bool.false_ne_true

theorem MRDPacket.exists_accepts {p : MRDPacket} (hp : ofString stack line = .ok p)
    (hv : p.isValid = true) : ∃ u, BSPacket.Accepts stack line u := by
  apply BSPacket.exists_accepts_of_bind hp
  intro base hbase hr
  simp only [hbase, Bool.false_eq_true, not_false_eq_true, if_true] at hr
  obtain rfl := Except.ok.inj hr
  exact absurd (hbase.symm.trans hv) Bool.false_ne_true

theorem MWRPacket.exists_accepts {p : MWRPacket} (hp : ofString stack line = .ok p)
    (hv : p.isValid = true) : ∃ u, BSPacket.Accepts stack line u := by
  apply BSPacket.exists_accepts_of_bind hp
  intro base hbase hr
  simp only [hbase, Bool.false_eq_true, not_false_eq_true, if_true] at hr
  obtain rfl := Except.ok.inj hr
  exact absurd (hbase.symm.trans hv) Bool.false_ne_true

theorem SRDPacket.exists_accepts {p : SRDPacket} (hp : ofString stack line = .ok p)
    (hv : p.isValid = true) : ∃ u, BSPacket.Accepts stack line u := by
  apply BSPacket.exists_accepts_of_bind hp
  intro base hbase hr
  simp only [hbase, Bool.false_eq_true, not_false_eq_true, if_true] at hr
  obtain rfl := Except.ok.inj hr
  exact absurd (hbase.symm.trans hv) Bool.false_ne_true

theorem SWRPacket.exists_accepts {p : SWRPacket} (hp : ofString stack line = .ok p)
    (hv : p.isValid = true) : ∃ u, BSPacket.Accepts stack line u := by
  apply BSPacket.exists_accepts_of_bind hp
  intro base hbase hr
  simp only [hbase, Bool.false_eq_true, not_false_eq_true, if_true] at hr
  obtain rfl := Except.ok.inj hr
  exact absurd (hbase.symm.trans hv) Bool.false_ne_true

theorem SRSPacket.exists_accepts {p : SRSPacket} (hp : ofString stack line = .ok p)
    (hv : p.isValid = true) : ∃ u, BSPacket.Accepts stack line u := by
  apply BSPacket.exists_accepts_of_bind hp
  intro base hbase hr
  simp only [hbase, Bool.false_eq_true, not_false_eq_true, if_true] at hr
  obtain rfl := Except.ok.inj hr
  exact absurd (hbase.symm.trans hv) Bool.false_ne_true

/-- What a parser made of a line past its header check, or the packet it left
alone. -/
theorem withHeader_eq_ok {α : Type} {other r : α}
    {parse : List (List UInt8) → Except Fault α} {toks : List (List UInt8)}
    (h : withHeader t other parse toks = .ok r) :
    (∃ ts, toks = (dollar :: packetHeaderStr t) :: ts ∧ parse ts = .ok r) ∨
      (r = other ∧ toks.head? ≠ some (dollar :: packetHeaderStr t)) := by
  cases toks with
  | nil => exact absurd h (by simp [withHeader])
  | cons hd ts =>
    rw [withHeader] at h
    by_cases hhd : hd = dollar :: packetHeaderStr t
    · rw [if_pos hhd] at h
      exact Or.inl ⟨ts, by rw [hhd], h⟩
    · rw [if_neg hhd] at h
      exact Or.inr ⟨(Except.ok.inj h).symm, by simpa using hhd⟩

/-- A packet that was not left alone passed the header check. -/
theorem hasHeader_of_withHeader {α : Type} {other r : α}
    {parse : List (List UInt8) → Except Fault α}
    (h : withHeader t other parse (tokens comma line) = .ok r) (hne : r ≠ other) :
    HasHeader t line := by
  rcases withHeader_eq_ok h with ⟨ts, hts, -⟩ | ⟨hr, -⟩
  · rw [HasHeader, hts]
    rfl
  · exact absurd hr hne

theorem valueOfToken_map_eq_ok {α : Type} {f : List UInt8 → α} {tok : List UInt8} {r : α}
    (h : (valueOfToken tok).map f = .ok r) : star ∈ tok ∧ f (valueOf tok) = r := by
  unfold valueOfToken at h
  by_cases hstar : star ∈ tok
  · rw [if_pos hstar] at h
    exact ⟨hstar, Except.ok.inj h⟩
  · rw [if_neg hstar] at h
    exact absurd h (by simp [Except.map])

/-! ### Type by type -/

section Fields

/-- **The fields of a valid `MWR`** that carries its own header. -/
theorem MWRPacket.fields {p : MWRPacket} (hp : ofString stack line = .ok p)
    (hv : p.isValid = true) (hh : HasHeader .mwr line) :
    ∃ addr value rest,
      tokens comma line = (dollar :: packetHeaderStr .mwr) :: addr :: value :: rest ∧
      star ∈ value ∧ p.regAddr = addrOf addr ∧ p.value = valueOf value := by
  obtain ⟨u, hu⟩ := MWRPacket.exists_accepts hp hv
  rw [ofString_tokens hu, ofTokens] at hp
  rcases withHeader_eq_ok hp with ⟨toks, htoks, hp⟩ | ⟨-, hno⟩
  · rcases toks with - | ⟨addr, - | ⟨value, rest⟩⟩
    · exact absurd hp (by simp)
    · exact absurd hp (by simp)
    · obtain ⟨hstar, rfl⟩ := valueOfToken_map_eq_ok hp
      exact ⟨addr, value, rest, htoks, hstar, rfl, rfl⟩
  · exact absurd hh hno

/-- **The fields of a valid `SWR`** that carries its own header. -/
theorem SWRPacket.fields {p : SWRPacket} (hp : ofString stack line = .ok p)
    (hv : p.isValid = true) (hh : HasHeader .swr line) :
    ∃ id addr value rest,
      tokens comma line = (dollar :: packetHeaderStr .swr) :: id :: addr :: value :: rest ∧
      star ∈ value ∧ p.cellId = idOf id ∧ p.regAddr = addrOf addr ∧ p.value = valueOf value := by
  obtain ⟨u, hu⟩ := SWRPacket.exists_accepts hp hv
  rw [ofString_tokens hu, ofTokens] at hp
  rcases withHeader_eq_ok hp with ⟨toks, htoks, hp⟩ | ⟨-, hno⟩
  · rcases toks with - | ⟨id, - | ⟨addr, - | ⟨value, rest⟩⟩⟩
    · exact absurd hp (by simp)
    · exact absurd hp (by simp)
    · exact absurd hp (by simp)
    · obtain ⟨hstar, rfl⟩ := valueOfToken_map_eq_ok hp
      exact ⟨id, addr, value, rest, htoks, hstar, rfl, rfl, rfl⟩
  · exact absurd hh hno

end Fields

section Types

variable (hline : IsCString line)

include hline

theorem DISPacket.reads {p : DISPacket} (hp : ofString stack line = .ok p)
    (hv : p.isValid = true) (hh : HasHeader .dis line) :
    ∃ id rest, Reads .dis line (id :: rest) ∧ p.lastCellId = idOf id := by
  obtain ⟨u, hu⟩ := DISPacket.exists_accepts hp hv
  rw [ofString_tokens hu, ofTokens] at hp
  rcases withHeader_eq_ok hp with ⟨toks, htoks, hp⟩ | ⟨-, hno⟩
  · have hreads := reads_of_accepts hu hline htoks
    rcases toks with - | ⟨id, rest⟩
    · exact absurd hp (by simp)
    · obtain rfl := Except.ok.inj hp
      exact ⟨id, rest, hreads, rfl⟩
  · exact absurd hh hno

theorem MRDPacket.reads {p : MRDPacket} (hp : ofString stack line = .ok p)
    (hv : p.isValid = true) :
    ∃ addr values, Reads .mrd line (addr :: values) ∧ values.length ≤ kMaxNumValues ∧
      (∀ tok ∈ (addr :: values).dropLast, star ∉ tok) ∧ p.regAddr = addrOf addr ∧
      p.numValues = values.length ∧ p.values.take p.numValues = values.map valueOf := by
  obtain ⟨u, hu⟩ := MRDPacket.exists_accepts hp hv
  rw [ofString_tokens hu, ofTokens] at hp
  rcases withHeader_eq_ok hp with ⟨toks, htoks, hp⟩ | ⟨rfl, -⟩
  · have hreads := reads_of_accepts hu hline htoks
    rcases toks with - | ⟨addr, values⟩
    · exact absurd hp (by simp)
    · dsimp only at hp
      rw [storeTokens_eq values addr [] kMaxNumValues _ rfl rfl] at hp
      split at hp
      · rename_i hfree
        obtain rfl := Except.ok.inj hp
        have hlen := length_le_of_stored rfl hv
        have htake := take_slots (values.map valueOf) (kMaxNumValues - (values.map valueOf).length)
        rw [stored_eq _ hlen]
        rw [List.length_map] at hlen
        rw [List.take_of_length_le hlen] at hfree
        exact ⟨addr, values, hreads, hlen, hfree, rfl, by simp, htake⟩
      · exact absurd hp (by simp)
  · exact absurd hv (by simp)

theorem MWRPacket.reads {p : MWRPacket} (hp : ofString stack line = .ok p)
    (hv : p.isValid = true) (hh : HasHeader .mwr line) :
    ∃ addr value rest, Reads .mwr line (addr :: value :: rest) ∧ star ∈ value ∧
      p.regAddr = addrOf addr ∧ p.value = valueOf value := by
  obtain ⟨u, hu⟩ := MWRPacket.exists_accepts hp hv
  obtain ⟨addr, value, rest, htoks, hfields⟩ := fields hp hv hh
  exact ⟨addr, value, rest, reads_of_accepts hu hline htoks, hfields⟩

theorem SRDPacket.reads {p : SRDPacket} (hp : ofString stack line = .ok p)
    (hv : p.isValid = true) :
    ∃ id addr rest, Reads .srd line (id :: addr :: rest) ∧ p.cellId = idOf id ∧
      p.regAddr = addrOf addr := by
  obtain ⟨u, hu⟩ := SRDPacket.exists_accepts hp hv
  rw [ofString_tokens hu, ofTokens] at hp
  rcases withHeader_eq_ok hp with ⟨toks, htoks, hp⟩ | ⟨rfl, -⟩
  · have hreads := reads_of_accepts hu hline htoks
    rcases toks with - | ⟨id, - | ⟨addr, rest⟩⟩
    · exact absurd hp (by simp)
    · exact absurd hp (by simp)
    · obtain rfl := Except.ok.inj hp
      exact ⟨id, addr, rest, hreads, rfl, rfl⟩
  · exact absurd hv (by simp)

theorem SWRPacket.reads {p : SWRPacket} (hp : ofString stack line = .ok p)
    (hv : p.isValid = true) (hh : HasHeader .swr line) :
    ∃ id addr value rest, Reads .swr line (id :: addr :: value :: rest) ∧ star ∈ value ∧
      p.cellId = idOf id ∧ p.regAddr = addrOf addr ∧ p.value = valueOf value := by
  obtain ⟨u, hu⟩ := SWRPacket.exists_accepts hp hv
  obtain ⟨id, addr, value, rest, htoks, hfields⟩ := fields hp hv hh
  exact ⟨id, addr, value, rest, reads_of_accepts hu hline htoks, hfields⟩

theorem SRSPacket.reads {p : SRSPacket} (hp : ofString stack line = .ok p)
    (hv : p.isValid = true) (hh : HasHeader .srs line) :
    ∃ id value rest, Reads .srs line (id :: value :: rest) ∧ star ∈ value ∧
      p.cellId = idOf id ∧ p.value = valueOf value := by
  obtain ⟨u, hu⟩ := SRSPacket.exists_accepts hp hv
  rw [ofString_tokens hu, ofTokens] at hp
  rcases withHeader_eq_ok hp with ⟨toks, htoks, hp⟩ | ⟨-, hno⟩
  · have hreads := reads_of_accepts hu hline htoks
    rcases toks with - | ⟨id, - | ⟨value, rest⟩⟩
    · exact absurd hp (by simp)
    · exact absurd hp (by simp)
    · obtain ⟨hstar, rfl⟩ := valueOfToken_map_eq_ok hp
      exact ⟨id, value, rest, hreads, hstar, rfl, rfl⟩
  · exact absurd hh hno

end Types

end Accepted

/-- **What a valid packet says about its line.**  For each type, a line that passes the
parser's header check and comes out valid reads as a packet of the type with at least
its fields; an id is the number `strtoul` finds at the beginning of its token modulo
2¹⁶, an address the one modulo 2³², a value what stands before the `*`, up to 19
bytes.  `SRD` and `MRD` packets are valid only past their header check. -/
theorem grammar_of_isValid (stack : Stack) (line : List UInt8) (hline : IsCString line) :
    (∀ p, DISPacket.ofString stack line = .ok p → p.isValid = true → HasHeader .dis line →
      ∃ id rest, Reads .dis line (id :: rest) ∧ p.lastCellId = idOf id) ∧
    (∀ p, MRDPacket.ofString stack line = .ok p → p.isValid = true →
      ∃ addr values, Reads .mrd line (addr :: values) ∧ values.length ≤ kMaxNumValues ∧
        (∀ tok ∈ (addr :: values).dropLast, star ∉ tok) ∧ p.regAddr = addrOf addr ∧
        p.numValues = values.length ∧ p.values.take p.numValues = values.map valueOf) ∧
    (∀ p, MWRPacket.ofString stack line = .ok p → p.isValid = true → HasHeader .mwr line →
      ∃ addr value rest, Reads .mwr line (addr :: value :: rest) ∧ star ∈ value ∧
        p.regAddr = addrOf addr ∧ p.value = valueOf value) ∧
    (∀ p, SRDPacket.ofString stack line = .ok p → p.isValid = true →
      ∃ id addr rest, Reads .srd line (id :: addr :: rest) ∧ p.cellId = idOf id ∧
        p.regAddr = addrOf addr) ∧
    (∀ p, SWRPacket.ofString stack line = .ok p → p.isValid = true → HasHeader .swr line →
      ∃ id addr value rest, Reads .swr line (id :: addr :: value :: rest) ∧ star ∈ value ∧
        p.cellId = idOf id ∧ p.regAddr = addrOf addr ∧ p.value = valueOf value) ∧
    (∀ p, SRSPacket.ofString stack line = .ok p → p.isValid = true → HasHeader .srs line →
      ∃ id value rest, Reads .srs line (id :: value :: rest) ∧ star ∈ value ∧
        p.cellId = idOf id ∧ p.value = valueOf value) :=
  ⟨fun _ => DISPacket.reads hline, fun _ => MRDPacket.reads hline, fun _ => MWRPacket.reads hline,
    fun _ => SRDPacket.reads hline, fun _ => SWRPacket.reads hline, fun _ => SRSPacket.reads hline⟩

theorem grammar_sample :
    ∃ id rest, Reads .dis (ascii "$BSDIS,7*54") (id :: rest) ∧ (7 : UInt16) = idOf id :=
  (grammar_of_isValid (Vector.replicate kMaxPacketLen 0) (ascii "$BSDIS,7*54")
    ⟨by decide, by decide⟩).1 ⟨⟨ascii "$BSDIS,7*54", true, .dis⟩, 7⟩ (by decide +kernel) rfl
    (by decide +kernel)

/-! ## The grammar in the strict sense -/

/-- A numeral with a value up to `bound`. -/
structure IsNumeral (base bound : ℕ) (s : List UInt8) : Prop where
  ne_nil : s ≠ []
  digits : ∀ c ∈ s, digitVal c < base
  le : readNat base s ≤ bound

/-- The fields of a packet type, one by one. -/
def FieldsOf : PacketType → List (List UInt8) → Prop
  | .dis, [id] => IsNumeral 10 65535 id
  | .srd, [id, addr] => IsNumeral 10 65535 id ∧ IsNumeral 16 (2 ^ 32 - 1) addr
  | .mwr, [addr, _] => IsNumeral 16 (2 ^ 32 - 1) addr
  | .srs, [id, _] => IsNumeral 10 65535 id
  | .swr, [id, addr, _] => IsNumeral 10 65535 id ∧ IsNumeral 16 (2 ^ 32 - 1) addr
  | .mrd, addr :: values => IsNumeral 16 (2 ^ 32 - 1) addr ∧ values.length ≤ kMaxNumValues
  | _, _ => False

/-- A line with exactly the fields of a packet type, one or two checksum digits and a
line end or none. -/
def InGrammar (t : PacketType) (line : List UInt8) : Prop :=
  ∃ fields digits lineEnd, line = dollar :: (packetHeaderStr t ++
      (joinFields fields ++ star :: (digits ++ lineEnd))) ∧ FieldsOf t fields ∧
    (∀ f ∈ fields, comma ∉ f ∧ star ∉ f) ∧ (digits.length = 1 ∨ digits.length = 2) ∧
    (∀ c ∈ digits, digitVal c < 16) ∧
    readNat 16 digits = (xorSum (packetHeaderStr t ++ joinFields fields)).toNat ∧
    lineEnd ∈ [[], [13], [10], [13, 10]]

/-- A cell discover packet in the grammar has one numeral, and little behind the `*`. -/
theorem dis_of_inGrammar {u tail : List UInt8} (h : InGrammar .dis (u ++ star :: tail))
    (hu : star ∉ u) : ∃ id, u = ascii "$BSDIS," ++ id ∧ IsNumeral 10 65535 id ∧ comma ∉ id ∧
      tail.length ≤ 4 := by
  obtain ⟨fields, digits, lineEnd, hline, hfields, hfree, hdigits, -, -, hend⟩ := h
  rcases fields with - | ⟨id, - | ⟨f, fs⟩⟩
  · exact hfields.elim
  · obtain ⟨hcomma, hstar⟩ := hfree id (by simp)
    have hcut : u ++ star :: tail = (ascii "$BSDIS," ++ id) ++ star :: (digits ++ lineEnd) := by
      rw [hline, joinFields_cons, joinFields_nil, List.append_nil]
      rfl
    have hno : star ∉ ascii "$BSDIS," ++ id := by
      rw [List.mem_append, not_or]
      exact ⟨by decide, hstar⟩
    obtain ⟨rfl, rfl⟩ := append_cons_inj hu hno hcut
    have hlen : lineEnd.length ≤ 2 := by
      have hends : ∀ e ∈ ([[], [13], [10], [13, 10]] : List (List UInt8)), e.length ≤ 2 := by decide
      exact hends lineEnd hend
    exact ⟨id, rfl, hfields, hcomma, by rw [List.length_append]; omega⟩
  · exact hfields.elim

/-- A line that is accepted as a cell discover packet without being in the grammar. -/
def AcceptedOutside (line : List UInt8) : Prop :=
  (∃ p, DISPacket.ofString (Vector.replicate kMaxPacketLen 0) line = .ok p ∧ p.isValid = true) ∧
    ¬ InGrammar .dis line

/-- Such lines have the id `x`, an id of more than 16 bits, a second field, a comma in
front, and text behind the checksum. -/
theorem not_inGrammar_dis :
    AcceptedOutside (ascii "$BSDIS,x*1B") ∧ AcceptedOutside (ascii "$BSDIS,65536*50") ∧
      AcceptedOutside (ascii "$BSDIS,1,2*4C") ∧ AcceptedOutside (ascii ",$BSDIS,1*52") ∧
      AcceptedOutside (ascii "$BSDIS,1*52 done") := by
  refine ⟨⟨⟨⟨⟨ascii "$BSDIS,x*1B", true, .dis⟩, 0⟩, by decide +kernel, rfl⟩, fun h => ?_⟩,
    ⟨⟨⟨⟨ascii "$BSDIS,65536*50", true, .dis⟩, 0⟩, by decide +kernel, rfl⟩, fun h => ?_⟩,
    ⟨⟨⟨⟨ascii "$BSDIS,1,2*4C", true, .dis⟩, 1⟩, by decide +kernel, rfl⟩, fun h => ?_⟩,
    ⟨⟨⟨⟨ascii ",$BSDIS,1*52", true, .dis⟩, 1⟩, by decide +kernel, rfl⟩, fun h => ?_⟩,
    ⟨⟨⟨⟨ascii "$BSDIS,1*52 done", true, .dis⟩, 1⟩, by decide +kernel, rfl⟩, fun h => ?_⟩⟩
  · obtain ⟨id, hid, hnum, -⟩ := dis_of_inGrammar (u := ascii "$BSDIS,x") h (by decide)
    have hid : ascii "$BSDIS," ++ ascii "x" = ascii "$BSDIS," ++ id := hid
    obtain rfl := List.append_cancel_left hid
    exact absurd (hnum.digits (ch 'x') (by decide)) (by decide)
  · obtain ⟨id, hid, hnum, -⟩ := dis_of_inGrammar (u := ascii "$BSDIS,65536") h (by decide)
    have hid : ascii "$BSDIS," ++ ascii "65536" = ascii "$BSDIS," ++ id := hid
    obtain rfl := List.append_cancel_left hid
    exact absurd hnum.le (by decide)
  · obtain ⟨id, hid, -, hcomma, -⟩ := dis_of_inGrammar (u := ascii "$BSDIS,1,2") h (by decide)
    have hid : ascii "$BSDIS," ++ ascii "1,2" = ascii "$BSDIS," ++ id := hid
    obtain rfl := List.append_cancel_left hid
    exact absurd hcomma (by decide)
  · obtain ⟨id, hid, -⟩ := dis_of_inGrammar (u := ascii ",$BSDIS,1") h (by decide)
    exact absurd (List.cons.inj hid).1 (by decide)
  · obtain ⟨id, -, -, -, hlen⟩ := dis_of_inGrammar (u := ascii "$BSDIS,1") h (by decide)
    exact absurd hlen (by decide)

end Scbs
