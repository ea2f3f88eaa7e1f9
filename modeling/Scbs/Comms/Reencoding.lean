import Scbs.Comms.Grammar

/-!
# Re-encoding

A cell that forwards a packet sends what it parsed, encoded anew.  An incoming line may
spell its numbers, its checksum and its fields in many ways, but whatever the parsers
store lies in the domain on which decoding undoes encoding.

* `ValueIn` — where the value of a parsed packet comes from, `X.ofString_spec`: what a
  typed parser made of a line that it found valid.
* `HeaderDefined` — the header lookup reads no uninitialised memory, so that all cells
  find the same type (`HeaderDefined.accepts`).
* `reencode` — **forwarding preserves the meaning of every accepted line**, and the
  bytes of a packet stop changing after the first hop.
-/

namespace Scbs

open CLib

/-! ## What the parsers store -/

/-- The value of a parsed packet: the one of a token of the line that has a `*`, or none. -/
def ValueIn (line v : List UInt8) : Prop :=
  v = [] ∨ ∃ tok ∈ tokens comma line, star ∈ tok ∧ v = valueOf tok

section Values

variable {line v tok : List UInt8}

theorem star_not_mem_valueOf (tok : List UInt8) : star ∉ valueOf tok := by
  intro h
  simpa using List.mem_takeWhile_imp (List.mem_of_mem_take h)

theorem length_valueOf_le (tok : List UInt8) : (valueOf tok).length ≤ 19 := by
  rw [valueOf, List.length_take]
  exact min_le_left _ _

theorem mem_of_mem_valueOf {c : UInt8} (h : c ∈ valueOf tok) : c ∈ tok :=
  (List.takeWhile_prefix _).subset (List.mem_of_mem_take h)

/-- **A parsed value can be carried by a field.** -/
theorem ValueIn.exists_field (h : ValueIn line v) (h0 : (0 : UInt8) ∉ line) :
    ∃ f : Field, f.text = v := by
  rcases h with rfl | ⟨tok, htok, -, rfl⟩
  · exact ⟨⟨[], by simp, by simp, by simp, by simp⟩, rfl⟩
  · obtain ⟨hwithin, hcomma⟩ := infix_of_mem_tokens htok
    refine ⟨⟨valueOf tok, length_valueOf_le tok, ?_, ?_, star_not_mem_valueOf tok⟩, rfl⟩
    · exact fun h => h0 (hwithin.subset (mem_of_mem_valueOf h))
    · exact fun h => hcomma (mem_of_mem_valueOf h)

/-- A byte that only ends the line is in no value: a value stands before a `*`. -/
theorem ValueIn.not_mem_of_last {body : List UInt8} {c : UInt8} (h : ValueIn (body ++ [c]) v)
    (hc : c ∉ body) : c ∉ v := by
  rcases h with rfl | ⟨tok, htok, hstar, rfl⟩
  · exact List.not_mem_nil
  · intro hm
    obtain ⟨a, b, rfl, ha⟩ := List.eq_append_cons_of_mem hstar
    obtain ⟨⟨x, y, hxy⟩, -⟩ := infix_of_mem_tokens htok
    rw [valueOf_append ha] at hm
    have hsplit : (x ++ a) ++ (star :: (b ++ y)) = body ++ [c] := by
      rw [← hxy]
      simp
    -- the `*` is the last byte at the earliest
    have hbody : x ++ a <+: body := by
      have hlen := congrArg List.length hsplit
      simp only [List.length_append, List.length_cons, List.length_nil] at hlen
      apply List.prefix_of_prefix_length_le ⟨_, hsplit⟩ (List.prefix_append body [c])
      rw [List.length_append]
      omega
    exact hc (hbody.subset (List.mem_append_right _ (List.mem_of_mem_take hm)))

end Values

section Parsed

variable {stack : Stack} {line : List UInt8}

namespace SRDPacket

theorem ofString_spec {p : SRDPacket} (hp : ofString stack line = .ok p) (hv : p.isValid = true) :
    BSPacket.Accepts stack line p.packetType := by
  obtain ⟨u, hu⟩ := SRDPacket.exists_accepts hp hv
  rw [ofString_tokens hu, ofTokens] at hp
  rcases withHeader_eq_ok hp with ⟨toks, -, hp⟩ | ⟨rfl, -⟩
  · rcases toks with - | ⟨id, - | ⟨addr, rest⟩⟩
    · exact absurd hp (by simp)
    · exact absurd hp (by simp)
    · obtain rfl := Except.ok.inj hp
      exact hu
  · exact hu

end SRDPacket

namespace MWRPacket

/-- **A valid multi-write packet** has the type that `BSPacket` gives the line and, if the
line also passes the header check, a value of the line. -/
theorem ofString_spec {p : MWRPacket} (hp : ofString stack line = .ok p) (hv : p.isValid = true) :
    BSPacket.Accepts stack line p.packetType ∧ ValueIn line p.value := by
  obtain ⟨u, hu⟩ := MWRPacket.exists_accepts hp hv
  rw [ofString_tokens hu, ofTokens] at hp
  rcases withHeader_eq_ok hp with ⟨toks, htoks, hp⟩ | ⟨rfl, -⟩
  · rcases toks with - | ⟨addr, - | ⟨value, rest⟩⟩
    · exact absurd hp (by simp)
    · exact absurd hp (by simp)
    · obtain ⟨hstar, rfl⟩ := valueOfToken_map_eq_ok hp
      exact ⟨hu, Or.inr ⟨value, by rw [htoks]; simp, hstar, rfl⟩⟩
  · exact ⟨hu, Or.inl rfl⟩

end MWRPacket

namespace SWRPacket

theorem ofString_spec {p : SWRPacket} (hp : ofString stack line = .ok p) (hv : p.isValid = true) :
    BSPacket.Accepts stack line p.packetType ∧ ValueIn line p.value := by
  obtain ⟨u, hu⟩ := SWRPacket.exists_accepts hp hv
  rw [ofString_tokens hu, ofTokens] at hp
  rcases withHeader_eq_ok hp with ⟨toks, htoks, hp⟩ | ⟨rfl, -⟩
  · rcases toks with - | ⟨id, - | ⟨addr, - | ⟨value, rest⟩⟩⟩
    · exact absurd hp (by simp)
    · exact absurd hp (by simp)
    · exact absurd hp (by simp)
    · obtain ⟨hstar, rfl⟩ := valueOfToken_map_eq_ok hp
      exact ⟨hu, Or.inr ⟨value, by rw [htoks]; simp, hstar, rfl⟩⟩
  · exact ⟨hu, Or.inl rfl⟩

end SWRPacket

namespace SRSPacket

theorem ofString_spec {p : SRSPacket} (hp : ofString stack line = .ok p) (hv : p.isValid = true) :
    BSPacket.Accepts stack line p.packetType ∧ ValueIn line p.value := by
  obtain ⟨u, hu⟩ := SRSPacket.exists_accepts hp hv
  rw [ofString_tokens hu, ofTokens] at hp
  rcases withHeader_eq_ok hp with ⟨toks, htoks, hp⟩ | ⟨rfl, -⟩
  · rcases toks with - | ⟨id, - | ⟨value, rest⟩⟩
    · exact absurd hp (by simp)
    · exact absurd hp (by simp)
    · obtain ⟨hstar, rfl⟩ := valueOfToken_map_eq_ok hp
      exact ⟨hu, Or.inr ⟨value, by rw [htoks]; simp, hstar, rfl⟩⟩
  · exact ⟨hu, Or.inl rfl⟩

end SRSPacket

end Parsed

/-! ## Lines on which the parse is defined -/

/-- The header lookup reads no uninitialised byte: it comes to a result whatever the array
holds. -/
def HeaderDefined (line : List UInt8) : Prop :=
  ∀ stack, ∃ p, BSPacket.ofString stack line = .ok p

/-- An array full of letters: a token that runs into it has no end. -/
def lettersStack : Stack := Vector.replicate kMaxPacketLen (ch 'A')

theorem inToken_of_mem_lettersStack {x : UInt8}
    (hx : x ∈ lettersStack.toList.drop kMaxPacketFieldLen) : inToken comma x = true := by
  have hmem := List.mem_of_mem_drop hx
  rw [lettersStack, Vector.toList_replicate] at hmem
  rw [List.eq_of_mem_replicate hmem]
  decide

section Defined

variable {stack stack' : Stack} {line : List UInt8} {t u : PacketType}

/-- **All cells find the same type** in a line on which the lookup is defined. -/
theorem HeaderDefined.accepts (h : HeaderDefined line) (hacc : BSPacket.Accepts stack line t) :
    BSPacket.Accepts stack' line t := by
  obtain ⟨⟨e, he, hsum⟩, headerStr, htok, hlook⟩ := hacc
  refine ⟨⟨e, he, hsum⟩, headerStr, ?_, hlook⟩
  have hbuf : ∀ s : Stack, BSPacket.headerBuf s line =
      (line.take kMaxPacketFieldLen ++ List.replicate (kMaxPacketFieldLen - line.length) 0) ++
        s.toList.drop kMaxPacketFieldLen := fun s => rfl
  -- the letters show that the token ends among the bytes copied
  have hends : strtokMem comma (BSPacket.headerBuf lettersStack line) ≠ none := by
    intro hnone
    obtain ⟨p, hp⟩ := h lettersStack
    simp only [BSPacket.ofString, BSPacket.fromString, he, hsum, hnone, ne_eq, not_true_eq_false,
      if_false] at hp
    exact absurd hp (by simp)
  rw [hbuf] at hends htok ⊢
  rw [strtokMem_append (fun x => inToken_of_mem_lettersStack) hends] at htok ⊢
  exact htok

theorem accepts_unique (ht : BSPacket.Accepts stack line t) (hu : BSPacket.Accepts stack line u) :
    t = u := by
  obtain ⟨-, h, htok, hlook⟩ := ht
  obtain ⟨-, h', htok', hlook'⟩ := hu
  rw [htok] at htok'
  obtain rfl := Option.some.inj (Option.some.inj htok')
  exact Option.some.inj (hlook.symm.trans hlook')

theorem accepts_of_readsAs (h : ReadsAs stack line t) : BSPacket.Accepts stack line t := by
  obtain ⟨p, hp, hv, rfl⟩ := h
  exact BSPacket.accepts_of_isValid hp hv

/-- What one cell reads is what every cell reads. -/
theorem HeaderDefined.eq_of_accepts (h : HeaderDefined line) (ht : ReadsAs stack line t)
    (hu : BSPacket.Accepts stack' line u) : u = t :=
  accepts_unique hu (h.accepts (accepts_of_readsAs ht))

end Defined

/-! ## Forwarding -/

/-- **Forwarding preserves meaning.**  When `BSPacket` finds a type in a line on which the
parse is defined and the typed packet is valid, the string that `ToString` makes of it
is accepted with the same type, parses to the same fields, and is what `ToString` makes
of that parse again. -/
theorem reencode (stack stackTyped stack' stackTyped' : Stack) (line : List UInt8)
    (hline : IsCString line) (hdef : HeaderDefined line) (tail : List UInt8)
    (htail : tail = [] ∨ tail = [13, 10]) :
    (∀ p, ReadsAs stack line .mwr → MWRPacket.ofString stackTyped line = .ok p →
      p.isValid = true → ReadsAs stack' (p.toStr.packetStr ++ tail) .mwr ∧
        ∃ q, MWRPacket.ofString stackTyped' (p.toStr.packetStr ++ tail) = .ok q ∧
          q.isValid = true ∧ q.regAddr = p.regAddr ∧ q.value = p.value ∧
          q.toStr.packetStr = p.toStr.packetStr) ∧
    (∀ p, ReadsAs stack line .srd → SRDPacket.ofString stackTyped line = .ok p →
      p.isValid = true → ReadsAs stack' (p.toStr.packetStr ++ tail) .srd ∧
        ∃ q, SRDPacket.ofString stackTyped' (p.toStr.packetStr ++ tail) = .ok q ∧
          q.isValid = true ∧ q.cellId = p.cellId ∧ q.regAddr = p.regAddr ∧
          q.toStr.packetStr = p.toStr.packetStr) ∧
    (∀ p, ReadsAs stack line .swr → SWRPacket.ofString stackTyped line = .ok p →
      p.isValid = true → ReadsAs stack' (p.toStr.packetStr ++ tail) .swr ∧
        ∃ q, SWRPacket.ofString stackTyped' (p.toStr.packetStr ++ tail) = .ok q ∧
          q.isValid = true ∧ q.cellId = p.cellId ∧ q.regAddr = p.regAddr ∧ q.value = p.value ∧
          q.toStr.packetStr = p.toStr.packetStr) ∧
    (∀ p, ReadsAs stack line .srs → SRSPacket.ofString stackTyped line = .ok p →
      p.isValid = true → ReadsAs stack' (p.toStr.packetStr ++ tail) .srs ∧
        ∃ q, SRSPacket.ofString stackTyped' (p.toStr.packetStr ++ tail) = .ok q ∧
          q.isValid = true ∧ q.cellId = p.cellId ∧ q.value = p.value ∧
          q.toStr.packetStr = p.toStr.packetStr) := by
  have ht : Tail tail := by
    rcases htail with rfl | rfl
    · exact tail_nil
    · exact tail_crlf
  refine ⟨?_, ?_, ?_, ?_⟩
  · intro p hreads hp hv
    obtain ⟨hacc, hval⟩ := MWRPacket.ofString_spec hp hv
    obtain ⟨v, hv⟩ := hval.exists_field hline.no_nul
    have htype := hdef.eq_of_accepts hreads hacc
    rw [MWRPacket.packetStr_of_value htype hv.symm, ← hv]
    exact ⟨readsAs_of_accepts (MWRPacket.accepts_frame stack' p.regAddr v ht), _,
      MWRPacket.ofString_frame stackTyped' p.regAddr v ht, rfl, rfl, rfl,
      MWRPacket.packetStr_of_value rfl rfl⟩
  · intro p hreads hp hv
    have htype := hdef.eq_of_accepts hreads (SRDPacket.ofString_spec hp hv)
    rw [SRDPacket.packetStr_toStr, htype]
    exact ⟨readsAs_of_accepts (SRDPacket.accepts_frame stack' p.cellId p.regAddr ht), _,
      SRDPacket.ofString_frame stackTyped' p.cellId p.regAddr ht, rfl, rfl, rfl,
      SRDPacket.packetStr_toStr _⟩
  · intro p hreads hp hv
    obtain ⟨hacc, hval⟩ := SWRPacket.ofString_spec hp hv
    obtain ⟨v, hv⟩ := hval.exists_field hline.no_nul
    have htype := hdef.eq_of_accepts hreads hacc
    rw [SWRPacket.packetStr_of_value htype hv.symm, ← hv]
    exact ⟨readsAs_of_accepts (SWRPacket.accepts_frame stack' p.cellId p.regAddr v ht), _,
      SWRPacket.ofString_frame stackTyped' p.cellId p.regAddr v ht, rfl, rfl, rfl, rfl,
      SWRPacket.packetStr_of_value rfl rfl⟩
  · intro p hreads hp hv
    obtain ⟨hacc, hval⟩ := SRSPacket.ofString_spec hp hv
    obtain ⟨v, hv⟩ := hval.exists_field hline.no_nul
    have htype := hdef.eq_of_accepts hreads hacc
    rw [SRSPacket.packetStr_of_value htype hv.symm, ← hv]
    exact ⟨readsAs_of_accepts (SRSPacket.accepts_frame stack' p.cellId v ht), _,
      SRSPacket.ofString_frame stackTyped' p.cellId v ht, rfl, rfl, rfl,
      SRSPacket.packetStr_of_value rfl rfl⟩

/-- A write with an empty field, a sign, a lower-case address and a value that is too
long. -/
def looseContents : List UInt8 := ascii ",+07,0x2a,3.300000000000000000000"

def looseLine : List UInt8 := dollar :: (frameBody .swr looseContents ++ star :: ascii " 0X5e")

theorem headerDefined_looseLine : HeaderDefined looseLine := by
  intro stack
  have hacc : BSPacket.Accepts stack looseLine .swr :=
    (BSPacket.accepts_line_iff stack (by decide) (by decide) (by decide)).2 (by decide +kernel)
  exact ⟨_, BSPacket.fromString_of_accepts hacc _⟩

/-- What the parser makes of it. -/
def loosePacket : SWRPacket where
  packetStr := looseLine
  isValid := true
  packetType := .swr
  cellId := 7
  regAddr := 0x2a
  value := ascii "3.30000000000000000"

theorem reencode_sample :
    ReadsAs (Vector.replicate kMaxPacketLen 0) (loosePacket.toStr.packetStr ++ [13, 10]) .swr ∧
      ∃ q, SWRPacket.ofString (Vector.replicate kMaxPacketLen 0)
          (loosePacket.toStr.packetStr ++ [13, 10]) = .ok q ∧
        q.isValid = true ∧ q.cellId = 7 ∧ q.regAddr = 0x2a ∧ q.value = loosePacket.value ∧
        q.toStr.packetStr = loosePacket.toStr.packetStr :=
  (reencode (Vector.replicate kMaxPacketLen 0) (Vector.replicate kMaxPacketLen 0)
    (Vector.replicate kMaxPacketLen 0) (Vector.replicate kMaxPacketLen 0) looseLine
    ⟨by decide +kernel, by decide⟩ headerDefined_looseLine [13, 10] (Or.inr rfl)).2.2.1 loosePacket
    ⟨⟨looseLine, true, .swr⟩, by decide +kernel, rfl, rfl⟩ (by decide +kernel) rfl

end Scbs
