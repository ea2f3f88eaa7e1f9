import Scbs.CLib.Float
import Scbs.Comms.Grammar

/-!
# The master utility: `scbs_utils.py`

The master builds its packets with code of its own: it sums up the text it was given and
writes the checksum with `{:x}`, in lower case and without padding.

* `Utils.packetize`, `Utils.mainPacket` — what the script transmits for a command.
* `accepts_packetize` — `BSPacket` accepts what `packetize` makes of a header and
  contents without a `*`.
* `master_agrees` — **the master and the firmware agree**: the packet of every command
  is accepted with its type, and parses to the numbers and the text that were typed.
-/

namespace Scbs

open CLib

/-! ## The script -/

namespace Utils

/-- `calculate_checksum`. -/
def calculateChecksum (contentsStr : List UInt8) : ℕ :=
  contentsStr.foldl (fun checksum c => checksum ^^^ c.toNat) 0

/-- The format `{:x}`. -/
def formatHex (n : ℕ) : List UInt8 := (printNat 16 n).map ExtRat.lower

/-- `packetize`. -/
def packetize (contentsStr : List UInt8) : List UInt8 :=
  dollar :: (contentsStr ++ star :: (formatHex (calculateChecksum contentsStr) ++ [13, 10]))

/-- A branch of `main`: the packet for a command of `numArgs` words, or `none` when
their number is another one. -/
def command (header : List UInt8) (numArgs : ℕ) (commandWords : List (List UInt8)) :
    Option (List UInt8) :=
  if commandWords.length ≠ numArgs then none
  else some (packetize (header ++ joinFields commandWords.tail))

/-- One turn of the loop of `main`: what it transmits for the text typed in. -/
def mainPacket (text : List UInt8) : Option (List UInt8) :=
  let commandWords := text.splitOn (ch ' ')
  match commandWords.head? with
  | none => none
  | some word =>
    if word.map ExtRat.lower = ascii "exit" then none
    else if word = ascii "DIS" then command (ascii "BSDIS") 2 commandWords
    else if word = ascii "MRD" then command (ascii "BSMRD") 2 commandWords
    else if word = ascii "MWR" then command (ascii "BSMWR") 3 commandWords
    else if word = ascii "SRD" then command (ascii "BSSRD") 3 commandWords
    else if word = ascii "SWR" then command (ascii "BSSWR") 4 commandWords
    else if word = ascii "SRS" then command (ascii "BSSRS") 3 commandWords
    else none

end Utils

/-- A command as it is typed: words with blanks between them. -/
def typed (words : List (List UInt8)) : List UInt8 := [ch ' '].intercalate words

/-- A word of a command: printable ASCII without a space, a comma or a `*`. -/
structure IsWord (w : List UInt8) : Prop where
  ne_nil : w ≠ []
  plain : ∀ c ∈ w, 33 ≤ c ∧ c ≤ 126 ∧ c ≠ comma ∧ c ≠ star

/-- An address of one to eight hexadecimal digits. -/
structure IsAddress (w : List UInt8) : Prop where
  ne_nil : w ≠ []
  length_le : w.length ≤ 8
  digits : ∀ c ∈ w, digitVal c < 16

/-! ## The checksum of the script -/

theorem calculateChecksum_eq (s : List UInt8) : Utils.calculateChecksum s = (xorSum s).toNat := by
  have hfold : ∀ (t : List UInt8) (c : UInt8),
      t.foldl (fun checksum x => checksum ^^^ x.toNat) c.toNat =
        (t.foldl (· ^^^ ·) c).toNat := by
    intro t
    induction t with
    | nil => intro c; rfl
    | cons x t ih =>
      intro c
      rw [List.foldl_cons, List.foldl_cons, ← UInt8.toNat_xor, ih]
  exact hfold s 0

theorem digitVal_lower : ∀ c : UInt8, digitVal (ExtRat.lower c) = digitVal c := by
  decide +kernel

/-- The case of its letters is no part of a numeral. -/
theorem readNat_map_lower (base : ℕ) (s : List UInt8) :
    readNat base (s.map ExtRat.lower) = readNat base s := by
  have hdigit : isDigit base ∘ ExtRat.lower = isDigit base := by
    funext c
    simp only [Function.comp, isDigit, digitVal_lower]
  rw [readNat, readNat, List.takeWhile_map, hdigit, List.foldl_map]
  simp only [digitVal_lower]

theorem formatHex_ne_nil (n : ℕ) : Utils.formatHex n ≠ [] := by
  rw [Utils.formatHex, Ne, List.map_eq_nil_iff]
  exact printNat_ne_nil 16 n

theorem digitVal_of_mem_formatHex {n : ℕ} {c : UInt8} (hc : c ∈ Utils.formatHex n) :
    digitVal c < 16 := by
  obtain ⟨x, hx, rfl⟩ := List.mem_map.1 hc
  rw [digitVal_lower]
  exact digitVal_of_mem_printNat (by omega) (by omega) hx

theorem readNat_formatHex (n : ℕ) : readNat 16 (Utils.formatHex n) = n := by
  rw [Utils.formatHex, readNat_map_lower, readNat_printNat_self (by omega) (by omega)]

/-! ## Acceptance -/

section Accept

variable (stack : Stack) {t : PacketType} {contents : List UInt8}

/-- **`BSPacket` accepts the packets of the script.** -/
theorem accepts_packetize (ht : t ≠ .unknown) (hstar : star ∉ contents)
    (hlen : (Utils.packetize (frameBody t contents)).length ≤ 199) :
    BSPacket.Accepts stack (Utils.packetize (frameBody t contents)) t := by
  have hcontents : contents.length ≤ 193 := by
    simp only [Utils.packetize, frameBody, List.length_cons, List.length_append,
      length_packetHeaderStr] at hlen
    omega
  unfold Utils.packetize
  rw [BSPacket.accepts_line_iff stack ht hstar hcontents]
  refine ofInt_strtol_digits (formatHex_ne_nil _) (fun d hd => digitVal_of_mem_formatHex hd) ?_
    tail_crlf.ends
  rw [readNat_formatHex, calculateChecksum_eq]

/-- What follows the `*`. -/
def ending (contentsStr : List UInt8) : List UInt8 :=
  Utils.formatHex (Utils.calculateChecksum contentsStr) ++ [13, 10]

theorem comma_not_mem_hostEnding (contentsStr : List UInt8) : comma ∉ ending contentsStr := by
  rw [ending, List.mem_append, not_or]
  refine ⟨fun h => ?_, by decide⟩
  exact absurd (digitVal_of_mem_formatHex h) (by decide)

/-- The tokens of a packet of the script. -/
theorem tokens_packetize (t : PacketType) (contents : List UInt8) :
    tokens comma (Utils.packetize (frameBody t contents)) =
      (dollar :: packetHeaderStr t) ::
        tokens comma (contents ++ star :: ending (frameBody t contents)) := by
  have hline : Utils.packetize (frameBody t contents) = (dollar :: packetHeaderStr t) ++
      comma :: (contents ++ star :: ending (frameBody t contents)) := by
    simp [Utils.packetize, ending, frameBody]
  rw [hline, tokens_field (List.cons_ne_nil _ _) (comma_not_mem_header t)]

/-- The last field of a packet of the script has the `*` and what follows in its token. -/
theorem tokens_lastField {u : List UInt8} (hu : comma ∉ u) (s : List UInt8) :
    tokens comma (u ++ star :: ending s) = [u ++ star :: ending s] := by
  apply tokens_last
  · simp
  · exact not_mem_append_cons hu comma_ne_star (comma_not_mem_hostEnding s)

end Accept

/-! ## The fields -/

section Fields

variable {id addr value rest : List UInt8}

/-- A word that is one field of a packet and one word of a command. -/
structure IsField (w : List UInt8) : Prop where
  no_comma : comma ∉ w
  no_star : star ∉ w
  no_space : ch ' ' ∉ w

theorem isField_of_digits {base : ℕ} (hb : base ≤ 16) {w : List UInt8}
    (hw : ∀ c ∈ w, digitVal c < base) : IsField w := by
  have hno : ∀ c, digitVal c = 36 → c ∉ w := by
    intro c hc h
    have := hw c h
    omega
  exact ⟨hno comma (by decide), hno star (by decide), hno (ch ' ') (by decide)⟩

theorem IsNumeral.isField {bound : ℕ} (h : IsNumeral 10 bound id) : IsField id :=
  isField_of_digits (by omega) h.digits

theorem IsAddress.isField (h : IsAddress addr) : IsField addr :=
  isField_of_digits (by omega) h.digits

theorem IsWord.isField (h : IsWord value) : IsField value where
  no_comma hmem := (h.plain comma hmem).2.2.1 rfl
  no_star hmem := (h.plain star hmem).2.2.2 rfl
  no_space hmem := absurd (h.plain (ch ' ') hmem).1 (by decide)

/-- The id that the firmware reads is the one typed. -/
theorem idOf_numeral (h : IsNumeral 10 65535 id) (hr : Ends rest) :
    (idOf (id ++ rest)).toNat = readNat 10 id := by
  have hle := h.le
  rw [idOf, scbsNumbersBase, strtoul_digits (Or.inl rfl) h.ne_nil h.digits hr (by omega),
    UInt16.toNat_ofNat_of_lt' (show _ < 65536 by omega)]

theorem IsAddress.readNat_lt (h : IsAddress addr) : readNat 16 addr < 2 ^ 32 := by
  have hlt := readNat_lt_pow h.digits
  have hle : 16 ^ addr.length ≤ 16 ^ 8 := Nat.pow_le_pow_right (by omega) h.length_le
  omega

/-- The address that the firmware reads is the one typed. -/
theorem addrOf_numeral (h : IsAddress addr) (hr : Ends rest) :
    (addrOf (addr ++ rest)).toNat = readNat 16 addr := by
  rw [addrOf, scbsAddrBase, strtoul_digits (Or.inr rfl) h.ne_nil h.digits hr h.readNat_lt,
    UInt32.toNat_ofNat_of_lt' h.readNat_lt]

theorem ends_star (s : List UInt8) : Ends (star :: s) := ends_cons.2 (by decide)

/-- The value that the firmware reads is the one typed. -/
theorem valueOfToken_word (h : IsWord value) (hlen : value.length ≤ 19) (s : List UInt8) :
    valueOfToken (value ++ star :: s) = .ok value := by
  rw [valueOfToken, if_pos (by simp), valueOf_append h.isField.no_star,
    List.take_of_length_le hlen]

end Fields

/-! ## The typed parsers -/

section Typed

variable (stack stackTyped : Stack) {id addr value line : List UInt8}

/-- `BSPacket` and the typed parser on a packet of the script: the id read is the one typed. -/
theorem DISPacket.ofString_packetize (hid : IsNumeral 10 65535 id)
    (hline : line = Utils.packetize (frameBody .dis id)) (hlen : line.length ≤ 199) :
    ReadsAs stack line .dis ∧
      ∃ p, ofString stackTyped line = .ok p ∧
        p.isValid = true ∧ p.lastCellId.toNat = readNat 10 id := by
  subst hline
  have hacc := fun s => accepts_packetize s (t := .dis) (by decide) hid.isField.no_star hlen
  refine ⟨readsAs_of_accepts (hacc stack), ?_⟩
  rw [ofString_tokens (hacc stackTyped), tokens_packetize,
    tokens_lastField hid.isField.no_comma, ofTokens, withHeader, if_pos rfl]
  exact ⟨_, rfl, rfl, idOf_numeral hid (ends_star _)⟩

theorem MRDPacket.ofString_packetize (haddr : IsAddress addr)
    (hline : line = Utils.packetize (frameBody .mrd addr)) (hlen : line.length ≤ 199) :
    ReadsAs stack line .mrd ∧
      ∃ p, ofString stackTyped line = .ok p ∧
        p.isValid = true ∧ p.regAddr.toNat = readNat 16 addr ∧ p.numValues = 0 := by
  subst hline
  have hacc := fun s => accepts_packetize s (t := .mrd) (by decide) haddr.isField.no_star hlen
  refine ⟨readsAs_of_accepts (hacc stack), ?_⟩
  rw [ofString_tokens (hacc stackTyped), tokens_packetize,
    tokens_lastField haddr.isField.no_comma, ofTokens, withHeader, if_pos rfl]
  exact ⟨_, rfl, rfl, addrOf_numeral haddr (ends_star _), rfl⟩

theorem SRDPacket.ofString_packetize (hid : IsNumeral 10 65535 id) (haddr : IsAddress addr)
    (hline : line = Utils.packetize (frameBody .srd (id ++ comma :: addr)))
    (hlen : line.length ≤ 199) :
    ReadsAs stack line .srd ∧
      ∃ p, ofString stackTyped line = .ok p ∧
        p.isValid = true ∧ p.cellId.toNat = readNat 10 id ∧ p.regAddr.toNat = readNat 16 addr := by
  subst hline
  have hstar : star ∉ id ++ comma :: addr :=
    not_mem_append_cons hid.isField.no_star star_ne_comma haddr.isField.no_star
  have hacc := fun s => accepts_packetize s (t := .srd) (by decide) hstar hlen
  refine ⟨readsAs_of_accepts (hacc stack), ?_⟩
  rw [ofString_tokens (hacc stackTyped), tokens_packetize, List.append_assoc, List.cons_append,
    tokens_field hid.ne_nil hid.isField.no_comma, tokens_lastField haddr.isField.no_comma,
    ofTokens, withHeader, if_pos rfl]
  refine ⟨_, rfl, rfl, ?_, addrOf_numeral haddr (ends_star _)⟩
  simpa using idOf_numeral hid ends_nil

theorem MWRPacket.ofString_packetize (haddr : IsAddress addr) (hvalue : IsWord value)
    (hle : value.length ≤ 19)
    (hline : line = Utils.packetize (frameBody .mwr (addr ++ comma :: value)))
    (hlen : line.length ≤ 199) :
    ReadsAs stack line .mwr ∧
      ∃ p, ofString stackTyped line = .ok p ∧
        p.isValid = true ∧ p.regAddr.toNat = readNat 16 addr ∧ p.value = value := by
  subst hline
  have hstar : star ∉ addr ++ comma :: value :=
    not_mem_append_cons haddr.isField.no_star star_ne_comma
      hvalue.isField.no_star
  have hacc := fun s => accepts_packetize s (t := .mwr) (by decide) hstar hlen
  refine ⟨readsAs_of_accepts (hacc stack), ?_⟩
  rw [ofString_tokens (hacc stackTyped), tokens_packetize, List.append_assoc, List.cons_append,
    tokens_field haddr.ne_nil haddr.isField.no_comma,
    tokens_lastField hvalue.isField.no_comma, ofTokens, withHeader, if_pos rfl]
  simp only [valueOfToken_word hvalue hle]
  refine ⟨_, rfl, rfl, ?_, rfl⟩
  simpa using addrOf_numeral haddr ends_nil

theorem SRSPacket.ofString_packetize (hid : IsNumeral 10 65535 id) (hvalue : IsWord value)
    (hle : value.length ≤ 19)
    (hline : line = Utils.packetize (frameBody .srs (id ++ comma :: value)))
    (hlen : line.length ≤ 199) :
    ReadsAs stack line .srs ∧
      ∃ p, ofString stackTyped line = .ok p ∧
        p.isValid = true ∧ p.cellId.toNat = readNat 10 id ∧ p.value = value := by
  subst hline
  have hstar : star ∉ id ++ comma :: value :=
    not_mem_append_cons hid.isField.no_star star_ne_comma
      hvalue.isField.no_star
  have hacc := fun s => accepts_packetize s (t := .srs) (by decide) hstar hlen
  refine ⟨readsAs_of_accepts (hacc stack), ?_⟩
  rw [ofString_tokens (hacc stackTyped), tokens_packetize, List.append_assoc, List.cons_append,
    tokens_field hid.ne_nil hid.isField.no_comma,
    tokens_lastField hvalue.isField.no_comma, ofTokens, withHeader, if_pos rfl]
  simp only [valueOfToken_word hvalue hle]
  refine ⟨_, rfl, rfl, ?_, rfl⟩
  simpa using idOf_numeral hid ends_nil

theorem SWRPacket.ofString_packetize (hid : IsNumeral 10 65535 id) (haddr : IsAddress addr)
    (hvalue : IsWord value) (hle : value.length ≤ 19)
    (hline : line = Utils.packetize (frameBody .swr (id ++ comma :: (addr ++ comma :: value))))
    (hlen : line.length ≤ 199) :
    ReadsAs stack line .swr ∧
      ∃ p, ofString stackTyped line = .ok p ∧
        p.isValid = true ∧ p.cellId.toNat = readNat 10 id ∧ p.regAddr.toNat = readNat 16 addr ∧
        p.value = value := by
  subst hline
  have hstar : star ∉ id ++ comma :: (addr ++ comma :: value) :=
    not_mem_append_cons hid.isField.no_star star_ne_comma
      (not_mem_append_cons haddr.isField.no_star star_ne_comma
        hvalue.isField.no_star)
  have hacc := fun s => accepts_packetize s (t := .swr) (by decide) hstar hlen
  refine ⟨readsAs_of_accepts (hacc stack), ?_⟩
  rw [ofString_tokens (hacc stackTyped), tokens_packetize, List.append_assoc, List.cons_append,
    List.append_assoc, List.cons_append,
    tokens_field hid.ne_nil hid.isField.no_comma,
    tokens_field haddr.ne_nil haddr.isField.no_comma,
    tokens_lastField hvalue.isField.no_comma, ofTokens, withHeader, if_pos rfl]
  simp only [valueOfToken_word hvalue hle]
  refine ⟨_, rfl, rfl, ?_, ?_, rfl⟩
  · simpa using idOf_numeral hid ends_nil
  · simpa using addrOf_numeral haddr ends_nil

end Typed

/-! ## The master and the firmware -/

section Master

variable {id addr value : List UInt8}

/-- The words of a command that is typed with single blanks. -/
theorem splitOn_typed {words : List (List UInt8)} (hne : words ≠ [])
    (hwords : ∀ w ∈ words, ch ' ' ∉ w) : (typed words).splitOn (ch ' ') = words :=
  List.splitOn_intercalate (ch ' ') hwords hne

/-- The words that follow the name of a command. -/
def numWords : PacketType → ℕ
  | .dis | .mrd => 1
  | .mwr | .srd | .srs => 2
  | .swr => 3
  | .unknown => 0

/-- What `main` transmits for a command with the words it needs.  The name of a command is
the header without `BS`. -/
theorem mainPacket_typed {t : PacketType} (ht : t ≠ .unknown) {args : List (List UInt8)}
    {contents : List UInt8} (hargs : ∀ w ∈ args, ch ' ' ∉ w) (hlen : args.length = numWords t)
    (hcontents : joinFields args = comma :: contents) :
    Utils.mainPacket (typed ((packetHeaderStr t).drop 2 :: args)) =
      some (Utils.packetize (frameBody t contents)) := by
  have hwords : ∀ w ∈ (packetHeaderStr t).drop 2 :: args, ch ' ' ∉ w := by
    intro w hw
    rcases List.mem_cons.1 hw with rfl | hw
    · cases t <;> decide
    · exact hargs w hw
  unfold Utils.mainPacket frameBody
  rw [splitOn_typed (List.cons_ne_nil _ _) hwords, ← hcontents]
  have hcount : ¬ ((packetHeaderStr t).drop 2 :: args).length ≠ numWords t + 1 := by
    simp [hlen]
  simp only [List.head?_cons]
  cases t with
  | unknown => exact absurd rfl ht
  | dis | mrd | mwr | srd | swr | srs =>
    -- the branches of `main` before the one that is taken
    repeat rw [if_neg (by decide)]
    rw [if_pos (by decide), Utils.command]
    exact if_neg hcount

/-- **The master and the firmware agree.**  For a decimal id up to 65535, an address of up to
eight hexadecimal digits and a value of up to 19 characters, every command makes `main`
transmit a packet that `BSPacket` accepts with the type of the command, and that the typed
parser reads back as what was typed. -/
theorem master_agrees (stack stackTyped : Stack) (id addr value : List UInt8)
    (hid : IsNumeral 10 65535 id) (haddr : IsAddress addr) (hvalue : IsWord value)
    (hle : value.length ≤ 19) :
    (∃ line, Utils.mainPacket (typed [ascii "DIS", id]) = some line ∧
      (line.length ≤ 199 → ReadsAs stack line .dis ∧
        ∃ p, DISPacket.ofString stackTyped line = .ok p ∧ p.isValid = true ∧
          p.lastCellId.toNat = readNat 10 id)) ∧
    (∃ line, Utils.mainPacket (typed [ascii "MRD", addr]) = some line ∧
      (line.length ≤ 199 → ReadsAs stack line .mrd ∧
        ∃ p, MRDPacket.ofString stackTyped line = .ok p ∧ p.isValid = true ∧
          p.regAddr.toNat = readNat 16 addr ∧ p.numValues = 0)) ∧
    (∃ line, Utils.mainPacket (typed [ascii "MWR", addr, value]) = some line ∧
      (line.length ≤ 199 → ReadsAs stack line .mwr ∧
        ∃ p, MWRPacket.ofString stackTyped line = .ok p ∧ p.isValid = true ∧
          p.regAddr.toNat = readNat 16 addr ∧ p.value = value)) ∧
    (∃ line, Utils.mainPacket (typed [ascii "SRD", id, addr]) = some line ∧
      (line.length ≤ 199 → ReadsAs stack line .srd ∧
        ∃ p, SRDPacket.ofString stackTyped line = .ok p ∧ p.isValid = true ∧
          p.cellId.toNat = readNat 10 id ∧ p.regAddr.toNat = readNat 16 addr)) ∧
    (∃ line, Utils.mainPacket (typed [ascii "SWR", id, addr, value]) = some line ∧
      (line.length ≤ 199 → ReadsAs stack line .swr ∧
        ∃ p, SWRPacket.ofString stackTyped line = .ok p ∧ p.isValid = true ∧
          p.cellId.toNat = readNat 10 id ∧ p.regAddr.toNat = readNat 16 addr ∧
          p.value = value)) ∧
    (∃ line, Utils.mainPacket (typed [ascii "SRS", id, value]) = some line ∧
      (line.length ≤ 199 → ReadsAs stack line .srs ∧
        ∃ p, SRSPacket.ofString stackTyped line = .ok p ∧ p.isValid = true ∧
          p.cellId.toNat = readNat 10 id ∧ p.value = value)) := by
  have hi : ch ' ' ∉ id := hid.isField.no_space
  have ha : ch ' ' ∉ addr := haddr.isField.no_space
  have hv : ch ' ' ∉ value := hvalue.isField.no_space
  have hdis : Utils.mainPacket (typed [ascii "DIS", id]) =
      some (Utils.packetize (frameBody .dis id)) :=
    mainPacket_typed (t := .dis) (by decide) (by simpa using hi) rfl (by simp)
  have hmrd : Utils.mainPacket (typed [ascii "MRD", addr]) =
      some (Utils.packetize (frameBody .mrd addr)) :=
    mainPacket_typed (t := .mrd) (by decide) (by simpa using ha) rfl (by simp)
  have hmwr : Utils.mainPacket (typed [ascii "MWR", addr, value]) =
      some (Utils.packetize (frameBody .mwr (addr ++ comma :: value))) :=
    mainPacket_typed (t := .mwr) (by decide) (by simp [ha, hv]) rfl (by simp)
  have hsrd : Utils.mainPacket (typed [ascii "SRD", id, addr]) =
      some (Utils.packetize (frameBody .srd (id ++ comma :: addr))) :=
    mainPacket_typed (t := .srd) (by decide) (by simp [hi, ha]) rfl (by simp)
  have hswr : Utils.mainPacket (typed [ascii "SWR", id, addr, value]) =
      some (Utils.packetize (frameBody .swr (id ++ comma :: (addr ++ comma :: value)))) :=
    mainPacket_typed (t := .swr) (by decide) (by simp [hi, ha, hv]) rfl (by simp)
  have hsrs : Utils.mainPacket (typed [ascii "SRS", id, value]) =
      some (Utils.packetize (frameBody .srs (id ++ comma :: value))) :=
    mainPacket_typed (t := .srs) (by decide) (by simp [hi, hv]) rfl (by simp)
  exact ⟨⟨_, hdis, DISPacket.ofString_packetize stack stackTyped hid rfl⟩,
    ⟨_, hmrd, MRDPacket.ofString_packetize stack stackTyped haddr rfl⟩,
    ⟨_, hmwr, MWRPacket.ofString_packetize stack stackTyped haddr hvalue hle rfl⟩,
    ⟨_, hsrd, SRDPacket.ofString_packetize stack stackTyped hid haddr rfl⟩,
    ⟨_, hswr, SWRPacket.ofString_packetize stack stackTyped hid haddr hvalue hle rfl⟩,
    ⟨_, hsrs, SRSPacket.ofString_packetize stack stackTyped hid hvalue hle rfl⟩⟩

/-- An id with leading zeros and an address with letters of both cases. -/
theorem master_agrees_sample :
    ∃ line, Utils.mainPacket (typed [ascii "SWR", ascii "007", ascii "1aF0", ascii "-3.3V$"]) =
        some line ∧ ReadsAs (Vector.replicate kMaxPacketLen 0) line .swr ∧
      ∃ p, SWRPacket.ofString (Vector.replicate kMaxPacketLen 0) line = .ok p ∧
        p.isValid = true ∧ p.cellId.toNat = 7 ∧ p.regAddr.toNat = 0x1af0 ∧
        p.value = ascii "-3.3V$" := by
  have hagrees := master_agrees (Vector.replicate kMaxPacketLen 0)
    (Vector.replicate kMaxPacketLen 0) (ascii "007") (ascii "1aF0") (ascii "-3.3V$")
    ⟨by decide, by decide +kernel, by decide +kernel⟩
    ⟨by decide, by decide, by decide +kernel⟩ ⟨by decide, by decide +kernel⟩ (by decide)
  obtain ⟨line, hline, hreads⟩ := hagrees.2.2.2.2.1
  have hlen : ∀ l ∈ Utils.mainPacket
      (typed [ascii "SWR", ascii "007", ascii "1aF0", ascii "-3.3V$"]), l.length ≤ 199 := by
    decide +kernel
  obtain ⟨hbase, p, hp, hvalid, hid, haddr, hvalue⟩ := hreads (hlen line hline)
  refine ⟨line, hline, hbase, p, hp, hvalid, ?_, ?_, hvalue⟩
  · rw [hid]
    decide +kernel
  · rw [haddr]
    decide +kernel

end Master

end Scbs
