import Scbs.Comms.Host
import Scbs.PackChain

/-!
# The commands of the master

* `Utils.turn` — one turn of the loop of `scbs_utils.main`, with what it prints;
  `Utils.mainPacket_eq_turn` — its packets are those of `Utils.mainPacket`.
* `Transmits` — a packet that asks something of a pack.
* `Command` — the commands, as they are typed, and their messages;
  `Command.transmits` — **a command asks for its message**, whatever the uninitialised
  arrays of the parsers hold.
-/

namespace Scbs

open CLib Link

/-! ## The loop of `main` -/

namespace Utils

/-- What `main` does with the text that was typed: it returns, prints a message, or transmits
a packet and prints the response with a label. -/
inductive Turn where
  | exit
  | say (message : List UInt8)
  | ask (packet label : List UInt8)
  deriving DecidableEq

/-- A branch of `main`, for a command of `numArgs` words. -/
def branch (header : List UInt8) (numArgs : ℕ) (message label : List UInt8)
    (commandWords : List (List UInt8)) : Turn :=
  if commandWords.length ≠ numArgs then
    .say (ascii "Invalid number of arguments for " ++ message ++
      printNat 10 commandWords.length ++ ascii ".")
  else .ask (packetize (header ++ joinFields commandWords.tail)) label

/-- One turn of the loop of `main`. -/
def turn (text : List UInt8) : Turn :=
  let commandWords := text.splitOn (ch ' ')
  let word := commandWords.headD []
  let response := ascii "\tResponse: "
  if word.map ExtRat.lower = ascii "exit" then .exit
  else if word = ascii "DIS" then
    branch (ascii "BSDIS") 2 (ascii "BSDIS! Excpected 1 but got ") response commandWords
  else if word = ascii "MRD" then
    branch (ascii "BSMRD") 2 (ascii "BSDIS! Excpected 1 but got ") (ascii "\tRespons: ")
      commandWords
  else if word = ascii "MWR" then
    branch (ascii "BSMWR") 3 (ascii "BSDIS! Excpected 2 but got ") response commandWords
  else if word = ascii "SRD" then
    branch (ascii "BSSRD") 3 (ascii "BSSRD! Expected 3 but got ") response commandWords
  else if word = ascii "SWR" then
    branch (ascii "BSSWR") 4 (ascii "BSSRD! Expected 4 but got ") response commandWords
  else if word = ascii "SRS" then
    branch (ascii "BSSRS") 3 (ascii "BSSRS! Expected 3 but got ") response commandWords
  else .say (ascii "Unrecognized argument.")

/-- The packet that a turn transmits. -/
def Turn.packet : Turn → Option (List UInt8)
  | .ask packet _ => some packet
  | _ => none

theorem packet_branch (header : List UInt8) (numArgs : ℕ) (message label : List UInt8)
    (commandWords : List (List UInt8)) :
    (branch header numArgs message label commandWords).packet =
      command header numArgs commandWords := by
  unfold branch command
  split
  · rfl
  · rfl

theorem packet_ite (p : Prop) [Decidable p] (a b : Turn) :
    (if p then a else b).packet = if p then a.packet else b.packet :=
  apply_ite Turn.packet p a b

/-- The packets of `turn` are those of `mainPacket`. -/
theorem mainPacket_eq_turn (text : List UInt8) : mainPacket text = (turn text).packet := by
  dsimp only [mainPacket, turn]
  cases text.splitOn (ch ' ') with
  | nil => rfl
  | cons word words =>
    rw [List.headD_cons, packet_ite, packet_ite, packet_ite, packet_ite, packet_ite, packet_ite,
      packet_ite]
    simp only [packet_branch]
    rfl

end Utils

/-! ## Packets that ask -/

/-- The packet is a line that asks this of a pack, and that a cell can receive. -/
def Transmits (packet : List UInt8) (r : Request) : Prop :=
  ∃ body, packet = body ++ [lineFeed] ∧ lineFeed ∉ body ∧ body.length < kMaxLineLen ∧
    Asks body r ∧ r.Compact

section Parse

variable {line : List UInt8}

/-- Whatever is true of what the parsers make of a line, for all contents of their arrays, is
true of one packet. -/
theorem exists_packetOf (hnul : (0 : UInt8) ∉ line) {P : Packet → Prop}
    (h : ∀ env, ∃ packet, SCBS.parse env line = .ok packet ∧ P packet) :
    ∃ packet, packetOf line = some packet ∧ P packet := by
  obtain ⟨packet, hparse, hP⟩ := h sampleEnv
  have hdef := headerEnd_lt_of_parse hnul fun env => (h env).imp fun _ hpacket => hpacket.1
  refine ⟨packet, ?_, hP⟩
  rw [packetOf, if_pos hdef, hparse]
  rfl

/-- The typed parser that `Update` calls for a line. -/
def SCBS.parseTyped (env : Env) (line : List UInt8) : PacketType → Except Fault Packet
  | .dis => (DISPacket.ofString env.stackTyped line).map .dis
  | .mrd => (MRDPacket.ofString env.stackTyped line).map .mrd
  | .mwr => (MWRPacket.ofString env.stackTyped line).map .mwr
  | .srd => (SRDPacket.ofString env.stackTyped line).map .srd
  | .swr => (SWRPacket.ofString env.stackTyped line).map .swr
  | .srs => (SRSPacket.ofString env.stackTyped line).map .srs
  | .unknown => .ok .rejected

theorem SCBS.parse_of_readsAs {env : Env} {t : PacketType} (h : ReadsAs env.stack line t) :
    parse env line = parseTyped env line t := by
  obtain ⟨b, hb, hv, rfl⟩ := h
  unfold parse
  simp only [hb, bind, Except.bind, hv, if_true]
  cases b.packetType with
  | dis => cases hp : DISPacket.ofString env.stackTyped line <;> simp only [parseTyped, hp] <;> rfl
  | mrd => cases hp : MRDPacket.ofString env.stackTyped line <;> simp only [parseTyped, hp] <;> rfl
  | mwr => cases hp : MWRPacket.ofString env.stackTyped line <;> simp only [parseTyped, hp] <;> rfl
  | srd => cases hp : SRDPacket.ofString env.stackTyped line <;> simp only [parseTyped, hp] <;> rfl
  | swr => cases hp : SWRPacket.ofString env.stackTyped line <;> simp only [parseTyped, hp] <;> rfl
  | srs => cases hp : SRSPacket.ofString env.stackTyped line <;> simp only [parseTyped, hp] <;> rfl
  | unknown => rfl

end Parse

/-! ## Commands -/

/-- The commands, as they are typed, and their messages. -/
inductive Command : List UInt8 → Msg → Prop
  | dis {id : List UInt8} : IsNumeral 10 65535 id →
      Command (typed [ascii "DIS", id]) (.dis (UInt16.ofNat (readNat 10 id)))
  | mrd {addr : List UInt8} : IsAddress addr →
      Command (typed [ascii "MRD", addr]) (.mrd (UInt32.ofNat (readNat 16 addr)) [])
  | mwr {addr : List UInt8} {v : Text} : IsAddress addr → IsWord v.text →
      Command (typed [ascii "MWR", addr, v.text]) (.mwr (UInt32.ofNat (readNat 16 addr)) v)
  | srd {id addr : List UInt8} : IsNumeral 10 65535 id → IsAddress addr →
      Command (typed [ascii "SRD", id, addr])
        (.srd (UInt16.ofNat (readNat 10 id)) (UInt32.ofNat (readNat 16 addr)))
  | swr {id addr : List UInt8} {v : Text} : IsNumeral 10 65535 id → IsAddress addr →
      IsWord v.text →
      Command (typed [ascii "SWR", id, addr, v.text])
        (.swr (UInt16.ofNat (readNat 10 id)) (UInt32.ofNat (readNat 16 addr)) v)
  | srs {id : List UInt8} {v : Text} : IsNumeral 10 65535 id → IsWord v.text →
      Command (typed [ascii "SRS", id, v.text]) (.srs (UInt16.ofNat (readNat 10 id)) v)

section Host

variable {t : PacketType} {contents id addr value : List UInt8} {c : UInt8}

theorem not_mem_digits {base : ℕ} (hb : base ≤ 16) {w : List UInt8}
    (hw : ∀ c ∈ w, digitVal c < base) (hc : c = 0 ∨ c = 10) : c ∉ w := by
  intro hmem
  have hlt := hw c hmem
  rw [digitVal_of_end hc] at hlt
  omega

theorem IsWord.not_mem (h : IsWord value) (hc : c = 0 ∨ c = 10) : c ∉ value := by
  intro hmem
  have hge := (h.plain c hmem).1
  rcases hc with rfl | rfl
  · exact absurd hge (by decide)
  · exact absurd hge (by decide)

/-- A packet of the script without its newline. -/
def packetizeBody (contentsStr : List UInt8) : List UInt8 :=
  dollar :: (contentsStr ++
    star :: (Utils.formatHex (Utils.calculateChecksum contentsStr) ++ [13]))

theorem packetize_eq (contentsStr : List UInt8) :
    Utils.packetize contentsStr = packetizeBody contentsStr ++ [lineFeed] := by
  simp [Utils.packetize, packetizeBody, lineFeed]

/-- The packets of the script stay within a line. -/
theorem not_mem_packetizeBody (hc : c = 0 ∨ c = 10) (hcontents : c ∉ contents) :
    c ∉ packetizeBody (frameBody t contents) := by
  have hhex : c ∉ Utils.formatHex (Utils.calculateChecksum (frameBody t contents)) :=
    not_mem_digits le_rfl (fun d hd => digitVal_of_mem_formatHex hd) hc
  have hheader : c ∉ packetHeaderStr t := by
    intro hmem
    rcases hc with rfl | rfl
    · cases t <;> exact absurd hmem (by decide)
    · cases t <;> exact absurd hmem (by decide)
  have hne : c ≠ dollar ∧ c ≠ star ∧ c ≠ 13 := by
    rcases hc with rfl | rfl
    · decide
    · decide
  simp only [packetizeBody, frameBody, List.mem_cons, List.mem_append, not_or]
  exact ⟨hne.1, ⟨hheader, ne_comma_of_end hc, hcontents⟩, hne.2.1, hhex, hne.2.2, by simp⟩

/-- A packet of the script that the parsers read as a message asks for it. -/
theorem transmits_of_parse {m : Msg} (hcompact : m.Compact)
    (hcontents : ∀ c, c = 0 ∨ c = 10 → c ∉ contents)
    (hlen : (Utils.packetize (frameBody t contents)).length ≤ 199)
    (hparse : ∀ env, ∃ packet,
      SCBS.parse env (Utils.packetize (frameBody t contents)) = .ok packet ∧ packet.Means m) :
    Transmits (Utils.packetize (frameBody t contents)) (.msg m) := by
  have hnul := not_mem_packetizeBody (t := t) (Or.inl rfl) (hcontents 0 (Or.inl rfl))
  have hnul' : (0 : UInt8) ∉ Utils.packetize (frameBody t contents) := by
    rw [packetize_eq, List.mem_append, not_or]
    exact ⟨hnul, by decide⟩
  obtain ⟨packet, hp, hmeans⟩ := exists_packetOf hnul' hparse
  rw [packetize_eq] at hp hlen
  rw [List.length_append, List.length_singleton] at hlen
  refine ⟨_, packetize_eq _, not_mem_packetizeBody (Or.inr rfl) (hcontents 10 (Or.inr rfl)), ?_,
    .msg ?_ hmeans, hcompact⟩
  · rw [kMaxLineLen, kMaxUARTBufLen]
    omega
  · rw [List.filter_eq_self.2 fun c hc => decide_eq_true (ne_of_mem_of_not_mem hc hnul)]
    exact hp

/-- What the parsers read from a packet whose type is known. -/
theorem exists_parse {env : Env} {line : List UInt8} {m : Msg} {α : Type} {mk : α → Packet}
    {parser : Except Fault α} {p : α} (hreads : ReadsAs env.stack line t)
    (htyped : SCBS.parseTyped env line t = parser.map mk) (hp : parser = .ok p)
    (hmeans : (mk p).Means m) :
    ∃ packet, SCBS.parse env line = .ok packet ∧ packet.Means m :=
  ⟨mk p, by rw [SCBS.parse_of_readsAs hreads, htyped, hp, Except.map], hmeans⟩

theorem eq_ofNat_id {a : UInt16} {n : ℕ} (h : a.toNat = n) : a = UInt16.ofNat n := by
  rw [← h, UInt16.ofNat_toNat]

theorem eq_ofNat_addr {a : UInt32} {n : ℕ} (h : a.toNat = n) : a = UInt32.ofNat n := by
  rw [← h, UInt32.ofNat_toNat]

section Typed

variable (hid : IsNumeral 10 65535 id) (haddr : IsAddress addr)

include hid in
theorem transmits_dis (hlen : (Utils.packetize (frameBody .dis id)).length ≤ 199) :
    Transmits (Utils.packetize (frameBody .dis id))
      (.msg (.dis (UInt16.ofNat (readNat 10 id)))) := by
  refine transmits_of_parse trivial (fun c hc => not_mem_digits (by omega) hid.digits hc) hlen ?_
  intro env
  obtain ⟨hreads, p, hp, hv, hread⟩ :=
    DISPacket.ofString_packetize env.stack env.stackTyped hid rfl hlen
  refine exists_parse hreads rfl hp ?_
  rw [← eq_ofNat_id hread]
  exact .dis hv

include haddr in
theorem transmits_mrd (hlen : (Utils.packetize (frameBody .mrd addr)).length ≤ 199) :
    Transmits (Utils.packetize (frameBody .mrd addr))
      (.msg (.mrd (UInt32.ofNat (readNat 16 addr)) [])) := by
  refine transmits_of_parse ⟨Nat.zero_le _, by simp⟩
    (fun c hc => not_mem_digits le_rfl haddr.digits hc) hlen ?_
  intro env
  obtain ⟨hreads, p, hp, hv, hread, hnum⟩ :=
    MRDPacket.ofString_packetize env.stack env.stackTyped haddr rfl hlen
  refine exists_parse hreads rfl hp ?_
  obtain ⟨-, vals, -, hvalues, hnum', -⟩ := MRDPacket.ofString_inv hp hv
  obtain rfl : vals = [] := List.length_eq_zero_iff.1 (hnum'.symm.trans hnum)
  rw [← eq_ofNat_addr hread]
  exact .mrd hv (Nat.zero_le _) hnum' hvalues

variable {v : Text} (hvalue : IsWord v.text)

include haddr hvalue in
theorem transmits_mwr
    (hlen : (Utils.packetize (frameBody .mwr (addr ++ comma :: v.text))).length ≤ 199) :
    Transmits (Utils.packetize (frameBody .mwr (addr ++ comma :: v.text)))
      (.msg (.mwr (UInt32.ofNat (readNat 16 addr)) v)) := by
  refine transmits_of_parse trivial (fun c hc => not_mem_append_cons
    (not_mem_digits le_rfl haddr.digits hc) (ne_comma_of_end hc) (hvalue.not_mem hc)) hlen ?_
  intro env
  have hall := fun stack => MWRPacket.ofString_packetize stack env.stackTyped haddr hvalue
    v.onWire.length_le rfl hlen
  obtain ⟨hreads, p, hp, hv, hread, hval⟩ := hall env.stack
  refine exists_parse hreads rfl hp ?_
  rw [← eq_ofNat_addr hread]
  exact .mwr hv (accepts_unique (MWRPacket.ofString_spec hp hv).1
    (accepts_of_readsAs (hall env.stackTyped).1)) hval

include hid haddr in
theorem transmits_srd
    (hlen : (Utils.packetize (frameBody .srd (id ++ comma :: addr))).length ≤ 199) :
    Transmits (Utils.packetize (frameBody .srd (id ++ comma :: addr)))
      (.msg (.srd (UInt16.ofNat (readNat 10 id)) (UInt32.ofNat (readNat 16 addr)))) := by
  refine transmits_of_parse trivial (fun c hc => not_mem_append_cons
    (not_mem_digits (by omega) hid.digits hc) (ne_comma_of_end hc)
    (not_mem_digits le_rfl haddr.digits hc)) hlen ?_
  intro env
  have hall := fun stack => SRDPacket.ofString_packetize stack env.stackTyped hid haddr rfl hlen
  obtain ⟨hreads, p, hp, hv, hread, hread'⟩ := hall env.stack
  refine exists_parse hreads rfl hp ?_
  rw [← eq_ofNat_id hread, ← eq_ofNat_addr hread']
  exact .srd hv (accepts_unique (SRDPacket.ofString_spec hp hv)
    (accepts_of_readsAs (hall env.stackTyped).1))

include hid haddr hvalue in
theorem transmits_swr (hlen : (Utils.packetize
      (frameBody .swr (id ++ comma :: (addr ++ comma :: v.text)))).length ≤ 199) :
    Transmits (Utils.packetize (frameBody .swr (id ++ comma :: (addr ++ comma :: v.text))))
      (.msg (.swr (UInt16.ofNat (readNat 10 id)) (UInt32.ofNat (readNat 16 addr)) v)) := by
  refine transmits_of_parse trivial (fun c hc => not_mem_append_cons
    (not_mem_digits (by omega) hid.digits hc) (ne_comma_of_end hc) (not_mem_append_cons
      (not_mem_digits le_rfl haddr.digits hc) (ne_comma_of_end hc) (hvalue.not_mem hc))) hlen ?_
  intro env
  have hall := fun stack => SWRPacket.ofString_packetize stack env.stackTyped hid haddr hvalue
    v.onWire.length_le rfl hlen
  obtain ⟨hreads, p, hp, hv, hread, hread', hval⟩ := hall env.stack
  refine exists_parse hreads rfl hp ?_
  rw [← eq_ofNat_id hread, ← eq_ofNat_addr hread']
  exact .swr hv (accepts_unique (SWRPacket.ofString_spec hp hv).1
    (accepts_of_readsAs (hall env.stackTyped).1)) hval

include hid hvalue in
theorem transmits_srs
    (hlen : (Utils.packetize (frameBody .srs (id ++ comma :: v.text))).length ≤ 199) :
    Transmits (Utils.packetize (frameBody .srs (id ++ comma :: v.text)))
      (.msg (.srs (UInt16.ofNat (readNat 10 id)) v)) := by
  refine transmits_of_parse trivial (fun c hc => not_mem_append_cons
    (not_mem_digits (by omega) hid.digits hc) (ne_comma_of_end hc) (hvalue.not_mem hc)) hlen ?_
  intro env
  have hall := fun stack => SRSPacket.ofString_packetize stack env.stackTyped hid hvalue
    v.onWire.length_le rfl hlen
  obtain ⟨hreads, p, hp, hv, hread, hval⟩ := hall env.stack
  refine exists_parse hreads rfl hp ?_
  rw [← eq_ofNat_id hread]
  exact .srs hv (accepts_unique (SRSPacket.ofString_spec hp hv).1
    (accepts_of_readsAs (hall env.stackTyped).1)) hval

end Typed

/-- A turn that transmits something. -/
theorem exists_turn {text packet : List UInt8} (h : Utils.mainPacket text = some packet) :
    ∃ label, Utils.turn text = .ask packet label := by
  rw [Utils.mainPacket_eq_turn] at h
  cases hturn : Utils.turn text with
  | exit =>
    rw [hturn] at h
    exact absurd h (by simp [Utils.Turn.packet])
  | say message =>
    rw [hturn] at h
    exact absurd h (by simp [Utils.Turn.packet])
  | ask p label =>
    rw [hturn] at h
    exact ⟨label, by rw [Option.some.inj h]⟩

/-- **A command asks for its message**: what `main` transmits for it, if it is a line that a
cell can receive, is read by every parser as the message that was typed. -/
theorem Command.transmits {text : List UInt8} {m : Msg} (h : Command text m) :
    ∃ packet label, Utils.turn text = .ask packet label ∧
      (packet.length ≤ 199 → Transmits packet (.msg m)) := by
  have hturn : ∀ {t : PacketType} {args : List (List UInt8)} {contents : List UInt8},
      t ≠ .unknown → (∀ w ∈ args, ch ' ' ∉ w) → args.length = numWords t →
      joinFields args = comma :: contents →
      ((Utils.packetize (frameBody t contents)).length ≤ 199 →
        Transmits (Utils.packetize (frameBody t contents)) (.msg m)) →
      ∃ packet label,
        Utils.turn (typed ((packetHeaderStr t).drop 2 :: args)) = .ask packet label ∧
        (packet.length ≤ 199 → Transmits packet (.msg m)) := by
    intro t args contents ht hargs hlen hcontents htransmits
    obtain ⟨label, hask⟩ := exists_turn (mainPacket_typed ht hargs hlen hcontents)
    exact ⟨_, label, hask, htransmits⟩
  cases h with
  | dis hid =>
    exact hturn (t := .dis) (by decide) (by simpa using hid.isField.no_space) rfl (by simp)
      (transmits_dis hid)
  | mrd haddr =>
    exact hturn (t := .mrd) (by decide) (by simpa using haddr.isField.no_space) rfl (by simp)
      (transmits_mrd haddr)
  | mwr haddr hvalue =>
    exact hturn (t := .mwr) (by decide)
      (by simp [haddr.isField.no_space, hvalue.isField.no_space]) rfl (by simp)
      (transmits_mwr haddr hvalue)
  | srd hid haddr =>
    exact hturn (t := .srd) (by decide)
      (by simp [hid.isField.no_space, haddr.isField.no_space]) rfl (by simp)
      (transmits_srd hid haddr)
  | swr hid haddr hvalue =>
    exact hturn (t := .swr) (by decide)
      (by simp [hid.isField.no_space, haddr.isField.no_space, hvalue.isField.no_space]) rfl
      (by simp) (transmits_swr hid haddr hvalue)
  | srs hid hvalue =>
    exact hturn (t := .srs) (by decide)
      (by simp [hid.isField.no_space, hvalue.isField.no_space]) rfl (by simp)
      (transmits_srs hid hvalue)

end Host

end Scbs
