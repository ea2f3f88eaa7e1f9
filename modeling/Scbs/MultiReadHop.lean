import Scbs.Comms.MultiRead
import Scbs.Handlers
import Scbs.Receiver

/-!
# One hop of a multi-read

Four limits meet when a cell passes a multi-read on: `ToString` stops once less
than a whole field of room is left, `PacketizeContents` cuts the contents at 197
bytes with the header, the receive buffer takes lines of up to 199 bytes, and a
packet has 20 values.

* `CanTake`, `canTake_iff` — which packets a cell can send are taken by its
  neighbour.
* `Forwards`, `forwards_iff` — when a cell passes on all values of a received
  multi-read together with its own.
-/

namespace Scbs

open CLib

/-- A register value on the wire: not empty, and free of what ends a field or a
line. -/
structure Reading extends Field where
  ne_nil : text ≠ []
  no_cr : (13 : UInt8) ∉ text
  no_lf : lineFeed ∉ text

/-- The texts of readings, as they are given to a packet. -/
def texts (rs : List Reading) : List (List UInt8) := rs.map (·.text)

@[simp] theorem length_texts (rs : List Reading) : (texts rs).length = rs.length := by simp [texts]

theorem onWire_of_mem_texts {rs : List Reading} {v : List UInt8} (h : v ∈ texts rs) :
    OnWire v ∧ v ≠ [] := by
  obtain ⟨r, -, rfl⟩ := List.mem_map.1 h
  exact ⟨⟨r.length_le, r.no_nul, r.no_comma, r.no_star, r.no_lf⟩, r.ne_nil⟩

/-- A packet line with its line end is taken when its contents have at most 187
bytes. -/
theorem takes_frame_iff {t : PacketType} {contents : List UInt8} (h0 : (0 : UInt8) ∉ contents)
    (hlf : lineFeed ∉ contents) :
    Takes (frame t contents ++ crlf) ↔ contents.length ≤ 187 := by
  have hbody : lineFeed ∉ frame t contents ++ [13] := by
    simp only [List.mem_append, List.mem_singleton, not_or]
    exact ⟨not_mem_frame (Or.inr rfl) hlf, by decide⟩
  have hnul : (0 : UInt8) ∉ frame t contents ++ [13] := by
    simp only [List.mem_append, List.mem_singleton, not_or]
    exact ⟨not_mem_frame (Or.inl rfl) h0, by decide⟩
  have hsplit : frame t contents ++ crlf = frame t contents ++ [13] ++ [lineFeed] := by
    rw [List.append_assoc]; rfl
  rw [hsplit, takes_iff hbody hnul, List.length_append, List.length_singleton, length_frame]
  omega

/-! ## What `ToString` appends -/

namespace MRDPacket

/-- The string of the packet with the given values. -/
def written (addr : UInt32) (vs : List (List UInt8)) : List UInt8 :=
  (ofValues addr vs vs.length).toStr.packetStr

section Written

variable (addr : UInt32) {vs : List (List UInt8)} (hvs : ∀ v ∈ vs, OnWire v)

include hvs

theorem length_contents_le_of_onWire : (contents addr vs).length ≤ 189 :=
  length_contents_le addr fun v hv => (hvs v hv).length_le

theorem written_eq (hlen : (contents addr vs).length ≤ 188) :
    written addr vs = frame .mrd (contents addr vs) :=
  packetStr_ofValues addr (fun v hv => (hvs v hv).length_le) (fun v hv => (hvs v hv).no_nul)
    (fun v hv => (hvs v hv).no_star) hlen

theorem star_not_mem_written (hlen : (contents addr vs).length = 189) :
    star ∉ written addr vs :=
  star_not_mem_packetStr addr (fun v hv => (hvs v hv).length_le) (fun v hv => (hvs v hv).no_nul)
    (fun v hv => (hvs v hv).no_star) hlen

theorem not_mem_contents {c : UInt8} (hc : c = 0 ∨ c = 10) : c ∉ contents addr vs := by
  rw [contents, List.mem_append, not_or]
  refine ⟨not_mem_numeral (digitVal_of_end hc) (Or.inr rfl),
    not_mem_joinFields (ne_comma_of_end hc) ?_⟩
  intro v hv
  exact (hvs v (List.mem_of_mem_take hv)).not_mem hc

/-- A neighbour can receive the line when the contents have at most 187 bytes. -/
theorem takes_written_iff (hlen : (contents addr vs).length ≤ 188) :
    Takes (written addr vs ++ crlf) ↔ (contents addr vs).length ≤ 187 := by
  rw [written_eq addr hvs hlen]
  exact takes_frame_iff (not_mem_contents addr hvs (Or.inl rfl))
    (not_mem_contents addr hvs (Or.inr rfl))

end Written

section Limits

variable (addr : UInt32)

/-- All values are appended exactly when there is room for the last one. -/
theorem numAppended_eq_length_iff (len : ℕ) (v : List UInt8) (vs : List (List UInt8)) :
    numAppended len (vs ++ [v]) = vs.length + 1 ↔ usedLen len vs ≤ 169 := by
  have htake : (vs ++ [v]).take vs.length = vs := List.take_left
  constructor
  · intro h
    have hlt : usedLen len ((vs ++ [v]).take vs.length) < 170 :=
      usedLen_lt_of_lt_numAppended (by omega)
    rw [htake] at hlt
    omega
  · intro h
    by_contra hne
    have hle := numAppended_le len (vs ++ [v])
    rw [List.length_append, List.length_singleton] at hle
    have hstop : 170 ≤ usedLen len ((vs ++ [v]).take (numAppended len (vs ++ [v]))) := by
      apply le_usedLen_of_numAppended_lt
      rw [List.length_append, List.length_singleton]
      omega
    have hmono := usedLen_take_le len (show numAppended len (vs ++ [v]) ≤ vs.length by omega)
      (vs ++ [v])
    rw [htake] at hmono
    omega

/-- The stop guard of `ToString` has passed a value that takes the contents past
the 187 bytes that a neighbour can receive. -/
def Oversized (vs : List (List UInt8)) : Prop :=
  ∃ j < vs.length, usedLen (printNat 16 addr.toNat).length (vs.take j) ≤ 169 ∧
    188 ≤ usedLen (printNat 16 addr.toNat).length (vs.take (j + 1))

theorem length_contents_le_iff (vs : List (List UInt8)) :
    (contents addr vs).length ≤ 187 ↔ ¬ Oversized addr vs := by
  have haddr := length_printNat_addr addr
  rw [length_contents]
  constructor
  · rintro hle ⟨j, hj, hlt, hge⟩
    rcases Nat.lt_or_ge j (numAppended (printNat 16 addr.toNat).length vs) with hjk | hjk
    · have := usedLen_take_le (printNat 16 addr.toNat).length
        (show j + 1 ≤ numAppended (printNat 16 addr.toNat).length vs by omega) vs
      omega
    · have hstop := le_usedLen_of_numAppended_lt (lt_of_le_of_lt hjk hj)
      have := usedLen_take_le (printNat 16 addr.toNat).length hjk vs
      omega
  · intro h
    by_contra hgt
    cases hk : numAppended (printNat 16 addr.toNat).length vs with
    | zero =>
      rw [hk, List.take_zero, usedLen_nil] at hgt
      omega
    | succ k =>
      have hle := numAppended_le (printNat 16 addr.toNat).length vs
      have hlt := usedLen_lt_of_lt_numAppended
        (show k < numAppended (printNat 16 addr.toNat).length vs by omega)
      rw [hk] at hgt
      exact h ⟨k, by omega, by omega, by omega⟩

end Limits

end MRDPacket

/-! ## What a neighbour can take -/

/-- **The string of a multi-read packet is one its neighbour can take**: it is a
frame with some of the values, the neighbour receives it whole, and its parser
reads these values back, whatever its uninitialised memory holds. -/
def CanTake (addr : UInt32) (values : List (List UInt8)) : Prop :=
  let packetStr := (MRDPacket.ofValues addr values values.length).toStr.packetStr
  ∃ k ≤ values.length,
    packetStr = frame .mrd (printNat 16 addr.toNat ++ joinFields (values.take k)) ∧
    Takes (packetStr ++ crlf) ∧
    ∀ stack tail, tail = [] ∨ tail = crlf →
      ∃ p, MRDPacket.ofString stack (packetStr ++ tail) = .ok p ∧ p.isValid = true ∧
        p.regAddr = addr ∧ p.numValues = k ∧ p.values.take k = values.take k

namespace MRDPacket

theorem foundValues_eq {vs : List (List UInt8)} (hvs : ∀ v ∈ vs, v.length ≤ 19)
    (hne : ∀ v ∈ vs.dropLast, v ≠ []) : foundValues vs = vs := by
  rw [foundValues_of_ne_nil hne]
  exact (List.map_congr_left fun w hw => List.take_of_length_le (hvs w hw)).trans (List.map_id _)

theorem length_foundValues_le (vs : List (List UInt8)) : (foundValues vs).length ≤ vs.length := by
  cases vs with
  | nil => simp [foundValues]
  | cons v vs => simpa [foundValues] using length_keptFields_le v vs

/-- With no value lost, only the last one can be empty. -/
theorem nonempty_of_length_foundValues {vs : List (List UInt8)}
    (h : (foundValues vs).length = vs.length) : ∀ v ∈ vs.dropLast, v ≠ [] := by
  cases vs with
  | nil => simp
  | cons v vs =>
    rw [foundValues, List.length_map, List.length_cons] at h
    exact (keptFields_eq_iff v vs).1 (keptFields_eq_of_length h)

/-- A neighbour's parser reads back all values that stand in the packet, as long as
none is empty. -/
theorem ofString_written (stack : Stack) (addr : UInt32) {vs : List (List UInt8)}
    {tail : List UInt8} (ht : Tail tail) (hvs : ∀ v ∈ vs, OnWire v)
    (hne : ∀ v ∈ vs.dropLast, v ≠ []) (hcount : vs.length ≤ kMaxNumValues)
    (hlen : (printNat 16 addr.toNat ++ joinFields vs).length ≤ 188) :
    ∃ p, ofString stack (frame .mrd (printNat 16 addr.toNat ++ joinFields vs) ++ tail) = .ok p ∧
      p.isValid = true ∧ p.regAddr = addr ∧ p.numValues = vs.length ∧
      p.values.take vs.length = vs := by
  refine ⟨_, ofString_frame stack addr ht
    (fun v hv => ⟨(hvs v hv).no_comma, (hvs v hv).no_star⟩) (by omega), ?_⟩
  rw [foundValues_eq (fun v hv => (hvs v hv).length_le) hne, stored_eq _ hcount]
  exact ⟨rfl, rfl, rfl, take_slots _ _⟩

end MRDPacket

theorem tail_of_eq {tail : List UInt8} (h : tail = [] ∨ tail = crlf) : Tail tail := by
  rcases h with rfl | rfl
  · exact tail_nil
  · exact tail_crlf

section Taken

variable (addr : UInt32) (rs : List Reading)

theorem canTake_of_length (hn : rs.length ≤ 20)
    (hlen : (MRDPacket.contents addr (texts rs)).length ≤ 187) : CanTake addr (texts rs) := by
  have hvs := fun v (hv : v ∈ texts rs) => (onWire_of_mem_texts hv).1
  have hstr := MRDPacket.written_eq addr hvs (by omega)
  have htakes := (MRDPacket.takes_written_iff addr hvs (by omega)).2 hlen
  have hk := MRDPacket.numAppended_le (printNat 16 addr.toNat).length (texts rs)
  refine ⟨_, hk, hstr, htakes, ?_⟩
  intro stack tail ht
  rw [length_texts] at hk
  have hmem := fun i v (hv : v ∈ (texts rs).take i) => onWire_of_mem_texts (List.mem_of_mem_take hv)
  obtain ⟨p, hp, hv, ha, hnum, hvals⟩ := MRDPacket.ofString_written stack addr (tail_of_eq ht)
    (fun v hv => (hmem (MRDPacket.numAppended (printNat 16 addr.toNat).length (texts rs)) v hv).1)
    (fun v hv => (hmem _ v (List.mem_of_mem_dropLast hv)).2)
    (by rw [List.length_take, kMaxNumValues]; omega) (by rw [← MRDPacket.contents]; omega)
  rw [List.length_take, length_texts, min_eq_left hk] at hnum hvals
  rw [← MRDPacket.written, hstr]
  exact ⟨p, hp, hv, ha, hnum, hvals⟩

theorem length_of_canTake (h : CanTake addr (texts rs)) :
    (MRDPacket.contents addr (texts rs)).length ≤ 187 := by
  have hvs := fun v (hv : v ∈ texts rs) => (onWire_of_mem_texts hv).1
  obtain ⟨k, -, hframe, htakes, -⟩ := h
  have hle := MRDPacket.length_contents_le_of_onWire addr hvs
  rcases Nat.lt_or_ge (MRDPacket.contents addr (texts rs)).length 189 with hlt | hge
  · exact (MRDPacket.takes_written_iff addr hvs (by omega)).1 htakes
  · have hcut := MRDPacket.star_not_mem_written addr hvs (by omega)
    rw [← MRDPacket.written] at hframe
    exact absurd (by rw [hframe]; simp [frame]) hcut

end Taken

/-- **A packet can be taken exactly when its last value leaves room.**  The stop
guard counts one byte too few for the header and none for the line end, so a value
that starts below 170 bytes and ends above 187 makes a line no cell can receive. -/
theorem canTake_iff (addr : UInt32) (rs : List Reading) (hn : rs.length ≤ 20) :
    CanTake addr (texts rs) ↔ ¬ MRDPacket.Oversized addr (texts rs) := by
  rw [← MRDPacket.length_contents_le_iff]
  exact ⟨length_of_canTake addr rs, canTake_of_length addr rs hn⟩

/-- The reading with the longest text, as in `"thisisaverylongstrn"`. -/
def longReading : Reading where
  text := ascii "thisisaverylongstrn"
  length_le := by decide
  no_nul := by decide
  no_comma := by decide
  no_star := by decide
  ne_nil := by decide
  no_cr := by decide
  no_lf := by decide

/-- The reading `3.30`. -/
def shortReading : Reading where
  text := ascii "3.30"
  length_le := by decide
  no_nul := by decide
  no_comma := by decide
  no_star := by decide
  ne_nil := by decide
  no_cr := by decide
  no_lf := by decide

theorem canTake_short : CanTake 0x1000 (texts [shortReading, shortReading]) :=
  (canTake_iff 0x1000 [shortReading, shortReading] (by decide)).2
    ((MRDPacket.length_contents_le_iff 0x1000 _).1 (by decide +kernel))

/-- Eight long readings and a short one take the contents to 169 bytes, one short of
the guard, and the tenth pushes the `*` out of the packet. -/
theorem not_canTake_long :
    ¬ CanTake 0x1000 (texts (List.replicate 8 longReading ++ [shortReading, longReading])) :=
  fun h => absurd (length_of_canTake _ _ h) (by decide +kernel)

/-! ## What a cell passes on -/

/-- A response with an error text. -/
def IsErrorResponse (tx : List UInt8) : Prop :=
  ∃ cellId text,
    tx = SCBS.transmitPacket (SRSPacket.ofValues cellId (ascii "ERR:" ++ text)).toStr.packetStr

/-- A parser reads from `line` the address and the values of `p`, and `own` after
them. -/
def Carries (line : List UInt8) (p : MRDPacket) (own : List UInt8) : Prop :=
  ∀ stack, ∃ q, MRDPacket.ofString stack line = .ok q ∧ q.isValid = true ∧
    q.regAddr = p.regAddr ∧ q.numValues = p.numValues + 1 ∧
    q.values.take q.numValues = p.values.take p.numValues ++ [own]

/-- The transmitted line loses nothing: it is an error response, or a parser reads
from it all that was received and `own`. -/
def Forwards (tx : List UInt8) (p : MRDPacket) (own : List UInt8) : Prop :=
  IsErrorResponse tx ∨ ∃ out, tx = SCBS.transmitPacket out ∧ Carries out p own

/-- The same with the neighbour's receive buffer in between. -/
def Delivers (tx : List UInt8) (p : MRDPacket) (own : List UInt8) : Prop :=
  IsErrorResponse tx ∨ Takes tx ∧ Carries tx p own

/-- There is room for all values: none of those received is empty, the last one
starts below the stop guard, and the contents end below `limit`. -/
structure RoomFor (limit : ℕ) (addr : UInt32) (values : List (List UInt8)) (own : List UInt8) :
    Prop where
  nonempty : ∀ v ∈ values, v ≠ []
  guard : usedLen (printNat 16 addr.toNat).length values ≤ 169
  total : usedLen (printNat 16 addr.toNat).length (values ++ [own]) ≤ limit

namespace MRDPacket

section Hop

variable {addr : UInt32} {vals : List (List UInt8)} {own : List UInt8}

/-- With room for all values, the contents are the address and all of them. -/
theorem contents_of_guard (own : List UInt8)
    (h : usedLen (printNat 16 addr.toNat).length vals ≤ 169) :
    contents addr (vals ++ [own]) = printNat 16 addr.toNat ++ joinFields (vals ++ [own]) := by
  rw [contents, (numAppended_eq_length_iff _ own vals).2 h, List.take_of_length_le (by simp)]

theorem length_contents_of_guard (own : List UInt8)
    (h : usedLen (printNat 16 addr.toNat).length vals ≤ 169) :
    (contents addr (vals ++ [own])).length =
      usedLen (printNat 16 addr.toNat).length (vals ++ [own]) := by
  rw [contents_of_guard own h, List.length_append, length_joinFields]

/-- With room for all values, a parser reads all of them. -/
theorem carries_of_room {p : MRDPacket} (hvals : ∀ v ∈ vals, OnWire v) (hown : OnWire own)
    (hn : vals.length < kMaxNumValues) (haddr : p.regAddr = addr)
    (hpn : p.numValues = vals.length) (hpv : p.values.take p.numValues = vals)
    (hroom : RoomFor 188 addr vals own) {tail : List UInt8} (ht : Tail tail) :
    Carries (written addr (vals ++ [own]) ++ tail) p own := by
  have hlen := length_contents_of_guard own hroom.guard
  have hws := forall_onWire_concat hvals hown
  have hcontents := contents_of_guard own hroom.guard
  rw [written_eq addr hws (by have := hroom.total; omega), hcontents]
  intro stack
  obtain ⟨q, hq, hv, ha, hnum, hvalues⟩ := ofString_written stack addr ht hws
    (by rw [List.dropLast_concat]; exact hroom.nonempty)
    (by rw [List.length_append, List.length_singleton]; omega)
    (by rw [← hcontents, hlen]; exact hroom.total)
  refine ⟨q, hq, hv, by rw [ha, haddr], ?_, ?_⟩
  · rw [hnum, hpn, List.length_append, List.length_singleton]
  · rw [hnum, hvalues, hpv]

/-- A parser that reads all values had room for all of them. -/
theorem room_of_carries {p : MRDPacket} (hvals : ∀ v ∈ vals, OnWire v) (hown : OnWire own)
    (hpn : p.numValues = vals.length) {tail : List UInt8} (ht : Tail tail) (hstar : star ∉ tail)
    (h : Carries (written addr (vals ++ [own]) ++ tail) p own) : RoomFor 188 addr vals own := by
  have hws := forall_onWire_concat hvals hown
  obtain ⟨q, hq, hv, -, hnum, -⟩ := h (Vector.replicate kMaxPacketLen 0)
  have hle := length_contents_le_of_onWire addr hws
  have hlt : (contents addr (vals ++ [own])).length ≤ 188 := by
    by_contra hgt
    rcases List.mem_append.1 (ofString_inv hq hv).1 with hmem | hmem
    · exact star_not_mem_written addr hws (by omega) hmem
    · exact hstar hmem
  have hk := numAppended_le (printNat 16 addr.toNat).length (vals ++ [own])
  rw [written_eq addr hws hlt, contents, ofString_frame _ addr ht
    (fun v hv => ⟨(hws v (List.mem_of_mem_take hv)).no_comma,
      (hws v (List.mem_of_mem_take hv)).no_star⟩) (by rw [← contents]; omega)] at hq
  obtain rfl := Except.ok.inj hq
  rw [stored_eq _ (length_le_of_stored rfl hv)] at hnum
  dsimp only at hnum
  rw [hpn] at hnum
  -- as many values were found as there are, so all were written
  have hfound := length_foundValues_le
    ((vals ++ [own]).take (numAppended (printNat 16 addr.toNat).length (vals ++ [own])))
  rw [List.length_take, hnum] at hfound
  rw [List.length_append, List.length_singleton] at hk hfound
  have hall : numAppended (printNat 16 addr.toNat).length (vals ++ [own]) = vals.length + 1 := by
    omega
  have hguard := (numAppended_eq_length_iff _ own vals).1 hall
  rw [hall, List.take_of_length_le (by simp)] at hnum
  have hne : ∀ v ∈ (vals ++ [own]).dropLast, v ≠ [] :=
    nonempty_of_length_foundValues (by rw [hnum]; simp)
  rw [List.dropLast_concat] at hne
  exact ⟨hne, hguard, by rw [← length_contents_of_guard own hguard]; exact hlt⟩

end Hop

end MRDPacket

/-- The values that come out of a received line can go onto the wire again. -/
theorem onWire_of_kept {line v : List UInt8} (hline : IsLine line) (hstar : star ∈ line)
    (h : MRDPacket.Kept (line.takeWhile (· ≠ star)) v) : OnWire v := by
  obtain ⟨body, rfl, hlf, h0⟩ := hline.body
  have hmem : star ∈ body := by
    rcases List.mem_append.1 hstar with h | h
    · exact h
    · exact absurd (List.mem_singleton.1 h) (by decide)
  obtain ⟨a, b, hab, ha⟩ := List.eq_append_cons_of_mem hmem
  have hpre : (body ++ [lineFeed]).takeWhile (· ≠ star) = a := by
    rw [hab, List.append_assoc, List.cons_append, takeWhile_ne_append ha]
  rw [hpre] at h
  have hbody : ∀ c ∈ v, c ∈ body := by
    intro c hc
    rw [hab]
    exact List.mem_append_left _ (h.mem_pre c hc)
  exact ⟨h.length_le, fun hc => h0 (hbody 0 hc), h.no_comma, fun hc => ha (h.mem_pre star hc),
    fun hc => hlf (hbody 10 hc)⟩

section Handler

variable {F : Type} [CFloat F]

/-- **What the handler transmits** for a valid packet that has room for a value. -/
theorem SCBS.mrdPacketHandler_tx (cell : SCBS F) (time : UInt32) {p : MRDPacket}
    {vals : List (List UInt8)} {own : List UInt8} (hv : p.isValid = true)
    (hn : vals.length < kMaxNumValues)
    (hvalues : p.values = MRDPacket.slots vals (kMaxNumValues - vals.length))
    (hnum : p.numValues = vals.length)
    (hown : registerText cell.outputVoltage cell.outputCurrent p.regAddr = some own) :
    (cell.mrdPacketHandler time p).2 =
      transmitPacket (MRDPacket.written p.regAddr (vals ++ [own])) := by
  have hset : p.values.set p.numValues own =
      MRDPacket.slots (vals ++ [own]) (kMaxNumValues - vals.length - 1) := by
    obtain ⟨room, hroom⟩ : ∃ room, kMaxNumValues - vals.length = room + 1 :=
      ⟨kMaxNumValues - vals.length - 1, by omega⟩
    rw [hvalues, hnum, hroom, MRDPacket.slots_set, Nat.add_sub_cancel]
  have htake : (MRDPacket.slots (vals ++ [own]) (kMaxNumValues - vals.length - 1)).take
      (vals.length + 1) = vals ++ [own] := by
    simpa using MRDPacket.take_slots (vals ++ [own]) (kMaxNumValues - vals.length - 1)
  have hof : MRDPacket.ofValues p.regAddr (p.values.set p.numValues own) (p.numValues + 1) =
      MRDPacket.ofValues p.regAddr (vals ++ [own]) (vals ++ [own]).length := by
    rw [MRDPacket.ofValues, MRDPacket.ofValues, hset, hnum, htake, List.take_length,
      List.length_append, List.length_singleton]
  simp only [mrdPacketHandler, if_pos hv, hnum, if_neg (Nat.not_le.2 hn), readRegister, hown]
  rw [← hnum, hof]
  rfl

/-- A multi-read packet is no error response. -/
theorem not_isErrorResponse_written (addr : UInt32) (vs : List (List UInt8)) :
    ¬ IsErrorResponse (SCBS.transmitPacket (MRDPacket.written addr vs)) := by
  rintro ⟨cellId, text, h⟩
  have hmrd : (MRDPacket.written addr vs).take 6 = dollar :: packetHeaderStr .mrd :=
    BSPacket.take_packetStr_packetizeContents _ _
  have hsrs : (SRSPacket.ofValues cellId (ascii "ERR:" ++ text)).toStr.packetStr.take 6 =
      dollar :: packetHeaderStr .srs := BSPacket.take_packetStr_packetizeContents _ _
  rw [List.append_cancel_right h, hsrs] at hmrd
  exact absurd hmrd (by decide)

/-- The line a cell sends for a received multi-read. -/
theorem SCBS.mrdPacketHandler_received {stack : Stack} {line : List UInt8} (hline : IsLine line)
    {p : MRDPacket} (hp : MRDPacket.ofString stack line = .ok p) (hv : p.isValid = true)
    (hn : p.numValues < kMaxNumValues) (cell : SCBS F) (time : UInt32) {own : List UInt8}
    (hown : registerText cell.outputVoltage cell.outputCurrent p.regAddr = some own) :
    p.numValues = (p.values.take p.numValues).length ∧
      (∀ v ∈ p.values.take p.numValues, OnWire v) ∧
      (cell.mrdPacketHandler time p).2 =
        transmitPacket (MRDPacket.written p.regAddr (p.values.take p.numValues ++ [own])) := by
  obtain ⟨hstar, vals, hcount, hvalues, hnum, hkept⟩ := MRDPacket.ofString_inv hp hv
  have htake : p.values.take p.numValues = vals := by
    rw [hvalues, hnum, MRDPacket.take_slots]
  rw [htake]
  exact ⟨hnum, fun v hv => onWire_of_kept hline hstar (hkept v hv),
    cell.mrdPacketHandler_tx time hv (by omega) hvalues hnum hown⟩

section Room

variable {p : MRDPacket} {vals : List (List UInt8)} {own : List UInt8}
  (hvals : ∀ v ∈ vals, OnWire v) (hown : OnWire own) (hn : vals.length < kMaxNumValues)
  (hnum : p.numValues = vals.length) (htake : p.values.take p.numValues = vals)

include hvals hown hn hnum htake

theorem forwards_written_iff :
    Forwards (SCBS.transmitPacket (MRDPacket.written p.regAddr (vals ++ [own]))) p own ↔
      RoomFor 188 p.regAddr vals own := by
  constructor
  · rintro (herr | ⟨out, hout, hcarries⟩)
    · exact absurd herr (not_isErrorResponse_written _ _)
    · obtain rfl := List.append_cancel_right hout
      exact MRDPacket.room_of_carries hvals hown hnum tail_nil (by simp)
        (by rwa [List.append_nil])
  · intro hroom
    have hcarries := MRDPacket.carries_of_room hvals hown hn rfl hnum htake hroom tail_nil
    rw [List.append_nil] at hcarries
    exact Or.inr ⟨_, rfl, hcarries⟩

theorem delivers_written_iff :
    Delivers (SCBS.transmitPacket (MRDPacket.written p.regAddr (vals ++ [own]))) p own ↔
      RoomFor 187 p.regAddr vals own := by
  have hws := forall_onWire_concat hvals hown
  constructor
  · rintro (herr | ⟨htakes, hcarries⟩)
    · exact absurd herr (not_isErrorResponse_written _ _)
    · have hroom := MRDPacket.room_of_carries hvals hown hnum tail_crlf (by decide) hcarries
      have hlen := MRDPacket.length_contents_of_guard own hroom.guard
      have htotal := hroom.total
      have h187 := (MRDPacket.takes_written_iff p.regAddr hws (by omega)).1 htakes
      exact ⟨hroom.nonempty, hroom.guard, by omega⟩
  · intro hroom
    have hlen := MRDPacket.length_contents_of_guard own hroom.guard
    have htotal := hroom.total
    exact Or.inr ⟨(MRDPacket.takes_written_iff p.regAddr hws (by omega)).2 (by omega),
      MRDPacket.carries_of_room hvals hown hn rfl hnum htake
        ⟨hroom.nonempty, hroom.guard, by omega⟩ tail_crlf⟩

end Room

/-- **A cell passes on a multi-read without loss exactly when there is room.**  For
every received multi-read with fewer than 20 values of a readable register: a parser
reads all values and the cell's own from the packet transmitted exactly when the
room of `RoomFor` is there, and the neighbour receives this packet when it also
leaves room for the line end. -/
theorem forwards_iff {stack : Stack} {line : List UInt8} (hline : IsLine line) {p : MRDPacket}
    (hp : MRDPacket.ofString stack line = .ok p) (hv : p.isValid = true)
    (hn : p.numValues < kMaxNumValues) (haddr : Readable p.regAddr) (cell : SCBS F)
    (time : UInt32) :
    ∃ own, SCBS.registerText cell.outputVoltage cell.outputCurrent p.regAddr = some own ∧
      (Forwards (cell.mrdPacketHandler time p).2 p own ↔
        RoomFor 188 p.regAddr (p.values.take p.numValues) own) ∧
      (Delivers (cell.mrdPacketHandler time p).2 p own ↔
        RoomFor 187 p.regAddr (p.values.take p.numValues) own) := by
  obtain ⟨own, hown⟩ := (SCBS.registerText_isSome_iff cell.outputVoltage cell.outputCurrent
    p.regAddr).2 haddr
  have hwire := (SCBS.onWire_registerText hown).1
  obtain ⟨hnum, hvals, htx⟩ := SCBS.mrdPacketHandler_received hline hp hv hn cell time hown
  rw [htx]
  exact ⟨own, hown, forwards_written_iff hvals hwire (by omega) hnum rfl,
    delivers_written_iff hvals hwire (by omega) hnum rfl⟩

end Handler

/-- The line of a multi-read of the firmware version with `n` values. -/
def firmwareLine (n : ℕ) : List UInt8 :=
  frame .mrd (printNat 16 (0x3000 : UInt32).toNat ++
    joinFields (List.replicate n scbsFirmwareVersion)) ++ crlf

theorem ofString_firmwareLine {n : ℕ} (hn : n ≤ 11) :
    ∃ p, MRDPacket.ofString (Vector.replicate kMaxPacketLen 0) (firmwareLine n) = .ok p ∧
      p.isValid = true ∧ p.regAddr = 0x3000 ∧ p.numValues = n ∧
      p.values.take p.numValues = List.replicate n scbsFirmwareVersion := by
  have hwire : OnWire scbsFirmwareVersion :=
    ⟨by decide, by decide, by decide, by decide, by decide⟩
  have hlen : (printNat 16 (0x3000 : UInt32).toNat ++
      joinFields (List.replicate n scbsFirmwareVersion)).length ≤ 188 := by
    rw [List.length_append, length_joinFields, usedLen, List.map_replicate, List.sum_replicate,
      show (printNat 16 (0x3000 : UInt32).toNat).length = 4 by decide +kernel,
      show scbsFirmwareVersion.length = 15 from rfl, smul_eq_mul]
    omega
  obtain ⟨p, hp, hv, ha, hnum, hvals⟩ :=
    MRDPacket.ofString_written (Vector.replicate kMaxPacketLen 0) 0x3000 tail_crlf
      (fun v hv => by rw [List.eq_of_mem_replicate hv]; exact hwire)
      (fun v hv => by rw [List.eq_of_mem_replicate (List.mem_of_mem_dropLast hv)]; decide)
      (by rw [List.length_replicate, kMaxNumValues]; omega) hlen
  rw [List.length_replicate] at hnum hvals
  exact ⟨p, hp, hv, ha, hnum, by rw [hnum]; exact hvals⟩

theorem isLine_firmwareLine_two : IsLine (firmwareLine 2) :=
  ⟨by decide +kernel, (firmwareLine 2).dropLast, by decide +kernel, by decide +kernel,
    by decide +kernel⟩

theorem forwards_firmware :
    ∃ p own, MRDPacket.ofString (Vector.replicate kMaxPacketLen 0) (firmwareLine 2) = .ok p ∧
      Delivers ((SCBS.init 3 : SCBS ExtRat).mrdPacketHandler 0 p).2 p own := by
  obtain ⟨p, hp, hv, ha, hnum, hvals⟩ := ofString_firmwareLine (n := 2) (by omega)
  obtain ⟨own, hown, -, hdel⟩ := forwards_iff isLine_firmwareLine_two hp hv
    (by rw [hnum]; decide) (by rw [ha]; decide) (SCBS.init 3 : SCBS ExtRat) 0
  obtain rfl : scbsFirmwareVersion = own := by
    rw [ha] at hown
    exact Option.some.inj hown
  refine ⟨p, _, hp, hdel.2 ⟨?_, ?_, ?_⟩⟩
  · rw [hvals]; decide
  · rw [hvals, ha]; decide +kernel
  · rw [hvals, ha]; decide +kernel

/-- The twelfth cell of a chain passes the eleven firmware versions on and leaves its
own out, with no error. -/
theorem not_forwards_firmware :
    IsLine (firmwareLine 11) ∧ ∃ p,
      MRDPacket.ofString (Vector.replicate kMaxPacketLen 0) (firmwareLine 11) = .ok p ∧
      p.isValid = true ∧ p.numValues < kMaxNumValues ∧ Readable p.regAddr ∧
      SCBS.registerText (SCBS.init 12 : SCBS ExtRat).outputVoltage
        (SCBS.init 12 : SCBS ExtRat).outputCurrent p.regAddr = some scbsFirmwareVersion ∧
      ¬ Forwards ((SCBS.init 12 : SCBS ExtRat).mrdPacketHandler 0 p).2 p scbsFirmwareVersion := by
  have hline : IsLine (firmwareLine 11) :=
    ⟨by decide +kernel, (firmwareLine 11).dropLast, by decide +kernel, by decide +kernel,
      by decide +kernel⟩
  obtain ⟨p, hp, hv, ha, hnum, hvals⟩ := ofString_firmwareLine (n := 11) le_rfl
  have hn : p.numValues < kMaxNumValues := by rw [hnum]; decide
  have hown : SCBS.registerText (SCBS.init 12 : SCBS ExtRat).outputVoltage
      (SCBS.init 12 : SCBS ExtRat).outputCurrent p.regAddr = some scbsFirmwareVersion := by
    rw [ha]; rfl
  obtain ⟨hlen, hwire, htx⟩ := SCBS.mrdPacketHandler_received hline hp hv hn _ 0 hown
  refine ⟨hline, p, hp, hv, hn, by rw [ha]; decide, hown, ?_⟩
  intro h
  rw [htx] at h
  have hroom :=
    (forwards_written_iff hwire (SCBS.onWire_registerText hown).1 (by omega) hlen rfl).1 h
  have hguard := hroom.guard
  rw [hvals, ha] at hguard
  exact absurd hguard (by decide +kernel)

end Scbs
