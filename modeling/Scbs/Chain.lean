import Scbs.Network

/-!
# Requests to a chain

What a chain of cells makes of one request, however the calls of `Update` interleave.

* `unicast` — **a request to one cell is answered by that cell**, and passes a chain
  that does not have the cell unchanged.
* `discovery` — **discovery numbers the chain** and comes back with the last id.
* `broadcast` — **a write to all cells is done by all of them or by none**.

For each message there is a lemma on `Hops`, by induction over the chain where every
cell takes part, and by `Hops.pass` where most of them only pass the message on.
-/

namespace Scbs

open CLib Link

/-- The bytes are one line. -/
def OneLine (out : List UInt8) : Prop := ∃ body, out = body ++ [lineFeed] ∧ lineFeed ∉ body

theorem Msg.oneLine (m : Msg) : OneLine m.line := ⟨m.body, m.line_eq, m.lineFeed_not_mem_body⟩

section Lines

open SCBS

theorem Msg.dis_line (id : UInt16) :
    transmitPacket (DISPacket.ofValues id).toStr.packetStr = (Msg.dis id).line :=
  congrArg transmitPacket (DISPacket.packetStr_ofValues id)

theorem Msg.mwr_line (addr : UInt32) (v : Text) :
    transmitPacket (MWRPacket.ofValues addr v.text).toStr.packetStr = (Msg.mwr addr v).line :=
  congrArg transmitPacket (MWRPacket.packetStr_ofValues addr v.field)

theorem Msg.srd_line (id : UInt16) (addr : UInt32) :
    transmitPacket (SRDPacket.ofValues id addr).toStr.packetStr = (Msg.srd id addr).line :=
  congrArg transmitPacket (SRDPacket.packetStr_ofValues id addr)

theorem Msg.swr_line (id : UInt16) (addr : UInt32) (v : Text) :
    transmitPacket (SWRPacket.ofValues id addr v.text).toStr.packetStr = (Msg.swr id addr v).line :=
  congrArg transmitPacket (SWRPacket.packetStr_ofValues id addr v.field)

theorem Msg.srs_line (id : UInt16) (v : Text) :
    transmitPacket (SRSPacket.ofValues id v.text).toStr.packetStr = (Msg.srs id v).line :=
  congrArg transmitPacket (SRSPacket.packetStr_ofValues id v.field)

/-- A multi-read is written with the values that its count says, here none. -/
theorem Msg.mrd_line (addr : UInt32) (values : List (List UInt8)) :
    transmitPacket (MRDPacket.ofValues addr values 0).toStr.packetStr =
      (Msg.mrd addr []).line := by
  have haddr := length_printNat_addr addr
  have hlen : (MRDPacket.contents addr []).length ≤ 188 := by
    rw [MRDPacket.length_contents, List.take_nil, usedLen_nil]
    omega
  have hstr : (MRDPacket.ofValues addr [] 0).toStr.packetStr =
      frame .mrd (MRDPacket.contents addr []) :=
    MRDPacket.packetStr_ofValues addr (by simp) (by simp) (by simp) hlen
  exact congrArg transmitPacket hstr

end Lines

variable {F : Type} [CFloat F]

/-! ## One message through a chain -/

section Hops

variable {as as' : List (Cell F)} {out : Msg}

/-- A response is forwarded by every cell. -/
theorem hops_srs {id : UInt16} {v : Text} (h : Hops Cell.Handles as (.srs id v) as' out) :
    as' = as ∧ out = .srs id v := by
  apply h.pass
  rintro a _ a' m' ⟨current, -, hresp⟩
  cases hresp
  exact ⟨rfl, rfl⟩

/-- A read is forwarded by cells with other ids. -/
theorem hops_srd {id : UInt16} {addr : UInt32} (hid : ∀ a ∈ as, id ≠ a.cellId)
    (h : Hops Cell.Handles as (.srd id addr) as' out) : as' = as ∧ out = .srd id addr := by
  apply h.pass
  rintro a ha a' m' ⟨current, -, hresp⟩
  cases hresp with
  | srdOther => exact ⟨rfl, rfl⟩
  | _ => exact absurd rfl (hid _ ha)

/-- So is a write. -/
theorem hops_swr {id : UInt16} {addr : UInt32} {v : Text} (hid : ∀ a ∈ as, id ≠ a.cellId)
    (h : Hops Cell.Handles as (.swr id addr v) as' out) : as' = as ∧ out = .swr id addr v := by
  apply h.pass
  rintro a ha a' m' ⟨current, -, hresp⟩
  cases hresp with
  | swrOther => exact ⟨rfl, rfl⟩
  | _ => exact absurd rfl (hid _ ha)

/-- **A chain with a cell that answers a message**: the cells before it pass the message
on, and the cells after it pass the answer on. -/
theorem hops_answered {pre post : List (Cell F)} {a : Cell F} {m : Msg}
    (hpre : ∀ pre' mid, Hops Cell.Handles pre m pre' mid → pre' = pre ∧ mid = m)
    (hsrs : ∀ a' m', a.Handles m a' m' → ∃ v, m' = .srs a.cellId v)
    (h : Hops Cell.Handles (pre ++ a :: post) m as' out) :
    ∃ a' v, a.Handles m a' (.srs a.cellId v) ∧ as' = pre ++ a' :: post ∧ out = .srs a.cellId v := by
  obtain ⟨pre', rest', mid, rfl, hhops, hrest⟩ := h.split
  obtain ⟨rfl, rfl⟩ := hpre _ _ hhops
  cases hrest with
  | cons ha hpost =>
    obtain ⟨v, rfl⟩ := hsrs _ _ ha
    obtain ⟨rfl, rfl⟩ := hops_srs hpost
    exact ⟨_, v, ha, rfl, rfl⟩

/-- **Discovery**: the ids go up along the chain, from the one in the request to the one
in the answer. -/
theorem hops_dis {id : UInt16} (h : Hops Cell.Handles as (.dis id) as' out) :
    as'.map (·.cellId) = (List.range as.length).map (fun i => id + UInt16.ofNat (i + 1)) ∧
      as'.map (·.voltage) = as.map (·.voltage) ∧ out = .dis (id + UInt16.ofNat as.length) := by
  generalize hm : Msg.dis id = m at h
  induction h generalizing id with
  | nil =>
    subst hm
    simp
  | @cons a a' as as' m m' out hm' _ ih =>
    subst hm
    obtain ⟨current, -, hresp⟩ := hm'
    cases hresp
    obtain ⟨hids, hvolts, rfl⟩ := ih rfl
    have hnext : ∀ n, id + 1 + UInt16.ofNat n = id + UInt16.ofNat (n + 1) := by
      intro n
      rw [UInt16.add_assoc, UInt16.add_comm 1, UInt16.ofNat_add]
      rfl
    refine ⟨?_, ?_, ?_⟩
    · rw [List.map_cons, hids, List.length_cons, List.range_succ_eq_map, List.map_cons,
        List.map_map]
      refine congrArg₂ List.cons rfl (List.map_congr_left ?_)
      intro i _
      exact hnext (i + 1)
    · rw [List.map_cons, hvolts, List.map_cons]
    · rw [hnext, List.length_cons]

/-- **A write of the voltage to all cells** reaches all cells. -/
theorem hops_mwr {v : Text}
    (h : Hops Cell.Handles as (.mwr kRegAddrSetOutputVoltage v) as' out) :
    as' = as.map (fun a => { a with voltage := setVoltage v }) ∧
      out = .mwr kRegAddrSetOutputVoltage v := by
  generalize hm : Msg.mwr kRegAddrSetOutputVoltage v = m at h
  induction h with
  | nil =>
    subst hm
    exact ⟨rfl, rfl⟩
  | cons hm' _ ih =>
    subst hm
    obtain ⟨current, -, hresp⟩ := hm'
    cases hresp with
    | mwr =>
      obtain ⟨rfl, rfl⟩ := ih rfl
      exact ⟨rfl, rfl⟩
    | mwrErr _ haddr => exact absurd rfl haddr

/-- **A write of anything else to all cells** is refused by the first one, and reaches no
other. -/
theorem hops_mwr_err {a : Cell F} {addr : UInt32} {v : Text}
    (haddr : addr ≠ kRegAddrSetOutputVoltage)
    (h : Hops Cell.Handles (a :: as) (.mwr addr v) as' out) :
    as' = a :: as ∧ out = .srs a.cellId (errText (writeErr addr)) := by
  cases h with
  | cons ha hrest =>
    obtain ⟨current, -, hresp⟩ := ha
    cases hresp with
    | mwr => exact absurd rfl haddr
    | mwrErr =>
      obtain ⟨rfl, rfl⟩ := hops_srs hrest
      exact ⟨rfl, rfl⟩

end Hops

/-- A chain settles on what the hops of one message give. -/
theorem settles_of_hops {sites : List (Site F)} (hidle : ∀ site ∈ sites, site.Idle) {m : Msg}
    (hm : m.Good (fun _ : F => True) sites.length) {result : List UInt8 → List (UInt16 × F) → Prop}
    (h : ∀ as' out, Hops Cell.Handles (sites.map Site.model) m as' out →
      result out.line (as'.map Cell.snapshot)) : Settles sites [m.line] result := by
  have hms : ∀ x ∈ [m], x.Good (fun _ : F => True) sites.length := by
    intro x hx
    rw [List.mem_singleton.1 hx]
    exact hm
  refine settles_of_chain (fun _ => trivial) hidle (fun _ _ => trivial) (fun _ _ _ _ => trivial)
    hms fun as' outs hchain => ?_
  obtain ⟨out, rfl, hhops⟩ := hchain.hops
  rw [List.flatMap_singleton]
  exact h as' out hhops

/-! ## Requests to one cell -/

/-- The ids of the cells go up from `s + 1`. -/
def NumberedFrom (s : ℕ) (sites : List (Site F)) : Prop :=
  sites.map (·.cell.cellId.toNat) = List.range' (s + 1) sites.length

/-- What a cell answers to a read, and its voltage after it. -/
def Site.Reads (site : Site F) (addr : UInt32) (value : List UInt8) (voltage : F) : Prop :=
  voltage = site.cell.outputVoltage ∧
    if Readable addr then
      ∃ current ∈ site.currents, SCBS.registerText site.cell.outputVoltage current addr = some value
    else value = SCBS.errStr kErrCodeAddrNotRecognized

/-- What a cell answers to a write, and its voltage after it. -/
def Site.Writes (site : Site F) (addr : UInt32) (v value : List UInt8) (voltage : F) : Prop :=
  if addr = kRegAddrSetOutputVoltage then
    voltage = SCBS.railVoltage (CFloat.strtof v) ∧ value = SCBS.errStr kErrCodeNone
  else voltage = site.cell.outputVoltage ∧ value = SCBS.errStr (writeErr addr)

/-- **What comes of a request to cell `k`** of a chain numbered from `s + 1`, where
`answers` says what a cell makes of it: the response of the cell, which alone can have
changed its voltage, or else the request. -/
structure Delivered (s : ℕ) (sites : List (Site F)) (k : UInt16) (request : List UInt8)
    (answers : Site F → List UInt8 → F → Prop) (out : List UInt8) (snaps : List (UInt16 × F)) :
    Prop where
  oneLine : OneLine out
  answered : s < k.toNat → k.toNat ≤ s + sites.length →
    ∃ (i : Fin sites.length) (value : List UInt8) (voltage : F),
      sites[i].cell.cellId = k ∧ answers sites[i] value voltage ∧
        out = SCBS.transmitPacket (SRSPacket.ofValues k value).toStr.packetStr ∧
        snaps = (sites.map Site.snapshot).set i (k, voltage)
  passed : ¬(s < k.toNat ∧ k.toNat ≤ s + sites.length) →
    out = request ∧ snaps = sites.map Site.snapshot

section Unicast

variable {s : ℕ} {sites : List (Site F)} {k : UInt16}

omit [CFloat F] in
theorem NumberedFrom.getElem (h : NumberedFrom s sites) {i : ℕ} (hi : i < sites.length) :
    sites[i].cell.cellId.toNat = s + 1 + i := by
  have hget := List.getElem_of_eq h (i := i) (by rw [List.length_map]; exact hi)
  rw [List.getElem_map, List.getElem_range'] at hget
  omega

omit [CFloat F] in
/-- Cells at other places have other ids. -/
theorem NumberedFrom.ne (h : NumberedFrom s sites) {i : ℕ} (hi : i < sites.length)
    (hk : k.toNat ≠ s + 1 + i) : k ≠ sites[i].cell.cellId := by
  rintro rfl
  exact hk (h.getElem hi)

theorem map_snapshot_model (sites : List (Site F)) :
    (sites.map Site.model).map Cell.snapshot = sites.map Site.snapshot := by
  rw [List.map_map]
  rfl

/-- **What a chain makes of a message to cell `k`**, when cells with other ids pass the
message on and cell `k` answers it. -/
theorem delivered_of_hops (hids : NumberedFrom s sites) {m out : Msg} {as' : List (Cell F)}
    {answers : Site F → List UInt8 → F → Prop}
    (hpass : ∀ as as' : List (Cell F), ∀ out, (∀ a ∈ as, k ≠ a.cellId) →
      Hops Cell.Handles as m as' out → as' = as ∧ out = m)
    (hanswer : ∀ site : Site F, site.cell.cellId = k → ∀ a' m', site.model.Handles m a' m' →
      a'.cellId = k ∧ ∃ v : Text, m' = .srs k v ∧ answers site v.text a'.voltage)
    (h : Hops Cell.Handles (sites.map Site.model) m as' out) :
    Delivered s sites k m.line answers out.line (as'.map Cell.snapshot) := by
  refine ⟨out.oneLine, ?_, ?_⟩
  · intro hlow hhigh
    -- the chain is the cells before cell `k`, cell `k`, and the cells after it
    obtain ⟨i, hi⟩ : ∃ i, k.toNat = s + 1 + i := ⟨k.toNat - (s + 1), by omega⟩
    have hlt : i < sites.length := by omega
    have hk : sites[i].cell.cellId = k := UInt16.toNat_inj.1 (by rw [hids.getElem hlt, hi])
    have hsplit : sites.map Site.model =
        (sites.take i).map Site.model ++ sites[i].model :: (sites.drop (i + 1)).map Site.model := by
      rw [← List.map_cons, ← List.drop_eq_getElem_cons hlt, ← List.map_append,
        List.take_append_drop]
    have hpre : ∀ a ∈ (sites.take i).map Site.model, k ≠ a.cellId := by
      intro a ha
      obtain ⟨site, hsite, rfl⟩ := List.mem_map.1 ha
      obtain ⟨j, hj, rfl⟩ := List.mem_take_iff_getElem.1 hsite
      exact hids.ne (by omega) (by omega)
    have hsrs : ∀ a' m', sites[i].model.Handles m a' m' →
        ∃ v, m' = .srs sites[i].model.cellId v := by
      intro a' m' hm
      obtain ⟨-, v, rfl, -⟩ := hanswer _ hk a' m' hm
      exact ⟨v, congrArg (Msg.srs · v) hk.symm⟩
    rw [hsplit] at h
    obtain ⟨a', v, hm, rfl, rfl⟩ := hops_answered (fun pre' mid => hpass _ _ _ hpre) hsrs h
    obtain ⟨hid, v', hv, hanswers⟩ := hanswer _ hk _ _ hm
    obtain rfl : v = v' := by
      injection hv
    refine ⟨⟨i, hlt⟩, v.text, a'.voltage, hk, hanswers, ?_, ?_⟩
    · rw [Msg.srs_line, hv]
    · rw [List.set_eq_take_append_cons_drop, if_pos (by rw [List.length_map]; exact hlt),
        List.map_append, List.map_cons, ← List.map_take, ← List.map_drop, map_snapshot_model,
        map_snapshot_model, Cell.snapshot, hid]
  · intro hout
    have hother : ∀ a ∈ sites.map Site.model, k ≠ a.cellId := by
      intro a ha
      obtain ⟨site, hsite, rfl⟩ := List.mem_map.1 ha
      obtain ⟨j, hj, rfl⟩ := List.getElem_of_mem hsite
      exact hids.ne hj (by omega)
    obtain ⟨rfl, rfl⟩ := hpass _ _ _ hother h
    exact ⟨rfl, map_snapshot_model sites⟩

theorem reads_of_handles {site : Site F} (hk : site.cell.cellId = k) {addr : UInt32} {a' : Cell F}
    {m' : Msg} (h : site.model.Handles (.srd k addr) a' m') :
    a'.cellId = k ∧ ∃ v : Text, m' = .srs k v ∧ site.Reads addr v.text a'.voltage := by
  obtain ⟨current, hcur, hresp⟩ := h
  have hreadable := SCBS.registerText_isSome_iff site.cell.outputVoltage current addr
  cases hresp with
  | srd hown =>
    refine ⟨hk, _, congrArg (Msg.srs · _) hk, rfl, ?_⟩
    rw [if_pos (hreadable.1 ⟨_, hown⟩)]
    exact ⟨current, hcur, hown⟩
  | srdErr hown =>
    refine ⟨hk, _, congrArg (Msg.srs · _) hk, rfl, ?_⟩
    rw [if_neg fun hread => ?_]
    · rfl
    · obtain ⟨text, htext⟩ := hreadable.2 hread
      exact absurd (htext.symm.trans hown) (by simp)
  | srdOther _ hne => exact absurd hk.symm hne

theorem writes_of_handles {site : Site F} (hk : site.cell.cellId = k) {addr : UInt32} {v : Text}
    {a' : Cell F} {m' : Msg} (h : site.model.Handles (.swr k addr v) a' m') :
    a'.cellId = k ∧ ∃ v' : Text, m' = .srs k v' ∧ site.Writes addr v.text v'.text a'.voltage := by
  obtain ⟨current, hcur, hresp⟩ := h
  cases hresp with
  | swr => exact ⟨hk, _, rfl, by rw [Site.Writes, if_pos rfl]; exact ⟨rfl, rfl⟩⟩
  | swrErr _ haddr => exact ⟨hk, _, rfl, by rw [Site.Writes, if_neg haddr]; exact ⟨rfl, rfl⟩⟩
  | swrOther _ _ hne => exact absurd hk.symm hne

/-- **A request to one cell.**  In a chain whose cells are numbered from `s + 1`, a read
or a write of cell `k` is answered by cell `k` if the chain has it, and comes out
unchanged otherwise. -/
theorem unicast (hids : NumberedFrom s sites) (hidle : ∀ site ∈ sites, site.Idle) (k : UInt16)
    (addr : UInt32) (v : Text) :
    Settles sites [SCBS.transmitPacket (SRDPacket.ofValues k addr).toStr.packetStr]
        (Delivered s sites k (SCBS.transmitPacket (SRDPacket.ofValues k addr).toStr.packetStr)
          (Site.Reads · addr)) ∧
      Settles sites [SCBS.transmitPacket (SWRPacket.ofValues k addr v.text).toStr.packetStr]
        (Delivered s sites k
          (SCBS.transmitPacket (SWRPacket.ofValues k addr v.text).toStr.packetStr)
          (Site.Writes · addr v.text)) := by
  rw [Msg.srd_line, Msg.swr_line]
  have hsrd : (Msg.srd k addr).Good (fun _ : F => True) sites.length := trivial
  have hswr : (Msg.swr k addr v).Good (fun _ : F => True) sites.length := trivial
  refine ⟨settles_of_hops hidle hsrd fun as' out h => ?_,
    settles_of_hops hidle hswr fun as' out h => ?_⟩
  · exact delivered_of_hops hids (fun _ _ _ => hops_srd)
      (fun site hk a' m' => reads_of_handles hk) h
  · exact delivered_of_hops hids (fun _ _ _ => hops_swr)
      (fun site hk a' m' => writes_of_handles hk) h

end Unicast

/-- A cell after `Init` whose ADC reads 0. -/
def Site.init (id : UInt16) : Site ExtRat := ⟨SCBS.init id, {0}, Set.singleton_nonempty 0⟩

theorem Site.idle_init {ids : List UInt16} : ∀ site ∈ ids.map Site.init, site.Idle := by
  intro site hsite
  obtain ⟨id, -, rfl⟩ := List.mem_map.1 hsite
  rfl

/-- The text `3.30`. -/
def text330 : Text := ⟨ascii "3.30", onWire_of_plain (by decide) (by decide +kernel)⟩

theorem unicast_sample :
    Settles ([8, 9].map Site.init)
        [SCBS.transmitPacket (SRDPacket.ofValues 9 0x1000).toStr.packetStr]
        (Delivered 7 ([8, 9].map Site.init) 9
          (SCBS.transmitPacket (SRDPacket.ofValues 9 0x1000).toStr.packetStr)
          (Site.Reads · 0x1000)) ∧
      Settles ([8, 9].map Site.init)
        [SCBS.transmitPacket (SWRPacket.ofValues 9 0x1000 text330.text).toStr.packetStr]
        (Delivered 7 ([8, 9].map Site.init) 9
          (SCBS.transmitPacket (SWRPacket.ofValues 9 0x1000 text330.text).toStr.packetStr)
          (Site.Writes · 0x1000 text330.text)) :=
  unicast (by rw [NumberedFrom]; rfl) Site.idle_init 9 0x1000 text330

/-! ## Discovery -/

section Discovery

variable {sites : List (Site F)}

/-- **What comes of discovery from `s`**: the cells are numbered, with different ids, and
one line comes back, which is a discovery packet with the last id. -/
structure Discovered (s : UInt16) (volts : List F) (out : List UInt8)
    (snaps : List (UInt16 × F)) : Prop where
  ids : snaps.map Prod.fst =
    (List.range volts.length).map fun i => s + UInt16.ofNat (i + 1)
  nodup : (snaps.map Prod.fst).Nodup
  voltages : snaps.map Prod.snd = volts
  oneLine : OneLine out
  valid : ∀ stack stackTyped, ReadsAs stack out .dis ∧
    ∃ p, DISPacket.ofString stackTyped out = .ok p ∧ p.isValid = true ∧
      p.lastCellId = s + UInt16.ofNat volts.length

/-- Fewer than 2¹⁶ consecutive ids are different, also when they wrap. -/
theorem nodup_ids {s : UInt16} {n : ℕ} (hn : n ≤ 65535) :
    ((List.range n).map fun i => s + UInt16.ofNat (i + 1)).Nodup := by
  apply (List.nodup_range).map_on
  intro i hi j hj hij
  rw [List.mem_range] at hi hj
  have h := congrArg UInt16.toNat ((UInt16.add_right_inj s).1 hij)
  rw [UInt16.toNat_ofNat', UInt16.toNat_ofNat'] at h
  omega

/-- A discovery packet is read back from its line. -/
theorem Msg.dis_valid (id : UInt16) (stack stackTyped : Stack) :
    ReadsAs stack (Msg.dis id).line .dis ∧
      ∃ p, DISPacket.ofString stackTyped (Msg.dis id).line = .ok p ∧ p.isValid = true ∧
        p.lastCellId = id :=
  have hfits : (Msg.dis id).Fits := trivial
  ⟨⟨_, Msg.ofString_line hfits stack, rfl, rfl⟩,
    _, DISPacket.ofString_frame stackTyped id tail_crlf, rfl, rfl⟩

theorem discovered_of_hops {as as' : List (Cell F)} (hn : as.length ≤ 65535) {s : UInt16}
    {out : Msg} (h : Hops Cell.Handles as (.dis s) as' out) :
    Discovered s (as.map (·.voltage)) out.line (as'.map Cell.snapshot) := by
  obtain ⟨hids, hvolts, rfl⟩ := hops_dis h
  have hfst : (as'.map Cell.snapshot).map Prod.fst = as'.map (·.cellId) := List.map_map
  have hsnd : (as'.map Cell.snapshot).map Prod.snd = as'.map (·.voltage) := List.map_map
  have hlen : (as.map (·.voltage)).length = as.length := List.length_map _
  constructor
  · rw [hfst, hids, hlen]
  · rw [hfst, hids]
    exact nodup_ids hn
  · rw [hsnd, hvolts]
  · exact Msg.oneLine _
  · rw [hlen]
    exact Msg.dis_valid _

/-- A line goes from cell to cell: each one parses it, handles it and transmits the
next. -/
def passLine : List (Env × SCBS F) → List UInt8 → Except Fault (List (SCBS F) × List UInt8)
  | [], line => return ([], line)
  | (env, cell) :: rest, line => do
    let (cell, line) ← cell.dispatch env line
    let (cells, line) ← passLine rest line
    return (cell :: cells, line)

/-- The line of a message makes the hops of the message. -/
theorem passLine_msg {P : F → Prop} (hP : ∀ x, P x) {cells : List (Env × SCBS F)} {m : Msg}
    (hm : m.Good P cells.length) :
    ∃ cells' out, passLine cells m.line = .ok (cells', Msg.line out) ∧
      Hops Cell.Handles (cells.map (·.2.model Set.univ)) m (cells'.map (·.model Set.univ)) out := by
  induction cells generalizing m with
  | nil => exact ⟨[], m, rfl, .nil⟩
  | cons c rest ih =>
    obtain ⟨env, cell⟩ := c
    obtain ⟨cell', m', hdisp, hresp⟩ := cell.dispatch_msg env Set.univ hm.fits
    obtain ⟨cells', out, hpass, hhops⟩ := ih (hresp.good hm (hP _) (hP _))
    refine ⟨cell' :: cells', out, ?_, .cons ⟨_, Set.mem_univ _, hresp⟩ hhops⟩
    simp only [passLine, hdisp, hpass, bind, Except.bind, pure, Except.pure]

/-- **Discovery.**  The line of a discovery packet that passes from cell to cell numbers
them, whatever their ids and buffers were; and so does a discovery packet sent to a chain
of idle cells. -/
theorem discovery (s : UInt16) :
    (∀ cells : List (Env × SCBS F), cells.length ≤ 65535 →
      ∃ cells' out,
        passLine cells (SCBS.transmitPacket (DISPacket.ofValues s).toStr.packetStr) =
          .ok (cells', out) ∧
        Discovered s (cells.map (·.2.outputVoltage)) out
          (cells'.map fun cell => (cell.cellId, cell.outputVoltage))) ∧
    ∀ sites : List (Site F), sites.length ≤ 65535 → (∀ site ∈ sites, site.Idle) →
      Settles sites [SCBS.transmitPacket (DISPacket.ofValues s).toStr.packetStr]
        (Discovered s (sites.map (·.cell.outputVoltage))) := by
  rw [Msg.dis_line]
  refine ⟨?_, ?_⟩
  · intro cells hn
    have hgood : (Msg.dis s).Good (fun _ : F => True) cells.length := trivial
    obtain ⟨cells', out, hpass, hhops⟩ := passLine_msg (fun _ => trivial) hgood
    have h := discovered_of_hops (by rw [List.length_map]; exact hn) hhops
    rw [List.map_map, List.map_map] at h
    exact ⟨cells', out.line, hpass, h⟩
  · intro sites hn hidle
    have hgood : (Msg.dis s).Good (fun _ : F => True) sites.length := trivial
    apply settles_of_hops hidle hgood
    intro as' out h
    have h := discovered_of_hops (by rw [List.length_map]; exact hn) h
    rw [List.map_map] at h
    exact h

theorem discovery_sample :
    Settles ([3, 3, 0].map Site.init)
      [SCBS.transmitPacket (DISPacket.ofValues 65534).toStr.packetStr]
      (Discovered 65534 (([3, 3, 0].map Site.init).map (·.cell.outputVoltage))) :=
  (discovery 65534).2 ([3, 3, 0].map Site.init) (by decide) Site.idle_init

end Discovery

/-! ## Writes to all cells -/

section Broadcast

variable {sites : List (Site F)}

/-- **What comes of a write to all cells**: all voltages are set and the request comes
out, or nothing changes and the first cell's error comes out. -/
structure Broadcast (sites : List (Site F)) (hne : sites ≠ []) (addr : UInt32) (v : List UInt8)
    (out : List UInt8) (snaps : List (UInt16 × F)) : Prop where
  oneLine : OneLine out
  written : addr = kRegAddrSetOutputVoltage →
    out = SCBS.transmitPacket (MWRPacket.ofValues addr v).toStr.packetStr ∧
      snaps = sites.map fun site => (site.cell.cellId, SCBS.railVoltage (CFloat.strtof v))
  refused : addr ≠ kRegAddrSetOutputVoltage →
    out = SCBS.transmitPacket (SRSPacket.ofValues (sites.head hne).cell.cellId
        (SCBS.errStr (if addr = kRegAddrReadOutputCurrent then 3 else 1))).toStr.packetStr ∧
      snaps = sites.map Site.snapshot

/-- **A write to all cells** of a chain is done by all of them or by none. -/
theorem broadcast (hne : sites ≠ []) (hidle : ∀ site ∈ sites, site.Idle) (addr : UInt32)
    (v : Text) :
    Settles sites [SCBS.transmitPacket (MWRPacket.ofValues addr v.text).toStr.packetStr]
      (Broadcast sites hne addr v.text) := by
  have hgood : (Msg.mwr addr v).Good (fun _ : F => True) sites.length := trivial
  rw [Msg.mwr_line]
  refine settles_of_hops hidle hgood fun as' out h => ⟨out.oneLine, ?_, ?_⟩
  · intro haddr
    subst haddr
    obtain ⟨rfl, rfl⟩ := hops_mwr h
    refine ⟨(Msg.mwr_line _ v).symm, ?_⟩
    rw [List.map_map, List.map_map]
    rfl
  · intro haddr
    cases sites with
    | nil => exact absurd rfl hne
    | cons site sites =>
      rw [List.map_cons] at h
      obtain ⟨rfl, rfl⟩ := hops_mwr_err haddr h
      exact ⟨(Msg.srs_line _ (errText (writeErr addr))).symm, map_snapshot_model (site :: sites)⟩

end Broadcast

theorem broadcast_sample :
    Settles ([8, 9].map Site.init)
      [SCBS.transmitPacket (MWRPacket.ofValues 0x1000 text330.text).toStr.packetStr]
      (Broadcast ([8, 9].map Site.init) (by simp) 0x1000 text330.text) :=
  broadcast (by simp) Site.idle_init 0x1000 text330

end Scbs
