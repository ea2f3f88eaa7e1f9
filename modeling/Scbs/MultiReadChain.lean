import Scbs.Chain

/-!
# A multi-read through a whole chain

A multi-read of a number register collects one value from each cell until the twentieth;
the cell after that answers with an error, and the others pass the error on.

* `Collects` — what a cell makes of the multi-read, and of the error.
* `SCBS.dispatch_full` — a cell that receives 20 values refuses to add its own, and
  `SCBS.dispatch_collects` — **the handlers refine `Collects`**.
* `hops_collects` — a chain of cells, by induction: the values in the order of the chain,
  or the error of the cell that received 20.
* `multiRead` — **a multi-read collects the values of up to 20 cells** and changes nothing.
-/

namespace Scbs

open CLib Link

variable {F : Type} [CFloat F]

/-! ## One cell -/

/-- The texts a cell can read a register as have at most 6 bytes. -/
def ShortTexts (addr : UInt32) (a : Cell F) : Prop :=
  ∀ current ∈ a.currents, ∀ text, SCBS.registerText a.voltage current addr = some text →
    text.length ≤ 6

/-- Values that a multi-read can have collected. -/
structure Collected (vs : List Text) : Prop where
  count : vs.length ≤ kMaxNumValues
  values : ∀ v ∈ vs, v.text ≠ [] ∧ v.text.length ≤ 6

/-- **What a cell does in a multi-read** of the register at `addr`: add its value, report
that there is no room, or pass a response on. -/
inductive Collects (addr : UInt32) (a : Cell F) : Msg → Cell F → Msg → Prop
  | add {current : F} {own : Text} (vs : List Text) : current ∈ a.currents →
      vs.length < kMaxNumValues → SCBS.registerText a.voltage current addr = some own.text →
      Collects addr a (.mrd addr vs) a (.mrd addr (vs ++ [own]))
  | full (vs : List Text) : vs.length = kMaxNumValues →
      Collects addr a (.mrd addr vs) a (.srs a.cellId (errText kErrCodePacketLengthExceeded))
  | pass (id : UInt16) (v : Text) : Collects addr a (.srs id v) a (.srs id v)

/-- The messages of a multi-read. -/
def Msg.OfMultiRead (addr : UInt32) : Msg → Prop
  | .mrd addr' vs => addr' = addr ∧ Collected vs
  | .srs _ _ => True
  | _ => False

section Messages

variable {addr : UInt32} {vs : List Text}

theorem Collected.usedLen_le (h : Collected vs) (addr : UInt32) :
    usedLen (printNat 16 addr.toNat).length (vs.map (·.text)) ≤ 148 := by
  have haddr := length_printNat_addr addr
  have hsum := usedLen_le_of_short (printNat 16 addr.toNat).length fun v hv => (h.values v hv).2
  have hcount := h.count
  simp only [kMaxNumValues] at hcount
  omega

theorem Collected.fits (h : Collected vs) (hlt : vs.length < kMaxNumValues) (addr : UInt32) :
    MrdFits addr vs :=
  ⟨hlt, fun v hv => (h.values v hv).1, le_trans (h.usedLen_le addr) (by omega)⟩

theorem Collected.concat (h : Collected vs) (hlt : vs.length < kMaxNumValues) {own : Text}
    (hne : own.text ≠ []) (hle : own.text.length ≤ 6) : Collected (vs ++ [own]) := by
  constructor
  · rw [List.length_append, List.length_singleton]
    omega
  · intro v hv
    rcases List.mem_append.1 hv with hv | hv
    · exact h.values v hv
    · rw [List.mem_singleton.1 hv]
      exact ⟨hne, hle⟩

/-- All of them fit into the receive buffer. -/
theorem Msg.OfMultiRead.length_contents_le {m : Msg} (h : m.OfMultiRead addr) :
    m.contents.length ≤ 160 := by
  cases m with
  | mrd addr' vs =>
    obtain ⟨rfl, hvs⟩ := h
    rw [contents, List.length_append, length_joinFields]
    exact le_trans (hvs.usedLen_le addr') (by omega)
  | srs id v => exact Msg.length_contents_le (m := .srs id v) trivial
  | _ => exact h.elim

theorem Msg.OfMultiRead.length_body_le {m : Msg} (h : m.OfMultiRead addr) :
    m.body.length ≤ 198 := by
  have := h.length_contents_le
  rw [body, packetStr, List.length_append, length_frame, List.length_singleton]
  omega

end Messages

namespace SCBS

/-- **A cell that receives 20 values** answers with an error. -/
theorem dispatch_full (env : Env) (cell : SCBS F) {addr : UInt32} {vs : List Text}
    (hvs : Collected vs) (hfull : vs.length = kMaxNumValues) :
    cell.dispatch env (Msg.mrd addr vs).line =
      .ok (cell, (Msg.srs cell.cellId (errText kErrCodePacketLengthExceeded)).line) := by
  have hlen := Msg.OfMultiRead.length_contents_le (m := .mrd addr vs) ⟨rfl, hvs⟩
  have hbase := Msg.ofString_line_of_le (le_trans hlen (by omega)) env.stack
  obtain ⟨p, hp, hv, -, hnum, -⟩ := ofString_mrd env.stackTyped hvs.count
    (fun v hv => (hvs.values v hv).1) (le_trans hlen (by omega))
  have hge : kMaxNumValues ≤ p.numValues := by
    rw [hnum, List.length_map, hfull]
  simp only [dispatch, hbase, hp, bind, Except.bind, pure, Except.pure, if_true, Msg.packetType,
    mrdPacketHandler, if_pos hv, if_pos hge, transmitError_eq]

/-- **The handlers refine `Collects`.** -/
theorem dispatch_collects (env : Env) (cell : SCBS F) {currents : Set F} {addr : UInt32}
    {m : Msg} (haddr : Readable addr) (hcur : cell.outputCurrent ∈ currents)
    (hshort : ShortTexts addr (cell.model currents)) (hm : m.OfMultiRead addr) :
    ∃ cell' m', cell.dispatch env m.line = .ok (cell', m'.line) ∧
      cell'.cellId = cell.cellId ∧ cell'.outputVoltage = cell.outputVoltage ∧
      Collects addr (cell.model currents) m (cell.model currents) m' ∧ m'.OfMultiRead addr := by
  cases m with
  | mrd addr' vs =>
    obtain ⟨rfl, hvs⟩ := hm
    rcases Nat.lt_or_ge vs.length kMaxNumValues with hlt | hge
    · obtain ⟨cell', m', hdisp, hresp⟩ :=
        dispatch_msg env cell currents (m := .mrd addr' vs) (hvs.fits hlt addr')
      generalize hmodel : cell'.model currents = a' at hresp
      cases hresp with
      | @mrd _ own _ hown =>
        refine ⟨cell', _, hdisp, congrArg Cell.cellId hmodel, congrArg Cell.voltage hmodel,
          .add vs hcur hlt hown, rfl, hvs.concat hlt (onWire_registerText hown).2 ?_⟩
        exact hshort _ hcur _ hown
      | mrdErr _ hnone =>
        obtain ⟨text, htext⟩ :=
          (registerText_isSome_iff cell.outputVoltage cell.outputCurrent addr').2 haddr
        exact absurd (htext.symm.trans hnone) (by simp)
    · have hfull := le_antisymm hvs.count hge
      exact ⟨cell, _, dispatch_full env cell hvs hfull, rfl, rfl, .full vs hfull, trivial⟩
  | srs id v =>
    obtain ⟨cell', m', hdisp, hresp⟩ := dispatch_msg env cell currents (m := .srs id v) trivial
    generalize hmodel : cell'.model currents = a' at hresp
    cases hresp
    exact ⟨cell', _, hdisp, congrArg Cell.cellId hmodel, congrArg Cell.voltage hmodel,
      .pass id v, trivial⟩
  | _ => exact hm.elim

end SCBS

/-! ## The chain -/

/-- **A cell is a node for the messages of a multi-read.** -/
def readNode (addr : UInt32) (haddr : Readable addr) : Link.Node (Site F) UInt8 (Cell F) Msg where
  delim := lineFeed
  poll := Site.Poll
  body := Msg.body
  handles := Collects addr
  good _ m := m.OfMultiRead addr
  sim a part site := Site.Sim (fun _ => True) a part site ∧ ShortTexts addr a
  delim_not_mem_body := Msg.lineFeed_not_mem_body
  exists_poll := Site.exists_poll
  poll_idle := by
    rintro a site r ⟨hsim, hshort⟩ h
    obtain ⟨site', hr, hsim'⟩ := hsim.poll_nil h
    exact ⟨site', hr, hsim', hshort⟩
  poll_part := by
    rintro a part site k m u r ⟨hsim, hshort⟩ hm hpart h
    obtain ⟨site', hr, hsim'⟩ := hsim.poll_prefix hm.length_body_le hpart h
    exact ⟨site', hr, hsim', hshort⟩
  poll_line := by
    rintro a part site k m u v r ⟨hsim, hshort⟩ hm hbody ⟨env, hadc, rfl⟩
    have hmodel : (site.cell.received env (u ++ lineFeed :: v)).model a.currents = a := hsim.model
    obtain ⟨cell₁, m', hdisp, hid, hvolt, hcoll, hm'⟩ :=
      (site.cell.received env (u ++ lineFeed :: v)).dispatch_collects env haddr hsim.current
        (by rw [hmodel]; exact hshort) hm
    obtain ⟨cell', hupd, hid', hvolt', hcur', hh⟩ :=
      SCBS.update_of_dispatch env hsim.holds hm.length_body_le hbody hdisp
    rw [hmodel] at hcoll
    refine ⟨{ site with cell := cell' }, a, m', ?_, hcoll, hm', ⟨?_, ?_, hsim.adcs, hh, trivial,
      fun _ _ => trivial⟩, hshort⟩
    · rw [hupd, ← Msg.line_eq]
      rfl
    · rw [SCBS.model, hid', hvolt', hid, hvolt]
      exact hmodel
    · rw [hcur']
      exact hsim.adcs _ hadc

theorem lineNode_readNode (addr : UInt32) (haddr : Readable addr) :
    LineNode (readNode addr haddr : Link.Node (Site F) UInt8 (Cell F) Msg) where
  delim := rfl
  poll := rfl
  body := rfl
  snapshot hsim := (lineNode_cellNode (fun _ : F => True) fun _ => trivial).snapshot hsim.1

section Hops

variable {addr : UInt32} {as as' : List (Cell F)} {out : Msg}

/-- The error is passed on by every cell. -/
theorem hops_pass {id : UInt16} {v : Text} (h : Hops (Collects addr) as (.srs id v) as' out) :
    as' = as ∧ out = .srs id v := by
  apply h.pass
  intro a _ a' m' hm
  cases hm
  exact ⟨rfl, rfl⟩

/-- **A chain of cells in a multi-read**: each cell adds its value as long as there are not
20, and the first one that finds 20 makes it an error. -/
theorem hops_collects {vs : List Text} (hvs : vs.length ≤ kMaxNumValues)
    (h : Hops (Collects addr) as (.mrd addr vs) as' out) :
    as' = as ∧
      (vs.length + as.length ≤ kMaxNumValues → ∃ ws : List Text, out = .mrd addr (vs ++ ws) ∧
        List.Forall₂ (fun a w => ∃ current ∈ a.currents,
          SCBS.registerText a.voltage current addr = some w.text) as ws) ∧
      ∀ i a, vs.length + i = kMaxNumValues → as[i]? = some a →
        out = .srs a.cellId (errText kErrCodePacketLengthExceeded) := by
  generalize hm : Msg.mrd addr vs = m at h
  induction h generalizing vs with
  | nil =>
    subst hm
    exact ⟨rfl, fun _ => ⟨[], by rw [List.append_nil], .nil⟩, by simp⟩
  | @cons a a' as as' m m' out hfirst hrest ih =>
    subst hm
    cases hfirst with
    | @add current own _ hcur hlt hown =>
      have hcount : (vs ++ [own]).length ≤ kMaxNumValues := by
        rw [List.length_append, List.length_singleton]
        omega
      obtain ⟨rfl, hall, hexceeded⟩ := ih hcount rfl
      rw [List.length_append, List.length_singleton] at hall hexceeded
      refine ⟨rfl, ?_, ?_⟩
      · intro hcount
        rw [List.length_cons] at hcount
        obtain ⟨ws, rfl, hws⟩ := hall (by omega)
        exact ⟨own :: ws, by rw [List.append_assoc, List.singleton_append],
          .cons ⟨current, hcur, hown⟩ hws⟩
      · intro i b hi hb
        cases i with
        | zero => omega
        | succ i => exact hexceeded i b (by omega) (by simpa using hb)
    | full _ hfull =>
      obtain ⟨rfl, rfl⟩ := hops_pass hrest
      refine ⟨rfl, ?_, ?_⟩
      · intro hcount
        rw [List.length_cons] at hcount
        omega
      · intro i b hi hb
        obtain rfl : i = 0 := by omega
        rw [List.getElem?_cons_zero, Option.some.injEq] at hb
        rw [← hb]

end Hops

/-! ## The result -/

/-- **What comes of a multi-read** of a chain: up to 20 cells, the values of all of them, in
their order; with more, the error of the 21st.  No id and no voltage changes. -/
structure CollectedFrom (addr : UInt32) (sites : List (Site F)) (out : List UInt8)
    (snaps : List (UInt16 × F)) : Prop where
  oneLine : OneLine out
  unchanged : snaps = sites.map Site.snapshot
  collected : sites.length ≤ 20 → ∃ vs : List (List UInt8),
    List.Forall₂ (fun site v => ∃ current ∈ site.currents,
      SCBS.registerText site.cell.outputVoltage current addr = some v) sites vs ∧
    ∀ stack stackTyped, ReadsAs stack out .mrd ∧
      ∃ p, MRDPacket.ofString stackTyped out = .ok p ∧ p.isValid = true ∧ p.regAddr = addr ∧
        p.numValues = sites.length ∧ p.values.take p.numValues = vs
  exceeded : ∀ h : 20 < sites.length, ∀ stack stackTyped, ReadsAs stack out .srs ∧
    ∃ p, SRSPacket.ofString stackTyped out = .ok p ∧ p.isValid = true ∧
      p.cellId = sites[20].cell.cellId ∧ p.value = ascii "ERR:2"

theorem Msg.readsAs_line {m : Msg} (hlen : m.contents.length ≤ 190) (stack : Stack) :
    ReadsAs stack m.line m.packetType :=
  ⟨_, Msg.ofString_line_of_le hlen stack, rfl, rfl⟩

section Result

variable {addr : UInt32} {sites : List (Site F)}
  (hshort : ∀ site ∈ sites, ∀ current ∈ site.currents, ∀ text,
    SCBS.registerText site.cell.outputVoltage current addr = some text → text.length ≤ 6)

include hshort

/-- The values of up to 20 cells. -/
theorem collected_of_sites {ws : List Text} (hcount : sites.length ≤ kMaxNumValues)
    (hws : List.Forall₂ (fun a w => ∃ current ∈ a.currents,
      SCBS.registerText a.voltage current addr = some w.text) (sites.map Site.model) ws) :
    Collected ws := by
  refine ⟨by rw [← hws.length_eq, List.length_map]; exact hcount, ?_⟩
  intro w hw
  obtain ⟨i, hi, rfl⟩ := List.getElem_of_mem hw
  have hlt : i < sites.length := by
    rw [← hws.length_eq, List.length_map] at hi
    exact hi
  obtain ⟨current, hcur, htext⟩ := hws.get (by rw [List.length_map]; exact hlt) hi
  simp only [List.get_eq_getElem, List.getElem_map] at hcur htext
  exact ⟨(SCBS.onWire_registerText htext).2,
    hshort _ (List.getElem_mem hlt) current hcur _ htext⟩

/-- The line that comes out of the last cell. -/
theorem collectedFrom_of_hops {as' : List (Cell F)} {out : Msg}
    (h : Hops (Collects addr) (sites.map Site.model) (.mrd addr []) as' out) :
    CollectedFrom addr sites out.line (as'.map Cell.snapshot) := by
  obtain ⟨rfl, hall, hexceeded⟩ := hops_collects (Nat.zero_le _) h
  rw [List.length_map] at hall
  refine ⟨out.oneLine, map_snapshot_model sites, ?_, ?_⟩
  · intro hcount
    obtain ⟨ws, rfl, hws⟩ := hall (by simpa [kMaxNumValues] using hcount)
    rw [List.nil_append]
    have hcoll := collected_of_sites hshort hcount hws
    have hlen := Msg.OfMultiRead.length_contents_le (m := .mrd addr ws) ⟨rfl, hcoll⟩
    have hnum : (ws.map (·.text)).length = sites.length := by
      rw [List.length_map, ← hws.length_eq, List.length_map]
    refine ⟨ws.map (·.text), ?_, fun stack stackTyped => ⟨?_, ?_⟩⟩
    · rw [List.forall₂_map_left_iff] at hws
      rw [List.forall₂_map_right_iff]
      exact hws
    · exact Msg.readsAs_line (le_trans hlen (by omega)) stack
    · obtain ⟨p, hp, hv, ha, hp', hvalues⟩ := SCBS.ofString_mrd stackTyped hcoll.count
        (fun v hv => (hcoll.values v hv).1) (le_trans hlen (by omega))
      refine ⟨p, hp, hv, ha, hp'.trans hnum, ?_⟩
      rw [hp', hvalues, MRDPacket.take_slots]
  · intro hlt stack stackTyped
    obtain rfl := hexceeded 20 sites[20].model rfl
      (by rw [List.getElem?_map, List.getElem?_eq_getElem hlt]; rfl)
    have hlen := Msg.length_contents_le
      (m := .srs sites[20].model.cellId (errText kErrCodePacketLengthExceeded)) trivial
    refine ⟨Msg.readsAs_line (le_trans hlen (by omega)) stack,
      _, SRSPacket.ofString_frame stackTyped _ (errText kErrCodePacketLengthExceeded).field
        tail_crlf, rfl, rfl, ?_⟩
    exact (by decide +kernel : SCBS.errStr kErrCodePacketLengthExceeded = ascii "ERR:2")

end Result

/-- **A multi-read of a whole chain.**  For a register that all cells read as at most 6
bytes, the packet of a multi-read comes out of a chain of any length as one line: with the
values of all cells, up to 20 of them, and else as the error of the 21st. -/
theorem multiRead (sites : List (Site F)) (hidle : ∀ site ∈ sites, site.Idle) (addr : UInt32)
    (haddr : addr = kRegAddrSetOutputVoltage ∨ addr = kRegAddrReadOutputCurrent)
    (hshort : ∀ site ∈ sites, ∀ current ∈ site.currents, ∀ text,
      SCBS.registerText site.cell.outputVoltage current addr = some text → text.length ≤ 6) :
    Settles sites [SCBS.transmitPacket (MRDPacket.ofValues addr [] 0).toStr.packetStr]
      (CollectedFrom addr sites) := by
  have hreadable : Readable addr := by
    rcases haddr with haddr | haddr
    · exact Or.inl haddr
    · exact Or.inr (Or.inl haddr)
  have hstart : List.Forall₂ ((readNode addr hreadable).sim · []) (sites.map Site.model) sites := by
    rw [List.forall₂_map_left_iff, List.forall₂_same]
    exact fun site hsite => ⟨(hidle site hsite).sim trivial fun _ _ => trivial, hshort site hsite⟩
  have hgood : ∀ m ∈ [Msg.mrd addr []], (readNode (F := F) addr hreadable).good sites.length m := by
    intro m hm
    rw [List.mem_singleton.1 hm]
    exact ⟨rfl, Nat.zero_le _, by simp⟩
  rw [Msg.mrd_line]
  change Settles sites ([Msg.mrd addr []].map Msg.line) (CollectedFrom addr sites)
  apply (lineNode_readNode addr hreadable).settles hstart hgood
  intro as' outs hchain
  obtain ⟨out, rfl, hhops⟩ := hchain.hops
  rw [List.flatMap_singleton]
  exact collectedFrom_of_hops hshort hhops

/-- One cell too many. -/
theorem multiRead_sample :
    Settles ((List.range 21).map fun i => Site.init (UInt16.ofNat i))
      [SCBS.transmitPacket (MRDPacket.ofValues 0x1000 [] 0).toStr.packetStr]
      (CollectedFrom 0x1000 ((List.range 21).map fun i => Site.init (UInt16.ofNat i))) := by
  apply multiRead
  · intro site hsite
    obtain ⟨i, -, rfl⟩ := List.mem_map.1 hsite
    rfl
  · exact Or.inl rfl
  · intro site hsite current _ text htext
    obtain ⟨i, -, rfl⟩ := List.mem_map.1 hsite
    have htext' : snprintf (kMaxPacketFieldLen - 1) (CFloat.printF2 (ExtRat.num 0)) = text :=
      Option.some.inj htext
    rw [← htext']
    decide +kernel

end Scbs
