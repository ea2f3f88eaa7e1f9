import Scbs.Link.Pipeline
import Scbs.Protocol

/-!
# A chain of cells

Cells in a row, each transmitting into the UART of the next one.  Every cell calls
`Update` whenever it likes, on any part of the bytes in flight to it, with any clock
and any uninitialised memory; its ADC gives one of a set of readings.

* `SCBS.update_part`, `SCBS.update_line` — **what one call of `Update` does** to a cell
  that has a part of a message.
* `cellNode` — a cell as a node of a pipeline, so that every run of a chain computes
  what the protocol says.
* `Settles` — what is shown of a chain and a list of requests: no call of `Update`
  runs into a fault, every run can come to rest, and when it has, a property holds.
-/

namespace Scbs

open CLib Link

section Update

variable {F : Type} [CFloat F]

namespace SCBS

/-- The last part of `Update` leaves the id, the voltage and the buffer alone. -/
theorem refresh_spec (env : Env) (cell : SCBS F) :
    (cell.refresh env).cellId = cell.cellId ∧
      (cell.refresh env).outputVoltage = cell.outputVoltage ∧
      (cell.refresh env).outputCurrent = currentOfCounts env.adcRead ∧
      (cell.refresh env).toUartRx = cell.toUartRx := by
  rw [refresh_eq]
  exact ⟨rfl, rfl, rfl, rfl⟩

/-- **A call of `Update` that sees no newline** takes the bytes and is otherwise
idle. -/
theorem update_part (env : Env) {cell : SCBS F} {raw u : List UInt8}
    (h : Holds cell.toUartRx raw) (hu : lineFeed ∉ u) (hle : (raw ++ u).length ≤ 198) :
    ∃ cell', cell.update env u = .ok ⟨cell', [], []⟩ ∧ Holds cell'.toUartRx (raw ++ u) ∧
      cell'.cellId = cell.cellId ∧ cell'.outputVoltage = cell.outputVoltage ∧
      cell'.outputCurrent = currentOfCounts env.adcRead := by
  obtain ⟨rx', hrec, hh⟩ := receivePacket_part h hu hle
  obtain ⟨hid, hvolt, hcur, hrx⟩ := refresh_spec env { cell with toUartRx := rx' }
  refine ⟨_, ?_, by rw [hrx]; exact hh, hid, hvolt, hcur⟩
  simp only [update, hrec, ne_eq, not_true_eq_false, if_false]
  rfl

/-- A call of `Update` that sees the end of a message ends as the handler does. -/
theorem update_of_dispatch (env : Env) {cell cell₁ : SCBS F} {raw u v tx : List UInt8} {m : Msg}
    (h : Holds cell.toUartRx raw) (hle : m.body.length ≤ 198) (hbody : raw ++ u = m.body)
    (hdisp : (cell.received env (u ++ lineFeed :: v)).dispatch env m.line = .ok (cell₁, tx)) :
    ∃ cell', cell.update env (u ++ lineFeed :: v) = .ok ⟨cell', v, tx⟩ ∧
      cell'.cellId = cell₁.cellId ∧ cell'.outputVoltage = cell₁.outputVoltage ∧
      cell'.outputCurrent = currentOfCounts env.adcRead ∧ Holds cell'.toUartRx [] := by
  have hfree : ∀ c : UInt8, c = 0 ∨ c = 10 → c ∉ raw ++ u := by
    intro c hc
    rw [hbody]
    exact m.not_mem_body hc
  have hupd := update_at_line env h (hfree 0 (Or.inl rfl)) (hfree lineFeed (Or.inr rfl))
    (by rw [hbody]; exact hle) v
  rw [hbody, ← Msg.line_eq, hdisp] at hupd
  obtain ⟨hid, hvolt, hcur, hrx⟩ := refresh_spec env
    { cell₁ with toUartRx := UartRx.flushUARTBuf }
  refine ⟨_, hupd, hid, hvolt, hcur, ?_⟩
  rw [hrx]
  exact Holds.flushed

/-- **A call of `Update` that sees the end of a message** answers it. -/
theorem update_line (env : Env) {cell : SCBS F} (currents : Set F) {raw u : List UInt8} {m : Msg}
    (h : Holds cell.toUartRx raw) (hm : m.Fits) (hbody : raw ++ u = m.body) (v : List UInt8) :
    ∃ cell' m', cell.update env (u ++ lineFeed :: v) = .ok ⟨cell', v, m'.line⟩ ∧
      Responds (cell.model currents) cell.outputCurrent m (cell'.model currents) m' ∧
      Holds cell'.toUartRx [] ∧ cell'.outputCurrent = currentOfCounts env.adcRead := by
  obtain ⟨cell₁, m', hdisp, hresp⟩ :=
    dispatch_msg env (cell.received env (u ++ lineFeed :: v)) currents hm
  obtain ⟨cell', hupd, hid, hvolt, hcur, hh⟩ :=
    update_of_dispatch env h (m.length_body_le hm) hbody hdisp
  have hmodel : cell'.model currents = cell₁.model currents := by
    rw [model, hid, hvolt]
    rfl
  refine ⟨cell', m', hupd, ?_, hh, hcur⟩
  rw [hmodel]
  exact hresp

end SCBS

end Update

/-! ## Cells as nodes of a pipeline -/

/-- A cell in a chain, with the readings its ADC can give. -/
structure Site (F : Type) where
  cell : SCBS F
  adcs : Set UInt16
  adcs_nonempty : adcs.Nonempty

section Node

variable {F : Type} [CFloat F]

/-- One call of `Update` in the chain, in any surroundings the ADC allows. -/
def Site.Poll (site : Site F) (seen : List UInt8) (r : Outcome (Site F) UInt8) : Prop :=
  ∃ env : Env, env.adcRead ∈ site.adcs ∧
    r = (site.cell.update env seen).toOption.map fun u =>
      ({ site with cell := u.cell }, u.unread, u.tx)

/-- A message that `k` cells in a row can handle, when the numbers with `P` are the ones
they print. -/
def Msg.Good (P : F → Prop) (k : ℕ) : Msg → Prop
  | .mrd addr vs => addr ≠ kRegAddrReadFirmwareVersion ∧ vs.length + k ≤ kMaxNumValues ∧
      (∀ v ∈ vs, v.text ≠ [] ∧ v.text.length ≤ 6) ∧
      ∀ x, P x → (CFloat.printF2 x).length ≤ 6
  | _ => True

/-- The site stands for the cell `a` and has received `part` of a line. -/
structure Site.Sim (P : F → Prop) (a : Cell F) (part : List UInt8) (site : Site F) : Prop where
  model : site.cell.model a.currents = a
  current : site.cell.outputCurrent ∈ a.currents
  adcs : ∀ adc ∈ site.adcs, SCBS.currentOfCounts adc ∈ a.currents
  holds : Holds site.cell.toUartRx part
  voltage_prints : P a.voltage
  currents_print : ∀ c ∈ a.currents, P c

/-- What a cell does in the protocol, at some current it can measure. -/
def Cell.Handles (a : Cell F) (m : Msg) (a' : Cell F) (m' : Msg) : Prop :=
  ∃ current ∈ a.currents, Responds a current m a' m'

section Good

variable {P : F → Prop} {k : ℕ} {m m' : Msg}

/-- Short values take up at most 7 bytes each. -/
theorem usedLen_le_of_short (len : ℕ) {vs : List Text} (hvs : ∀ v ∈ vs, v.text.length ≤ 6) :
    usedLen len (vs.map (·.text)) ≤ len + 7 * vs.length := by
  induction vs generalizing len with
  | nil => simp
  | cons v vs ih =>
    have hv := hvs v (by simp)
    have := ih (len + (v.text.length + 1)) fun w hw => hvs w (List.mem_cons_of_mem _ hw)
    rw [List.map_cons, usedLen_cons, List.length_cons]
    omega

theorem Msg.Good.fits (h : m.Good P (k + 1)) : m.Fits := by
  cases m with
  | mrd addr vs =>
    obtain ⟨-, hcount, hvs, -⟩ := h
    have haddr := length_printNat_addr addr
    have := usedLen_le_of_short (printNat 16 addr.toNat).length fun v hv => (hvs v hv).2
    simp only [kMaxNumValues] at hcount
    exact ⟨by simp only [kMaxNumValues]; omega, fun v hv => (hvs v hv).1, by omega⟩
  | _ => trivial

/-- A short number gives a short register text. -/
theorem length_registerText_le {v c : F} {addr : UInt32} {text : List UInt8}
    (h : SCBS.registerText v c addr = some text) (haddr : addr ≠ kRegAddrReadFirmwareVersion)
    (hv : (CFloat.printF2 v).length ≤ 6) (hc : (CFloat.printF2 c).length ≤ 6) :
    text.length ≤ 6 := by
  have hsn : ∀ s : List UInt8, s.length ≤ 6 →
      (snprintf (kMaxPacketFieldLen - 1) s).length ≤ 6 := by
    intro s hs
    rw [snprintf, List.length_take]
    omega
  rcases SCBS.registerText_cases h with rfl | rfl | ⟨hfirm, -⟩
  · exact hsn _ hv
  · exact hsn _ hc
  · exact absurd hfirm haddr

/-- The next cell in the row can handle the answer. -/
theorem Responds.good {a a' : Cell F} {current : F} (h : Responds a current m a' m')
    (hm : m.Good P (k + 1)) (hvolt : P a.voltage) (hcur : P current) : m'.Good P k := by
  cases h with
  | mrd vs hown =>
    obtain ⟨haddr, hcount, hvs, hprint⟩ := hm
    have hlen := length_registerText_le hown haddr (hprint _ hvolt) (hprint _ hcur)
    refine ⟨haddr, by rw [List.length_append, List.length_singleton]; omega, ?_, hprint⟩
    intro v hv
    rcases List.mem_append.1 hv with hv | hv
    · exact hvs v hv
    · rw [List.mem_singleton.1 hv]
      exact ⟨(SCBS.onWire_registerText hown).2, hlen⟩
  | _ => trivial

/-- Voltages in a chain are ones a cell started with or ones that were set. -/
theorem Responds.voltage_prints {a a' : Cell F} {current : F} (h : Responds a current m a' m')
    (hrail : ∀ v : F, P (SCBS.railVoltage v)) (hvolt : P a.voltage) : P a'.voltage := by
  cases h with
  | mwr v => exact hrail _
  | swr v => exact hrail _
  | _ => exact hvolt

end Good

section Poll

variable {P : F → Prop} {a : Cell F} {part u : List UInt8} {site : Site F}
  {r : Outcome (Site F) UInt8}

/-- **A poll that sees no newline** leaves the site standing for the same cell. -/
theorem Site.Sim.poll_of_le (hsim : Site.Sim P a part site) (hfree : lineFeed ∉ u)
    (hle : (part ++ u).length ≤ 198) (h : site.Poll u r) :
    ∃ site', r = some (site', [], []) ∧ Site.Sim P a (part ++ u) site' := by
  obtain ⟨env, hadc, rfl⟩ := h
  obtain ⟨cell', hupd, hh, hid, hvolt, hcur⟩ := SCBS.update_part env hsim.holds hfree hle
  refine ⟨{ site with cell := cell' }, by rw [hupd]; rfl, ⟨?_, ?_, hsim.adcs, hh,
    hsim.voltage_prints, hsim.currents_print⟩⟩
  · rw [← hsim.model, SCBS.model, hid, hvolt]
    rfl
  · rw [hcur]
    exact hsim.adcs _ hadc

theorem Site.Sim.poll_nil (hsim : Site.Sim P a [] site) (h : site.Poll [] r) :
    ∃ site', r = some (site', [], []) ∧ Site.Sim P a [] site' :=
  hsim.poll_of_le (by simp) (by simp) h

/-- So does a poll that sees a further part of a message. -/
theorem Site.Sim.poll_prefix (hsim : Site.Sim P a part site) {m : Msg} (hle : m.body.length ≤ 198)
    (hpart : part ++ u <+: m.body) (h : site.Poll u r) :
    ∃ site', r = some (site', [], []) ∧ Site.Sim P a (part ++ u) site' := by
  refine hsim.poll_of_le (fun hmem => ?_) (le_trans hpart.length_le hle) h
  exact m.lineFeed_not_mem_body (hpart.subset (List.mem_append_right _ hmem))

/-- A poll that ends is a call of `Update` that ends. -/
theorem Site.Poll.exists_update {site' : Site F} {unread tx : List UInt8}
    (h : site.Poll u (some (site', unread, tx))) :
    ∃ (env : Env) (upd : SCBS.Updated F), site.cell.update env u = .ok upd ∧
      site'.cell = upd.cell := by
  obtain ⟨env, -, heq⟩ := h
  cases hupd : site.cell.update env u with
  | error fault => simp [hupd, Except.toOption] at heq
  | ok upd =>
    simp only [hupd, Except.toOption, Option.map_some, Option.some.injEq, Prod.mk.injEq] at heq
    obtain ⟨rfl, -, -⟩ := heq
    exact ⟨env, upd, hupd, rfl⟩

end Poll

theorem Site.exists_poll (site : Site F) (seen : List UInt8) : ∃ r, site.Poll seen r := by
  obtain ⟨adc, hadc⟩ := site.adcs_nonempty
  exact ⟨_, ⟨adc, 0, 0, 0, Vector.replicate _ 0, Vector.replicate _ 0⟩, hadc, rfl⟩

/-- **A cell is a node that works line by line.** -/
def cellNode (P : F → Prop) (hrail : ∀ v : F, P (SCBS.railVoltage v)) :
    Link.Node (Site F) UInt8 (Cell F) Msg where
  delim := lineFeed
  poll := Site.Poll
  body := Msg.body
  handles := Cell.Handles
  good := Msg.Good P
  sim := Site.Sim P
  delim_not_mem_body := Msg.lineFeed_not_mem_body
  exists_poll := Site.exists_poll
  poll_idle := Site.Sim.poll_nil
  poll_part hsim hgood hpart h := hsim.poll_prefix (Msg.length_body_le hgood.fits) hpart h
  poll_line := by
    rintro a part site k m u v r hsim hgood hbody ⟨env, hadc, rfl⟩
    obtain ⟨cell', m', hupd, hresp, hh, hcur⟩ :=
      SCBS.update_line env a.currents hsim.holds hgood.fits hbody v
    rw [hsim.model] at hresp
    refine ⟨{ site with cell := cell' }, cell'.model a.currents, m', ?_,
      ⟨site.cell.outputCurrent, hsim.current, hresp⟩,
      hresp.good hgood hsim.voltage_prints (hsim.currents_print _ hsim.current),
      ⟨rfl, ?_, hsim.adcs, hh, hresp.voltage_prints hrail hsim.voltage_prints,
        hsim.currents_print⟩⟩
    · rw [hupd, ← Msg.line_eq]
      rfl
    · rw [hcur]
      exact hsim.adcs _ hadc

/-! ## Runs of a chain -/

/-- The currents a cell can have measured when it answers: the one it knows and those of
its ADC. -/
def Site.currents (site : Site F) : Set F :=
  insert site.cell.outputCurrent (SCBS.currentOfCounts '' site.adcs)

def Site.model (site : Site F) : Cell F := site.cell.model site.currents

/-- Nothing has been received since the last line. -/
def Site.Idle (site : Site F) : Prop := site.cell.toUartRx = UartRx.flushUARTBuf

/-- The id and the voltage of a cell. -/
def Cell.snapshot (a : Cell F) : UInt16 × F := (a.cellId, a.voltage)

def Site.snapshot (site : Site F) : UInt16 × F := (site.cell.cellId, site.cell.outputVoltage)

/-- **A chain of cells settles on a result.**  When the requests are sent to the first
cell of a chain, at any times: no call of `Update` runs into a fault; every run can be
continued until all bytes are consumed; and then what has left the last cell, and the
ids and voltages of the cells, are as the result says. -/
structure Settles (sites : List (Site F)) (requests : List (List UInt8))
    (result : List UInt8 → List (UInt16 × F) → Prop) : Prop where
  sound : ∀ sent q, sent <+: requests → Pipe.Run Site.Poll (Pipe.start sites) sent q →
    q.Sound Site.Poll
  settles : ∀ q, Pipe.Run Site.Poll (Pipe.start sites) requests q →
    ∃ q', Pipe.Steps Site.Poll q q' ∧ q'.Quiet
  result : ∀ q, Pipe.Run Site.Poll (Pipe.start sites) requests q → q.Quiet →
    result q.output (q.states.map Site.snapshot)

/-- A run in which a request is sent only when the replies to the ones before it have
come back. -/
def Sequential (sites : List (Site F)) : List (List UInt8) → Pipe (Site F) UInt8 → Prop :=
  Pipe.Turns Site.Poll (fun sent out => out.count lineFeed = sent.length) (Pipe.start sites)

theorem Settles.imp {sites : List (Site F)} {requests : List (List UInt8)}
    {result result' : List UInt8 → List (UInt16 × F) → Prop} (h : Settles sites requests result)
    (himp : ∀ out snaps, result out snaps → result' out snaps) : Settles sites requests result' :=
  ⟨h.sound, h.settles, fun q hrun hq => himp _ _ (h.result q hrun hq)⟩

/-- Nodes whose messages are lines on the wire. -/
structure LineNode (D : Link.Node (Site F) UInt8 (Cell F) Msg) : Prop where
  delim : D.delim = lineFeed
  poll : D.poll = Site.Poll
  body : D.body = Msg.body
  snapshot : ∀ {a : Cell F} {site : Site F}, D.sim a [] site → site.snapshot = a.snapshot

section LineNode

variable {D : Link.Node (Site F) UInt8 (Cell F) Msg} (hD : LineNode D)

include hD

theorem LineNode.wire (m : Msg) : D.wire m = m.line := by
  rw [Link.Node.wire, hD.body, hD.delim, Msg.line_eq]

theorem LineNode.wires (ms : List Msg) : D.wires ms = ms.flatMap Msg.line := by
  induction ms with
  | nil => rfl
  | cons m ms ih =>
    rw [Link.Node.wires_cons, ih, List.flatMap_cons, ← hD.wire, Link.Node.wire, List.append_assoc]
    rfl

theorem LineNode.map_wire (ms : List Msg) : ms.map D.wire = ms.map Msg.line :=
  List.map_congr_left fun m _ => hD.wire m

theorem LineNode.map_snapshot {as : List (Cell F)} {ss : List (Site F)}
    (h : List.Forall₂ (D.sim · []) as ss) : ss.map Site.snapshot = as.map Cell.snapshot := by
  induction h with
  | nil => rfl
  | cons hhead _ ih => rw [List.map_cons, List.map_cons, ih, hD.snapshot hhead]

/-- **A chain settles on what its nodes compute**, whichever messages the nodes are for. -/
theorem LineNode.settles {as : List (Cell F)} {sites : List (Site F)} {ms : List Msg}
    (hstart : List.Forall₂ (D.sim · []) as sites) (hms : ∀ m ∈ ms, D.good sites.length m)
    {result : List UInt8 → List (UInt16 × F) → Prop}
    (h : ∀ as' outs, Chain D.handles as ms as' outs →
      result (outs.flatMap Msg.line) (as'.map Cell.snapshot)) :
    Settles sites (ms.map Msg.line) result := by
  have hlen : as.length = sites.length := hstart.length_eq
  rw [← hD.map_wire]
  refine ⟨?_, ?_, ?_⟩
  · intro sent q hsent hrun
    rw [← hD.poll] at hrun ⊢
    obtain ⟨ms', hms', rfl⟩ : ∃ ms', ms' <+: ms ∧ ms'.map D.wire = sent :=
      ⟨ms.take sent.length, List.take_prefix _ _, by
        rw [List.map_take, ← List.prefix_iff_eq_take.1 hsent]⟩
    exact Link.Node.run_sound hstart
      (fun m hm => by rw [hlen]; exact hms m (hms'.subset hm)) hrun
  · intro q hrun
    rw [← hD.poll] at hrun ⊢
    exact Link.Node.run_settles hstart (fun m hm => by rw [hlen]; exact hms m hm) hrun
  · intro q hrun hq
    rw [← hD.poll] at hrun
    obtain ⟨as', outs, hchain, hout, hsim⟩ := Link.Node.run_quiet hstart
      (fun m hm => by rw [hlen]; exact hms m hm) hrun hq
    rw [hout, hD.map_snapshot hsim, hD.wires]
    exact h as' outs hchain

end LineNode

theorem lineNode_cellNode (P : F → Prop) (hrail : ∀ v : F, P (SCBS.railVoltage v)) :
    LineNode (cellNode P hrail) where
  delim := rfl
  poll := rfl
  body := rfl
  snapshot hsim := by
    rw [Cell.snapshot, ← hsim.model]
    rfl

/-- An idle cell stands for its id and voltage. -/
theorem Site.Idle.sim {P : F → Prop} {site : Site F} (h : site.Idle)
    (hvolt : P site.cell.outputVoltage) (hcur : ∀ c ∈ site.currents, P c) :
    Site.Sim P site.model [] site where
  model := rfl
  current := Set.mem_insert _ _
  adcs adc hadc := Set.mem_insert_of_mem _ ⟨adc, hadc, rfl⟩
  holds := by
    unfold Site.Idle at h
    rw [h]
    exact Holds.flushed
  voltage_prints := hvolt
  currents_print := hcur

section Chain

variable {P : F → Prop} (hrail : ∀ v : F, P (SCBS.railVoltage v)) {sites : List (Site F)}
  (hidle : ∀ site ∈ sites, site.Idle) (hvolt : ∀ site ∈ sites, P site.cell.outputVoltage)
  (hcur : ∀ site ∈ sites, ∀ c ∈ site.currents, P c) {ms : List Msg}
  (hms : ∀ m ∈ ms, m.Good P sites.length)

include hidle hvolt hcur

theorem forall₂_sim :
    List.Forall₂ ((cellNode P hrail).sim · []) (sites.map Site.model) sites := by
  rw [List.forall₂_map_left_iff, List.forall₂_same]
  exact fun site hsite => (hidle site hsite).sim (hvolt site hsite) (hcur site hsite)

include hrail hms

/-- **A chain settles on what the protocol computes.** -/
theorem settles_of_chain {result : List UInt8 → List (UInt16 × F) → Prop}
    (h : ∀ as' outs, Chain Cell.Handles (sites.map Site.model) ms as' outs →
      result (outs.flatMap Msg.line) (as'.map Cell.snapshot)) :
    Settles sites (ms.map Msg.line) result :=
  (lineNode_cellNode P hrail).settles (forall₂_sim hrail hidle hvolt hcur) hms h

/-- **A chain can be used in turns**: each request can be sent when the replies to the
ones before it have come back. -/
theorem exists_sequential :
    ∃ q, Sequential sites (ms.map Msg.line) q ∧ q.Quiet := by
  obtain ⟨q, hturns, hq⟩ := Link.Node.exists_turns (forall₂_sim hrail hidle hvolt hcur) ms
    fun m hm => by rw [List.length_map]; exact hms m hm
  rw [(lineNode_cellNode P hrail).map_wire] at hturns
  exact ⟨q, hturns, hq⟩

end Chain

end Node

end Scbs
