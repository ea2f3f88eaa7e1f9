import Scbs.Chain

/-!
# Many requests at once

Requests can be sent to a chain back to back.  Lines then follow each other closely, a
cell can have the beginning of one while cells after it still work on the lines before,
and discovery and writes change what later requests find.

* `Sequential` — runs in which a request is only sent when the reply to the one before
  it has come back.
* `pipelined` — **requests sent at any times are answered as if they were sent one
  after another**, as long as the cells measure constant currents.

What a run leaves behind is a `Chain` of the requests, whatever its interleaving
(`settles_of_chain`), so it remains that a chain is a function of its requests when
its cells are (`Chain.unique`).
-/

namespace Scbs

open CLib Link

variable {F : Type} [CFloat F]

/-- A line that a host can send: discovery, a write to all cells, a read or a write of
one cell, or a read of all cells that has no values yet and is not of the firmware
version. -/
inductive IsRequest : List UInt8 → Prop
  | dis (id : UInt16) : IsRequest (SCBS.transmitPacket (DISPacket.ofValues id).toStr.packetStr)
  | mwr (addr : UInt32) (v : Text) :
      IsRequest (SCBS.transmitPacket (MWRPacket.ofValues addr v.text).toStr.packetStr)
  | srd (id : UInt16) (addr : UInt32) :
      IsRequest (SCBS.transmitPacket (SRDPacket.ofValues id addr).toStr.packetStr)
  | swr (id : UInt16) (addr : UInt32) (v : Text) :
      IsRequest (SCBS.transmitPacket (SWRPacket.ofValues id addr v.text).toStr.packetStr)
  | mrd {addr : UInt32} (values : List (List UInt8)) : addr ≠ kRegAddrReadFirmwareVersion →
      IsRequest (SCBS.transmitPacket (MRDPacket.ofValues addr values 0).toStr.packetStr)

/-- The ADC reading is constant, and `Update` has read it. -/
def Site.Steady (site : Site F) : Prop :=
  ∃ adc, site.adcs = {adc} ∧ site.cell.outputCurrent = SCBS.currentOfCounts adc

/-- The text of `%.2f` is short. -/
def PrintsShort (x : F) : Prop := (CFloat.printF2 x).length ≤ 6

/-- **Pipelining**: there is one reply for each request, and sequential runs of the first
requests get the first replies; runs in which the requests are sent at any times get all
of them, and leave the ids and the voltages that a sequential run leaves. -/
structure Pipelines (sites : List (Site F)) (requests replies : List (List UInt8)) : Prop where
  length_eq : replies.length = requests.length
  oneLine : ∀ reply ∈ replies, OneLine reply
  exists_sequential : ∀ n, ∃ q, Sequential sites (requests.take n) q ∧ q.Quiet
  sequential : ∀ n ≤ requests.length, ∀ q, Sequential sites (requests.take n) q → q.Quiet →
    q.output = (replies.take n).flatten
  pipelined : Settles sites requests fun out snaps =>
    ∀ q, Sequential sites requests q → q.Quiet →
      out = q.output ∧ snaps = q.states.map Site.snapshot

section Requests

/-- A request is the line of a message that a chain of at most 20 cells can handle. -/
theorem IsRequest.exists_msg {line : List UInt8} (h : IsRequest line) {n : ℕ} (hn : n ≤ 20) :
    ∃ m : Msg, m.line = line ∧ m.Good (PrintsShort (F := F)) n := by
  cases h with
  | dis id => exact ⟨.dis id, (Msg.dis_line id).symm, trivial⟩
  | mwr addr v => exact ⟨.mwr addr v, (Msg.mwr_line addr v).symm, trivial⟩
  | srd id addr => exact ⟨.srd id addr, (Msg.srd_line id addr).symm, trivial⟩
  | swr id addr v => exact ⟨.swr id addr v, (Msg.swr_line id addr v).symm, trivial⟩
  | mrd values haddr =>
    have hcount : ([] : List Text).length + n ≤ kMaxNumValues := by
      rw [kMaxNumValues]
      simpa using hn
    exact ⟨.mrd _ [], (Msg.mrd_line _ values).symm, haddr, hcount, by simp, fun x hx => hx⟩

/-- So are requests together. -/
theorem exists_msgs {requests : List (List UInt8)} (h : ∀ line ∈ requests, IsRequest line) {n : ℕ}
    (hn : n ≤ 20) :
    ∃ ms : List Msg, ms.map Msg.line = requests ∧ ∀ m ∈ ms, m.Good (PrintsShort (F := F)) n := by
  induction requests with
  | nil => exact ⟨[], rfl, by simp⟩
  | cons line requests ih =>
    obtain ⟨m, hm, hgood⟩ := (h line (by simp)).exists_msg (F := F) hn
    obtain ⟨ms, hms, hgoods⟩ := ih fun l hl => h l (List.mem_cons_of_mem _ hl)
    exact ⟨m :: ms, by rw [List.map_cons, hm, hms], List.forall_mem_cons.2 ⟨hgood, hgoods⟩⟩

end Requests

/-! ## Chains of steady cells -/

section Steady

/-- A steady cell measures one current. -/
theorem Site.Steady.currents_eq {site : Site F} (h : site.Steady) :
    site.currents = {site.cell.outputCurrent} := by
  obtain ⟨adc, hadcs, hcur⟩ := h
  rw [Site.currents, hadcs, Set.image_singleton, ← hcur,
    Set.insert_eq_of_mem (Set.mem_singleton _)]

/-- A cell that measures one current is a function. -/
theorem Cell.Handles.unique {a : Cell F} (ha : ∃ c, a.currents = {c}) {m : Msg} {a₁ a₂ : Cell F}
    {m₁ m₂ : Msg} (h₁ : a.Handles m a₁ m₁) (h₂ : a.Handles m a₂ m₂) : a₁ = a₂ ∧ m₁ = m₂ := by
  obtain ⟨c, hc⟩ := ha
  obtain ⟨c₁, hc₁, hresp₁⟩ := h₁
  obtain ⟨c₂, hc₂, hresp₂⟩ := h₂
  rw [hc, Set.mem_singleton_iff] at hc₁ hc₂
  subst hc₁ hc₂
  exact hresp₁.unique hresp₂

/-- It goes on measuring that current. -/
theorem Cell.Handles.steady {a : Cell F} (ha : ∃ c, a.currents = {c}) {m : Msg} {a' : Cell F}
    {m' : Msg} (h : a.Handles m a' m') : ∃ c, a'.currents = {c} := by
  obtain ⟨current, -, hresp⟩ := h
  rw [hresp.currents_eq]
  exact ha

/-- **A chain of steady cells is a function of the messages sent to it.** -/
theorem chain_unique {sites : List (Site F)} (hsteady : ∀ site ∈ sites, site.Steady)
    {ms : List Msg} {as₁ as₂ : List (Cell F)} {outs₁ outs₂ : List Msg}
    (h₁ : Chain Cell.Handles (sites.map Site.model) ms as₁ outs₁)
    (h₂ : Chain Cell.Handles (sites.map Site.model) ms as₂ outs₂) : as₁ = as₂ ∧ outs₁ = outs₂ := by
  refine Chain.unique (fun a : Cell F => ∃ c, a.currents = {c}) ?_ ?_ ?_ h₁ h₂
  · exact fun a ha m a₁ m₁ a₂ m₂ => Cell.Handles.unique ha
  · exact fun a ha m a' m' => Cell.Handles.steady ha
  · intro a ha
    obtain ⟨site, hsite, rfl⟩ := List.mem_map.1 ha
    exact ⟨_, (hsteady site hsite).currents_eq⟩

end Steady

section Pipelined

variable {sites : List (Site F)}

/-- **Requests sent back to back are answered as if they were sent one after another.**
The chain has at most 20 cells, which are idle, measure constant currents and print
numbers in at most 6 bytes. -/
theorem pipelined (hn : sites.length ≤ 20) (hidle : ∀ site ∈ sites, site.Idle)
    (hsteady : ∀ site ∈ sites, site.Steady)
    (hprint : ∀ site ∈ sites, PrintsShort site.cell.outputVoltage ∧
      PrintsShort site.cell.outputCurrent)
    (hrail : ∀ v : F, PrintsShort (SCBS.railVoltage v)) {requests : List (List UInt8)}
    (hrequests : ∀ line ∈ requests, IsRequest line) :
    ∃ replies, Pipelines sites requests replies := by
  obtain ⟨ms, rfl, hms⟩ := exists_msgs (F := F) hrequests hn
  have hcur : ∀ site ∈ sites, ∀ c ∈ site.currents, PrintsShort c := by
    intro site hsite c hc
    rw [(hsteady site hsite).currents_eq, Set.mem_singleton_iff] at hc
    rw [hc]
    exact (hprint site hsite).2
  have hvolt := fun site hsite => (hprint site hsite).1
  -- every run of some of the requests computes the chain
  have hruns : ∀ n, Settles sites ((ms.take n).map Msg.line) fun out snaps =>
      ∃ as' outs, Chain Cell.Handles (sites.map Site.model) (ms.take n) as' outs ∧
        out = outs.flatMap Msg.line ∧ snaps = as'.map Cell.snapshot := fun n =>
    settles_of_chain hrail hidle hvolt hcur (fun m hm => hms m (List.mem_of_mem_take hm))
      fun as' outs hchain => ⟨as', outs, hchain, rfl, rfl⟩
  have hturns : ∀ n, ∃ q, Sequential sites ((ms.take n).map Msg.line) q ∧ q.Quiet := fun n =>
    exists_sequential hrail hidle hvolt hcur fun m hm => hms m (List.mem_of_mem_take hm)
  -- the chain of all of them gives the replies
  obtain ⟨as', outs, hchain⟩ : ∃ as' outs,
      Chain Cell.Handles (sites.map Site.model) ms as' outs := by
    obtain ⟨q, hturn, hq⟩ := hturns ms.length
    obtain ⟨as', outs, hchain, -⟩ := (hruns ms.length).result q hturn.run hq
    rw [List.take_length] at hchain
    exact ⟨as', outs, hchain⟩
  refine ⟨outs.map Msg.line, ⟨?_, ?_, ?_, ?_, ?_⟩⟩
  · rw [List.length_map, List.length_map, hchain.length_eq]
  · intro reply hreply
    obtain ⟨m, -, rfl⟩ := List.mem_map.1 hreply
    exact m.oneLine
  · intro n
    rw [← List.map_take]
    exact hturns n
  · -- the chain of the first requests is the beginning of the chain
    intro n hlen q hturn hq
    rw [← List.map_take] at hturn
    obtain ⟨as₁, outs₁, hchain₁, hout, -⟩ := (hruns n).result q hturn.run hq
    rw [← List.take_append_drop n ms] at hchain
    obtain ⟨as₂, outs₂, outs₃, rfl, hchain₂, -⟩ := hchain.split
    obtain ⟨-, rfl⟩ := chain_unique hsteady hchain₁ hchain₂
    have hcount : outs₁.length = n := by
      rw [hchain₁.length_eq, List.length_take]
      rw [List.length_map] at hlen
      omega
    rw [hout, ← List.map_take, List.take_left' hcount, List.flatMap_def]
  · -- both runs compute the chain
    have hrun := hruns ms.length
    rw [List.take_length] at hrun
    apply hrun.imp
    intro out snaps hresult q hturn hq
    obtain ⟨as₁, outs₁, hchain₁, rfl, rfl⟩ := hresult
    obtain ⟨as₂, outs₂, hchain₂, hout, hsnaps⟩ := hrun.result q hturn.run hq
    obtain ⟨rfl, rfl⟩ := chain_unique hsteady hchain₁ hchain₂
    exact ⟨hout.symm, hsnaps.symm⟩

end Pipelined

/-! ## Exact arithmetic -/

section Exact

/-- A voltage on the rails prints in at most 6 bytes, and so does one that is not a
number. -/
theorem printsShort_railVoltage (v : ExtRat) : PrintsShort (SCBS.railVoltage v) := by
  rcases SCBS.railVoltage_cases v with ⟨-, hnan⟩ | ⟨-, q, hq, h0, h⟩
  · rw [hnan]
    exact show (ascii "nan").length ≤ 6 by decide
  · rw [hq]
    exact ExtRat.length_printF2_le h0 (lt_of_le_of_lt h (by norm_num))

theorem Site.steady_init (id : UInt16) : (Site.init id).Steady := by
  refine ⟨0, rfl, ?_⟩
  show ExtRat.num 0 = ExtRat.div (ExtRat.mul (.num 0) (.num 200)) (.num 4096)
  decide +kernel

/-- Discovery, a write and two reads, sent to two cells. -/
theorem pipelined_sample :
    ∃ replies, Pipelines ([0, 0].map Site.init)
      [SCBS.transmitPacket (DISPacket.ofValues 6).toStr.packetStr,
        SCBS.transmitPacket (SWRPacket.ofValues 8 0x1000 text330.text).toStr.packetStr,
        SCBS.transmitPacket (SRDPacket.ofValues 8 0x1000).toStr.packetStr,
        SCBS.transmitPacket (MRDPacket.ofValues 0x2000 [] 0).toStr.packetStr] replies := by
  refine pipelined (by decide) Site.idle_init ?_ ?_ printsShort_railVoltage ?_
  · intro site hsite
    obtain ⟨id, -, rfl⟩ := List.mem_map.1 hsite
    exact Site.steady_init id
  · intro site hsite
    obtain ⟨id, -, rfl⟩ := List.mem_map.1 hsite
    have hzero : PrintsShort (ExtRat.num 0) := ExtRat.length_printF2_le le_rfl (by norm_num)
    exact ⟨hzero, hzero⟩
  · simp only [List.forall_mem_cons, List.not_mem_nil, false_imp_iff, implies_true, and_true]
    exact ⟨.dis 6, .swr 8 0x1000 text330, .srd 8 0x1000, .mrd [] (by decide)⟩

end Exact

end Scbs
