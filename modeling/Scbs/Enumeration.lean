import Scbs.Comms.Reencoding
import Scbs.Runs

/-!
# Before the first discovery

Every member of `SCBS` has an initialiser or is set by `Init`, apart from `cell_id_`: until a
`DIS` packet numbers the cell, its id is whatever the memory held.

* `SCBS.withId` — the same cell with another id; `update_withId` is what one call of `Update`
  makes of two cells that differ in the id only.
* `NeedsNoId` — the packets that a cell handles without looking at its id.
* `replies_independent` — **two cells that held different ids send the same bytes and set the
  same voltage** in every run whose packets before the first discovery are of that kind.
-/

namespace Scbs

open CLib

/-! ## Packets and the id -/

/-- A packet that is handled in the same way whether the id is `a` or `b`: it asks for no
reply of the cell's own, or it numbers the cell. -/
def NeedsNoId (a b : UInt16) : Packet → Prop
  | .rejected => True
  | .dis p => p.isValid = true
  | .mwr p => p.isValid = true ∧ p.regAddr = kRegAddrSetOutputVoltage
  | .mrd p => p.isValid = true ∧ p.numValues < kMaxNumValues ∧ Readable p.regAddr
  | .srd p => p.isValid = true ∧ p.cellId ≠ a ∧ p.cellId ≠ b
  | .swr p => p.isValid = true ∧ p.cellId ≠ a ∧ p.cellId ≠ b
  | .srs p => p.isValid = true

instance (a b : UInt16) : (packet : Packet) → Decidable (NeedsNoId a b packet)
  | .rejected => inferInstanceAs (Decidable True)
  | .dis _ | .srs _ => inferInstanceAs (Decidable (_ = _))
  | .mwr _ => inferInstanceAs (Decidable (_ ∧ _))
  | .mrd _ | .srd _ | .swr _ => inferInstanceAs (Decidable (_ ∧ _ ∧ _))

/-- The packets of a history before the first discovery. -/
def beforeDiscovery (hist : List Handled) : List Handled :=
  hist.takeWhile fun h => h.discovered.isNone

theorem beforeDiscovery_append {hist later : List Handled}
    (h : ∀ x ∈ hist, x.discovered = none) :
    beforeDiscovery (hist ++ later) = hist ++ beforeDiscovery later :=
  List.takeWhile_append_of_pos fun x hx => by rw [h x hx]; rfl

theorem mem_beforeDiscovery_append {hist : List Handled} (later : List Handled) {x : Handled}
    (h : x ∈ beforeDiscovery hist) : x ∈ beforeDiscovery (hist ++ later) := by
  unfold beforeDiscovery at h ⊢
  rw [List.takeWhile_append]
  split
  · exact List.mem_append_left _ ((List.takeWhile_prefix _).subset h)
  · exact h

section Enumeration

variable {F : Type} [CFloat F]

namespace SCBS

/-- The cell with another id. -/
def withId (cell : SCBS F) (id : UInt16) : SCBS F := { cell with cellId := id }

section Handlers

variable (cell : SCBS F) (id : UInt16) (time addr : UInt32)

/-- `WriteRegister` does not look at the id. -/
theorem writeRegister_withId (v : List UInt8) :
    (cell.withId id).writeRegister time addr v =
      ((cell.writeRegister time addr v).1.withId id, (cell.writeRegister time addr v).2) := by
  unfold writeRegister
  split
  · rfl
  · split
    · rfl
    · rfl

/-- Nor does `ReadRegister`. -/
theorem readRegister_withId :
    (cell.withId id).readRegister time addr =
      ((cell.readRegister time addr).1.withId id, (cell.readRegister time addr).2) := by
  have htext : registerText (cell.withId id).outputVoltage (cell.withId id).outputCurrent addr =
      registerText cell.outputVoltage cell.outputCurrent addr := rfl
  unfold readRegister
  rw [htext]
  cases registerText cell.outputVoltage cell.outputCurrent addr with
  | none => rfl
  | some text => rfl

/-- Nor does the last part of `Update`. -/
theorem refresh_withId (env : Env) :
    (cell.withId id).refresh env = (cell.refresh env).withId id := by
  rw [refresh_eq, refresh_eq]
  rfl

end Handlers

/-- **A packet that needs no id** is handled alike, and the two cells still differ in nothing
else. -/
theorem handle_withId {cell : SCBS F} {b : UInt16} {packet : Packet} (env : Env)
    (hneeds : NeedsNoId cell.cellId b packet)
    (hnone : Handled.discovered ⟨cell.cellId, packet⟩ = none) :
    (cell.withId b).handle env packet =
      ((cell.handle env packet).1.withId b, (cell.handle env packet).2) := by
  cases packet with
  | rejected => rfl
  | dis p =>
    have hv : p.isValid = true := hneeds
    simp [Handled.discovered, hv] at hnone
  | mwr p =>
    obtain ⟨hv, haddr⟩ := hneeds
    have hok := (cell.writeRegister_cases env.timeAtRegister p.regAddr p.value).resolve_right
      fun h => h.1 haddr
    simp only [handle, mwrPacketHandler, if_pos hv, writeRegister_withId, hok.2.1, ne_eq,
      not_true_eq_false, if_false]
  | mrd p =>
    obtain ⟨hv, hroom, hread⟩ := hneeds
    rcases cell.readRegister_cases env.timeAtRegister p.regAddr with ⟨own, -, hok⟩ | ⟨hno, -⟩
    · simp only [handle, mrdPacketHandler, if_pos hv, if_neg (not_le.2 hroom),
        readRegister_withId, hok, ne_eq, not_true_eq_false, if_false]
    · obtain ⟨text, htext⟩ :=
        (registerText_isSome_iff cell.outputVoltage cell.outputCurrent _).2 hread
      rw [hno] at htext
      exact absurd htext (by simp)
  | srd p =>
    obtain ⟨hv, ha, hb⟩ := hneeds
    have hb' : p.cellId ≠ (cell.withId b).cellId := hb
    simp only [handle, srdPacketHandler, if_pos hv, if_neg ha, if_neg hb']
  | swr p =>
    obtain ⟨hv, ha, hb⟩ := hneeds
    have hb' : p.cellId ≠ (cell.withId b).cellId := hb
    simp only [handle, swrPacketHandler, if_pos hv, if_neg ha, if_neg hb']
  | srs p =>
    have hv : p.isValid = true := hneeds
    simp only [handle, srsPacketHandler, if_pos hv]

/-- **A discovery** makes the two cells the same. -/
theorem handle_withId_of_discovered {cell : SCBS F} (b : UInt16) {packet : Packet} (env : Env)
    (hsome : Handled.discovered ⟨cell.cellId, packet⟩ ≠ none) :
    (cell.withId b).handle env packet = cell.handle env packet := by
  cases packet with
  | dis p =>
    have hv : p.isValid = true := by
      by_contra hv
      exact hsome (if_neg hv)
    simp only [handle, disPacketHandler, if_pos hv, withId]
  | rejected => exact absurd rfl hsome
  | mwr p => exact absurd rfl hsome
  | mrd p => exact absurd rfl hsome
  | srd p => exact absurd rfl hsome
  | swr p => exact absurd rfl hsome
  | srs p => exact absurd rfl hsome

/-- **One call of `Update`** of the two cells. -/
theorem update_withId {cell : SCBS F} {b : UInt16} {call : Call} {r : Updated F}
    (h : cell.update call.env call.readable = .ok r)
    (hneeds : ∀ x ∈ beforeDiscovery (cell.handledIn call), NeedsNoId cell.cellId b x.packet) :
    (r.cell.cellId = cell.cellId ∧ (∀ x ∈ cell.handledIn call, x.discovered = none) ∧
      (cell.withId b).update call.env call.readable = .ok { r with cell := r.cell.withId b }) ∨
    ((∃ x ∈ cell.handledIn call, x.discovered ≠ none) ∧
      (cell.withId b).update call.env call.readable = .ok r) := by
  rcases update_handled h with
    ⟨rx, unread, hpoll, hnone, rfl⟩ | ⟨rx, unread, line, packet, hpoll, hparse, hone, rfl⟩
  · refine Or.inl ⟨?_, by simp [hnone], ?_⟩
    · exact (refresh_spec call.env { cell with toUartRx := rx }).1
    · have hpoll' : (cell.withId b).toUartRx.poll call.readable = (rx, unread, none) := hpoll
      rw [update_poll, hpoll', ← refresh_withId]
      rfl
  · have hpoll' : (cell.withId b).toUartRx.poll call.readable = (rx, unread, some line) := hpoll
    have hrec : (cell.withId b).received call.env call.readable =
        (cell.received call.env call.readable).withId b := rfl
    have hid : (cell.received call.env call.readable).cellId = cell.cellId := rfl
    rw [hone] at hneeds ⊢
    rw [update_poll, hpoll']
    simp only [dispatch_eq, hparse, hrec, Except.map]
    generalize cell.received call.env call.readable = c at hid
    rw [← hid] at hneeds ⊢
    by_cases hdisc : Handled.discovered ⟨c.cellId, packet⟩ = none
    · left
      have hhandle := handle_withId call.env
        (hneeds ⟨c.cellId, packet⟩ (by simp [beforeDiscovery, hdisc])) hdisc
      have hafter := (c.handle_spec call.env packet).cellId
      rw [hdisc] at hafter
      refine ⟨(refresh_spec call.env _).1.trans hafter, by simpa using hdisc, ?_⟩
      rw [hhandle, ← refresh_withId]
      rfl
    · right
      refine ⟨⟨_, List.mem_singleton.2 rfl, hdisc⟩, ?_⟩
      rw [handle_withId_of_discovered b call.env hdisc]

/-! ## Runs -/

/-- **Runs of two cells that differ in the id** transmit the same, and go on differing in the
id only, or become the same. -/
theorem run_withId {cell cell' : SCBS F} {b : UInt16} {calls : List Call} {hist : List Handled}
    (h : cell.run calls = .ok (cell', hist))
    (hneeds : ∀ x ∈ beforeDiscovery hist, NeedsNoId cell.cellId b x.packet) :
    ∃ cell'' tx, cell.transmits calls = .ok (cell', tx) ∧
      (cell.withId b).transmits calls = .ok (cell'', tx) ∧
      (cell'' = cell'.withId b ∨ cell'' = cell') := by
  induction calls generalizing cell hist with
  | nil =>
    obtain ⟨rfl, -⟩ := Prod.mk.inj (Except.ok.inj h)
    exact ⟨cell.withId b, [], rfl, rfl, Or.inl rfl⟩
  | cons call calls ih =>
    obtain ⟨r, later, hupd, hrun, rfl⟩ := run_cons h
    have hfirst : ∀ x ∈ beforeDiscovery (cell.handledIn call),
        NeedsNoId cell.cellId b x.packet :=
      fun x hx => hneeds x (mem_beforeDiscovery_append later hx)
    rcases update_withId hupd hfirst with ⟨hid, hnone, hupd'⟩ | ⟨-, hupd'⟩
    · rw [beforeDiscovery_append hnone, ← hid] at hneeds
      obtain ⟨cell'', tx, htx, htx', hcell⟩ := ih hrun
        fun x hx => hneeds x (List.mem_append_right _ hx)
      exact ⟨cell'', r.tx :: tx, transmits_of_update hupd htx,
        transmits_of_update (r := { r with cell := r.cell.withId b }) hupd' htx', hcell⟩
    · -- from here on it is one and the same cell
      obtain ⟨tx, htx⟩ := exists_transmits hrun
      exact ⟨cell', r.tx :: tx, transmits_of_update hupd htx, transmits_of_update hupd' htx,
        Or.inr rfl⟩

end SCBS

/-- Two cells after `Init` whose `cell_id_` held `a` and `b` answer alike: each call of
`Update` transmits the same bytes, and they reach the same voltage. -/
def SameReplies (F : Type) [CFloat F] (a b : UInt16) (calls : List Call) : Prop :=
  ∃ (cell cell' : SCBS F) (tx : List (List UInt8)),
    (SCBS.init a).transmits calls = .ok (cell, tx) ∧
      (SCBS.init b).transmits calls = .ok (cell', tx) ∧
      cell'.outputVoltage = cell.outputVoltage

/-- **Replies that do not depend on the memory.**  They do not in every run whose packets
before the first discovery need no id. -/
theorem replies_independent (a b : UInt16) (calls : List Call) (cell : SCBS F)
    (hist : List Handled) (h : (SCBS.init a).run calls = .ok (cell, hist))
    (hneeds : ∀ x ∈ beforeDiscovery hist, NeedsNoId a b x.packet) : SameReplies F a b calls := by
  obtain ⟨cell', tx, htx, htx', hcell⟩ := SCBS.run_withId h hneeds
  refine ⟨cell, cell', tx, htx, htx', ?_⟩
  rcases hcell with rfl | rfl
  · rfl
  · rfl

end Enumeration

/-- A write to all cells, a write to cell 9, a discovery, and a read of the cell that it
numbered. -/
def enumerationCalls : List Call :=
  [lineCall "$BSMWR,1000,3.3*76", lineCall "$BSSWR,9,1000,1*62", lineCall "$BSDIS,6*55",
    lineCall "$BSSRD,7,1000*62"]

theorem replies_independent_sample : SameReplies ExtRat 0 500 enumerationCalls := by
  have heval : ((SCBS.init 0 : SCBS ExtRat).run enumerationCalls).toOption.map (fun r =>
      decide (r.2.length = 4 ∧ ∀ x ∈ beforeDiscovery r.2, NeedsNoId 0 500 x.packet)) =
        some true := by decide +kernel
  obtain ⟨cell, hist, hrun, hneeds⟩ := exists_run_of_map _ heval
  exact replies_independent 0 500 enumerationCalls cell hist hrun (of_decide_eq_true hneeds).2

/-- A read of cell 5. -/
def readLine : List UInt8 := ascii "$BSSRD,5,1000*60" ++ [13, 10]

theorem headerDefined_readLine : HeaderDefined readLine := by
  intro stack
  have hframe : readLine = frame .srd (srdContents 5 0x1000) ++ [13, 10] := by decide +kernel
  rw [hframe]
  exact ⟨_, BSPacket.fromString_of_accepts (SRDPacket.accepts_frame stack 5 0x1000 tail_crlf) {}⟩

/-- **A cell that was not numbered** answers a read or forwards it, as its memory has it. -/
theorem not_sameReplies :
    HeaderDefined readLine ∧
      ((SCBS.init 5 : SCBS ExtRat).transmits [⟨sampleEnv, readLine⟩]).toOption.map Prod.snd =
        some [ascii "$BSSRS,5,0.00*68" ++ crlf] ∧
      ((SCBS.init 6 : SCBS ExtRat).transmits [⟨sampleEnv, readLine⟩]).toOption.map Prod.snd =
        some [ascii "$BSSRD,5,1000*60" ++ crlf] ∧
      ¬ SameReplies ExtRat 5 6 [⟨sampleEnv, readLine⟩] := by
  have hfive : ((SCBS.init 5 : SCBS ExtRat).transmits [⟨sampleEnv, readLine⟩]).toOption.map
      Prod.snd = some [ascii "$BSSRS,5,0.00*68" ++ crlf] := by decide +kernel
  have hsix : ((SCBS.init 6 : SCBS ExtRat).transmits [⟨sampleEnv, readLine⟩]).toOption.map
      Prod.snd = some [ascii "$BSSRD,5,1000*60" ++ crlf] := by decide +kernel
  refine ⟨headerDefined_readLine, hfive, hsix, ?_⟩
  rintro ⟨cell, cell', tx, htx, htx', -⟩
  rw [htx] at hfive
  rw [htx'] at hsix
  have hsame := hfive.symm.trans hsix
  exact absurd (Option.some.inj hsame) (by decide +kernel)

end Scbs
