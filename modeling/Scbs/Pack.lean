import Scbs.CellMachine

/-!
# The pack

What a chain of cells is for, as its master sees it: one device with a register file per
cell, which serves one message at a time.  There are no bytes, buffers and links here, and
ids may be equal.

* `Registers.respond` — how one cell answers a message.
* `Pack.pass` — a message that goes from cell to cell.
* `Pack.serve` — **what the whole pack does**, with no cell answering another: it is
  renumbered, all of it is written, or the first cell with an id is read or written; a
  multi-read gets the values that fit.
* `Pack.pass_eq_serve` — the two are the same.
* `Pack.step`, `Pack.run` — a pack serving requests one after another.
-/

namespace Scbs

open CLib

/-! ## The values that fit -/

namespace MRDPacket

/-- The loop of `ToString` on the first part of some values. -/
theorem numAppended_eq_min (len : ℕ) (vs ws : List (List UInt8)) :
    numAppended len vs = min (numAppended len (vs ++ ws)) vs.length := by
  induction vs generalizing len with
  | nil => simp [numAppended]
  | cons v vs ih =>
    rw [List.cons_append, numAppended, numAppended, List.length_cons]
    by_cases hfull : 170 ≤ len
    · rw [if_pos hfull, if_pos hfull, Nat.zero_min]
    · rw [if_neg hfull, if_neg hfull, ih, Nat.add_min_add_right]

/-- What has been left out once stays out. -/
theorem take_numAppended_append (len : ℕ) (vs ws : List (List UInt8)) :
    (vs.take (numAppended len vs) ++ ws).take (numAppended len (vs.take (numAppended len vs) ++ ws))
      = (vs ++ ws).take (numAppended len (vs ++ ws)) := by
  induction vs generalizing len with
  | nil => rfl
  | cons v vs ih =>
    by_cases hfull : 170 ≤ len
    · have hnone : ∀ us : List (List UInt8), us.take (numAppended len us) = [] := by
        intro us
        cases us with
        | nil => rfl
        | cons u us => rw [numAppended, if_pos hfull, List.take_zero]
      rw [hnone, hnone]
    · simp only [numAppended, if_neg hfull, List.cons_append, List.take_succ_cons, ih]

end MRDPacket

/-- The values of a multi-read of `addr` that `ToString` finds room for. -/
def fitting (addr : UInt32) (vs : List Text) : List Text :=
  vs.take (MRDPacket.numAppended (printNat 16 addr.toNat).length (vs.map (·.text)))

section Fitting

variable (addr : UInt32) (vs ws : List Text)

theorem length_fitting_append_left :
    (fitting addr vs).length = min (fitting addr (vs ++ ws)).length vs.length := by
  have hmin := MRDPacket.numAppended_eq_min (printNat 16 addr.toNat).length (vs.map (·.text))
    (ws.map (·.text))
  have hall := MRDPacket.numAppended_le (printNat 16 addr.toNat).length ((vs ++ ws).map (·.text))
  rw [List.map_append, List.length_append, List.length_map, List.length_map] at hall
  rw [List.length_map] at hmin
  rw [fitting, fitting, List.length_take, List.length_take, List.length_append, List.map_append,
    hmin]
  omega

theorem fitting_fitting_append : fitting addr (fitting addr vs ++ ws) = fitting addr (vs ++ ws) := by
  have htake := MRDPacket.take_numAppended_append (printNat 16 addr.toNat).length
    (vs.map (·.text)) (ws.map (·.text))
  have hinj : Function.Injective (List.map Text.text) :=
    List.map_injective_iff.2 fun _ _ h => Text.ext h
  refine hinj ?_
  simpa only [fitting, List.map_take, List.map_append] using htake

theorem fitting_fitting : fitting addr (fitting addr vs) = fitting addr vs := by
  simpa using fitting_fitting_append addr vs []

end Fitting

/-! ## One cell -/

/-- The error code of a write. -/
def writeCode (regAddr : UInt32) : UInt16 :=
  if regAddr = kRegAddrSetOutputVoltage then kErrCodeNone else writeErr regAddr

section Pack

variable {F : Type} [CFloat F]

namespace Registers

/-- The text a register reads as. -/
def read (regs : Registers F) (addr : UInt32) : Option Text :=
  (SCBS.registerText regs.voltage regs.current addr).pmap Text.mk fun _ h =>
    (SCBS.onWire_registerText h).1

/-- What a write of the voltage makes of the registers. -/
def store (regs : Registers F) (v : Text) : Registers F := { regs with voltage := setVoltage v }

/-- A write to a register, which takes place at one address only. -/
def write (regs : Registers F) (addr : UInt32) (v : Text) : Registers F :=
  if addr = kRegAddrSetOutputVoltage then regs.store v else regs

/-- The response with an error code. -/
def error (regs : Registers F) (errCode : UInt16) : Msg := .srs regs.cellId (errText errCode)

/-- The response to a read. -/
def reading (regs : Registers F) (addr : UInt32) : Msg :=
  .srs regs.cellId ((regs.read addr).getD (errText kErrCodeAddrNotRecognized))

/-- **How a cell answers a message.** -/
def respond (regs : Registers F) : Msg → Registers F × Msg
  | .dis id => ({ regs with cellId := id + 1 }, .dis (id + 1))
  | .mwr addr v =>
    if addr = kRegAddrSetOutputVoltage then (regs.store v, .mwr addr v)
    else (regs, regs.error (writeErr addr))
  | .mrd addr vs =>
    if kMaxNumValues ≤ vs.length then (regs, regs.error kErrCodePacketLengthExceeded)
    else match regs.read addr with
      | none => (regs, regs.error kErrCodeAddrNotRecognized)
      | some own => (regs, .mrd addr (fitting addr (vs ++ [own])))
  | .srd id addr => (regs, if id = regs.cellId then regs.reading addr else .srd id addr)
  | .swr id addr v =>
    if id = regs.cellId then (regs.write addr v, regs.error (writeCode addr))
    else (regs, .swr id addr v)
  | .srs id v => (regs, .srs id v)

theorem map_read (regs : Registers F) (addr : UInt32) :
    (regs.read addr).map (·.text) = SCBS.registerText regs.voltage regs.current addr := by
  rw [read, Option.map_pmap]
  simp

theorem read_eq_some_iff {regs : Registers F} {addr : UInt32} {own : Text} :
    regs.read addr = some own ↔
      SCBS.registerText regs.voltage regs.current addr = some own.text := by
  rw [← map_read]
  cases regs.read addr with
  | none => simp
  | some t =>
    simp only [Option.some.injEq, Option.map_some]
    exact Text.ext_iff

theorem read_eq_none_iff {regs : Registers F} {addr : UInt32} :
    regs.read addr = none ↔ ¬ Readable addr := by
  rw [← SCBS.registerText_isSome_iff regs.voltage regs.current addr, ← map_read]
  cases regs.read addr with
  | none => simp
  | some t => simp

theorem exists_read (regs : Registers F) {addr : UInt32} (haddr : Readable addr) :
    ∃ own, regs.read addr = some own :=
  Option.ne_none_iff_exists'.1 fun h => read_eq_none_iff.1 h haddr

end Registers

/-! ## All cells -/

/-- The cells of a chain, in their order. -/
abbrev Pack (F : Type) := List (Registers F)

namespace Pack

/-- A message goes from cell to cell. -/
def pass : Pack F → Msg → Pack F × Msg
  | [], m => ([], m)
  | regs :: pack, m =>
    ((regs.respond m).1 :: (pass pack (regs.respond m).2).1, (pass pack (regs.respond m).2).2)

/-- The error of a cell, or `m` if there is no such cell. -/
def errorOr (cell : Option (Registers F)) (errCode : UInt16) (m : Msg) : Msg :=
  (cell.map (·.error errCode)).getD m

/-- The first cell with an id. -/
def target (pack : Pack F) (id : UInt16) : Option (Registers F) :=
  pack.find? (fun regs => decide (id = regs.cellId))

/-- A change of the first cell with an id. -/
def modifyTarget (id : UInt16) (f : Registers F → Registers F) : Pack F → Pack F :=
  fun pack => pack.modify (pack.findIdx (fun regs => decide (id = regs.cellId))) f

/-- The values of all cells. -/
def values (pack : Pack F) (addr : UInt32) : List Text := pack.filterMap (·.read addr)

/-- **What a pack does with a message.** -/
def serve (pack : Pack F) : Msg → Pack F × Msg
  | .dis id => (pack.mapIdx fun i regs => { regs with cellId := id + 1 + UInt16.ofNat i },
      .dis (id + UInt16.ofNat pack.length))
  | .mwr addr v =>
    if addr = kRegAddrSetOutputVoltage then (pack.map (·.store v), .mwr addr v)
    else (pack, errorOr pack.head? (writeErr addr) (.mwr addr v))
  | .mrd addr vs =>
    if Readable addr then
      let all := fitting addr (vs ++ pack.values addr)
      -- the cell that finds 20 values refuses to add its own
      let refuses := if kMaxNumValues ≤ max vs.length all.length then
        pack[kMaxNumValues - vs.length]? else none
      (pack, errorOr refuses kErrCodePacketLengthExceeded (.mrd addr all))
    else
      let errCode := if kMaxNumValues ≤ vs.length then kErrCodePacketLengthExceeded
        else kErrCodeAddrNotRecognized
      (pack, errorOr pack.head? errCode (.mrd addr vs))
  | .srd id addr => (pack, ((pack.target id).map (·.reading addr)).getD (.srd id addr))
  | .swr id addr v =>
    (pack.modifyTarget id (·.write addr v),
      errorOr (pack.target id) (writeCode addr) (.swr id addr v))
  | .srs id v => (pack, .srs id v)

variable {pack : Pack F} {regs : Registers F}

theorem pass_srs (pack : Pack F) (id : UInt16) (v : Text) :
    pass pack (.srs id v) = (pack, .srs id v) := by
  induction pack with
  | nil => rfl
  | cons regs pack ih => simp only [pass, Registers.respond, ih]

/-- A cell that answers with a response ends the matter. -/
theorem pass_of_response {m : Msg} {regs' : Registers F} {id : UInt16} {v : Text}
    (h : regs.respond m = (regs', .srs id v)) :
    pass (regs :: pack) m = (regs' :: pack, .srs id v) := by
  simp only [pass, h, pass_srs]

theorem pass_of_respond {m m' : Msg} {regs' : Registers F} (h : regs.respond m = (regs', m')) :
    pass (regs :: pack) m = (regs' :: (pass pack m').1, (pass pack m').2) := by
  simp only [pass, h]

/-- Cells are numbered one after another. -/
theorem pass_dis (pack : Pack F) (id : UInt16) : pass pack (.dis id) = serve pack (.dis id) := by
  induction pack generalizing id with
  | nil => simp [pass, serve]
  | cons regs pack ih =>
    have hone : id + 1 + UInt16.ofNat pack.length = id + UInt16.ofNat (pack.length + 1) := by
      rw [UInt16.ofNat_add, UInt16.add_assoc, UInt16.add_comm 1]
      rfl
    have hsucc : ∀ i, id + 1 + 1 + UInt16.ofNat i = id + 1 + UInt16.ofNat (i + 1) := by
      intro i
      rw [UInt16.ofNat_add, UInt16.add_assoc (id + 1), UInt16.add_comm 1]
      rfl
    simp only [pass, Registers.respond, ih, serve, List.mapIdx_cons, List.length_cons, hone, hsucc]
    simp

theorem pass_mwr (pack : Pack F) (addr : UInt32) (v : Text) :
    pass pack (.mwr addr v) = serve pack (.mwr addr v) := by
  by_cases haddr : addr = kRegAddrSetOutputVoltage
  · induction pack with
    | nil => simp [pass, serve, haddr]
    | cons regs pack ih =>
      simp only [serve, if_pos haddr] at ih ⊢
      have hrespond : regs.respond (.mwr addr v) = (regs.store v, .mwr addr v) := by
        rw [Registers.respond, if_pos haddr]
      rw [pass_of_respond hrespond, ih]
      rfl
  · simp only [serve, if_neg haddr]
    cases pack with
    | nil => rfl
    | cons regs pack =>
      exact pass_of_response (by rw [Registers.respond, if_neg haddr]; rfl)

/-- A multi-read of an address that is not recognized. -/
theorem pass_mrd_unreadable (pack : Pack F) {addr : UInt32} (haddr : ¬ Readable addr)
    (vs : List Text) : pass pack (.mrd addr vs) = serve pack (.mrd addr vs) := by
  simp only [serve, if_neg haddr]
  cases pack with
  | nil => rfl
  | cons regs pack =>
    have hread : regs.read addr = none := Registers.read_eq_none_iff.2 haddr
    by_cases hfull : kMaxNumValues ≤ vs.length
    · rw [if_pos hfull]
      exact pass_of_response (by rw [Registers.respond, if_pos hfull]; rfl)
    · rw [if_neg hfull]
      exact pass_of_response (by rw [Registers.respond, if_neg hfull, hread]; rfl)

theorem values_cons {addr : UInt32} {own : Text} (h : regs.read addr = some own) :
    values (regs :: pack) addr = own :: pack.values addr := by
  simp only [values, List.filterMap_cons, h]

/-- A multi-read that is full when it arrives. -/
theorem pass_mrd_full {addr : UInt32} (haddr : Readable addr) {vs : List Text}
    (hfull : kMaxNumValues ≤ vs.length) :
    pass (regs :: pack) (.mrd addr vs) = serve (regs :: pack) (.mrd addr vs) := by
  simp only [serve, if_pos haddr, if_pos (le_max_of_le_left hfull), Nat.sub_eq_zero_of_le hfull]
  exact pass_of_response (by rw [Registers.respond, if_pos hfull]; rfl)

/-- **A cell takes its place in a multi-read**: what is left for the cells behind it is the
same multi-read with its value. -/
theorem serve_mrd_cons {addr : UInt32} (haddr : Readable addr) {vs : List Text}
    (hlt : vs.length < kMaxNumValues) {own : Text} (hown : regs.read addr = some own) :
    serve (regs :: pack) (.mrd addr vs) =
      (regs :: pack, (serve pack (.mrd addr (fitting addr (vs ++ [own])))).2) := by
  have hall : fitting addr (fitting addr (vs ++ [own]) ++ pack.values addr) =
      fitting addr (vs ++ own :: pack.values addr) := by
    rw [fitting_fitting_append, List.append_assoc, List.singleton_append]
  have hlen := length_fitting_append_left addr (vs ++ [own]) (pack.values addr)
  rw [List.append_assoc, List.singleton_append, List.length_append, List.length_singleton] at hlen
  simp only [serve, if_pos haddr, values_cons hown, hall, Prod.mk.injEq, true_and]
  -- a full packet has left nothing out, so the places are those of the chain
  by_cases hfull : kMaxNumValues ≤ (fitting addr (vs ++ own :: pack.values addr)).length
  · obtain ⟨i, hi⟩ : ∃ i, kMaxNumValues - vs.length = i + 1 :=
      ⟨kMaxNumValues - vs.length - 1, by omega⟩
    have hnext : kMaxNumValues - (fitting addr (vs ++ [own])).length = i := by omega
    rw [if_pos (le_max_of_le_right hfull), if_pos (le_max_of_le_right hfull), hnext, hi,
      List.getElem?_cons_succ]
  · rw [if_neg (by rw [le_max_iff]; omega), if_neg (by rw [le_max_iff]; omega)]

/-- If the cells behind one give a multi-read what the pack does, so do all of them. -/
theorem pass_mrd_cons {addr : UInt32} (haddr : Readable addr)
    (ih : ∀ vs, fitting addr vs = vs → pass pack (.mrd addr vs) = serve pack (.mrd addr vs))
    (vs : List Text) : pass (regs :: pack) (.mrd addr vs) = serve (regs :: pack) (.mrd addr vs) := by
  obtain ⟨own, hown⟩ := regs.exists_read haddr
  rcases Nat.lt_or_ge vs.length kMaxNumValues with hlt | hfull
  · have hrespond : regs.respond (.mrd addr vs) =
        (regs, .mrd addr (fitting addr (vs ++ [own]))) := by
      rw [Registers.respond, if_neg (Nat.not_le.2 hlt), hown]
    rw [pass_of_respond hrespond, ih _ (fitting_fitting addr _), serve_mrd_cons haddr hlt hown]
    simp only [serve, if_pos haddr]
  · exact pass_mrd_full haddr hfull

/-- A multi-read whose values fit, from cell to cell. -/
theorem pass_mrd (pack : Pack F) {addr : UInt32} (haddr : Readable addr) (vs : List Text)
    (hvs : fitting addr vs = vs) : pass pack (.mrd addr vs) = serve pack (.mrd addr vs) := by
  induction pack generalizing vs with
  | nil => simp [pass, serve, haddr, values, hvs, errorOr]
  | cons regs pack ih => exact pass_mrd_cons haddr ih vs

omit [CFloat F] in
theorem target_cons (id : UInt16) : target (regs :: pack) id =
    if id = regs.cellId then some regs else pack.target id := by
  rw [target, List.find?_cons]
  by_cases hid : id = regs.cellId
  · simp [hid]
  · simp [hid, target]

omit [CFloat F] in
theorem modifyTarget_cons (id : UInt16) (f : Registers F → Registers F) :
    modifyTarget id f (regs :: pack) =
      if id = regs.cellId then f regs :: pack else regs :: pack.modifyTarget id f := by
  rw [modifyTarget, List.findIdx_cons]
  by_cases hid : id = regs.cellId
  · simp [hid]
  · simp [hid, modifyTarget]

theorem pass_srd (pack : Pack F) (id : UInt16) (addr : UInt32) :
    pass pack (.srd id addr) = serve pack (.srd id addr) := by
  induction pack with
  | nil => rfl
  | cons regs pack ih =>
    simp only [serve, target_cons] at ih ⊢
    by_cases hid : id = regs.cellId
    · rw [if_pos hid]
      exact pass_of_response (by rw [Registers.respond, if_pos hid]; rfl)
    · have hrespond : regs.respond (.srd id addr) = (regs, .srd id addr) := by
        rw [Registers.respond, if_neg hid]
      rw [if_neg hid, pass_of_respond hrespond, ih]

theorem pass_swr (pack : Pack F) (id : UInt16) (addr : UInt32) (v : Text) :
    pass pack (.swr id addr v) = serve pack (.swr id addr v) := by
  induction pack with
  | nil => rfl
  | cons regs pack ih =>
    simp only [serve, target_cons, modifyTarget_cons] at ih ⊢
    by_cases hid : id = regs.cellId
    · rw [if_pos hid, if_pos hid]
      exact pass_of_response (by rw [Registers.respond, if_pos hid]; rfl)
    · have hrespond : regs.respond (.swr id addr v) = (regs, .swr id addr v) := by
        rw [Registers.respond, if_neg hid]
      rw [if_neg hid, if_neg hid, pass_of_respond hrespond, ih]

/-- **What cells do one after another is what the pack does.** -/
theorem pass_eq_serve (hne : pack ≠ []) (m : Msg) : pass pack m = serve pack m := by
  obtain ⟨regs, pack, rfl⟩ := List.exists_cons_of_ne_nil hne
  cases m with
  | dis id => exact pass_dis _ id
  | mwr addr v => exact pass_mwr _ addr v
  | srd id addr => exact pass_srd _ id addr
  | swr id addr v => exact pass_swr _ id addr v
  | srs id v => exact pass_srs _ id v
  | mrd addr vs =>
    by_cases haddr : Readable addr
    · exact pass_mrd_cons haddr (pass_mrd pack haddr) vs
    · exact pass_mrd_unreadable _ haddr vs

/-! ## Requests -/

end Pack

/-- What a line asks of a pack: a message, something a parser finds malformed, or nothing. -/
inductive Request where
  | noise
  | malformed
  | msg (m : Msg)

namespace Pack

/-- What a pack does with a request, and the response, if there is one. -/
def step (pack : Pack F) : Request → Pack F × Option Msg
  | .noise => (pack, none)
  | .malformed => (pack, pack.head?.map (·.error kErrCodeReceivedInvalidPacket))
  | .msg m => ((pack.serve m).1, some (pack.serve m).2)

/-- A pack serves requests one after another. -/
def run : Pack F → List Request → Pack F × List Msg
  | pack, [] => (pack, [])
  | pack, r :: rs =>
    ((run (pack.step r).1 rs).1, (pack.step r).2.toList ++ (run (pack.step r).1 rs).2)

theorem length_step (pack : Pack F) (r : Request) : (pack.step r).1.length = pack.length := by
  cases r with
  | noise => rfl
  | malformed => rfl
  | msg m =>
    rw [step]
    cases m with
    | dis id => simp [serve]
    | mwr addr v => rw [serve]; split <;> simp
    | mrd addr vs => rw [serve]; split <;> rfl
    | srd id addr => rfl
    | swr id addr v => simp [serve, modifyTarget]
    | srs id v => rfl

theorem length_run (pack : Pack F) (rs : List Request) : (pack.run rs).1.length = pack.length := by
  induction rs generalizing pack with
  | nil => rfl
  | cons r rs ih => rw [Pack.run, ih, length_step]

theorem run_append (pack : Pack F) (rs rs' : List Request) :
    pack.run (rs ++ rs') =
      (((pack.run rs).1.run rs').1, (pack.run rs).2 ++ ((pack.run rs).1.run rs').2) := by
  induction rs generalizing pack with
  | nil => rfl
  | cons r rs ih => simp only [List.cons_append, run, ih, List.append_assoc]

/-- The last of some requests. -/
theorem run_concat (pack : Pack F) (rs : List Request) (r : Request) :
    pack.run (rs ++ [r]) =
      (((pack.run rs).1.step r).1, (pack.run rs).2 ++ ((pack.run rs).1.step r).2.toList) := by
  rw [run_append]
  simp [run]

end Pack

end Pack

end Scbs
