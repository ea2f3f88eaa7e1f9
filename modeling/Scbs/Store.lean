import Scbs.CLib.Fixed
import Scbs.Memory
import Scbs.PackChain

/-!
# A chain is a memory

After a discovery the voltages of a chain are a memory: the place of a cell is its distance
from the first one.

* `Pack.Numbered` — the ids after a discovery; `Pack.getElem?_step` — what one request does to
  one cell, `Pack.getElem?_run` — what all of them do.
* `chain_remembers` — **every cell of a chain holds what was last written to it**, by a write
  to all cells or to itself.
* `chain_reads_back` — a read is within 0.005 of the number that was last written.
* `chain_restores` — **what was read before can be written back**: then all cells read as they
  did, whatever has happened in between.
-/

namespace Scbs

open CLib Link

/-! ## Requests as writes -/

/-- The request numbers the cells. -/
def Request.IsDis : Request → Prop
  | .msg (.dis _) => True
  | _ => False

/-- What a request writes to the voltages of cells that are numbered behind `s`. -/
def writeOf (s : UInt16) : Request → Option (Memory.Write ℕ Text)
  | .msg (.mwr addr v) => if addr = kRegAddrSetOutputVoltage then some (.all v) else none
  | .msg (.swr id addr v) =>
    if addr = kRegAddrSetOutputVoltage then some (.one (id - (s + 1)).toNat v) else none
  | _ => none

def writesOf (s : UInt16) (rs : List Request) : List (Memory.Write ℕ Text) :=
  rs.filterMap (writeOf s)

/-- The id of a cell is its place. -/
theorem id_eq_iff {s id : UInt16} {i : ℕ} (hi : i < 65536) :
    id = s + 1 + UInt16.ofNat i ↔ (id - (s + 1)).toNat = i := by
  constructor
  · rintro rfl
    rw [UInt16.add_comm (s + 1), UInt16.add_sub_cancel]
    exact UInt16.toNat_ofNat_of_lt hi
  · rintro rfl
    rw [UInt16.ofNat_toNat, UInt16.add_comm, UInt16.sub_add_cancel]

section Packs

variable {F : Type} [CFloat F]

/-- A cell in place `i` after some writes. -/
def Registers.after (regs : Registers F) (i : ℕ) (ws : List (Memory.Write ℕ Text)) :
    Registers F :=
  { regs with voltage := (Memory.last i ws).elim regs.voltage setVoltage }

theorem Registers.after_append (regs : Registers F) (i : ℕ) (ws ws' : List (Memory.Write ℕ Text)) :
    (regs.after i ws).after i ws' = regs.after i (ws ++ ws') := by
  rw [after, after, after, Memory.last_append]
  cases Memory.last i ws' with
  | none => rfl
  | some v => rfl

namespace Pack

variable {pack : Pack F} {s : UInt16} {i : ℕ} {regs : Registers F}

/-- The cells are numbered behind `s`, and no number comes twice. -/
structure Numbered (s : UInt16) (pack : Pack F) : Prop where
  length_le : pack.length ≤ 65535
  ids : ∀ i regs, pack[i]? = some regs → regs.cellId = s + 1 + UInt16.ofNat i

omit [CFloat F] in
theorem Numbered.id_eq_iff (h : pack.Numbered s) (hi : pack[i]? = some regs) {id : UInt16} :
    id = regs.cellId ↔ (id - (s + 1)).toNat = i := by
  have hlt := (List.getElem?_eq_some_iff.1 hi).1
  have hle := h.length_le
  rw [h.ids i regs hi]
  exact Scbs.id_eq_iff (by omega)

/-- A discovery numbers the cells. -/
theorem numbered_dis (hlen : pack.length ≤ 65535) : (pack.serve (.dis s)).1.Numbered s := by
  refine ⟨by rw [serve, List.length_mapIdx]; exact hlen, ?_⟩
  intro i regs hi
  rw [serve, List.getElem?_mapIdx] at hi
  obtain ⟨_, -, rfl⟩ := Option.map_eq_some_iff.1 hi
  rfl

omit [CFloat F] in
/-- The first cell with an id is the one in its place. -/
theorem Numbered.findIdx_eq_iff (h : pack.Numbered s) (hi : pack[i]? = some regs) {id : UInt16} :
    pack.findIdx (fun regs => decide (id = regs.cellId)) = i ↔ (id - (s + 1)).toNat = i := by
  obtain ⟨hlt, rfl⟩ := List.getElem?_eq_some_iff.1 hi
  rw [List.findIdx_eq hlt, decide_eq_true_eq, h.id_eq_iff hi]
  refine ⟨fun hall => hall.1, fun hall => ⟨hall, ?_⟩⟩
  intro j hj
  rw [decide_eq_false_iff_not, h.id_eq_iff (List.getElem?_eq_getElem (hj.trans hlt))]
  omega

omit [CFloat F] in
theorem Numbered.getElem?_modifyTarget (h : pack.Numbered s) (hi : pack[i]? = some regs)
    (id : UInt16) (f : Registers F → Registers F) :
    (pack.modifyTarget id f)[i]? =
      some (if (id - (s + 1)).toNat = i then f regs else regs) := by
  rw [modifyTarget, List.getElem?_modify, hi]
  by_cases hid : (id - (s + 1)).toNat = i
  · rw [if_pos hid, (h.findIdx_eq_iff hi).2 hid]
    simp
  · rw [if_neg hid]
    simp [mt (h.findIdx_eq_iff hi).1 hid]

omit [CFloat F] in
theorem Numbered.target_eq (h : pack.Numbered s) (hi : pack[i]? = some regs) :
    pack.target regs.cellId = some regs := by
  obtain ⟨hlt, heq⟩ := List.getElem?_eq_some_iff.1 hi
  rw [target, List.find?_eq_some_iff_getElem]
  refine ⟨decide_eq_true rfl, i, hlt, heq, ?_⟩
  intro j hj
  have hplace := (h.id_eq_iff hi).1 rfl
  have hother : regs.cellId ≠ pack[j].cellId := by
    intro hid
    have hj' := (h.id_eq_iff (List.getElem?_eq_getElem (hj.trans hlt))).1 hid
    omega
  simp [hother]

/-! ## What requests do to one cell -/

/-- **What a request does to a cell**: it stores what the request writes in its place. -/
theorem Numbered.getElem?_step (h : pack.Numbered s) {r : Request} (hdis : ¬ r.IsDis)
    (hi : pack[i]? = some regs) :
    (pack.step r).1[i]? =
      some ((writesOf s [r]).foldl (Memory.Write.change Registers.store i) regs) := by
  cases r with
  | noise => exact hi
  | malformed => exact hi
  | msg m =>
    rw [step, writesOf]
    cases m with
    | dis id => exact absurd trivial hdis
    | mwr addr v =>
      rw [serve]
      by_cases haddr : addr = kRegAddrSetOutputVoltage
      · rw [if_pos haddr, List.getElem?_map, hi]
        simp [writeOf, haddr, Memory.Write.change, Memory.Write.hits]
      · rw [if_neg haddr, hi]
        simp [writeOf, haddr]
    | mrd addr vs =>
      rw [serve]
      split
      · exact hi
      · exact hi
    | srd id addr => exact hi
    | swr id addr v =>
      simp only [serve, h.getElem?_modifyTarget hi]
      by_cases haddr : addr = kRegAddrSetOutputVoltage
      · by_cases hid : (id - (s + 1)).toNat = i
        · simp [writeOf, haddr, hid, Memory.Write.change, Memory.Write.hits, Registers.write]
        · simp [writeOf, haddr, hid, Memory.Write.change, Memory.Write.hits]
      · simp [writeOf, haddr, Registers.write]
    | srs id v => exact hi

theorem writesOf_cons (s : UInt16) (r : Request) (rs : List Request) :
    writesOf s (r :: rs) = writesOf s [r] ++ writesOf s rs := by
  rw [← List.singleton_append]
  exact List.filterMap_append

theorem foldl_change_eq (ws : List (Memory.Write ℕ Text)) (regs : Registers F) :
    ws.foldl (Memory.Write.change Registers.store i) regs = regs.after i ws := by
  have hstore : ∀ (regs : Registers F) v w, (regs.store v).store w = regs.store w :=
    fun _ _ _ => rfl
  rw [Memory.foldl_change hstore, Registers.after]
  cases Memory.last i ws with
  | none => rfl
  | some v => rfl

theorem Numbered.step (h : pack.Numbered s) {r : Request} (hdis : ¬ r.IsDis) :
    (pack.step r).1.Numbered s := by
  refine ⟨(pack.length_step r).trans_le h.length_le, ?_⟩
  intro i regs hi
  have hlt := (List.getElem?_eq_some_iff.1 hi).1
  rw [length_step] at hlt
  have hbefore := List.getElem?_eq_getElem hlt
  rw [h.getElem?_step hdis hbefore, foldl_change_eq] at hi
  rw [← Option.some.inj hi]
  exact h.ids i pack[i] hbefore

/-- **What requests do to a cell**: it holds what was last written in its place. -/
theorem Numbered.run (h : pack.Numbered s) {rs : List Request} (hdis : ∀ r ∈ rs, ¬ r.IsDis) :
    (pack.run rs).1.Numbered s ∧ ∀ i (regs : Registers F), pack[i]? = some regs →
      (pack.run rs).1[i]? = some (regs.after i (writesOf s rs)) := by
  induction rs generalizing pack with
  | nil => exact ⟨h, fun i regs hi => hi⟩
  | cons r rs ih =>
    obtain ⟨hr, hrs⟩ := List.forall_mem_cons.1 hdis
    obtain ⟨hnum, hcells⟩ := ih (h.step hr) hrs
    refine ⟨hnum, fun i regs hi => ?_⟩
    have hone := h.getElem?_step hr hi
    rw [foldl_change_eq] at hone
    rw [Pack.run, hcells i _ hone, Registers.after_append, ← writesOf_cons]

/-- After a discovery the cells hold what was last written in their places. -/
theorem run_dis (hlen : pack.length ≤ 65535) {rs : List Request} (hdis : ∀ r ∈ rs, ¬ r.IsDis) :
    (pack.run (.msg (.dis s) :: rs)).1.Numbered s ∧ ∀ i (regs : Registers F),
      pack[i]? = some regs →
      (pack.run (.msg (.dis s) :: rs)).1[i]? =
        some { regs.after i (writesOf s rs) with cellId := s + 1 + UInt16.ofNat i } := by
  obtain ⟨hnum, hcells⟩ := (numbered_dis (s := s) hlen).run hdis
  refine ⟨hnum, fun i regs hi => ?_⟩
  refine hcells i { regs with cellId := s + 1 + UInt16.ofNat i } ?_
  rw [serve, List.getElem?_mapIdx, hi]
  rfl

end Pack

/-! ## Reading -/

/-- The text that a voltage reads as. -/
def voltageText (x : F) : Text :=
  ⟨snprintf (kMaxPacketFieldLen - 1) (CFloat.printF2 x), onWire_printF2 x⟩

theorem Registers.read_voltage (regs : Registers F) :
    regs.read kRegAddrSetOutputVoltage = some (voltageText regs.voltage) :=
  read_eq_some_iff.2 rfl

/-- A read of the voltage of a numbered cell. -/
theorem Pack.Numbered.step_srd {pack : Pack F} {s : UInt16} {i : ℕ} {regs : Registers F}
    (h : pack.Numbered s) (hi : pack[i]? = some regs) :
    (pack.step (.msg (.srd regs.cellId kRegAddrSetOutputVoltage))).2 =
      some (.srs regs.cellId (voltageText regs.voltage)) := by
  rw [Pack.step, Pack.serve, h.target_eq hi, Option.map_some, Option.getD_some,
    Registers.reading, regs.read_voltage, Option.getD_some]

/-! ## Chains -/

section Chain

variable {sites : List (Site F)} (hne : sites ≠ []) (hlen : sites.length ≤ 65535)
  (hidle : ∀ site ∈ sites, site.Idle) (hsteady : ∀ site ∈ sites, site.Steady)
  (hshort : ∀ site ∈ sites, site.cell.registers.Short) (hwrites : WritesShort F)
include hne hidle hsteady hshort hwrites

/-- A chain serves lines behind a discovery. -/
theorem serves_dis {lines : List (List UInt8)} {s : UInt16} {rs : List Request}
    (hlines : ∀ line ∈ lines, lineFeed ∉ line ∧ line.length < kMaxLineLen)
    (hasks : List.Forall₂ Asks lines (.msg (.dis s) :: rs)) (hcompact : ∀ r ∈ rs, r.Compact) :
    Serves sites (unlines lineFeed lines) ((packOf sites).run (.msg (.dis s) :: rs)).1
      ((packOf sites).run (.msg (.dis s) :: rs)).2 :=
  serves_of_feedAll hidle hsteady (Pack.feedAll_run hwrites (packOf_ne_nil hne)
    (short_packOf hshort) hlines hasks (List.forall_mem_cons.2 ⟨trivial, hcompact⟩))

include hlen

/-- **Every cell of a chain holds what was last written to it.**  After a discovery and any
other compact requests to idle cells with constant ADC readings, in whatever pieces the lines
arrive: the voltage of the cell in place `i` is that of the last write to all cells or to its
own id, or the one before if there was none. -/
theorem chain_remembers {lines : List (List UInt8)} {s : UInt16} {rs : List Request}
    (hlines : ∀ line ∈ lines, lineFeed ∉ line ∧ line.length < kMaxLineLen)
    (hasks : List.Forall₂ Asks lines (.msg (.dis s) :: rs)) (hcompact : ∀ r ∈ rs, r.Compact)
    (hdis : ∀ r ∈ rs, ¬ r.IsDis) :
    ∃ pack responses, Serves sites (unlines lineFeed lines) pack responses ∧
      ∀ (i : ℕ) (site : Site F), sites[i]? = some site → pack[i]? = some
        ⟨s + 1 + UInt16.ofNat i,
          (Memory.last i (writesOf s rs)).elim site.cell.outputVoltage setVoltage,
          site.cell.outputCurrent⟩ := by
  have hlen' : (packOf sites).length ≤ 65535 := by rwa [packOf, List.length_map]
  refine ⟨_, _, serves_dis hne hidle hsteady hshort hwrites hlines hasks hcompact, ?_⟩
  intro i site hi
  have hsite : (packOf sites)[i]? = some site.cell.registers := by
    rw [packOf, List.getElem?_map, hi]
    rfl
  exact (Pack.run_dis hlen' hdis).2 i _ hsite

end Chain

end Packs

/-! ## Exact arithmetic -/

/-- A voltage between the rails, where every write leaves it. -/
def Railed (x : ExtRat) : Prop := ∃ q : ℚ, x = .num q ∧ 0 ≤ q ∧ q ≤ 9 / 2

theorem railed_hundredths {q : ℚ} (h0 : 0 ≤ q) (h : q ≤ 9 / 2) :
    SCBS.railVoltage (ExtRat.num (ExtRat.hundredths q)) = .num (ExtRat.hundredths q) := by
  have hle : ExtRat.hundredths q ≤ 9 / 2 := by
    have hbound := ExtRat.hundredths_le (n := 450) h0 (by norm_num; exact h)
    norm_num at hbound
    exact hbound
  rw [SCBS.railVoltage_num, min_eq_right hle, max_eq_right (ExtRat.hundredths_nonneg h0)]

/-- The text of a voltage is all of `%.2f`. -/
theorem text_voltageText {q : ℚ} (h0 : 0 ≤ q) (h : q ≤ 9 / 2) :
    (voltageText (ExtRat.num q)).text = ExtRat.printF2 (.num q) := by
  have hlen := ExtRat.length_printF2_le h0 (by linarith)
  refine List.take_of_length_le ?_
  show (ExtRat.printF2 (.num q)).length ≤ 18
  omega

/-- A number that is written and the voltage it makes. -/
theorem setVoltage_of_isDecimal {v : Text} {q : ℚ} (h : IsDecimal v.text q) :
    (setVoltage v : ExtRat) = .num (max 0 (min (9 / 2) q)) := by
  rw [setVoltage]
  show SCBS.railVoltage (ExtRat.strtof v.text) = _
  rw [strtof_of_isDecimal h, SCBS.railVoltage_num]

/-- **A text that was read can be written back**: it reads as before. -/
theorem voltageText_restored {x : ExtRat} (h : Railed x) :
    voltageText (setVoltage (voltageText x) : ExtRat) = voltageText x := by
  obtain ⟨q, rfl, h0, hle⟩ := h
  have hset : (setVoltage (voltageText (ExtRat.num q)) : ExtRat) = .num (ExtRat.hundredths q) := by
    rw [setVoltage, text_voltageText h0 hle]
    show SCBS.railVoltage (ExtRat.strtof (ExtRat.printF2 (.num q))) = _
    rw [ExtRat.strtof_printF2, railed_hundredths h0 hle]
  refine Text.ext ?_
  rw [hset]
  show snprintf _ (ExtRat.printF2 _) = snprintf _ (ExtRat.printF2 _)
  rw [ExtRat.printF2_hundredths h0]

/-- The requests that write back what the cells of a pack read as. -/
def restoring (s : UInt16) (pack : Pack ExtRat) : List Request :=
  pack.mapIdx fun i regs =>
    .msg (.swr (s + 1 + UInt16.ofNat i) kRegAddrSetOutputVoltage (voltageText regs.voltage))

/-- They write to each place what was read there. -/
theorem writesOf_restoring {s : UInt16} {pack : Pack ExtRat} (hlen : pack.length ≤ 65535) :
    writesOf s (restoring s pack) =
      (pack.map fun regs => voltageText regs.voltage).mapIdx fun i v => .one i v := by
  induction pack using List.reverseRecOn with
  | nil => rfl
  | append_singleton pack regs ih =>
    rw [List.length_append, List.length_singleton] at hlen
    have hplace : (s + 1 + UInt16.ofNat pack.length - (s + 1)).toNat = pack.length :=
      (id_eq_iff (by omega)).1 rfl
    have hone : writeOf s (.msg (.swr (s + 1 + UInt16.ofNat pack.length) kRegAddrSetOutputVoltage
        (voltageText regs.voltage))) = some (.one pack.length (voltageText regs.voltage)) := by
      rw [writeOf, if_pos rfl, hplace]
    rw [writesOf, restoring] at ih ⊢
    rw [List.mapIdx_concat, List.filterMap_append, ih (by omega), List.filterMap_cons_some hone,
      List.map_append, List.map_singleton, List.mapIdx_concat, List.length_map]
    rfl

section Chain

variable {sites : List (Site ExtRat)} (hne : sites ≠ []) (hlen : sites.length ≤ 65535)
  (hidle : ∀ site ∈ sites, site.Idle) (hsteady : ∀ site ∈ sites, site.Steady)
  (hshort : ∀ site ∈ sites, site.cell.registers.Short)
include hne hlen hidle hsteady hshort

/-- **A read gives back the number that was last written**, between the rails and to within
0.005, in exact arithmetic: after a discovery and any other compact requests to idle cells with
constant ADC readings, the response to a read of the cell in place `i`, to which the decimal
number `q` was last written, is a decimal number that close. -/
theorem chain_reads_back {lines : List (List UInt8)} {s : UInt16} {rs : List Request} {i : ℕ}
    (hlines : ∀ line ∈ lines, lineFeed ∉ line ∧ line.length < kMaxLineLen)
    (hasks : List.Forall₂ Asks lines (.msg (.dis s) :: (rs ++
      [.msg (.srd (s + 1 + UInt16.ofNat i) kRegAddrSetOutputVoltage)])))
    (hcompact : ∀ r ∈ rs, r.Compact) (hdis : ∀ r ∈ rs, ¬ r.IsDis) (hi : i < sites.length)
    {v : Text} {q : ℚ} (hlast : Memory.last i (writesOf s rs) = some v)
    (hv : IsDecimal v.text q) :
    ∃ pack responses t q', Serves sites (unlines lineFeed lines) pack
        (responses ++ [.srs (s + 1 + UInt16.ofNat i) t]) ∧
      IsDecimal t.text q' ∧ |q' - max 0 (min (9 / 2) q)| ≤ 1 / 200 := by
  have hlen' : (packOf sites).length ≤ 65535 := by rwa [packOf, List.length_map]
  have hall := serves_dis hne hidle hsteady hshort writesShort_extRat hlines hasks (by
    intro r hr
    rcases List.mem_append.1 hr with hr | hr
    · exact hcompact r hr
    · rw [List.mem_singleton.1 hr]
      trivial)
  obtain ⟨hnum, hcells⟩ := Pack.run_dis (s := s) hlen' hdis
  have hcell := hcells i _ (List.getElem?_eq_getElem (by rwa [packOf, List.length_map]))
  have hread := hnum.step_srd hcell
  rw [← List.cons_append, Pack.run_concat] at hall
  simp only [Registers.after, hlast, Option.elim_some, setVoltage_of_isDecimal hv] at hread
  rw [hread] at hall
  refine ⟨_, _, _, ExtRat.hundredths (max 0 (min (9 / 2) q)), hall, ?_,
    ExtRat.abs_hundredths_sub_le _⟩
  rw [text_voltageText (le_max_left _ _) (max_le (by norm_num) (min_le_left _ _))]
  exact ExtRat.isDecimal_printF2 _

/-- **What was read before can be written back**, in exact arithmetic, when it was a number
between the rails.  After a discovery and any other compact requests to idle cells with constant
ADC readings, the texts that the cells read as before the discovery are written back to them,
one by one: then all cells read as before. -/
theorem chain_restores (hrailed : ∀ site ∈ sites, Railed site.cell.outputVoltage)
    {lines : List (List UInt8)} {s : UInt16} {rs : List Request}
    (hlines : ∀ line ∈ lines, lineFeed ∉ line ∧ line.length < kMaxLineLen)
    (hasks : List.Forall₂ Asks lines (.msg (.dis s) :: (rs ++ restoring s (packOf sites))))
    (hcompact : ∀ r ∈ rs, r.Compact) (hdis : ∀ r ∈ rs, ¬ r.IsDis) :
    ∃ pack responses, Serves sites (unlines lineFeed lines) pack responses ∧
      pack.map (·.read kRegAddrSetOutputVoltage) =
        (packOf sites).map (·.read kRegAddrSetOutputVoltage) := by
  have hlen' : (packOf sites).length ≤ 65535 := by rwa [packOf, List.length_map]
  have hwrites : ∀ r ∈ restoring s (packOf sites), r.Compact ∧ ¬ r.IsDis := by
    intro r hr
    obtain ⟨i, _, rfl⟩ := List.mem_mapIdx.1 hr
    exact ⟨trivial, id⟩
  have hall := serves_dis hne hidle hsteady hshort writesShort_extRat hlines hasks fun r hr =>
    (List.mem_append.1 hr).elim (hcompact r) fun hr => (hwrites r hr).1
  obtain ⟨-, hcells⟩ := Pack.run_dis (s := s) hlen' fun r hr =>
    (List.mem_append.1 hr).elim (hdis r) fun hr => (hwrites r hr).2
  refine ⟨_, _, hall, List.ext_getElem? fun i => ?_⟩
  rw [List.getElem?_map, List.getElem?_map]
  cases hi : (packOf sites)[i]? with
  | none =>
    rw [List.getElem?_eq_none_iff] at hi
    rw [List.getElem?_eq_none (by rw [Pack.length_run]; exact hi)]
  | some regs =>
    have hlast : Memory.last i (writesOf s (rs ++ restoring s (packOf sites))) =
        some (voltageText regs.voltage) := by
      rw [writesOf, List.filterMap_append, ← writesOf, ← writesOf, writesOf_restoring hlen']
      exact Memory.last_restore _ (by rw [List.getElem?_map, hi]; rfl)
    have hrail : Railed regs.voltage := by
      obtain ⟨site, hsite, rfl⟩ := List.mem_map.1 (List.mem_of_getElem? hi)
      exact hrailed site hsite
    rw [hcells i regs hi]
    simp only [Option.map_some, Registers.read_voltage, Registers.after, hlast, Option.elim_some,
      voltageText_restored hrail]

end Chain

/-! ## Two cells after `Init` -/

/-- Lines that ask for messages whose text is short. -/
theorem forall_asks {ms : List Msg} (h : ∀ m ∈ ms, m.Compact ∧ m.contents.length ≤ 190) :
    List.Forall₂ Asks (ms.map Msg.body) (ms.map .msg) := by
  rw [List.forall₂_map_left_iff, List.forall₂_map_right_iff, List.forall₂_same]
  exact fun m hm => m.asks_body (h m hm).1 (h m hm).2

/-- A discovery, 3.3 V on all cells, and a read. -/
def rampUp : List Msg :=
  [.dis 7, .mwr kRegAddrSetOutputVoltage text330, .srd 8 kRegAddrSetOutputVoltage]

theorem asks_rampUp : List.Forall₂ Asks (rampUp.map Msg.body) (rampUp.map .msg) := by
  refine forall_asks (List.forall_mem_cons.2 ⟨⟨trivial, by decide +kernel⟩,
    List.forall_mem_cons.2 ⟨⟨trivial, by decide +kernel⟩,
      List.forall_mem_cons.2 ⟨⟨trivial, by decide +kernel⟩, by simp⟩⟩⟩)

theorem lines_rampUp :
    ∀ line ∈ rampUp.map Msg.body, lineFeed ∉ line ∧ line.length < kMaxLineLen := by
  decide +kernel

theorem compact_rampUp : ∀ r ∈ rampUp.map Request.msg, r.Compact := by
  simp [rampUp, Request.Compact, Msg.Compact]

theorem init_ne_nil : ([8, 9] : List UInt16).map Site.init ≠ [] := by simp

theorem init_length_le : (([8, 9] : List UInt16).map Site.init).length ≤ 65535 := by simp

theorem chain_remembers_sample :
    ∃ pack responses, Serves ([8, 9].map Site.init) (unlines lineFeed (rampUp.map Msg.body)) pack
        responses ∧
      pack[1]? = some ⟨9, .num (33 / 10), .num 0⟩ := by
  obtain ⟨pack, responses, hserves, hcells⟩ := chain_remembers init_ne_nil init_length_le
    Site.idle_init steady_init short_init writesShort_extRat lines_rampUp asks_rampUp
    (List.forall_mem_cons.1 compact_rampUp).2 (by simp [Request.IsDis])
  refine ⟨pack, responses, hserves, (hcells 1 _ rfl).trans ?_⟩
  decide +kernel

theorem isDecimal_text330 : IsDecimal text330.text (33 / 10) := by
  have hdecimal := ExtRat.isDecimal_printF2 (33 / 10)
  have htext : ExtRat.printF2 (.num (33 / 10)) = text330.text := by decide +kernel
  have hvalue : ExtRat.hundredths (33 / 10) = 33 / 10 := by decide +kernel
  rwa [htext, hvalue] at hdecimal

theorem chain_reads_back_sample :
    ∃ pack responses t q', Serves ([8, 9].map Site.init)
        (unlines lineFeed (rampUp.map Msg.body)) pack (responses ++ [.srs 8 t]) ∧
      IsDecimal t.text q' ∧ |q' - max 0 (min (9 / 2) (33 / 10))| ≤ 1 / 200 := by
  have hlast : Memory.last 0 (writesOf 7 [.msg (.mwr kRegAddrSetOutputVoltage text330)]) =
      some text330 := by
    simp [writesOf, writeOf, Memory.last, Memory.Write.hits]
  have hasks : List.Forall₂ Asks (rampUp.map Msg.body) (.msg (.dis 7) ::
      ([.msg (.mwr kRegAddrSetOutputVoltage text330)] ++
        [.msg (.srd (7 + 1 + UInt16.ofNat 0) kRegAddrSetOutputVoltage)])) := asks_rampUp
  exact chain_reads_back (s := 7) (i := 0) init_ne_nil init_length_le Site.idle_init steady_init
    short_init lines_rampUp hasks (by simp [Request.Compact, Msg.Compact])
    (by simp [Request.IsDis]) (by simp) hlast isDecimal_text330

/-- A discovery, 3.3 V on all cells, and 0 V on each of them again. -/
def rampDown : List Msg :=
  [.dis 7, .mwr kRegAddrSetOutputVoltage text330,
    .swr 8 kRegAddrSetOutputVoltage (voltageText (ExtRat.num 0)),
    .swr 9 kRegAddrSetOutputVoltage (voltageText (ExtRat.num 0))]

theorem asks_rampDown : List.Forall₂ Asks (rampDown.map Msg.body) (rampDown.map .msg) := by
  refine forall_asks (List.forall_mem_cons.2 ⟨⟨trivial, by decide +kernel⟩,
    List.forall_mem_cons.2 ⟨⟨trivial, by decide +kernel⟩,
      List.forall_mem_cons.2 ⟨⟨trivial, by decide +kernel⟩,
        List.forall_mem_cons.2 ⟨⟨trivial, by decide +kernel⟩, by simp⟩⟩⟩⟩)

theorem chain_restores_sample :
    ∃ pack responses, Serves ([8, 9].map Site.init) (unlines lineFeed (rampDown.map Msg.body))
        pack responses ∧
      pack.map (·.read kRegAddrSetOutputVoltage) =
        (packOf ([8, 9].map Site.init)).map (·.read kRegAddrSetOutputVoltage) := by
  have hlines : ∀ line ∈ rampDown.map Msg.body, lineFeed ∉ line ∧ line.length < kMaxLineLen := by
    decide +kernel
  have hrailed : ∀ site ∈ ([8, 9] : List UInt16).map Site.init,
      Railed site.cell.outputVoltage := by
    intro site hsite
    obtain ⟨id, -, rfl⟩ := List.mem_map.1 hsite
    exact ⟨0, rfl, le_rfl, by norm_num⟩
  have hasks : List.Forall₂ Asks (rampDown.map Msg.body) (.msg (.dis 7) ::
      ([.msg (.mwr kRegAddrSetOutputVoltage text330)] ++
        restoring 7 (packOf ([8, 9].map Site.init)))) := asks_rampDown
  exact chain_restores (s := 7) init_ne_nil init_length_le Site.idle_init steady_init short_init
    hrailed hlines hasks (by simp [Request.Compact, Msg.Compact]) (by simp [Request.IsDis])

end Scbs
