import Scbs.Calibration
import Scbs.Link.Client
import Scbs.Store

/-!
# What the outputs are driven at

* `slope_ge`, `slope_le` — the calibration neither flattens nor stretches a voltage much.
* `targetCount_lt` — **requests 5 mV apart get different counts**, from 1/16 V on.
* `targetCount_eq_zero` — below that the output stays at 0.
* `output_resolution` — the same of the PWM level that `SetOutputVoltage` programs.
* `chain_drives` — **every cell of a chain drives its output at the level of the number that
  was last written to it**, and cells that were told different numbers drive theirs apart.
-/

namespace Scbs

open CLib Link

/-! ## The calibration -/

theorem slope_ge (a b : ℚ) : 127 / 125 ≤ slope a b := by
  unfold slope
  nlinarith [sq_nonneg (a + b - 48124320 / 6624709), sq_nonneg (a - b)]

theorem slope_le {a b : ℚ} (ha : 0 ≤ a) (ha' : a ≤ 9 / 2) (hb : 0 ≤ b) (hb' : b ≤ 9 / 2) :
    slope a b ≤ 32 / 25 := by
  have haa : a ^ 2 ≤ 9 / 2 * a := by nlinarith
  have hbb : b ^ 2 ≤ 9 / 2 * b := by nlinarith
  have hab : a * b ≤ 9 / 2 * a := by nlinarith
  unfold slope
  linarith

/-- The calibrated voltage is not negative from 1/16 V on. -/
theorem calibrated_nonneg {v : ℚ} (h : 1 / 16 ≤ v) : 0 ≤ calibrated v := by
  refine le_trans ?_ (calibrated_strictMono.monotone h)
  unfold calibrated
  norm_num

theorem railed_of_mem {v : ℚ} (h0 : 0 ≤ v) (h : v ≤ 9 / 2) : railed v = v := by
  rw [railed, min_eq_right h, max_eq_right h0]

/-- No rail of the supply is in the way from 1/16 V on. -/
theorem supplied_of_mem {v : ℚ} (h0 : 1 / 16 ≤ v) (h : v ≤ 9 / 2) :
    supplied v = calibrated v := by
  rw [supplied, min_eq_right (calibrated_lt_five h).le, max_eq_right (calibrated_nonneg h0)]

/-! ## The counts -/

theorem targetCount_eq_floor {v : ℚ} (h0 : 0 ≤ v) (h : v ≤ 9 / 2) :
    targetCount v = ⌊supplied v / 5 * 1000⌋₊ := by
  rw [targetCount, railed_of_mem h0 h]

/-- **Requests that are 5 mV apart get different counts.** -/
theorem targetCount_lt {a b : ℚ} (ha : 1 / 16 ≤ a) (hab : a + 1 / 200 ≤ b) (hb : b ≤ 9 / 2) :
    targetCount a < targetCount b := by
  have hslope := slope_ge a b
  have hgap : 1 / 200 * (127 / 125) ≤ calibrated b - calibrated a := by
    rw [calibrated_sub]
    exact mul_le_mul (by linarith) hslope (by norm_num) (by linarith)
  have hpos := calibrated_nonneg ha
  rw [targetCount_eq_floor (by linarith) (by linarith), targetCount_eq_floor (by linarith) hb,
    supplied_of_mem ha (by linarith), supplied_of_mem (by linarith) hb]
  refine Nat.lt_of_succ_le (Nat.le_floor ?_)
  have hfloor := Nat.floor_le (show 0 ≤ calibrated a / 5 * 1000 by positivity)
  push_cast
  linarith

/-- A request moves the counts by at most 256 for each volt, and one. -/
theorem targetCount_le_add {a b : ℚ} (ha : 0 ≤ a) (hab : a ≤ b) (hb : b ≤ 9 / 2) :
    (targetCount b : ℚ) ≤ targetCount a + 256 * (b - a) + 1 := by
  have hgap : calibrated b - calibrated a ≤ (b - a) * (32 / 25) := by
    rw [calibrated_sub]
    exact mul_le_mul_of_nonneg_left (slope_le ha (by linarith) (by linarith) hb) (by linarith)
  have hsupplied : supplied b - supplied a ≤ (b - a) * (32 / 25) := by
    have hgrow : 0 ≤ (b - a) * (32 / 25) := by nlinarith
    rw [supplied, supplied, min_eq_right (calibrated_lt_five hb).le,
      min_eq_right (calibrated_lt_five (show a ≤ 9 / 2 by linarith)).le]
    rcases max_cases 0 (calibrated b) with ⟨hmax, -⟩ | ⟨hmax, -⟩
    · rw [hmax]
      linarith [le_max_left 0 (calibrated a)]
    · rw [hmax]
      linarith [le_max_right 0 (calibrated a)]
  have hnonneg : 0 ≤ supplied b := le_max_left _ _
  rw [targetCount_eq_floor ha (by linarith), targetCount_eq_floor (by linarith) hb]
  have hfloor := Nat.floor_le (show 0 ≤ supplied b / 5 * 1000 by positivity)
  have hlt := Nat.lt_floor_add_one (supplied a / 5 * 1000)
  linarith

/-- **Requests below 1/16 V are requests for 0.** -/
theorem targetCount_eq_zero {v : ℚ} (h : v ≤ 1 / 16) : targetCount v = 0 := by
  have hlast : targetCount (1 / 16) = 0 := by
    rw [targetCount_eq_floor (by norm_num) (by norm_num), supplied_of_mem le_rfl (by norm_num),
      Nat.floor_eq_zero]
    unfold calibrated
    norm_num
  exact Nat.le_zero.1 (le_trans (targetCount_mono h) hlast.le)

/-- **The resolution of the output**, in exact arithmetic.  Up to 1/16 V the level is 1000, which
is no output; from there on a request that is 5 mV higher gets a lower level; and on all of the
rails the level moves by at most 256 for each volt, and one. -/
theorem output_resolution (cell : SCBS ExtRat) {a b : ℚ} (ha : 0 ≤ a) (hab : a ≤ b)
    (hb : b ≤ 9 / 2) :
    (b ≤ 1 / 16 → (cell.setOutputVoltage (.num b)).1.pwmChanLevel = 1000) ∧
      (1 / 16 ≤ a → a + 1 / 200 ≤ b → (cell.setOutputVoltage (.num b)).1.pwmChanLevel <
        (cell.setOutputVoltage (.num a)).1.pwmChanLevel) ∧
      ((cell.setOutputVoltage (.num a)).1.pwmChanLevel.toNat : ℚ) ≤
        (cell.setOutputVoltage (.num b)).1.pwmChanLevel.toNat + 256 * (b - a) + 1 := by
  have hcount := targetCount_le b
  have hcount' := targetCount_le a
  refine ⟨?_, ?_, ?_⟩
  · intro hlow
    apply UInt16.toNat_inj.1
    rw [cell.setOutputVoltage_level, targetCount_eq_zero hlow]
    rfl
  · intro hlow hgap
    have hlt := targetCount_lt hlow hgap hb
    rw [UInt16.lt_iff_toNat_lt, cell.setOutputVoltage_level, cell.setOutputVoltage_level]
    omega
  · have hle := targetCount_le_add ha hab hb
    rw [cell.setOutputVoltage_level, cell.setOutputVoltage_level, Nat.cast_sub hcount,
      Nat.cast_sub hcount']
    linarith

theorem output_resolution_sample :
    ((SCBS.init 0 : SCBS ExtRat).setOutputVoltage (.num (101 / 100))).1.pwmChanLevel <
      ((SCBS.init 0 : SCBS ExtRat).setOutputVoltage (.num 1)).1.pwmChanLevel :=
  (output_resolution (SCBS.init 0) (a := 1) (b := 101 / 100) (by norm_num) (by norm_num)
    (by norm_num)).2.1 (by norm_num) (by norm_num)

/-! ## Chains -/

/-- The level of a railed voltage. -/
theorem toNat_dutyOf {x : ℚ} :
    (SCBS.dutyOf (SCBS.railVoltage (ExtRat.num (max 0 (min (9 / 2) x))))).toNat =
      1000 - targetCount x := by
  rw [← SCBS.railVoltage_num, SCBS.railVoltage_idem]
  exact (SCBS.init 0).setOutputVoltage_level x

/-- A call of `Update` leaves the level of the voltage register. -/
theorem Site.poll_levelMatches {site site' : Site ExtRat} {seen unread tx : List UInt8}
    (h : site.Poll seen (some (site', unread, tx))) : site'.cell.LevelMatches := by
  obtain ⟨env, r, hupd, hcell⟩ := h.exists_update
  rw [hcell]
  exact (@SCBS.update_registers _ _ site.cell ⟨env, seen⟩ r hupd).2.2

section Chain

variable {sites : List (Site ExtRat)} (hne : sites ≠ []) (hlen : sites.length ≤ 65535)
  (hidle : ∀ site ∈ sites, site.Idle) (hsteady : ∀ site ∈ sites, site.Steady)
  (hshort : ∀ site ∈ sites, site.cell.registers.Short)
include hne hlen hidle hsteady hshort

/-- **The outputs of a chain**, in exact arithmetic.  When all bytes of a discovery and any other
compact requests have been consumed, by idle cells with constant ADC readings that had run
`Update` before: the level of the cell in place `i`, to which the decimal number `x` was last
written, is that of `x`; and if the number last written to another is 5 mV higher, from 1/16 V
on, then the level of the other is lower. -/
theorem chain_drives (hlevel : ∀ site ∈ sites, site.cell.LevelMatches)
    {lines : List (List UInt8)} {s : UInt16} {rs : List Request}
    (hlines : ∀ line ∈ lines, lineFeed ∉ line ∧ line.length < kMaxLineLen)
    (hasks : List.Forall₂ Asks lines (.msg (.dis s) :: rs)) (hcompact : ∀ r ∈ rs, r.Compact)
    (hdis : ∀ r ∈ rs, ¬ r.IsDis) {sent : List (List UInt8)} {q : Pipe (Site ExtRat) UInt8}
    (hsent : sent.flatten = unlines lineFeed lines)
    (hrun : Pipe.Run Site.Poll (Pipe.start sites) sent q) (hquiet : q.Quiet) :
    q.states.length = sites.length ∧ ∀ (i j : ℕ) (a b : Site ExtRat) (v w : Text) (x y : ℚ),
      q.states[i]? = some a → q.states[j]? = some b →
      Memory.last i (writesOf s rs) = some v → Memory.last j (writesOf s rs) = some w →
      IsDecimal v.text x → IsDecimal w.text y →
      a.cell.pwmChanLevel.toNat = 1000 - targetCount x ∧
        (1 / 16 ≤ x → x + 1 / 200 ≤ y → y ≤ 9 / 2 →
          b.cell.pwmChanLevel < a.cell.pwmChanLevel) := by
  have hlen' : (packOf sites).length ≤ 65535 := by rwa [packOf, List.length_map]
  have hserves := serves_dis hne hidle hsteady hshort writesShort_extRat hlines hasks hcompact
  obtain ⟨-, hregs⟩ := hserves.result sent q hsent hrun hquiet
  have hcount := congrArg List.length hregs
  rw [List.length_map, Pack.length_run, packOf, List.length_map] at hcount
  have hmatches := hrun.states_preserve (P := fun site : Site ExtRat => site.cell.LevelMatches)
    (fun _ hpoll => Site.poll_levelMatches hpoll) (by rwa [Pipe.states_start])
  -- a cell drives the level of its register, and that holds what was last written
  have hdrives : ∀ (i : ℕ) (a : Site ExtRat) (v : Text) (x : ℚ), q.states[i]? = some a →
      Memory.last i (writesOf s rs) = some v → IsDecimal v.text x →
      a.cell.pwmChanLevel.toNat = 1000 - targetCount x := by
    intro i a v x ha hlast hv
    have hi : i < sites.length := by
      rw [← hcount]
      exact (List.getElem?_eq_some_iff.1 ha).1
    have hcell := (Pack.run_dis (s := s) hlen' hdis).2 i _
      (List.getElem?_eq_getElem (by rwa [packOf, List.length_map]))
    rw [← hregs, List.getElem?_map, ha, Option.map_some, Option.some.injEq] at hcell
    have hvolt : a.cell.outputVoltage = .num (max 0 (min (9 / 2) x)) := by
      have hfield := congrArg Registers.voltage hcell
      simp only [Registers.after, hlast, Option.elim_some, setVoltage_of_isDecimal hv] at hfield
      exact hfield
    have hduty := hmatches a (List.mem_of_getElem? ha)
    rw [SCBS.LevelMatches, hvolt] at hduty
    rw [hduty, toNat_dutyOf]
  refine ⟨hcount, ?_⟩
  intro i j a b v w x y ha hb hi hj hv hw
  have hx := hdrives i a v x ha hi hv
  have hy := hdrives j b w y hb hj hw
  refine ⟨hx, fun hlow hgap hhigh => ?_⟩
  have hlt := targetCount_lt hlow hgap hhigh
  have hle := targetCount_le y
  rw [UInt16.lt_iff_toNat_lt, hx, hy]
  omega

end Chain

/-- A cell that has run `Update` once. -/
def Site.updated (id : UInt16) : Site ExtRat :=
  { Site.init id with cell := (SCBS.init id).refresh sampleEnv }

/-- A discovery, 1 V on the first cell and 3.3 V on the second. -/
def setApart : List Msg :=
  [.dis 7, .swr 8 kRegAddrSetOutputVoltage (voltageText (ExtRat.num 1)),
    .swr 9 kRegAddrSetOutputVoltage text330]

theorem isDecimal_one : IsDecimal (voltageText (ExtRat.num 1)).text 1 := by
  have hdecimal := ExtRat.isDecimal_printF2 1
  have hvalue : ExtRat.hundredths 1 = 1 := by decide +kernel
  rwa [hvalue, ← text_voltageText (by norm_num) (by norm_num)] at hdecimal

theorem idle_updated {ids : List UInt16} : ∀ site ∈ ids.map Site.updated, site.Idle := by
  intro site hsite
  obtain ⟨id, -, rfl⟩ := List.mem_map.1 hsite
  exact SCBS.refresh_toUartRx sampleEnv (SCBS.init id)

theorem steady_updated {ids : List UInt16} : ∀ site ∈ ids.map Site.updated, site.Steady := by
  intro site hsite
  obtain ⟨id, -, rfl⟩ := List.mem_map.1 hsite
  exact ⟨0, rfl, (SCBS.refresh_spec sampleEnv (SCBS.init id)).2.2.1⟩

theorem short_updated {ids : List UInt16} :
    ∀ site ∈ ids.map Site.updated, site.cell.registers.Short := by
  intro site hsite
  obtain ⟨id, hid, rfl⟩ := List.mem_map.1 hsite
  have hregs : (Site.updated id).cell.registers = (Site.init id).cell.registers :=
    SCBS.refresh_registers sampleEnv rfl
      (show SCBS.currentOfCounts 0 = ExtRat.num 0 by decide +kernel)
  rw [hregs]
  exact short_init _ (List.mem_map_of_mem hid)

theorem level_updated {ids : List UInt16} :
    ∀ site ∈ ids.map Site.updated, site.cell.LevelMatches := by
  intro site hsite
  obtain ⟨id, -, rfl⟩ := List.mem_map.1 hsite
  exact SCBS.refresh_level sampleEnv (SCBS.init id)

theorem asks_setApart : List.Forall₂ Asks (setApart.map Msg.body) (setApart.map .msg) := by
  refine forall_asks (List.forall_mem_cons.2 ⟨⟨trivial, by decide +kernel⟩,
    List.forall_mem_cons.2 ⟨⟨trivial, by decide +kernel⟩,
      List.forall_mem_cons.2 ⟨⟨trivial, by decide +kernel⟩, by simp⟩⟩⟩)

theorem lines_setApart :
    ∀ line ∈ setApart.map Msg.body, lineFeed ∉ line ∧ line.length < kMaxLineLen := by
  decide +kernel

/-- A run that has consumed all bytes. -/
theorem exists_run_setApart :
    ∃ q : Pipe (Site ExtRat) UInt8,
      Pipe.Run Site.Poll (Pipe.start ([8, 9].map Site.updated))
        [unlines lineFeed (setApart.map Msg.body)] q ∧ q.Quiet ∧ q.Sound Site.Poll := by
  have hne : ([8, 9] : List UInt16).map Site.updated ≠ [] := by simp
  have hcompact : ∀ r ∈ (setApart.map Request.msg).tail, r.Compact := by
    simp [setApart, Request.Compact, Msg.Compact]
  have hsent : [unlines lineFeed (setApart.map Msg.body)].flatten =
      unlines lineFeed (setApart.map Msg.body) := List.flatten_singleton ..
  have hserves := serves_dis hne idle_updated steady_updated short_updated writesShort_extRat
    lines_setApart asks_setApart hcompact
  -- everything is sent at once, and then polled until it is consumed
  have hsend : Pipe.Run Site.Poll (Pipe.start ([8, 9].map Site.updated))
      [unlines lineFeed (setApart.map Msg.body)] _ := .send _ .start
  obtain ⟨q, hsteps, hquiet⟩ := hserves.settles _ _ hsent hsend
  have hrun := hsend.steps hsteps
  exact ⟨q, hrun, hquiet, hserves.sound _ _ hsent hrun⟩

/-- 1 V and 3.3 V, in a run that has consumed all bytes. -/
theorem chain_drives_sample :
    ∃ q : Pipe (Site ExtRat) UInt8,
      Pipe.Run Site.Poll (Pipe.start ([8, 9].map Site.updated))
        [unlines lineFeed (setApart.map Msg.body)] q ∧ q.Quiet ∧
      ∀ a b, q.states[0]? = some a → q.states[1]? = some b →
        b.cell.pwmChanLevel < a.cell.pwmChanLevel := by
  have hne : ([8, 9] : List UInt16).map Site.updated ≠ [] := by simp
  have hlen : (([8, 9] : List UInt16).map Site.updated).length ≤ 65535 := by simp
  have hcompact : ∀ r ∈ (setApart.map Request.msg).tail, r.Compact := by
    simp [setApart, Request.Compact, Msg.Compact]
  have hsent : [unlines lineFeed (setApart.map Msg.body)].flatten =
      unlines lineFeed (setApart.map Msg.body) := List.flatten_singleton ..
  obtain ⟨q, hrun, hquiet, -⟩ := exists_run_setApart
  refine ⟨q, hrun, hquiet, fun a b ha hb => ?_⟩
  have hfirst : Memory.last 0 (writesOf 7 (setApart.map Request.msg).tail) =
      some (voltageText (ExtRat.num 1)) := rfl
  have hsecond : Memory.last 1 (writesOf 7 (setApart.map Request.msg).tail) = some text330 := rfl
  have hall := (chain_drives hne hlen idle_updated steady_updated short_updated level_updated
    lines_setApart asks_setApart hcompact (by simp [Request.IsDis]) hsent hrun
    hquiet).2 0 1 a b _ _ 1 (33 / 10) ha hb hfirst hsecond isDecimal_one isDecimal_text330
  exact hall.2 (by norm_num) (by norm_num) (by norm_num)

end Scbs
