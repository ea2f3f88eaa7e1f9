import Scbs.Link.Clock
import Scbs.Runs

/-!
# The status LED

`TurnOnStatusLED` stores a deadline modulo 2³², and `Update` turns the LED off when the clock
shows more than the deadline.

* `Lit`, `Dark` — the LED is on up to a deadline, or off; `refresh` is the only thing that
  changes it while no line arrives (`run_lit`, `run_dark_of_lt`).
* `BlinkEnds` — whatever the calls of `Update`, as long as they are at most 1 ms apart, the
  LED is off by the first one that is more than 1 ms late.
* `blinkEnds_iff` — **this holds exactly when** the clock does not wrap within 1 ms of the
  deadline.
-/

namespace Scbs

open CLib Link

section Led

variable {F : Type} [CFloat F]

namespace SCBS

/-- The LED is on, and is to go off behind `deadline`. -/
structure Lit (cell : SCBS F) (deadline : UInt32) : Prop where
  on : cell.statusLedOn = true
  pin : cell.ledPin = true
  timestamp : cell.statusLedOffTimestamp = deadline

/-- The LED is off. -/
structure Dark (cell : SCBS F) : Prop where
  on : cell.statusLedOn = false
  pin : cell.ledPin = false

omit [CFloat F] in
theorem lit_turnOnStatusLED (cell : SCBS F) (t onTimeMs : UInt32) :
    (cell.turnOnStatusLED t onTimeMs).Lit (t + 1000 * onTimeMs) :=
  ⟨rfl, rfl, rfl⟩

section Step

variable {cell cell' : SCBS F} {deadline : UInt32} {env : Env} {call : Call} {calls : List Call}

theorem Lit.refresh (h : cell.Lit deadline) (hle : env.timeAtLed ≤ deadline) :
    (cell.refresh env).Lit deadline := by
  have hnow : ¬ cell.statusLedOffTimestamp < env.timeAtLed := by
    rw [h.timestamp]
    exact UInt32.not_lt.2 hle
  rw [refresh_eq]
  constructor
  · simp [h.on, hnow]
  · simp [h.pin, hnow]
  · exact h.timestamp

theorem Dark.refresh (h : cell.Dark) (env : Env) : (cell.refresh env).Dark := by
  rw [refresh_eq]
  constructor
  · simp [h.on]
  · simp [h.pin]

theorem Lit.refresh_of_lt (h : cell.Lit deadline) (hlt : deadline < env.timeAtLed) :
    (cell.refresh env).Dark := by
  have hnow : cell.statusLedOffTimestamp < env.timeAtLed := by
    rw [h.timestamp]
    exact hlt
  rw [refresh_eq]
  constructor
  · simp [hnow]
  · simp [h.on, hnow]

/-- A call of `Update` without a line refreshes only. -/
theorem run_cons_idle {hist : List Handled} (h : cell.run (call :: calls) = .ok (cell', hist))
    (hidle : hist = []) : ∃ rx,
      (({ cell with toUartRx := rx } : SCBS F).refresh call.env).run calls = .ok (cell', []) := by
  obtain ⟨r, later, hupd, hrun, rfl⟩ := run_cons h
  obtain ⟨hnone, rfl⟩ := List.append_eq_nil_iff.1 hidle
  rcases update_handled hupd with
    ⟨rx, unread, -, -, rfl⟩ | ⟨rx, unread, line, packet, -, -, hone, -⟩
  · exact ⟨rx, hrun⟩
  · rw [hone] at hnone
    exact absurd hnone (List.cons_ne_nil _ _)

/-- **What every `refresh` preserves, a run without lines preserves.** -/
theorem run_idle_preserves {P : SCBS F → Prop}
    (hstep : ∀ call ∈ calls, ∀ (cell : SCBS F) (rx : UartRx), P cell →
      P (({ cell with toUartRx := rx } : SCBS F).refresh call.env))
    (h0 : P cell) (h : cell.run calls = .ok (cell', [])) : P cell' := by
  induction calls generalizing cell with
  | nil =>
    obtain ⟨rfl, -⟩ := Prod.mk.inj (Except.ok.inj h)
    exact h0
  | cons call calls ih =>
    obtain ⟨rx, hrun⟩ := run_cons_idle h rfl
    exact ih (fun c hc => hstep c (List.mem_cons_of_mem _ hc))
      (hstep call List.mem_cons_self cell rx h0) hrun

/-- **The LED stays on** while no call sees the clock behind the deadline. -/
theorem run_lit (hlit : cell.Lit deadline) (h : cell.run calls = .ok (cell', []))
    (hle : ∀ call ∈ calls, call.env.timeAtLed ≤ deadline) : cell'.Lit deadline := by
  refine run_idle_preserves (P := (Lit · deadline)) (fun call hcall c rx hc => ?_) hlit h
  have hrx : ({ c with toUartRx := rx } : SCBS F).Lit deadline := ⟨hc.on, hc.pin, hc.timestamp⟩
  exact hrx.refresh (hle call hcall)

/-- **The LED stays off** while no line arrives. -/
theorem run_dark (hdark : cell.Dark) (h : cell.run calls = .ok (cell', [])) : cell'.Dark := by
  refine run_idle_preserves (P := Dark) (fun call _ c rx hc => ?_) hdark h
  have hrx : ({ c with toUartRx := rx } : SCBS F).Dark := ⟨hc.on, hc.pin⟩
  exact hrx.refresh call.env

/-- **The LED goes off** when a call sees the clock behind the deadline. -/
theorem run_dark_of_lt (hlit : cell.Lit deadline) (h : cell.run calls = .ok (cell', []))
    (hlt : ∃ call ∈ calls, deadline < call.env.timeAtLed) : cell'.Dark := by
  induction calls generalizing cell with
  | nil =>
    obtain ⟨call, hcall, -⟩ := hlt
    exact absurd hcall (by simp)
  | cons call calls ih =>
    obtain ⟨rx, hrun⟩ := run_cons_idle h rfl
    have hstep : ({ cell with toUartRx := rx } : SCBS F).Lit deadline :=
      ⟨hlit.on, hlit.pin, hlit.timestamp⟩
    by_cases hnow : deadline < call.env.timeAtLed
    · exact run_dark (hstep.refresh_of_lt hnow) hrun
    · apply ih (hstep.refresh (UInt32.not_lt.1 hnow)) hrun
      obtain ⟨c, hc, hlate⟩ := hlt
      rcases List.mem_cons.1 hc with rfl | hc
      · exact absurd hlate hnow
      · exact ⟨c, hc, hlate⟩

end Step

end SCBS

/-! ## A blink and its end -/

/-- After `TurnOnStatusLED` at clock reading `t`, as long as no line arrives: the LED is
looked at in the same call of `Update` and in the `calls` after it, at the true times
`elapsed` since, in microseconds, of which the clock shows the lower 32 bits.  If they are
at most 1 ms apart, then the LED is off as soon as one of them is more than 1 ms behind the
on-time. -/
def BlinkEnds (F : Type) [CFloat F] (t onTimeMs : UInt32) : Prop :=
  ∀ (cell cell' : SCBS F) (env : Env) (calls : List Call) (elapsed : List ℕ),
    env.timeAtLed :: calls.map (·.env.timeAtLed) = elapsed.map (fun e => t + UInt32.ofNat e) →
    Polled 1000 elapsed →
    ((cell.turnOnStatusLED t onTimeMs).refresh env).run calls = .ok (cell', []) →
    (∃ e ∈ elapsed, 1000 * onTimeMs.toNat + 1000 < e) →
    cell'.statusLedOn = false ∧ cell'.ledPin = false

section Blink

variable (t onTimeMs : UInt32)

/-- The clock at a true time. -/
theorem toNat_clock (e : ℕ) : (t + UInt32.ofNat e).toNat = (t.toNat + e) % 2 ^ 32 := by
  simp [UInt32.toNat_add]

/-- The deadline that is stored. -/
theorem toNat_deadline :
    (t + 1000 * onTimeMs).toNat = (t.toNat + 1000 * onTimeMs.toNat) % 2 ^ 32 := by
  simp [UInt32.toNat_add, UInt32.toNat_mul]

/-- A call of `Update` that gets no byte and looks at the LED when the clock shows `now`. -/
def ledCall (now : UInt32) : Call := ⟨{ sampleEnv with timeAtLed := now }, []⟩

/-- Such calls are a run. -/
theorem exists_run_ledCall (cell : SCBS F) (nows : List UInt32) :
    ∃ cell', cell.run (nows.map ledCall) = .ok (cell', []) := by
  induction nows generalizing cell with
  | nil => exact ⟨cell, rfl⟩
  | cons now nows ih =>
    have hupd : cell.update (ledCall now).env (ledCall now).readable =
        .ok ⟨cell.refresh (ledCall now).env, [], []⟩ := rfl
    obtain ⟨cell', hrun⟩ := ih (cell.refresh (ledCall now).env)
    exact ⟨cell', SCBS.run_of_update hupd hrun⟩

variable {t onTimeMs}

theorem timeAtLed_ledCall (now : UInt32) : (ledCall now).env.timeAtLed = now := rfl

/-- A blink that is not noticed is not ended. -/
theorem not_blinkEnds {elapsed : List ℕ} (hpolled : Polled 1000 elapsed)
    (hpast : ∃ e ∈ elapsed, 1000 * onTimeMs.toNat + 1000 < e)
    (hle : ∀ e ∈ elapsed, t + UInt32.ofNat e ≤ t + 1000 * onTimeMs) :
    ¬ BlinkEnds F t onTimeMs := by
  intro h
  cases elapsed with
  | nil =>
    obtain ⟨e, he, -⟩ := hpast
    exact absurd he (by simp)
  | cons e elapsed =>
    have hfirst : (((SCBS.init 0 : SCBS F).turnOnStatusLED t onTimeMs).refresh
        (ledCall (t + UInt32.ofNat e)).env).Lit (t + 1000 * onTimeMs) := by
      apply (SCBS.lit_turnOnStatusLED _ t onTimeMs).refresh
      rw [timeAtLed_ledCall]
      exact hle e List.mem_cons_self
    generalize hcell : ((SCBS.init 0 : SCBS F).turnOnStatusLED t onTimeMs).refresh
        (ledCall (t + UInt32.ofNat e)).env = cell at hfirst
    obtain ⟨cell', hrun⟩ := exists_run_ledCall cell (elapsed.map fun e => t + UInt32.ofNat e)
    have hend := SCBS.run_lit hfirst hrun (by
      intro call hcall
      obtain ⟨now, hnow, rfl⟩ := List.mem_map.1 hcall
      obtain ⟨e', he', rfl⟩ := List.mem_map.1 hnow
      rw [timeAtLed_ledCall]
      exact hle e' (List.mem_cons_of_mem e he'))
    have hclocks : (ledCall (t + UInt32.ofNat e)).env.timeAtLed ::
        ((elapsed.map fun e => t + UInt32.ofNat e).map ledCall).map (·.env.timeAtLed) =
          (e :: elapsed).map (fun e => t + UInt32.ofNat e) := by
      simp only [List.map_map, List.map_cons, timeAtLed_ledCall, Function.comp_def]
    rw [← hcell] at hrun
    have hoff := h (SCBS.init 0) cell' (ledCall (t + UInt32.ofNat e)).env
      ((elapsed.map fun e => t + UInt32.ofNat e).map ledCall) (e :: elapsed) hclocks hpolled
      hrun hpast
    rw [hend.on] at hoff
    exact Bool.noConfusion hoff.1

/-- A blink that is noticed is ended. -/
theorem dark_of_noticed {cell cell' : SCBS F} {env : Env} {calls : List Call} {elapsed : List ℕ}
    (hclocks : env.timeAtLed :: calls.map (·.env.timeAtLed) =
      elapsed.map (fun e => t + UInt32.ofNat e))
    (h : ((cell.turnOnStatusLED t onTimeMs).refresh env).run calls = .ok (cell', []))
    (hlt : ∃ e ∈ elapsed, t + 1000 * onTimeMs < t + UInt32.ofNat e) : cell'.Dark := by
  have hlit := cell.lit_turnOnStatusLED t onTimeMs
  obtain ⟨e, he, hlate⟩ := hlt
  have hmem : t + UInt32.ofNat e ∈ env.timeAtLed :: calls.map (·.env.timeAtLed) := by
    rw [hclocks]
    exact List.mem_map_of_mem he
  by_cases hnow : t + 1000 * onTimeMs < env.timeAtLed
  · exact SCBS.run_dark (hlit.refresh_of_lt hnow) h
  · apply SCBS.run_dark_of_lt (hlit.refresh (UInt32.not_lt.1 hnow)) h
    rcases List.mem_cons.1 hmem with hmem | hmem
    · rw [hmem] at hlate
      exact absurd hlate hnow
    · obtain ⟨call, hcall, htime⟩ := List.mem_map.1 hmem
      exact ⟨call, hcall, by rw [htime]; exact hlate⟩

end Blink

/-- The times that `TurnOnStatusLED` is called with. -/
def blinkTimes : List UInt32 :=
  [kPacketReceivedBlinkTimeMs, kRegisterWriteBlinkTimeMs, kRegisterReadBlinkTimeMs]

theorem toNat_le_of_mem_blinkTimes {onTimeMs : UInt32} (h : onTimeMs ∈ blinkTimes) :
    onTimeMs.toNat ≤ 500 := by
  simp only [blinkTimes, List.mem_cons, List.not_mem_nil, or_false] at h
  rcases h with rfl | rfl | rfl
  · decide
  · decide
  · decide

/-- **When the LED goes off in time.**  Exactly when the clock does not wrap within 1 ms of
the deadline that is stored.  (A deadline behind the wrap makes a short blink only.) -/
theorem blinkEnds_iff (t onTimeMs : UInt32) (hon : onTimeMs ∈ blinkTimes) :
    BlinkEnds F t onTimeMs ↔ (t + 1000 * onTimeMs).toNat + 1000 < 2 ^ 32 := by
  have hshort : 1000 * onTimeMs.toNat + 1000 < 2 ^ 32 := by
    have := toNat_le_of_mem_blinkTimes hon
    omega
  have hnoticed := deadline_noticed_iff (L := 1000 * onTimeMs.toNat) t.toNat_lt
    (show 0 < 1000 by omega) hshort
  rw [toNat_deadline, ← hnoticed]
  constructor
  · intro h elapsed hpolled hpast
    by_contra hnone
    refine not_blinkEnds hpolled hpast (fun e he => ?_) h
    rw [UInt32.le_iff_toNat_le, toNat_clock, toNat_deadline]
    by_contra hlt
    exact hnone ⟨e, he, not_le.1 hlt⟩
  · intro h cell cell' env calls elapsed hclocks hpolled hrun hpast
    obtain ⟨e, he, hlt⟩ := h elapsed hpolled hpast
    have hdark : cell'.Dark := by
      refine dark_of_noticed hclocks hrun ⟨e, he, ?_⟩
      rw [UInt32.lt_iff_toNat_lt, toNat_clock, toNat_deadline]
      exact hlt
    exact ⟨hdark.on, hdark.pin⟩

end Led

/-- The clock wraps within a blink of 10 ms, which ends in time (here: early). -/
theorem blinkEnds_sample : BlinkEnds ExtRat (2 ^ 32 - 5000) 10 :=
  (blinkEnds_iff (2 ^ 32 - 5000) 10 (by decide)).2 (by decide)

/-- The clock wraps right behind the deadline of a blink of 10 ms: it ends in no call of
`Update`, whatever the clock shows, and so not in time. -/
theorem not_blinkEnds_before_wrap :
    (∀ (cell cell' : SCBS ExtRat) (calls : List Call),
      (cell.turnOnStatusLED (2 ^ 32 - 1 - 10000) 10).run calls = .ok (cell', []) →
        cell'.statusLedOn = true) ∧
      ¬ BlinkEnds ExtRat (2 ^ 32 - 1 - 10000) 10 := by
  have hmax : ∀ now : UInt32, now ≤ 2 ^ 32 - 1 - 10000 + 1000 * 10 := by
    intro now
    rw [UInt32.le_iff_toNat_le]
    exact Nat.le_of_lt_succ now.toNat_lt
  constructor
  · intro cell cell' calls hrun
    exact (SCBS.run_lit (cell.lit_turnOnStatusLED _ _) hrun fun call _ => hmax _).on
  · apply not_blinkEnds (polled_gappedPolls (by omega) 10000)
    · exact ⟨11001, by simp [gappedPolls], by decide⟩
    · intro e _
      exact hmax _

end Scbs
