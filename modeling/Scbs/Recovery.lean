import Scbs.Meaning

/-!
# Recovery from noise

A cell with the bytes on their way to it, from `Init` on, through any calls of `Update`: the
receive path, and behind it the parsers, on some lines of which they run into a fault, and the
handlers.

* `Reception` — the cell, or the fault it has run into, with the bytes on their way to it and
  the lines on which `Update` constructed `BSPacket`.
* `Reception.Inv` — the invariant of a run, `Reception.run_inv`: the receive path is that of
  `Receiver`, the parse went well on all lines, or on all but the last.
* `recovers_iff` — **after which noise a cell still receives the next packet**: no line of the
  noise fills the receive buffer, and the parse is defined on all of them.
-/

namespace Scbs

open CLib Link

/-! ## Runs -/

/-- Bytes arrive, or `Update` is called while the first `seen` of the pending bytes are
readable. -/
inductive CellEvent where
  | arrive (bytes : List UInt8)
  | update (env : Env) (seen : ℕ)

/-- The bytes that arrive. -/
def CellEvent.bytes : CellEvent → List UInt8
  | .arrive bytes => bytes
  | .update _ _ => []

/-- The surroundings of the calls of `Update` are of this kind. -/
def CellEvent.In (P : Env → Prop) : CellEvent → Prop
  | .arrive _ => True
  | .update env _ => P env

/-- A cell with the bytes on their way to it and the lines that `Update` has handed to the
parsers.  A cell that has run into a fault does nothing any more. -/
structure Reception (F : Type) where
  cell : Except Fault (SCBS F)
  pending : List UInt8
  handed : List (List UInt8)

/-- The parse went well on the line, in surroundings of this kind. -/
def ParsedIn (P : Env → Prop) (line : List UInt8) : Prop :=
  ∃ env packet, P env ∧ SCBS.parse env line = .ok packet

namespace Reception

variable {F : Type} [CFloat F]

/-- The state after `Init`. -/
def init (cellId : UInt16) : Reception F := ⟨.ok (SCBS.init cellId), [], []⟩

def step (r : Reception F) : CellEvent → Reception F
  | .arrive bytes => { r with pending := r.pending ++ bytes }
  | .update env seen =>
    match r.cell with
    | .error _ => r
    | .ok cell =>
      let (_, unread, line) := cell.toUartRx.poll (r.pending.take seen)
      { cell := (cell.update env (r.pending.take seen)).map (·.cell)
        pending := unread ++ r.pending.drop seen
        handed := r.handed ++ line.toList }

def run (r : Reception F) (evs : List CellEvent) : Reception F := evs.foldl step r

theorem run_append (r : Reception F) (evs evs' : List CellEvent) :
    r.run (evs ++ evs') = (r.run evs).run evs' :=
  List.foldl_append

/-- The bytes that arrive in a run. -/
def arrived (evs : List CellEvent) : List UInt8 := evs.flatMap CellEvent.bytes

/-- **The invariant of a run.**  The receive path has cut the bytes into lines, as long as the
cell runs; these have gone through the parsers, and if the cell has run into a fault then it
was on the last of them. -/
structure Inv (P : Env → Prop) (r : Reception F) (bytes : List UInt8) (lines : List (List UInt8))
    (rest : List UInt8) : Prop where
  receiver : ∃ rx, Receiver.Inv ⟨rx, r.pending, r.handed⟩ bytes lines rest ∧
    ∀ cell, r.cell = .ok cell → cell.toUartRx = rx
  parsed : ∀ cell, r.cell = .ok cell → ∀ line ∈ r.handed, ParsedIn P line
  faulted : ∀ fault, r.cell = .error fault → ∃ ls line env, r.handed = ls ++ [line] ∧
    (∀ l ∈ ls, ParsedIn P l) ∧ P env ∧ SCBS.parse env line = .error fault

variable {P : Env → Prop} {r : Reception F} {bytes rest : List UInt8} {lines : List (List UInt8)}

theorem inv_init (cellId : UInt16) : (init cellId : Reception F).Inv P [] [] [] := by
  refine ⟨⟨_, Receiver.inv_init, ?_⟩, fun _ _ => by simp [init], fun fault h => ?_⟩
  · intro cell hcell
    rw [← Except.ok.inj hcell]
    rfl
  · exact absurd h (by simp [init])

/-- A call of `Update`, of a cell that runs. -/
theorem Inv.update (h : r.Inv P bytes lines rest) {cell : SCBS F} (hcell : r.cell = .ok cell)
    {env : Env} (henv : P env) (seen : ℕ) :
    ∃ lines' rest', (r.step (.update env seen)).Inv P bytes lines' rest' := by
  obtain ⟨rx, hinv, hrx⟩ := h.receiver
  obtain rfl := hrx cell hcell
  have hparsed := h.parsed cell hcell
  obtain ⟨lines', rest', hinv'⟩ := Receiver.inv_update hinv seen
  refine ⟨lines', rest', ?_⟩
  simp only [Receiver.step] at hinv'
  unfold step
  rw [hcell]
  dsimp only
  rw [SCBS.update_poll]
  generalize cell.toUartRx.poll (r.pending.take seen) = res at hinv' ⊢
  obtain ⟨rx, unread, line⟩ := res
  cases line with
  | none =>
    refine ⟨⟨rx, hinv', ?_⟩, fun _ _ => by simpa using hparsed, fun fault hfault => ?_⟩
    · intro cell' hcell'
      rw [← Except.ok.inj hcell', SCBS.refresh_toUartRx]
    · exact absurd hfault (by simp [Except.map])
  | some line =>
    dsimp only
    rw [SCBS.dispatch_eq]
    cases hparse : SCBS.parse env line with
    | error fault =>
      refine ⟨⟨rx, hinv', ?_⟩, ?_, fun fault' hfault => ?_⟩
      · intro cell' hcell'
        exact absurd hcell' (by simp [Except.map])
      · intro cell' hcell'
        exact absurd hcell' (by simp [Except.map])
      · obtain rfl : fault = fault' := Except.error.inj hfault
        exact ⟨r.handed, line, env, rfl, hparsed, henv, hparse⟩
    | ok packet =>
      refine ⟨⟨rx, hinv', ?_⟩, ?_, fun fault hfault => ?_⟩
      · intro cell' hcell'
        rw [← Except.ok.inj hcell', SCBS.refresh_toUartRx]
      · intro _ _ l hl
        rcases List.mem_append.1 hl with hl | hl
        · exact hparsed l hl
        · rw [List.mem_singleton.1 hl]
          exact ⟨env, packet, henv, hparse⟩
      · exact absurd hfault (by simp [Except.map])

/-- Each event keeps the invariant. -/
theorem inv_step (h : r.Inv P bytes lines rest) (ev : CellEvent) (hev : ev.In P) :
    ∃ lines' rest', (r.step ev).Inv P (bytes ++ ev.bytes) lines' rest' := by
  cases ev with
  | arrive more =>
    obtain ⟨rx, hinv, hrx⟩ := h.receiver
    obtain ⟨lines', rest', hinv'⟩ := Receiver.inv_step hinv (.arrive more)
    exact ⟨lines', rest', ⟨rx, hinv', hrx⟩, h.parsed, h.faulted⟩
  | update env seen =>
    rw [CellEvent.bytes, List.append_nil]
    cases hcell : r.cell with
    | error fault =>
      have hstep : r.step (.update env seen) = r := by
        unfold step
        rw [hcell]
      rw [hstep]
      exact ⟨lines, rest, h⟩
    | ok cell => exact h.update hcell hev seen

/-- **Every run keeps the invariant.** -/
theorem run_inv (h : r.Inv P bytes lines rest) (evs : List CellEvent) (hevs : ∀ ev ∈ evs, ev.In P) :
    ∃ lines' rest', (r.run evs).Inv P (bytes ++ arrived evs) lines' rest' := by
  induction evs generalizing r bytes lines rest with
  | nil => exact ⟨lines, rest, by simpa [run, arrived] using h⟩
  | cons ev evs ih =>
    obtain ⟨hev, hevs⟩ := List.forall_mem_cons.1 hevs
    obtain ⟨l₁, r₁, h₁⟩ := inv_step h ev hev
    obtain ⟨l₂, r₂, h₂⟩ := ih h₁ hevs
    exact ⟨l₂, r₂, by simpa [run, arrived, List.append_assoc] using h₂⟩

/-- The calls of `Update` may be made in any surroundings. -/
theorem run_init_inv (cellId : UInt16) (evs : List CellEvent) : ∃ lines rest,
    ((init cellId : Reception F).run evs).Inv (fun _ => True) (arrived evs) lines rest := by
  simpa using run_inv (inv_init (F := F) cellId) evs fun ev _ => by cases ev <;> trivial

end Reception

/-! ## Lines before the last -/

section Lines

variable {F : Type} {P : Env → Prop} {r : Reception F} {bytes rest : List UInt8}
  {lines segs : List (List UInt8)} {l body : List UInt8}

theorem Reception.Inv.handed_eq (h : r.Inv P bytes lines rest) :
    r.handed = lines.map handedLine := by
  obtain ⟨rx, hinv, -⟩ := h.receiver
  exact hinv.handed

/-- A drained cell has handed over the stream as it is cut. -/
theorem Reception.Inv.drained {ls : List (List UInt8)} {q : List UInt8} (h : r.Inv P bytes ls q)
    (hcut : Cut lineFeed bytes lines rest) (hpend : r.pending = []) : r.Inv P bytes lines rest := by
  obtain ⟨rx, hinv, hrx⟩ := h.receiver
  exact ⟨⟨rx, hinv.drained hcut hpend, hrx⟩, h.parsed, h.faulted⟩

/-- The parse went well on all lines before the last. -/
theorem Reception.Inv.parsed_before (h : r.Inv P bytes (lines ++ [l]) rest) :
    ∀ x ∈ lines, ParsedIn P (handedLine x) := by
  have hhanded : r.handed = lines.map handedLine ++ [handedLine l] := by
    rw [h.handed_eq, List.map_append]
    rfl
  intro x hx
  have hmem : handedLine x ∈ lines.map handedLine := List.mem_map_of_mem hx
  cases hcell : r.cell with
  | ok cell =>
    apply h.parsed cell hcell
    rw [hhanded]
    exact List.mem_append_left _ hmem
  | error fault =>
    obtain ⟨ls, line, env, heq, hls, -⟩ := h.faulted fault hcell
    obtain ⟨rfl, -⟩ := List.append_inj' (heq.symm.trans hhanded) rfl
    exact hls _ hmem

/-- As long as bytes of a stream of whole lines are pending, its last line has not been handed
over. -/
theorem Receiver.Inv.mem_segs {r : Receiver} (h : r.Inv bytes lines rest)
    (hcut : Cut lineFeed bytes (segs ++ [body]) []) (hne : r.pending ≠ []) :
    ∀ x ∈ lines, x ∈ segs := by
  obtain ⟨consumed, hcons, hbytes⟩ := h.cut
  obtain ⟨ms, q, hpend⟩ := exists_cut lineFeed r.pending
  rw [hbytes] at hcut
  cases ms with
  | nil =>
    -- the pending bytes would be a line without its end
    have hq : r.pending = q := by simpa using hpend.eq
    obtain ⟨-, hrest⟩ := (hcons.snoc (hq ▸ hpend.rest_free)).unique hcut
    exact absurd (List.append_eq_nil_iff.1 hrest).2 hne
  | cons m ms =>
    obtain ⟨hlines, -⟩ := (hcons.join hpend).unique hcut
    have hsegs := congrArg List.dropLast hlines
    rw [List.dropLast_append_of_ne_nil (List.cons_ne_nil _ _), List.dropLast_concat] at hsegs
    intro x hx
    rw [← hsegs]
    exact List.mem_append_left _ hx

/-- As long as bytes are pending, a cell runs when the parse is defined on the lines before
the last. -/
theorem Reception.Inv.running (h : r.Inv P bytes lines rest)
    (hcut : Cut lineFeed bytes (segs ++ [body]) []) (hdef : ∀ seg ∈ segs, LineDefined seg)
    (hne : r.pending ≠ []) : ∃ cell, r.cell = .ok cell := by
  cases hcell : r.cell with
  | ok cell => exact ⟨cell, rfl⟩
  | error fault =>
    obtain ⟨rx, hinv, -⟩ := h.receiver
    obtain ⟨ls, line, env, hhanded, -, -, hparse⟩ := h.faulted fault hcell
    have hline : line ∈ lines.map handedLine := by
      rw [← h.handed_eq, hhanded]
      exact List.mem_append_right _ (List.mem_singleton_self line)
    obtain ⟨x, hx, rfl⟩ := List.mem_map.1 hline
    have hseg := hdef x (hinv.mem_segs hcut hne x hx)
    obtain ⟨packet, hpacket⟩ := (exists_packetOf_iff (no_nul_handedLine x)).1 hseg env
    exact absurd (hpacket.symm.trans hparse) (by simp)

/-- A call of `Update` that sees all pending bytes takes at least one of them. -/
theorem Reception.Inv.pending_lt [CFloat F] (h : r.Inv P bytes lines rest) {cell : SCBS F}
    (hcell : r.cell = .ok cell) (hlt : rest.length < 199) (hne : r.pending ≠ []) (env : Env) :
    (r.step (.update env r.pending.length)).pending.length < r.pending.length := by
  obtain ⟨rx, hinv, hrx⟩ := h.receiver
  obtain rfl := hrx cell hcell
  have hstep := hinv.pending_lt hlt hne
  unfold Reception.step
  rw [hcell]
  exact hstep

end Lines

/-! ## Recovery -/

/-- A buffer from which `ReceivePacket` never consumes another byte. -/
def Stuck (rx : UartRx) : Prop := ∀ readable, (rx.receivePacket readable).2.1 = readable

/-- The cell receives the line `p` after the noise `s` and a newline, in whatever portions the
bytes arrive: calls of `Update` that see all the pending bytes drain them, in any surroundings;
once drained `p` is the last line on which `BSPacket` was constructed; and at no time on the
way is the receive path stuck. -/
structure Recovers (F : Type) [CFloat F] (cellId : UInt16) (s p : List UInt8) : Prop where
  drains : ∀ evs, Reception.arrived evs = s ++ lineFeed :: p → ∀ env, ∃ more : List ℕ,
    ((Reception.init cellId : Reception F).run (evs ++ more.map (.update env))).pending = []
  finds : ∀ evs, Reception.arrived evs = s ++ lineFeed :: p →
    ((Reception.init cellId : Reception F).run evs).pending = [] →
      ((Reception.init cellId : Reception F).run evs).handed.getLast? = some p
  alive : ∀ evs, Reception.arrived evs <+: s ++ lineFeed :: p → ∀ cell : SCBS F,
    ((Reception.init cellId).run evs).cell = .ok cell → ¬ Stuck cell.toUartRx

theorem not_stuck {rx : UartRx} {raw : List UInt8} (h : Holds rx raw) (hlt : raw.length < 199) :
    ¬ Stuck rx := by
  intro hs
  have hspec := receivePacket_spec h [lineFeed]
  generalize hres : rx.receivePacket [lineFeed] = res at hspec
  have hrest := hs [lineFeed]
  rw [hres] at hrest
  cases hspec with
  | @partly rx' u rest hread _ _ hend =>
    obtain rfl := hrest
    rcases hend with hend | hend
    · exact absurd hend (by simp)
    · -- nothing was taken, so the counter was at its limit before the call
      have hnil : u = [] := by simpa using hread
      rw [hnil, List.append_nil] at hend
      omega
  | line hread hu _ _ _ =>
    obtain rfl := hrest
    exact absurd (congrArg List.length hread) (by simp)

/-- The stream of some noise, a newline and a line. -/
theorem IsLine.cut_after {p : List UInt8} (hp : IsLine p) (s : List UInt8) :
    ∃ body, p = handedLine body ∧ body.length ≤ 198 ∧
      Cut lineFeed (s ++ lineFeed :: p) (s.splitOn lineFeed ++ [body]) [] := by
  obtain ⟨body, rfl, hbody, hnul⟩ := hp.body
  obtain ⟨ls, r, hcut⟩ := exists_cut lineFeed s
  have hfits := hp.fits
  rw [List.length_append, List.length_singleton] at hfits
  refine ⟨body, (handedLine_of_no_nul hnul).symm, Nat.le_of_succ_le_succ hfits, ?_⟩
  rw [hcut.splitOn_eq]
  simpa using hcut.snoc_delim.snoc_line hbody

section Recovers

variable {F : Type} [CFloat F] {cellId : UInt16} {s p : List UInt8}

/-- Calls of `Update` drain a stream of short lines, when the parse is defined on those before
the last. -/
theorem Reception.drains {stream body : List UInt8} {segs : List (List UInt8)}
    (hcut : Cut lineFeed stream (segs ++ [body]) [])
    (hshort : ∀ seg ∈ stream.splitOn lineFeed, seg.length ≤ 198)
    (hdef : ∀ seg ∈ segs, LineDefined seg) (env : Env) {evs : List CellEvent}
    (hd : arrived evs = stream) :
    ∃ more : List ℕ,
      ((init cellId : Reception F).run (evs ++ more.map (.update env))).pending = [] := by
  simp only [← List.length_eq_zero_iff]
  refine exists_drained (fun evs => arrived evs = stream)
    (fun evs => ((init cellId : Reception F).run evs).pending.length) (.update env) ?_ hd
  intro evs hd hpend
  have hne : ((init cellId : Reception F).run evs).pending ≠ [] :=
    fun hnil => hpend (List.length_eq_zero_iff.2 hnil)
  obtain ⟨lines, rest, hinv⟩ := run_init_inv (F := F) cellId evs
  rw [hd] at hinv
  obtain ⟨cell, hcell⟩ := hinv.running hcut hdef hne
  obtain ⟨rx, hrx, -⟩ := hinv.receiver
  refine ⟨((init cellId : Reception F).run evs).pending.length, ?_, ?_⟩
  · rw [arrived, List.flatMap_append]
    simpa [CellEvent.bytes, arrived] using hd
  · rw [run_append]
    exact hinv.pending_lt hcell (hrx.rest_lt hshort (List.prefix_refl _)) hne env

/-- A cell that recovers has taken all lines of the noise, and its parsers have got through
them. -/
theorem Recovers.segments (h : Recovers F cellId s p) (hp : IsLine p) :
    ∀ seg ∈ s.splitOn lineFeed, seg.length ≤ 198 ∧ LineDefined seg := by
  obtain ⟨body, -, -, hcut⟩ := hp.cut_after s
  -- for any surroundings, a run whose calls are all made in them
  have hrun : ∀ env, ∃ r : Reception F,
      r.Inv (fun e => e = env) (s ++ lineFeed :: p) (s.splitOn lineFeed ++ [body]) [] := by
    intro env
    have hd : Reception.arrived [.arrive (s ++ lineFeed :: p)] = s ++ lineFeed :: p := by
      simp [Reception.arrived, CellEvent.bytes]
    obtain ⟨more, hpend⟩ := h.drains _ hd env
    obtain ⟨lines, rest, hinv⟩ := Reception.run_inv (P := fun e => e = env)
      (Reception.inv_init (F := F) cellId)
      ([.arrive (s ++ lineFeed :: p)] ++ more.map (.update env)) (by simp [CellEvent.In])
    have harr : Reception.arrived ([.arrive (s ++ lineFeed :: p)] ++ more.map (.update env)) =
        s ++ lineFeed :: p := by
      simp [Reception.arrived, CellEvent.bytes, List.flatMap_map]
    rw [List.nil_append, harr] at hinv
    exact ⟨_, hinv.drained hcut hpend⟩
  intro seg hseg
  refine ⟨?_, (exists_packetOf_iff (no_nul_handedLine seg)).2 fun env => ?_⟩
  · obtain ⟨r, hinv⟩ := hrun sampleEnv
    obtain ⟨rx, hrx, -⟩ := hinv.receiver
    exact hrx.short seg (List.mem_append_left _ hseg)
  · obtain ⟨r, hinv⟩ := hrun env
    obtain ⟨_, packet, rfl, hparse⟩ := hinv.parsed_before seg hseg
    exact ⟨packet, hparse⟩

/-- **Recovery.**  A cell receives the next packet after a newline exactly when no 199 bytes of
the noise stand between two newlines, since that many fill the counter and the loop guard then
stops every call before it reads a byte, and the parse is defined on every line of the noise,
since a fault ends the program. -/
theorem recovers_iff (cellId : UInt16) (s p : List UInt8) (hp : IsLine p) :
    Recovers F cellId s p ↔
      ∀ seg ∈ s.splitOn lineFeed, seg.length ≤ 198 ∧ LineDefined seg := by
  constructor
  · intro h
    exact h.segments hp
  · intro hs
    obtain ⟨body, hbody, hfits, hcut⟩ := hp.cut_after s
    have hshort : ∀ seg ∈ (s ++ lineFeed :: p).splitOn lineFeed, seg.length ≤ 198 := by
      rw [hcut.splitOn_eq]
      intro seg hseg
      simp only [List.mem_append, List.mem_singleton] at hseg
      rcases hseg with (hseg | rfl) | rfl
      · exact (hs seg hseg).1
      · exact hfits
      · exact Nat.zero_le _
    refine ⟨fun evs hd env => ?_, fun evs hd hpend => ?_, fun evs hd cell hcell => ?_⟩
    · exact Reception.drains hcut hshort (fun seg hseg => (hs seg hseg).2) env hd
    · obtain ⟨lines, rest, h⟩ := Reception.run_init_inv (F := F) cellId evs
      rw [hd] at h
      rw [(h.drained hcut hpend).handed_eq, hbody]
      simp
    · obtain ⟨lines, rest, h⟩ := Reception.run_init_inv (F := F) cellId evs
      obtain ⟨rx, hrx, hcellrx⟩ := h.receiver
      rw [hcellrx cell hcell]
      exact not_stuck hrx.holds (hrx.rest_lt hshort hd)

end Recovers

theorem lineDefined_of_no_star {body : List UInt8} (h : star ∉ body) : LineDefined body := by
  refine ⟨.rejected, packetOf_of_no_star ?_⟩
  rw [List.mem_append, not_or]
  exact ⟨fun hmem => h (List.mem_of_mem_filter hmem), by decide⟩

theorem recovers_sample : Recovers ExtRat 0 [0, 255, 10, 65] sampleLine := by
  refine (recovers_iff 0 [0, 255, 10, 65] sampleLine isLine_sampleLine).2 ?_
  have hsplit : ([0, 255, 10, 65] : List UInt8).splitOn lineFeed = [[0, 255], [65]] := by
    decide
  rw [hsplit]
  simp only [List.forall_mem_cons, List.not_mem_nil, false_implies, implies_true, and_true]
  exact ⟨⟨by decide, lineDefined_of_no_star (by decide)⟩,
    ⟨by decide, lineDefined_of_no_star (by decide)⟩⟩

/-- 199 bytes of noise without a newline, or a read without its last field, and no packet is
ever found again. -/
theorem not_recovers_from_noise :
    IsLine sampleLine ∧ ¬ Recovers ExtRat 0 (List.replicate 199 65) sampleLine ∧
      ¬ Recovers ExtRat 0 (ascii "$BSSRD,1*49") sampleLine := by
  have hsegment : ∀ {s : List UInt8}, lineFeed ∉ s → s ∈ s.splitOn lineFeed := by
    intro s hs
    have hcut : Cut lineFeed s [] s := ⟨rfl, by simp, hs⟩
    rw [hcut.splitOn_eq]
    simp
  refine ⟨isLine_sampleLine, fun h => ?_, fun h => ?_⟩
  · have hfree : lineFeed ∉ List.replicate 199 (65 : UInt8) :=
      fun hmem => absurd (List.eq_of_mem_replicate hmem) (by decide)
    have hlen := (h.segments isLine_sampleLine _ (hsegment hfree)).1
    rw [List.length_replicate] at hlen
    omega
  · obtain ⟨packet, hpacket⟩ := (h.segments isLine_sampleLine _ (hsegment (by decide))).2
    have hnone : (packetOf (handedLine (ascii "$BSSRD,1*49"))).isSome = false := by
      decide +kernel
    rw [handedLine] at hnone
    rw [hpacket] at hnone
    exact absurd hnone (by simp)

end Scbs
