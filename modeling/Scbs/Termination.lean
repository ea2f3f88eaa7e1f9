import Scbs.Link.Liveness
import Scbs.PackChain

/-!
# Every schedule answers every request

The calls of `Update` may come in any order, each may see any part of the bytes on its link,
and there may be any number of calls that see nothing.

* `Pack.traffic_run` — a request is at most 199 bytes on each link of a chain.
* `chain_finishes` — **so at most 199 calls for each compact request and cell see anything**; as
  long as a response is missing, one more can be made; and then all responses are there.
-/

namespace Scbs

open CLib Link

section Termination

variable {F : Type} [CFloat F]

namespace Pack

variable {pack : Pack F}

/-- A message that fits is at most 199 bytes on each link. -/
theorem traffic_line (hshort : ∀ regs ∈ pack, regs.Short) {m : Msg} (hcompact : m.Compact)
    (hlen : m.contents.length ≤ 187) :
    Machine.traffic LineCell.step pack.idle m.line ≤ 199 * pack.length := by
  induction pack generalizing m with
  | nil => exact Nat.zero_le _
  | cons regs pack ih =>
    obtain ⟨hregs, hpack⟩ := List.forall_mem_cons.1 hshort
    obtain ⟨hcompact', hlen'⟩ := regs.compact_respond hcompact hregs
    have hbody := m.length_body_lt hlen
    have hfeed := regs.feed_asks m.lineFeed_not_mem_body hbody
      (m.asks_body hcompact (by omega)) hcompact hregs
    have hlater := ih hpack hcompact' hlen'
    rw [← Msg.line_eq] at hfeed
    rw [idle, List.map_cons, Machine.traffic_cons hfeed, List.length_cons, Msg.line_eq,
      List.length_append, List.length_singleton]
    rw [kMaxLineLen, kMaxUARTBufLen] at hbody
    rw [idle] at hlater
    omega

/-- So is a line that asks anything. -/
theorem traffic_asks (hne : pack ≠ []) (hshort : ∀ regs ∈ pack, regs.Short)
    {body : List UInt8} {r : Request} (hbody : lineFeed ∉ body) (hlen : body.length < kMaxLineLen)
    (hasks : Asks body r) (hcompact : r.Compact) :
    Machine.traffic LineCell.step pack.idle (body ++ [lineFeed]) ≤ 199 * pack.length := by
  obtain ⟨regs, pack, rfl⟩ := List.exists_cons_of_ne_nil hne
  obtain ⟨hregs, hpack⟩ := List.forall_mem_cons.1 hshort
  -- the bytes on the first link, and those on the others
  have hsum : ∀ {b : LineCell F} {out : List UInt8},
      Machine.feed LineCell.step regs.idle (body ++ [lineFeed]) = some (b, out) →
      Machine.traffic LineCell.step (Pack.idle pack) out ≤ 199 * pack.length →
      Machine.traffic LineCell.step (Pack.idle (regs :: pack)) (body ++ [lineFeed]) ≤
        199 * (regs :: pack).length := by
    intro b out hfeed hrest
    rw [kMaxLineLen, kMaxUARTBufLen] at hlen
    rw [idle, List.map_cons, Machine.traffic_cons hfeed, List.length_cons, List.length_append,
      List.length_singleton]
    rw [idle] at hrest
    omega
  cases r with
  | noise =>
    cases hasks with
    | noise hp =>
      refine hsum (LineCell.feed_line (a := regs.idle) hbody hlen hp) ?_
      rw [show (regs.idle.regs.answer .rejected).2 = [] from rfl, Machine.traffic_nil]
      exact Nat.zero_le _
  | malformed =>
    cases hasks with
    | malformed hp hmal =>
      have hfeed := LineCell.feed_line (a := regs.idle) hbody hlen hp
      simp only [Registers.idle, Registers.answer_malformed hmal] at hfeed
      have herr := Msg.length_contents_le (m := regs.error kErrCodeReceivedInvalidPacket) trivial
      exact hsum hfeed (traffic_line hpack trivial (by omega))
  | msg m =>
    obtain ⟨hcompact', hlen'⟩ := regs.compact_respond (m := m) hcompact hregs
    exact hsum (regs.feed_asks hbody hlen hasks hcompact hregs)
      (traffic_line hpack hcompact' hlen')

/-- **The traffic of some requests.** -/
theorem traffic_run (hwrites : WritesShort F) (hne : pack ≠ [])
    (hshort : ∀ regs ∈ pack, regs.Short) {lines : List (List UInt8)} {requests : List Request}
    (hlines : ∀ line ∈ lines, lineFeed ∉ line ∧ line.length < kMaxLineLen)
    (hasks : List.Forall₂ Asks lines requests) (hcompact : ∀ r ∈ requests, r.Compact) :
    Machine.traffic LineCell.step pack.idle (unlines lineFeed lines) ≤
      199 * pack.length * requests.length := by
  induction hasks generalizing pack with
  | nil => exact (Machine.traffic_nil _).le
  | @cons line r lines requests hline hrest ih =>
    obtain ⟨⟨hfree, hlen⟩, hlines⟩ := List.forall_mem_cons.1 hlines
    obtain ⟨hr, hcompact⟩ := List.forall_mem_cons.1 hcompact
    obtain ⟨hne', hshort'⟩ := step_keeps hwrites hne hshort r
    have hfirst := feedAll_asks hne hshort hfree hlen hline hr
    have hsum := Machine.traffic_append hfirst
      (feedAll_run hwrites hne' hshort' hlines hrest hcompact)
    have hone := traffic_asks hne hshort hfree hlen hline hr
    have hothers := ih hne' hshort' hlines hcompact
    rw [length_step] at hothers
    rw [List.append_assoc, List.singleton_append] at hsum
    rw [unlines_cons, hsum, List.length_cons, Nat.mul_add, Nat.mul_one]
    omega

end Pack

section Chain

variable {sites : List (Site F)} (hne : sites ≠ []) (hidle : ∀ site ∈ sites, site.Idle)
  (hsteady : ∀ site ∈ sites, site.Steady)
  (hshort : ∀ site ∈ sites, site.cell.registers.Short)
include hne hidle hsteady hshort

/-- **Every schedule answers every request.**  When some lines of compact requests have been sent
to idle cells with constant ADC readings: in no run do more than 199 calls of `Update` for each
line and cell see any bytes; either one more such call can be made, or all bytes have been
consumed; and then the responses of the pack have been sent, and the registers are those of the
pack. -/
theorem chain_finishes (hwrites : WritesShort F) {lines : List (List UInt8)}
    {requests : List Request}
    (hlines : ∀ line ∈ lines, lineFeed ∉ line ∧ line.length < kMaxLineLen)
    (hasks : List.Forall₂ Asks lines requests) (hcompact : ∀ r ∈ requests, r.Compact)
    {sent : List (List UInt8)} {n : ℕ} {q : Pipe (Site F) UInt8}
    (hsent : sent.flatten = unlines lineFeed lines)
    (hrun : Pipe.Counted Site.Poll (Pipe.start sites) sent n q) :
    n ≤ 199 * sites.length * requests.length ∧
      ((∃ q', Pipe.Polls Site.Poll 1 q q') ∨
        (q.output = Pack.linesOf ((packOf sites).run requests).2 ∧
          q.states.map (·.cell.registers) = ((packOf sites).run requests).1)) := by
  have hall := Pack.feedAll_run hwrites (packOf_ne_nil hne) (short_packOf hshort) hlines hasks
    hcompact
  have hserves := serves_of_feedAll hidle hsteady hall
  have htraffic := Pack.traffic_run hwrites (packOf_ne_nil hne) (short_packOf hshort) hlines
    hasks hcompact
  constructor
  · rw [idle_packOf, ← hsent] at hall htraffic
    rw [packOf, List.length_map] at htraffic
    refine le_trans (Poller.count_le_traffic (D := cellPoller F)
      (Site.forall₂_machine hidle hsteady) hall (Pack.free_idle _) hrun) htraffic
  · rcases Pipe.quiet_or_polls Site.exists_poll (hserves.sound sent q hsent hrun.run) with
      hquiet | hmore
    · exact Or.inr (hserves.result sent q hsent hrun.run hquiet)
    · exact Or.inl hmore

end Chain

end Termination

/-! ## Exact arithmetic -/

/-- Three lines and two cells, after no call that sees anything. -/
theorem chain_finishes_sample :
    0 ≤ 199 * ([8, 9].map Site.init).length * noisyRequests.length ∧
      ((∃ q', Pipe.Polls Site.Poll 1
          ((Pipe.start ([8, 9].map Site.init)).push (unlines lineFeed noisyLines)) q') ∨
        (((Pipe.start ([8, 9].map Site.init)).push (unlines lineFeed noisyLines)).output =
            Pack.linesOf ((packOf ([8, 9].map Site.init)).run noisyRequests).2 ∧
          ((Pipe.start ([8, 9].map Site.init)).push (unlines lineFeed noisyLines)).states.map
              (·.cell.registers) = ((packOf ([8, 9].map Site.init)).run noisyRequests).1)) :=
  chain_finishes (by simp) Site.idle_init steady_init short_init writesShort_extRat
    (by decide +kernel) asks_noisyLines compact_noisyRequests (List.flatten_singleton ..)
    (.send _ .start)

end Scbs
