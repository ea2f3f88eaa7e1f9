import Scbs.Safety
import Scbs.PackChain

/-!
# What noise leaves behind

Noise is any whole lines on which the parse is defined.  It may write registers, and it may
jam a cell: with a line that is too long for its receive buffer, or with a packet that a cell
before it makes too long.

* `LineCell.exists_feedAll_lines` — behind whole lines every cell has jammed or waits for the
  next line.
* `LineCell.exists_feedAll_of_jammed` — behind a cell that has jammed nothing moves.
* `chain_recovers` — **a chain is silent for good, or serves what follows like a pack**, when
  this is compact requests: there is nothing in between.
* `chain_silenced` — **a line that fills the buffer ends the service**, and the responses to
  what came before it still come out.
-/

namespace Scbs

open CLib Link

section Noise

variable {F : Type} [CFloat F]

/-! ## Registers -/

/-- Whatever a cell is told, its registers stay short. -/
theorem Registers.short_answer (hrails : ∀ x : F, PrintsShort (SCBS.railVoltage x))
    {regs : Registers F} (hshort : regs.Short) (packet : Packet) :
    (regs.answer packet).1.Short := by
  have hvolt : (regs.answer packet).1.voltage = _ :=
    (regs.cell.handle_spec sampleEnv packet).outputVoltage
  have hcur := regs.answer_current packet
  intro addr own hown
  rw [read_eq_some_iff, hcur] at hown
  cases hw : Handled.written ⟨regs.cell.cellId, packet⟩ with
  | none =>
    rw [hvolt, hw] at hown
    exact hshort addr own (read_eq_some_iff.2 hown)
  | some v =>
    have hrailed := hrails (CFloat.strtof v)
    rw [hvolt, hw] at hown
    unfold SCBS.registerText at hown
    by_cases haddr : addr = kRegAddrSetOutputVoltage
    · rw [if_pos haddr] at hown
      rw [← Option.some.inj hown]
      exact le_trans (List.length_take_le' _ _) (le_trans hrailed (by omega))
    · rw [if_neg haddr] at hown
      refine hshort addr own ?_
      rw [read_eq_some_iff, SCBS.registerText, if_neg haddr]
      exact hown

namespace LineCell

variable {a b : LineCell F} {as bs : List (LineCell F)} {out : List UInt8}

theorem step_short (hrails : ∀ x : F, PrintsShort (SCBS.railVoltage x)) {c : UInt8}
    (h : a.regs.Short) (hstep : step a c = some (b, out)) : b.regs.Short := by
  unfold step at hstep
  split at hstep
  · obtain ⟨rfl, -⟩ := Prod.mk.inj (Option.some.inj hstep)
    exact h
  · split at hstep
    · obtain ⟨packet, -, heq⟩ := Option.map_eq_some_iff.1 hstep
      obtain ⟨rfl, -⟩ := Prod.mk.inj heq
      exact Registers.short_answer hrails h packet
    · obtain ⟨rfl, -⟩ := Prod.mk.inj (Option.some.inj hstep)
      exact h

/-! ## Rows of cells -/

/-- **Behind whole lines**, every cell has jammed or is between two lines. -/
theorem exists_feedAll_lines {lines : List (List UInt8)} (has : ∀ a ∈ as, a.Settled)
    (hfree : ∀ line ∈ lines, lineFeed ∉ line) (hdef : ∀ line ∈ lines, LineDefined line) :
    ∃ bs out, Machine.feedAll step as (unlines lineFeed lines) = some (bs, out) ∧
      ∀ b ∈ bs, b.Settled := by
  induction as generalizing lines with
  | nil => exact ⟨[], _, rfl, by simp⟩
  | cons a as ih =>
    obtain ⟨ha, has⟩ := List.forall_mem_cons.1 has
    obtain ⟨b, replies, hfeed, hreplies, hb⟩ := exists_feed_lines ha hfree hdef
    obtain ⟨lines', hcut, hdef'⟩ := cut_of_replies hreplies
    obtain ⟨bs, out, hall, hbs⟩ := ih has hcut.lines_free hdef'
    rw [← List.append_nil (unlines lineFeed lines'), ← hcut.eq] at hall
    exact ⟨b :: bs, out, Machine.feedAll_of_feed hfeed hall, List.forall_mem_cons.2 ⟨hb, hbs⟩⟩

/-- **Behind a cell that has jammed nothing moves.** -/
theorem exists_feedAll_of_jammed {bytes rest : List UInt8} {lines : List (List UInt8)}
    (has : ∀ a ∈ as, a.Settled) (hjam : ∃ a ∈ as, a.Jammed) (hcut : Cut lineFeed bytes lines rest)
    (hdef : ∀ line ∈ lines, LineDefined line) :
    ∃ bs, Machine.feedAll step as bytes = some (bs, []) := by
  induction as generalizing bytes lines rest with
  | nil => simp at hjam
  | cons a as ih =>
    obtain ⟨ha, has⟩ := List.forall_mem_cons.1 has
    by_cases hfull : a.Jammed
    · exact ⟨a :: as, Machine.feedAll_of_feed (feed_of_jammed hfull bytes)
        (Machine.feedAll_nil as)⟩
    · obtain ⟨b, replies, hfeed, hreplies⟩ := exists_feed ha hcut hdef
      obtain ⟨lines', hcut', hdef'⟩ := cut_of_replies hreplies
      have hlater : ∃ x ∈ as, x.Jammed := by
        obtain ⟨x, hx, hxjam⟩ := hjam
        rcases List.mem_cons.1 hx with rfl | hx
        · exact absurd hxjam hfull
        · exact ⟨x, hx, hxjam⟩
      obtain ⟨bs, hall⟩ := ih has hlater hcut' hdef'
      exact ⟨b :: bs, Machine.feedAll_of_feed hfeed hall⟩

omit [CFloat F] in
/-- Cells between two lines are a pack. -/
theorem eq_idle (h : ∀ a ∈ as, a.raw = []) : as = Pack.idle (as.map LineCell.regs) := by
  have heq : ∀ a ∈ as, a.regs.idle = a := by
    intro a ha
    rw [Registers.idle, ← h a ha]
  rw [Pack.idle, List.map_map]
  exact ((List.map_congr_left heq).trans (List.map_id as)).symm

end LineCell

omit [CFloat F] in
theorem Pack.regs_idle (pack : Pack F) : pack.idle.map LineCell.regs = pack := by
  rw [idle, List.map_map]
  exact List.map_id pack

/-! ## Chains -/

/-- Behind these bytes the chain has said all that it says: whatever follows, if the parse is
defined on it, nothing else comes out. -/
def Silenced (sites : List (Site F)) (bytes out : List UInt8) : Prop :=
  ∀ more lines rest, Cut lineFeed more lines rest → (∀ line ∈ lines, LineDefined line) →
    ∃ cells, Determined sites (bytes ++ more) cells out

/-- Behind these bytes the chain serves compact requests like this pack. -/
def Recovered (sites : List (Site F)) (bytes out : List UInt8) (pack : Pack F) : Prop :=
  ∀ (lines : List (List UInt8)) (requests : List Request),
    (∀ line ∈ lines, lineFeed ∉ line ∧ line.length < kMaxLineLen) →
    List.Forall₂ Asks lines requests → (∀ r ∈ requests, r.Compact) →
    Determined sites (bytes ++ unlines lineFeed lines) (pack.run requests).1.idle
      (out ++ Pack.linesOf (pack.run requests).2)

variable {sites : List (Site F)} (hne : sites ≠ []) (hidle : ∀ site ∈ sites, site.Idle)
  (hsteady : ∀ site ∈ sites, site.Steady)
  (hshort : ∀ site ∈ sites, site.cell.registers.Short)
  (hrails : ∀ x : F, PrintsShort (SCBS.railVoltage x))
include hrails

theorem writesShort_of_rails : WritesShort F :=
  fun v => le_trans (hrails (CFloat.strtof v.text)) (by omega)

include hne hidle hsteady hshort

/-- **A chain is silent for good behind some noise, or as good as new.**  Whatever whole lines
cells with constant ADC readings have received since they were idle, as long as the parse is
defined on them: either nothing comes out any more, whatever follows on which it is defined, or
all compact requests are served like the pack that the cells make up. -/
theorem chain_recovers {lines : List (List UInt8)} (hfree : ∀ line ∈ lines, lineFeed ∉ line)
    (hdef : ∀ line ∈ lines, LineDefined line) :
    ∃ out, Silenced sites (unlines lineFeed lines) out ∨
      ∃ pack, pack.length = sites.length ∧
        Recovered sites (unlines lineFeed lines) out pack := by
  obtain ⟨bs, out, hall, hbs⟩ :=
    LineCell.exists_feedAll_lines (Site.settled_machine sites) hfree hdef
  refine ⟨out, ?_⟩
  by_cases hjam : ∃ b ∈ bs, b.Jammed
  · left
    intro more lines' rest hcut hdef'
    obtain ⟨cells, hmore⟩ := LineCell.exists_feedAll_of_jammed hbs hjam hcut hdef'
    have htotal := Machine.feedAll_concat hall hmore
    rw [List.append_nil] at htotal
    exact ⟨cells, determined_of_feedAll hidle hsteady htotal⟩
  · right
    have hraw : ∀ b ∈ bs, b.raw = [] :=
      fun b hb => (hbs b hb).resolve_left fun h => hjam ⟨b, hb, h⟩
    have hlen := Machine.length_feedAll hall
    rw [List.length_map] at hlen
    -- no line of the noise has made the registers long
    have hregs : ∀ regs ∈ bs.map LineCell.regs, regs.Short := by
      have hkeep := Machine.feedAll_preserves (P := fun b : LineCell F => b.regs.Short)
        (LineCell.step_short hrails) (by
          intro a ha
          obtain ⟨site, hsite, rfl⟩ := List.mem_map.1 ha
          exact hshort site hsite) hall
      intro regs h
      obtain ⟨b, hb, rfl⟩ := List.mem_map.1 h
      exact hkeep b hb
    have hpack : bs.map LineCell.regs ≠ [] := by
      rw [← List.length_pos_iff, List.length_map, hlen]
      exact List.length_pos_iff.2 hne
    refine ⟨bs.map LineCell.regs, by rw [List.length_map, hlen], ?_⟩
    intro lines' requests hlines hasks hcompact
    rw [LineCell.eq_idle hraw] at hall
    exact determined_of_feedAll hidle hsteady (Machine.feedAll_concat hall
      (Pack.feedAll_run (writesShort_of_rails hrails) hpack hregs hlines hasks hcompact))

/-- **A line that fills the receive buffer ends the service** of idle cells with constant ADC
readings.  The responses to the compact requests before it come out, and then nothing, whatever
follows: the end of the line brings the chain back as little as anything else. -/
theorem chain_silenced {lines : List (List UInt8)} {requests : List Request}
    (hlines : ∀ line ∈ lines, lineFeed ∉ line ∧ line.length < kMaxLineLen)
    (hasks : List.Forall₂ Asks lines requests) (hcompact : ∀ r ∈ requests, r.Compact)
    {long : List UInt8} (hlong : lineFeed ∉ long) (hfull : kMaxLineLen ≤ long.length)
    (more : List UInt8) :
    ∃ cells, Determined sites (unlines lineFeed lines ++ (long ++ more)) cells
        (Pack.linesOf ((packOf sites).run requests).2) ∧
      cells.map LineCell.regs = ((packOf sites).run requests).1 := by
  have hwrites := writesShort_of_rails hrails
  have hall := Pack.feedAll_run hwrites (packOf_ne_nil hne) (short_packOf hshort) hlines hasks
    hcompact
  have hlen := Machine.length_feedAll hall
  rw [idle_packOf] at hall hlen
  cases hpack : ((packOf sites).run requests).1 with
  | nil =>
    rw [hpack, List.length_map] at hlen
    exact absurd (List.length_eq_zero_iff.1 hlen.symm) hne
  | cons regs pack =>
    rw [hpack] at hall
    -- the line jams the first cell, and nothing that follows gets past it
    obtain ⟨b, hb, hregs, hjam | ⟨-, hlt⟩⟩ := LineCell.feed_open (a := regs.idle) hlong
    · have hmore := Machine.feed_concat hb (LineCell.feed_of_jammed hjam more)
      have htotal := Machine.feedAll_concat hall
        (Machine.feedAll_of_feed hmore (Machine.feedAll_nil (Pack.idle pack)))
      rw [List.append_nil] at htotal
      refine ⟨_, determined_of_feedAll hidle hsteady htotal, ?_⟩
      rw [List.map_cons, hregs, Pack.regs_idle]
      rfl
    · exact absurd hlt (Nat.not_lt.2 hfull)

end Noise

/-! ## Exact arithmetic -/

theorem chain_recovers_sample :
    ∃ out, Silenced ([8, 9].map Site.init) (unlines lineFeed noisyLines) out ∨
      ∃ pack, pack.length = ([8, 9].map Site.init).length ∧
        Recovered ([8, 9].map Site.init) (unlines lineFeed noisyLines) out pack :=
  chain_recovers (by simp) Site.idle_init steady_init short_init printsShort_railVoltage
    cut_noisyLines.lines_free lineDefined_noisyLines

/-- The same lines, 199 bytes without a newline, and a request that nobody reads. -/
theorem chain_silenced_sample :
    ∃ cells, Determined ([8, 9].map Site.init) (unlines lineFeed noisyLines ++
        (List.replicate 199 36 ++ ascii "\n$BSMRD,1000*67\r\n")) cells
        (Pack.linesOf ((packOf ([8, 9].map Site.init)).run noisyRequests).2) ∧
      cells.map LineCell.regs = ((packOf ([8, 9].map Site.init)).run noisyRequests).1 := by
  refine chain_silenced (by simp) Site.idle_init steady_init short_init printsShort_railVoltage
    (by decide +kernel) asks_noisyLines compact_noisyRequests ?_ ?_ _
  · exact fun h => absurd (List.eq_of_mem_replicate h) (by decide)
  · rw [List.length_replicate]
    decide

end Scbs
