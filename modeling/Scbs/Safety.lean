import Scbs.CellMachine
import Scbs.Network

/-!
# No cell of a chain runs into a fault

The parsers have faults: a missing field, a negative count, a search past the end of an
array.  Which lines lead to them is a matter of the first cell of a chain alone.

* `DefinedStream` — the parse is defined on all lines of a stream.
* `Replies` — a stream of whole replies, which is defined (`Replies.defined`).
* `Site.poll_cases` — **what one call of `Update` does** to a stream that is defined: it
  takes a part of a line, or a line and sends a reply.
* `chain_safe` — **no cell of the chain ever faults**, whatever else the bytes are, whatever
  the ADCs read and however the calls of `Update` interleave; and what leaves the chain is
  replies.
-/

namespace Scbs

open CLib Link

/-! ## Streams -/

/-- The parse is defined on all lines of the stream. -/
def DefinedStream (bytes : List UInt8) : Prop :=
  ∀ lines rest, Cut lineFeed bytes lines rest → ∀ line ∈ lines, LineDefined line

/-- Whole replies, one after another. -/
def Replies (bytes : List UInt8) : Prop :=
  ∃ txs : List (List UInt8), bytes = txs.flatten ∧ ∀ tx ∈ txs, Reply tx

section Streams

variable {u v body : List UInt8}

theorem replies_nil : Replies [] := ⟨[], rfl, by simp⟩

theorem Replies.append (hu : Replies u) (hv : Reply v) : Replies (u ++ v) := by
  obtain ⟨txs, rfl, htxs⟩ := hu
  refine ⟨txs ++ [v], by simp, ?_⟩
  intro tx htx
  rcases List.mem_append.1 htx with htx | htx
  · exact htxs tx htx
  · rw [List.mem_singleton.1 htx]
    exact hv

/-- The first line of whole replies is a reply on which the parse is defined, and whole
replies follow. -/
theorem Replies.head_line (h : Replies (body ++ lineFeed :: v)) (hbody : lineFeed ∉ body) :
    LineDefined body ∧ Replies v := by
  obtain ⟨txs, heq, htxs⟩ := h
  induction txs with
  | nil => exact absurd heq (by simp)
  | cons tx txs ih =>
    obtain ⟨htx, hrest⟩ := List.forall_mem_cons.1 htxs
    rcases defined_of_reply htx with rfl | ⟨body', rfl, hbody', hdef⟩
    · exact ih heq hrest
    · have hsplit : body ++ lineFeed :: v = body' ++ lineFeed :: txs.flatten := by
        rw [heq]
        simp
      obtain ⟨rfl, rfl⟩ := append_cons_inj hbody hbody' hsplit
      exact ⟨hdef, txs, rfl, hrest⟩

/-- **The parse is defined on replies.** -/
theorem Replies.defined (h : Replies u) : DefinedStream u := by
  intro lines
  induction lines generalizing u with
  | nil => simp
  | cons l ls ih =>
    intro rest hcut
    have heq : u = l ++ lineFeed :: (unlines lineFeed ls ++ rest) := by
      rw [hcut.eq]
      simp
    rw [heq] at h
    obtain ⟨hl, hrest⟩ := h.head_line (hcut.lines_free l (List.mem_cons_self ..))
    refine List.forall_mem_cons.2 ⟨hl, ih hrest rest ⟨rfl, ?_, hcut.rest_free⟩⟩
    exact fun x hx => hcut.lines_free x (List.mem_cons_of_mem _ hx)

/-- A stream that is defined is defined up to any point. -/
theorem DefinedStream.of_append (h : DefinedStream (u ++ v)) : DefinedStream u := by
  intro lines rest hcut line hline
  obtain ⟨ms, q, hv⟩ := exists_cut lineFeed v
  cases ms with
  | nil =>
    have hvq : v = q := by simpa using hv.eq
    rw [hvq] at h
    exact h _ _ (hcut.snoc hv.rest_free) line hline
  | cons m ms => exact h _ _ (hcut.join hv) line (List.mem_append_left _ hline)

/-- It goes on being defined behind a line. -/
theorem DefinedStream.of_line (h : DefinedStream (body ++ lineFeed :: v))
    (hbody : lineFeed ∉ body) : LineDefined body ∧ DefinedStream v := by
  refine ⟨?_, ?_⟩
  · obtain ⟨ms, q, hv⟩ := exists_cut lineFeed v
    refine h (body :: ms) q ⟨by rw [hv.eq]; simp, ?_, hv.rest_free⟩ body
      (List.mem_cons_self ..)
    exact List.forall_mem_cons.2 ⟨hbody, hv.lines_free⟩
  · intro lines rest hcut line hline
    refine h (body :: lines) rest ⟨by rw [hcut.eq]; simp, ?_, hcut.rest_free⟩ line
      (List.mem_cons_of_mem _ hline)
    exact List.forall_mem_cons.2 ⟨hbody, hcut.lines_free⟩

end Streams

section Safety

variable {F : Type} [CFloat F]

/-! ## One call of `Update` -/

/-- The site has received `raw` of a line. -/
def Site.Has (site : Site F) (raw : List UInt8) : Prop :=
  Holds site.cell.toUartRx raw ∧ lineFeed ∉ raw

/-- What a poll does to the bytes it sees behind the part of a line that the site has. -/
inductive PollResult (raw seen : List UInt8) : Outcome (Site F) UInt8 → Prop
  | partly {taken unread : List UInt8} {site : Site F} : seen = taken ++ unread →
      site.Has (raw ++ taken) → PollResult raw seen (some (site, unread, []))
  | line {body unread tx : List UInt8} {site : Site F} :
      raw ++ seen = body ++ lineFeed :: unread → lineFeed ∉ body → site.Has [] → Reply tx →
      PollResult raw seen (some (site, unread, tx))

/-- **What a call of `Update` does** to a stream on which the parse is defined. -/
theorem Site.poll_cases {site : Site F} {raw seen : List UInt8} {r : Outcome (Site F) UInt8}
    (h : site.Has raw) (hdef : DefinedStream (raw ++ seen)) (hpoll : site.Poll seen r) :
    PollResult raw seen r := by
  obtain ⟨env, -, rfl⟩ := hpoll
  obtain ⟨hholds, hraw⟩ := h
  have hspec := receivePacket_spec hholds seen
  cases hrec : site.cell.toUartRx.receivePacket seen with
  | mk rx res =>
    obtain ⟨unread, n⟩ := res
    rw [hrec] at hspec
    cases hspec with
    | @partly _ u _ hread hu hh hend =>
      have hupd : site.cell.toUartRx.poll seen = (rx, unread, none) := by
        simp [UartRx.poll, hrec]
      rw [SCBS.update_poll, hupd]
      refine .partly hread ⟨?_, ?_⟩
      · show Holds (({ site.cell with toUartRx := rx } : SCBS F).refresh env).toUartRx (raw ++ u)
        rw [SCBS.refresh_toUartRx]
        exact hh
      · rw [List.mem_append, not_or]
        exact ⟨hraw, hu⟩
    | @line _ u _ _ hread hu hle hh hn =>
      have hfree : lineFeed ∉ raw ++ u := by
        rw [List.mem_append, not_or]
        exact ⟨hraw, hu⟩
      have hstream : raw ++ seen = (raw ++ u) ++ lineFeed :: unread := by
        rw [hread, List.append_assoc]
      rw [hstream] at hdef
      obtain ⟨⟨packet, hp⟩, -⟩ := hdef.of_line hfree
      have hline := isLine_filter hfree (Nat.lt_succ_of_le hle)
      have hnul : (0 : UInt8) ∉ (raw ++ u).filter (· ≠ 0) ++ [lineFeed] := by
        rw [List.mem_append, not_or]
        exact ⟨Holds.no_nul_filter _, by decide⟩
      have hcstr : cstr rx.uartRxBuf = (raw ++ u).filter (· ≠ 0) ++ [lineFeed] := by
        rw [hh.cstr_buf, List.filter_append]
        rfl
      have hupd : site.cell.toUartRx.poll seen = (UartRx.flushUARTBuf, unread,
          some ((raw ++ u).filter (· ≠ 0) ++ [lineFeed])) := by
        simp only [UartRx.poll, hrec, if_pos hn, hcstr]
      rw [SCBS.update_poll, hupd]
      simp only [SCBS.dispatch_eq, (packetOf_eq_some_iff hnul).1 hp env, Except.map,
        Except.toOption, Option.map_some]
      refine .line hstream hfree ⟨?_, by simp⟩ (reply_handle env _ (packet_cases hline hp))
      show Holds (SCBS.refresh env _).toUartRx []
      rw [SCBS.refresh_toUartRx]
      exact Holds.flushed

/-! ## Runs -/

/-- Everything on its way to the cells, and the output, is whole replies. -/
def Served : Pipe (Site F) UInt8 → Prop
  | .sink out => Replies out
  | .node link site next => (∃ raw, site.Has raw ∧ Replies (raw ++ link)) ∧ Served next

omit [CFloat F] in
theorem Served.push {p : Pipe (Site F) UInt8} (h : Served p) {tx : List UInt8} (htx : Reply tx) :
    Served (p.push tx) := by
  cases p with
  | sink out => exact Replies.append h htx
  | node link site next =>
    obtain ⟨⟨raw, hhas, hreplies⟩, hnext⟩ := h
    refine ⟨⟨raw, hhas, ?_⟩, hnext⟩
    rw [← List.append_assoc]
    exact hreplies.append htx

theorem Served.step {p q : Pipe (Site F) UInt8} (h : Served p)
    (hstep : Pipe.Step Site.Poll p q) : Served q := by
  induction hstep with
  | @poll link seen unseen unread tx site site' next hlink hr =>
    subst hlink
    obtain ⟨⟨raw, hhas, hreplies⟩, hnext⟩ := h
    rw [← List.append_assoc] at hreplies
    cases Site.poll_cases hhas hreplies.defined.of_append hr with
    | @partly taken _ _ hseen hhas' =>
      refine ⟨⟨raw ++ taken, hhas', ?_⟩, hnext.push .nothing⟩
      rw [hseen] at hreplies
      simpa using hreplies
    | @line body _ _ _ hstream hbody hhas' htx =>
      rw [hstream, List.append_assoc, List.cons_append] at hreplies
      exact ⟨⟨[], hhas', (hreplies.head_line hbody).2⟩, hnext.push htx⟩
  | later _ ih => exact ⟨h.1, ih h.2⟩

theorem Served.sound {p : Pipe (Site F) UInt8} (h : Served p) : p.Sound Site.Poll := by
  induction p with
  | sink out => trivial
  | node link site next ih =>
    obtain ⟨⟨raw, hhas, hreplies⟩, hnext⟩ := h
    refine ⟨?_, ih hnext⟩
    rintro seen ⟨unseen, rfl⟩ hnone
    rw [← List.append_assoc] at hreplies
    cases Site.poll_cases hhas hreplies.defined.of_append hnone

omit [CFloat F] in
theorem Served.output {p : Pipe (Site F) UInt8} (h : Served p) : Replies p.output := by
  induction p with
  | sink out => exact h
  | node link site next ih => exact ih h.2

omit [CFloat F] in
theorem served_start {sites : List (Site F)} (hidle : ∀ site ∈ sites, site.Idle) :
    Served (Pipe.start sites) := by
  induction sites with
  | nil => exact replies_nil
  | cons site sites ih =>
    obtain ⟨hsite, hsites⟩ := List.forall_mem_cons.1 hidle
    refine ⟨⟨[], ⟨?_, by simp⟩, replies_nil⟩, ih hsites⟩
    unfold Site.Idle at hsite
    rw [hsite]
    exact Holds.flushed

/-- The first cell works on the bytes that were sent; what follows it is served by it. -/
def Fed (bytes : List UInt8) : Pipe (Site F) UInt8 → Prop
  | .sink _ => False
  | .node link site next => (∃ lines raw, site.Has raw ∧
      Cut lineFeed (unlines lineFeed lines) lines [] ∧
      bytes = unlines lineFeed lines ++ (raw ++ link)) ∧ Served next

omit [CFloat F] in
theorem Fed.push {p : Pipe (Site F) UInt8} {bytes : List UInt8} (h : Fed bytes p)
    (more : List UInt8) : Fed (bytes ++ more) (p.push more) := by
  cases p with
  | sink out => exact h.elim
  | node link site next =>
    obtain ⟨⟨lines, raw, hhas, hcut, rfl⟩, hnext⟩ := h
    exact ⟨⟨lines, raw, hhas, hcut, by simp⟩, hnext⟩

/-- What is left of a stream that is defined, behind some of its lines, is defined. -/
theorem DefinedStream.of_unlines {lines : List (List UInt8)} {u : List UInt8}
    (h : DefinedStream (unlines lineFeed lines ++ u))
    (hcut : Cut lineFeed (unlines lineFeed lines) lines []) : DefinedStream u := by
  intro ls rest hu line hline
  refine h (lines ++ ls) rest ⟨by rw [hu.eq]; simp, ?_, hu.rest_free⟩ line
    (List.mem_append_right _ hline)
  intro l hl
  rcases List.mem_append.1 hl with hl | hl
  · exact hcut.lines_free l hl
  · exact hu.lines_free l hl

theorem Fed.step {p q : Pipe (Site F) UInt8} {bytes : List UInt8} (h : Fed bytes p)
    (hdef : DefinedStream bytes) (hstep : Pipe.Step Site.Poll p q) : Fed bytes q := by
  cases hstep with
  | @poll link seen unseen unread tx site site' next hlink hr =>
    subst hlink
    obtain ⟨⟨lines, raw, hhas, hcut, rfl⟩, hnext⟩ := h
    have hstream := hdef.of_unlines hcut
    rw [← List.append_assoc] at hstream
    cases Site.poll_cases hhas hstream.of_append hr with
    | @partly taken _ _ hseen hhas' =>
      refine ⟨⟨lines, raw ++ taken, hhas', hcut, ?_⟩, hnext.push .nothing⟩
      rw [hseen]
      simp
    | @line body _ _ _ hline hbody hhas' htx =>
      refine ⟨⟨lines ++ [body], [], hhas', ⟨by simp, ?_, by simp⟩, ?_⟩, hnext.push htx⟩
      · intro l hl
        rcases List.mem_append.1 hl with hl | hl
        · exact hcut.lines_free l hl
        · rw [List.mem_singleton.1 hl]
          exact hbody
      · rw [← List.append_assoc raw, hline]
        simp
  | later hlater => exact ⟨h.1, h.2.step hlater⟩

theorem Fed.sound {p : Pipe (Site F) UInt8} {bytes : List UInt8} (h : Fed bytes p)
    (hdef : DefinedStream bytes) : p.Sound Site.Poll := by
  cases p with
  | sink out => exact h.elim
  | node link site next =>
    obtain ⟨⟨lines, raw, hhas, hcut, rfl⟩, hnext⟩ := h
    have hstream := hdef.of_unlines hcut
    refine ⟨?_, hnext.sound⟩
    rintro seen ⟨unseen, rfl⟩ hnone
    rw [← List.append_assoc] at hstream
    cases Site.poll_cases hhas hstream.of_append hnone

omit [CFloat F] in
theorem Fed.output {p : Pipe (Site F) UInt8} {bytes : List UInt8} (h : Fed bytes p) :
    Replies p.output := by
  cases p with
  | sink out => exact h.elim
  | node link site next => exact h.2.output

omit [CFloat F] in
theorem fed_start {sites : List (Site F)} (hne : sites ≠ [])
    (hidle : ∀ site ∈ sites, site.Idle) : Fed [] (Pipe.start sites) := by
  cases sites with
  | nil => exact absurd rfl hne
  | cons site sites =>
    obtain ⟨hsite, hsites⟩ := List.forall_mem_cons.1 hidle
    refine ⟨⟨[], [], ⟨?_, by simp⟩, Cut.nil, rfl⟩, served_start hsites⟩
    unfold Site.Idle at hsite
    rw [hsite]
    exact Holds.flushed

theorem fed_run {sites : List (Site F)} (hne : sites ≠ []) (hidle : ∀ site ∈ sites, site.Idle)
    {sent : List (List UInt8)} {q : Pipe (Site F) UInt8} (hdef : DefinedStream sent.flatten)
    (hrun : Pipe.Run Site.Poll (Pipe.start sites) sent q) : Fed sent.flatten q := by
  induction hrun with
  | start => exact fed_start hne hidle
  | step _ hstep ih => exact (ih hdef).step hdef hstep
  | send bytes _ ih =>
    rw [List.flatten_append, List.flatten_singleton] at hdef ⊢
    exact (ih hdef.of_append).push bytes

/-- A reply is nothing, or a packet string that makes up one line, with its line end. -/
theorem Reply.answers {tx : List UInt8} (h : Reply tx) : tx = [] ∨ Answers tx := by
  cases h with
  | nothing => exact Or.inl rfl
  | line m hlen =>
    refine Or.inr ⟨m.packetStr, rfl, rfl, ?_, ?_⟩
    · exact fun hmem => m.lineFeed_not_mem_body (List.mem_append_left _ hmem)
    · rw [Msg.packetStr, length_frame]
      omega
  | cut hreply _ => exact Or.inr ⟨_, rfl, hreply⟩

theorem Replies.answers {bytes : List UInt8} (h : Replies bytes) :
    ∃ txs : List (List UInt8), bytes = txs.flatten ∧ ∀ tx ∈ txs, Answers tx := by
  obtain ⟨txs, rfl, htxs⟩ := h
  induction txs with
  | nil => exact ⟨[], rfl, by simp⟩
  | cons tx txs ih =>
    obtain ⟨htx, hrest⟩ := List.forall_mem_cons.1 htxs
    obtain ⟨ans, hans, hall⟩ := ih hrest
    rw [List.flatten_cons, hans]
    rcases htx.answers with rfl | htx
    · exact ⟨ans, rfl, hall⟩
    · exact ⟨tx :: ans, rfl, List.forall_mem_cons.2 ⟨htx, hall⟩⟩

/-- **No cell of a chain ever runs into a fault.**  Whatever bytes are sent to a chain, in
whatever pieces, whatever the ADCs read, and however the calls of `Update` interleave: if the
parse is defined on the lines that arrive at the first cell, it is defined in all cells, at
any time; and what has left the chain by then is whole packet strings with their line ends. -/
theorem chain_safe {sites : List (Site F)} (hne : sites ≠ [])
    (hidle : ∀ site ∈ sites, site.Idle) {sent : List (List UInt8)} {lines : List (List UInt8)}
    {rest : List UInt8} (hcut : Cut lineFeed sent.flatten lines rest)
    (hdef : ∀ line ∈ lines, LineDefined line) {q : Pipe (Site F) UInt8}
    (hrun : Pipe.Run Site.Poll (Pipe.start sites) sent q) :
    q.Sound Site.Poll ∧ ∃ txs : List (List UInt8), q.output = txs.flatten ∧
      ∀ tx ∈ txs, Answers tx := by
  have hstream : DefinedStream sent.flatten := by
    intro lines' rest' hcut' line hline
    obtain ⟨rfl, -⟩ := hcut'.unique hcut
    exact hdef line hline
  have hfed := fed_run hne hidle hstream hrun
  exact ⟨hfed.sound hstream, hfed.output.answers⟩

end Safety

theorem chain_safe_sample :
    ((Pipe.start ([8, 9].map Site.init)).push
        (unlines lineFeed noisyLines ++ ascii "$BSM")).Sound Site.Poll ∧
      ∃ txs : List (List UInt8), ((Pipe.start ([8, 9].map Site.init)).push
        (unlines lineFeed noisyLines ++ ascii "$BSM")).output = txs.flatten ∧
        ∀ tx ∈ txs, Answers tx := by
  have hcut := cut_noisyLines
  rw [← List.flatten_singleton (l := unlines lineFeed noisyLines ++ ascii "$BSM")] at hcut
  exact chain_safe (by simp) Site.idle_init hcut lineDefined_noisyLines
    (Pipe.Run.send _ Pipe.Run.start)

end Scbs
