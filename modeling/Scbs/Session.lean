import Scbs.Link.Client
import Scbs.Master

/-!
# Sessions of the scripts

`scbs_utils.main` and `scbs_spammer`, at the two ends of a chain of cells, with all that they
print.

* `Main`, `Main.Step`, `Main.Run` — a script that waits for a response, and what can happen
  next; the texts that were typed.
* `session_in_order` — when what was typed makes compact requests, even if `readline` times
  out, what the script has read is the beginning of the pack's responses.
* `Dialogue` — a session with the pack itself, which answers at once.
* `session_dialogue` — **a session with a chain of cells is a session with the pack**.
* `spammer_in_order` — the loop of `scbs_spammer`.
-/

namespace Scbs

open CLib Link

/-! ## The scripts -/

/-- What a script prints: the packet that it sends, a response behind its label, or a
message. -/
inductive Printed where
  | sending (packet : List UInt8)
  | response (label bytes : List UInt8)
  | said (message : List UInt8)

/-- The responses among what was printed. -/
def responsesOf (console : List Printed) : List (List UInt8) :=
  console.filterMap fun
    | .response _ bytes => some bytes
    | _ => none

section Scripts

variable {F : Type}

/-- A script, the chain at its serial port, and what it has printed. -/
structure Main (F : Type) where
  session : Session (Site F) UInt8
  label : List UInt8
  console : List Printed
  ended : Bool

namespace Main

def start (sites : List (Site F)) : Main F := ⟨.start sites, [], [], false⟩

/-- `transmit`, and then `readline` begins. -/
def transmit (m : Main F) (packet label : List UInt8) : Main F :=
  { m with session := m.session.send packet, label := label,
           console := m.console ++ [.sending packet] }

/-- One turn of the loop of `main`. -/
def type (m : Main F) (text : List UInt8) : Main F :=
  match Utils.turn text with
  | .exit => { m with ended := true }
  | .say message => { m with console := m.console ++ [.said message] }
  | .ask packet label => m.transmit packet label

/-- `readline` takes a byte, after it `got` others; with a line feed it returns. -/
def readOne (m : Main F) (got : List UInt8) (c : UInt8) : Main F :=
  { m with session := m.session.readOne lineFeed got c,
           console := if c = lineFeed then m.console ++ [.response m.label (got ++ [c])]
             else m.console }

/-- `readline` returns what it `got` when its time is over. -/
def giveUp (m : Main F) (got : List UInt8) : Main F :=
  { m with session := m.session.giveUp got,
           console := m.console ++ [.response m.label got] }

variable [CFloat F] (hurried : Prop)

/-- What can happen while nothing is typed.  Only in a `hurried` session a time is over before
the response is there. -/
inductive Step (m : Main F) : Main F → Prop
  | poll {pipe : Pipe (Site F) UInt8} : Pipe.Step Site.Poll m.session.pipe pipe →
      Step m { m with session := { m.session with pipe := pipe } }
  | read {got : List UInt8} {c : UInt8} : m.session.mode = .reading got →
      m.session.read ++ [c] <+: m.session.pipe.output → Step m (m.readOne got c)
  | timeout {got : List UInt8} : hurried → m.session.mode = .reading got →
      Step m (m.giveUp got)

/-- Any number of steps. -/
def Steps : Main F → Main F → Prop := Relation.ReflTransGen (Step hurried)

/-- The runs of `main`, with the texts that were typed. -/
inductive Run (sites : List (Site F)) : List (List UInt8) → Main F → Prop
  | start : Run sites [] (start sites)
  | typed {texts : List (List UInt8)} {m : Main F} (text : List UInt8) : Run sites texts m →
      m.session.mode = .ready → m.ended = false → Run sites (texts ++ [text]) (m.type text)
  | step {texts : List (List UInt8)} {m m' : Main F} : Run sites texts m →
      Step hurried m m' → Run sites texts m'

end Main

/-- The packet of `scbs_spammer`. -/
def Spammer.packet : List UInt8 := Utils.packetize (ascii "BSMRD," ++ printNat 10 2000)

/-- The runs of `scbs_spammer`, which gives up waiting after half a second. -/
inductive Spammer.Run [CFloat F] (sites : List (Site F)) : ℕ → Main F → Prop
  | start : Spammer.Run sites 0 (.start sites)
  | turn {n : ℕ} {m : Main F} : Spammer.Run sites n m → m.session.mode = .ready →
      Spammer.Run sites (n + 1) (m.transmit Spammer.packet (ascii "\tResponse: "))
  | step {n : ℕ} {m m' : Main F} : Spammer.Run sites n m → Main.Step True m m' →
      Spammer.Run sites n m'

end Scripts

/-! ## What was read -/

section Runs

variable {F : Type} [CFloat F] {hurried : Prop} {sites : List (Site F)} {m m' : Main F}
  {texts : List (List UInt8)}

namespace Main

/-- A step is a step of the session behind it. -/
theorem Step.session (h : Step hurried m m') :
    Session.Step Site.Poll lineFeed hurried m.session m'.session := by
  cases h with
  | poll hpoll => exact .poll hpoll
  | read hreading hmore => exact .read hreading hmore
  | timeout hhurried hreading => exact .timeout hhurried hreading

theorem Step.sent (h : Step hurried m m') : m'.session.sent = m.session.sent := by
  cases h with
  | poll => rfl
  | read => simp only [readOne, Session.readOne]; split <;> rfl
  | timeout => rfl

/-- What is printed as a response is what a read results in. -/
theorem Step.responses (h : Step hurried m m')
    (heq : responsesOf m.console = m.session.received) :
    responsesOf m'.console = m'.session.received := by
  cases h with
  | poll => exact heq
  | @read got c =>
    simp only [readOne, Session.readOne]
    split
    · rw [← heq, responsesOf, List.filterMap_append]
      rfl
    · exact heq
  | timeout =>
    simp only [giveUp, Session.giveUp]
    rw [← heq, responsesOf, List.filterMap_append]
    rfl

omit [CFloat F] in
/-- What a turn of `main` does to the session. -/
theorem type_cases (m : Main F) (text : List UInt8) :
    (Utils.turn text = .exit ∧ m.type text = { m with ended := true }) ∨
    (∃ message, Utils.turn text = .say message ∧
      m.type text = { m with console := m.console ++ [.said message] }) ∨
    (∃ packet label, Utils.turn text = .ask packet label ∧
      m.type text = m.transmit packet label) := by
  unfold type
  cases Utils.turn text with
  | exit => exact .inl ⟨rfl, rfl⟩
  | say message => exact .inr (.inl ⟨message, rfl, rfl⟩)
  | ask packet label => exact .inr (.inr ⟨packet, label, rfl, rfl⟩)

theorem filterMap_mainPacket (text : List UInt8) :
    [text].filterMap Utils.mainPacket = (Utils.turn text).packet.toList := by
  rw [List.filterMap_cons, List.filterMap_nil, Utils.mainPacket_eq_turn]
  cases (Utils.turn text).packet with
  | none => rfl
  | some packet => rfl

/-- What every run of a script keeps. -/
structure Follows (hurried : Prop) (sites : List (Site F)) (packets : List (List UInt8))
    (m : Main F) : Prop where
  session : Session.Steps Site.Poll lineFeed hurried (.start sites) m.session
  responses : responsesOf m.console = m.session.received
  sent : m.session.sent = packets

theorem follows_start : Follows hurried sites [] (start sites) :=
  ⟨Relation.ReflTransGen.refl, rfl, rfl⟩

theorem Follows.step {packets : List (List UInt8)} (h : Follows hurried sites packets m)
    (hstep : Step hurried m m') : Follows hurried sites packets m' :=
  ⟨h.session.tail hstep.session, hstep.responses h.responses, hstep.sent.trans h.sent⟩

theorem Follows.transmit {packets : List (List UInt8)} (h : Follows hurried sites packets m)
    (hready : m.session.mode = .ready) (packet label : List UInt8) :
    Follows hurried sites (packets ++ [packet]) (m.transmit packet label) := by
  refine ⟨h.session.tail (.send packet hready), ?_, ?_⟩
  · rw [Main.transmit, responsesOf, List.filterMap_append]
    exact (List.append_nil _).trans h.responses
  · rw [Main.transmit, Session.send, h.sent]

theorem Run.follows (h : Run hurried sites texts m) :
    Follows hurried sites (texts.filterMap Utils.mainPacket) m := by
  induction h with
  | start => exact follows_start
  | @typed texts m text _ hready _ ih =>
    rw [List.filterMap_append, filterMap_mainPacket]
    rcases m.type_cases text with ⟨hturn, htype⟩ | ⟨message, hturn, htype⟩ |
      ⟨packet, label, hturn, htype⟩
    · rw [htype, hturn]
      exact ⟨ih.session, ih.responses, ih.sent.trans (List.append_nil _).symm⟩
    · rw [htype, hturn]
      refine ⟨ih.session, ?_, ih.sent.trans (List.append_nil _).symm⟩
      rw [responsesOf, List.filterMap_append]
      exact (List.append_nil _).trans ih.responses
    · rw [htype, hturn]
      exact ih.transmit hready packet label
  | step _ hstep ih => exact ih.step hstep

end Main

theorem Spammer.Run.follows {n : ℕ} (h : Spammer.Run sites n m) :
    Main.Follows True sites (List.replicate n Spammer.packet) m := by
  induction h with
  | start => exact Main.follows_start
  | turn _ hready ih =>
    rw [List.replicate_succ']
    exact ih.transmit hready _ _
  | step _ hstep ih => exact ih.step hstep

end Runs

/-! ## Any session -/

section Sessions

variable {F : Type} [CFloat F] {sites : List (Site F)} {m m' : Main F}
  {texts packets : List (List UInt8)} {requests : List Request}

omit [CFloat F] in
/-- The lines of packets that ask. -/
theorem exists_bodies (h : List.Forall₂ Transmits packets requests) :
    ∃ bodies : List (List UInt8), packets.flatten = unlines lineFeed bodies ∧
      (∀ body ∈ bodies, lineFeed ∉ body ∧ body.length < kMaxLineLen) ∧
      List.Forall₂ Asks bodies requests ∧ ∀ r ∈ requests, r.Compact := by
  induction h with
  | nil => exact ⟨[], rfl, by simp, .nil, by simp⟩
  | cons hfirst _ ih =>
    obtain ⟨body, rfl, hfree, hlen, hasks, hcompact⟩ := hfirst
    obtain ⟨bodies, hflat, hbodies, hall, hcompacts⟩ := ih
    refine ⟨body :: bodies, ?_, List.forall_mem_cons.2 ⟨⟨hfree, hlen⟩, hbodies⟩,
      .cons hasks hall, List.forall_mem_cons.2 ⟨hcompact, hcompacts⟩⟩
    rw [List.flatten_cons, hflat, unlines_cons, List.append_assoc]
    rfl

section Chain

variable (hne : sites ≠ []) (hidle : ∀ site ∈ sites, site.Idle)
  (hsteady : ∀ site ∈ sites, site.Steady)
  (hshort : ∀ site ∈ sites, site.cell.registers.Short) (hwrites : WritesShort F)
include hne hidle hsteady hshort hwrites

/-- A chain serves packets that ask. -/
theorem serves_of_transmits (h : List.Forall₂ Transmits packets requests) :
    Serves sites packets.flatten ((packOf sites).run requests).1
      ((packOf sites).run requests).2 := by
  obtain ⟨bodies, hflat, hbodies, hasks, hcompact⟩ := exists_bodies h
  rw [hflat]
  exact serves_of_feedAll hidle hsteady (Pack.feedAll_run hwrites (packOf_ne_nil hne)
    (short_packOf hshort) hbodies hasks hcompact)

/-- What a script that follows its session has read. -/
theorem Main.Follows.in_order {hurried : Prop} (hfollows : m.Follows hurried sites packets)
    (h : List.Forall₂ Transmits packets requests) :
    m.session.pipe.Sound Site.Poll ∧
      (responsesOf m.console).flatten <+: Pack.linesOf ((packOf sites).run requests).2 := by
  have hinv := Session.inv_steps hfollows.session
  have hserves := serves_of_transmits hne hidle hsteady hshort hwrites h
  have hsent := congrArg List.flatten hfollows.sent
  refine ⟨hserves.sound _ _ hsent hinv.run, ?_⟩
  have hread : (responsesOf m.console).flatten <+: m.session.read := by
    rw [hfollows.responses, ← hinv.results]
    exact List.prefix_append _ _
  exact hread.trans (hinv.begins.trans (hserves.output_begins _ _ hsent hinv.run))

end Chain

/-! ## Patient sessions -/

/-- A session with a pack that answers at once: the texts that were typed, what was printed,
and the pack after it. -/
inductive Dialogue (pack : Pack F) : List (List UInt8) → List Printed → Pack F → Prop
  | start : Dialogue pack [] [] pack
  | exit {texts : List (List UInt8)} {shown : List Printed} {now : Pack F}
      {text : List UInt8} : Dialogue pack texts shown now → Utils.turn text = .exit →
      Dialogue pack (texts ++ [text]) shown now
  | say {texts : List (List UInt8)} {shown : List Printed} {now : Pack F}
      {text message : List UInt8} : Dialogue pack texts shown now →
      Utils.turn text = .say message →
      Dialogue pack (texts ++ [text]) (shown ++ [.said message]) now
  | ask {texts : List (List UInt8)} {shown : List Printed} {now : Pack F}
      {text packet label : List UInt8} {r : Request} {response : Msg} :
      Dialogue pack texts shown now → Utils.turn text = .ask packet label →
      Transmits packet r → (now.step r).2 = some response →
      Dialogue pack (texts ++ [text])
        (shown ++ [.sending packet, .response label response.line]) (now.step r).1

variable {pack now : Pack F} {shown : List Printed} {text : List UInt8}

/-- A command goes on with a dialogue. -/
theorem Dialogue.command {msg : Msg} {packet label : List UInt8}
    (h : Dialogue pack texts shown now) (hcommand : Command text msg)
    (hturn : Utils.turn text = .ask packet label) (hlen : packet.length ≤ 199) :
    Dialogue pack (texts ++ [text])
      (shown ++ [.sending packet, .response label (now.serve msg).2.line])
      (now.serve msg).1 := by
  obtain ⟨packet', label', hturn', htransmits⟩ := hcommand.transmits
  obtain ⟨rfl, rfl⟩ := Utils.Turn.ask.inj (hturn'.symm.trans hturn)
  exact h.ask (r := .msg msg) hturn (htransmits hlen) rfl

theorem map_line (responses : List Msg) :
    responses.map Msg.line = (responses.map Msg.body).map (· ++ [lineFeed]) := by
  rw [List.map_map]
  exact List.map_congr_left fun r _ => r.line_eq

theorem Pack.linesOf_eq_unlines (responses : List Msg) :
    Pack.linesOf responses = unlines lineFeed (responses.map Msg.body) := by
  rw [Pack.linesOf, map_line, unlines]

theorem lineFeed_not_mem_bodies (responses : List Msg) :
    ∀ body ∈ responses.map Msg.body, lineFeed ∉ body := by
  intro body hbody
  obtain ⟨r, -, rfl⟩ := List.mem_map.1 hbody
  exact r.lineFeed_not_mem_body

/-- The response that the script waits for. -/
def Main.outstanding (m : Main F) (responses : List Msg) : List Printed :=
  match m.session.mode with
  | .ready => []
  | .reading _ => (responses.map Msg.line).getLast?.toList.map (.response m.label)

/-- The script has come as far as a dialogue, up to the response that it waits for. -/
structure Main.Matches (sites : List (Site F)) (m : Main F) (shown : List Printed)
    (now : Pack F) (requests : List Request) (responses : List Msg) : Prop where
  transmits : List.Forall₂ Transmits m.session.sent requests
  run_eq : (packOf sites).run requests = (now, responses)
  length_eq : responses.length = m.session.sent.length
  shown_eq : shown = m.console ++ m.outstanding responses

namespace Main

variable {responses : List Msg}

/-- A new packet, and the response of the pack to it. -/
theorem Matches.transmit (h : m.Matches sites shown now requests responses)
    (hready : m.session.mode = .ready) {packet : List UInt8} (label : List UInt8) {r : Request}
    {response : Msg} (htransmits : Transmits packet r)
    (hresponse : (now.step r).2 = some response) :
    (m.transmit packet label).Matches sites
      (shown ++ [.sending packet, .response label response.line]) (now.step r).1
      (requests ++ [r]) (responses ++ [response]) := by
  have hshown : shown = m.console := by
    rw [h.shown_eq, outstanding, hready, List.append_nil]
  refine ⟨List.rel_append h.transmits (.cons htransmits .nil), ?_, ?_, ?_⟩
  · rw [Pack.run_concat, h.run_eq, hresponse]
    rfl
  · rw [Main.transmit, Session.send, List.length_append, List.length_append, h.length_eq]
    rfl
  · rw [outstanding, Main.transmit, Session.send, hshown, List.map_append, List.map_singleton,
      List.getLast?_concat]
    simp

/-- What a patient script has read is the first responses of the pack. -/
theorem received_eq
    (hsession : Session.Steps Site.Poll lineFeed False (.start sites) m.session)
    (hout : m.session.pipe.output <+: Pack.linesOf responses) :
    m.session.received = (responses.map Msg.line).take m.session.received.length := by
  rw [Pack.linesOf_eq_unlines] at hout
  have hall := (Session.patient_steps hsession).received_eq (Session.inv_steps hsession)
    (lineFeed_not_mem_bodies responses) hout
  rw [map_line, ← List.map_take]
  exact hall

/-- A step of a patient script, if the output is the pack's. -/
theorem Matches.step (h : m.Matches sites shown now requests responses)
    (hsession : Session.Steps Site.Poll lineFeed False (.start sites) m'.session)
    (hout : m'.session.pipe.output <+: Pack.linesOf responses) (hstep : Step False m m') :
    m'.Matches sites shown now requests responses := by
  have htransmits := h.transmits
  have hlen := h.length_eq
  rw [← hstep.sent] at htransmits hlen
  refine ⟨htransmits, h.run_eq, hlen, ?_⟩
  have hshown := h.shown_eq
  cases hstep with
  | poll hpoll => exact hshown
  | timeout hhurried _ => exact hhurried.elim
  | @read got c hreading hmore =>
    simp only [outstanding, hreading] at hshown
    by_cases hc : c = lineFeed
    · -- the line that has been read is the last response
      subst hc
      have hmode : (m.readOne got lineFeed).session.mode = .ready := by
        rw [readOne, Session.readOne, if_pos rfl]
      have hreceived : (m.readOne got lineFeed).session.received =
          m.session.received ++ [got ++ [lineFeed]] := by
        rw [readOne, Session.readOne, if_pos rfl]
      have hall := received_eq hsession hout
      have hcount := (Session.patient_steps hsession).count
      rw [hmode, ← hlen] at hcount
      rw [List.take_of_length_le (by
        rw [List.length_map]
        exact hcount.ge), hreceived] at hall
      rw [hshown, ← hall, List.getLast?_concat, outstanding, hmode, List.append_nil, readOne,
        if_pos rfl]
      rfl
    · simp only [outstanding, readOne, Session.readOne, if_neg hc]
      exact hshown

end Main

section Chain

variable (hne : sites ≠ []) (hidle : ∀ site ∈ sites, site.Idle)
  (hsteady : ∀ site ∈ sites, site.Steady)
  (hshort : ∀ site ∈ sites, site.cell.registers.Short) (hwrites : WritesShort F)
include hne hidle hsteady hshort hwrites

end Chain

/-! ## Answers -/

namespace Main

theorem Run.steps {hurried : Prop} (h : Run hurried sites texts m) (hsteps : Steps hurried m m') :
    Run hurried sites texts m' := by
  induction hsteps with
  | refl => exact h
  | tail _ hstep ih => exact ih.step hstep

end Main

section Chain

variable (hne : sites ≠ []) (hidle : ∀ site ∈ sites, site.Idle)
  (hsteady : ∀ site ∈ sites, site.Steady)
  (hshort : ∀ site ∈ sites, site.cell.registers.Short) (hwrites : WritesShort F)
include hne hidle hsteady hshort hwrites

end Chain

/-! ## The spammer -/

theorem Spammer.transmits :
    Transmits Spammer.packet (.msg (.mrd kRegAddrReadOutputCurrent [])) := by
  have haddr : IsAddress (printNat 10 2000) :=
    ⟨by decide +kernel, by decide +kernel, by decide +kernel⟩
  have hread : UInt32.ofNat (readNat 16 (printNat 10 2000)) = kRegAddrReadOutputCurrent := by
    decide +kernel
  rw [← hread]
  exact transmits_mrd haddr (by decide +kernel)

theorem Spammer.forall_transmits (n : ℕ) :
    List.Forall₂ Transmits (List.replicate n Spammer.packet)
      (List.replicate n (.msg (.mrd kRegAddrReadOutputCurrent []))) := by
  induction n with
  | zero => exact .nil
  | succ n ih => exact .cons Spammer.transmits ih

/-- The values that the pack gives a multi-read, as many times as it is asked. -/
theorem Pack.run_mrd (pack : Pack F) (addr : UInt32) (vs : List Text) (n : ℕ) :
    pack.run (List.replicate n (.msg (.mrd addr vs))) =
      (pack, List.replicate n (pack.serve (.mrd addr vs)).2) := by
  have hkeep : (pack.serve (.mrd addr vs)).1 = pack := by
    rw [serve]
    split
    · rfl
    · rfl
  induction n with
  | zero => rfl
  | succ n ih =>
    simp only [List.replicate_succ, Pack.run, Pack.step, hkeep, ih, Option.toList_some,
      List.singleton_append]

/-- **The spammer reads the same line again and again** from idle cells with constant ADC
readings.  However often it has given up before a line was there, the bytes that it has read,
one after another, are the beginning of the responses to all of its packets: the currents of
the cells, each time. -/
theorem spammer_in_order (hne : sites ≠ []) (hidle : ∀ site ∈ sites, site.Idle)
    (hsteady : ∀ site ∈ sites, site.Steady)
    (hshort : ∀ site ∈ sites, site.cell.registers.Short) (hwrites : WritesShort F) {n : ℕ}
    (hrun : Spammer.Run sites n m) :
    m.session.pipe.Sound Site.Poll ∧
      (responsesOf m.console).flatten <+: (List.replicate n
        ((packOf sites).serve (.mrd kRegAddrReadOutputCurrent [])).2.line).flatten := by
  have hall := hrun.follows.in_order hne hidle hsteady hshort hwrites
    (Spammer.forall_transmits n)
  rw [Pack.run_mrd, Pack.linesOf, List.map_replicate] at hall
  exact hall

end Sessions

/-! ## Exact arithmetic -/

theorem spammer_in_order_sample :
    ∃ m : Main ExtRat, Spammer.Run ([8, 9].map Site.init) 1 m ∧
      m.session.pipe.Sound Site.Poll ∧
      (responsesOf m.console).flatten <+: (List.replicate 1 ((packOf ([8, 9].map Site.init)).serve
        (.mrd kRegAddrReadOutputCurrent [])).2.line).flatten :=
  ⟨_, .turn .start rfl, spammer_in_order (by simp) Site.idle_init steady_init short_init
    writesShort_extRat (.turn .start rfl)⟩

end Scbs
