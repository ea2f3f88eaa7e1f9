import Scbs.Comms.Frame

/-!
# The typed parsers on the tokens of a line

After `BSPacket::FromString` has accepted a line, the rest of each typed
`FromString` depends on the line only through its tokens, the non-empty pieces
between commas.

* `valueOfToken`, `readValue_eq` — a value field is the token up to its `*`.
* `storeTokens`, `readValues_tokens` — **the loop of `MRDPacket::FromString`**: its
  end pointer is computed once, before tokenising, so a value behind the first `*`
  of the line makes the count negative.
* `XPacket.ofTokens`, `XPacket.ofString_tokens` — what each parser makes of the
  tokens of an accepted line, with the calls that C leaves undefined.
-/

namespace Scbs

open CLib

/-! ## Single fields -/

/-- The id in a token: what `strtoul` reads at its beginning, modulo 2¹⁶. -/
def idOf (tok : List UInt8) : UInt16 := UInt16.ofNat (strtoul tok scbsNumbersBase)

/-- The address in a token: what `strtoul` reads at its beginning. -/
def addrOf (tok : List UInt8) : UInt32 := UInt32.ofNat (strtoul tok scbsAddrBase)

/-- The value in a token: the bytes before its `*`, as many as a field holds. -/
def valueOf (tok : List UInt8) : List UInt8 := (tok.takeWhile (· ≠ star)).take 19

/-- The value field of `MWR`, `SWR` and `SRS`, which needs a `*` in its token. -/
def valueOfToken (tok : List UInt8) : Except Fault (List UInt8) :=
  if star ∈ tok then .ok (valueOf tok) else .error .badCount

section Fields

variable {t : PacketType} {line save tok : List UInt8}

theorem copyCount_le (valueStr : List UInt8) (endTokenPtr : Option (List UInt8)) :
    copyCount valueStr endTokenPtr ≤ 19 := by
  cases endTokenPtr with
  | none => simp [copyCount]
  | some e => exact min_le_right _ _

theorem valueOf_append {a b : List UInt8} (ha : star ∉ a) :
    valueOf (a ++ star :: b) = a.take 19 := by
  rw [valueOf, takeWhile_ne_append ha]

theorem valueOf_of_not_mem (h : star ∉ tok) : valueOf tok = tok.take 19 := by
  rw [valueOf, takeWhile_ne_self h]

theorem readValue_eq (valueStr : List UInt8) :
    readValue valueStr = valueOfToken (token comma valueStr) := by
  rw [readValue, valueOfToken]
  generalize hp : token comma valueStr = p
  rcases mem_split p star with h | ⟨a, b, rfl, ha⟩
  · rw [strchr_none h, if_neg h]
    rfl
  · have hcount : copyCount (a ++ star :: b) (some (star :: b)) = (min a.length 19 : ℕ) := by
      simp only [copyCount, List.length_append, List.length_cons, kMaxPacketFieldLen]
      omega
    rw [strchr_append ha, hcount, if_pos (by simp), valueOf_append ha, copyValue,
      if_neg (by omega), hp, Int.toNat_natCast,
      List.take_append_of_le_length (min_le_left _ _), min_comm, ← List.take_take,
      List.take_length]

/-- **The header check of a typed parser** looks at the first token. -/
theorem expectHeader_cases (t : PacketType) (line : List UInt8) :
    (tokens comma line = [] ∧ expectHeader t line = .error .nullHeader) ∨
      ∃ p save, strtok comma line = some (p, save) ∧
        tokens comma line = token comma p :: tokens comma save ∧
        expectHeader t line =
          .ok (if token comma p = dollar :: packetHeaderStr t then some save else none) := by
  unfold expectHeader
  cases hs : strtok comma line with
  | none => exact Or.inl ⟨tokens_of_strtok_none hs, rfl⟩
  | some r =>
    obtain ⟨p, save⟩ := r
    refine Or.inr ⟨p, save, rfl, tokens_of_strtok hs, ?_⟩
    simp only
    split <;> rfl

/-- **A field that is used without a check** is the next token. -/
theorem nextField_cases (save : List UInt8) :
    (tokens comma save = [] ∧ nextField save = .error .nullField) ∨
      ∃ p save', strtok comma save = some (p, save') ∧
        tokens comma save = token comma p :: tokens comma save' ∧
        nextField save = .ok (p, save') := by
  unfold nextField
  cases hs : strtok comma save with
  | none => exact Or.inl ⟨tokens_of_strtok_none hs, rfl⟩
  | some r =>
    obtain ⟨p, save'⟩ := r
    exact Or.inr ⟨p, save', rfl, tokens_of_strtok hs, rfl⟩

end Fields

/-! ## The values of a multi-read -/

/-- What is left of a line from some point on either still has the first `*` in it
or lies behind that `*`. -/
theorem cut_at_star {pre E p : List UInt8} (hpre : star ∉ pre) (hp : p <:+ pre ++ star :: E)
    (hlen : E.length < p.length) : ∃ w, p = w ++ star :: E ∧ star ∉ w ∧ w <:+ pre := by
  obtain ⟨q, hq⟩ := hp
  rcases List.append_eq_append_iff.1 hq with ⟨a, rfl, rfl⟩ | ⟨a, rfl, ha⟩
  · exact ⟨a, rfl, fun h => hpre (List.mem_append_right _ h), ⟨q, rfl⟩⟩
  · have := congrArg List.length ha
    simp only [List.length_append, List.length_cons] at this
    obtain rfl : a = [] := List.length_eq_zero_iff.1 (by omega)
    exact ⟨[], by simpa using ha.symm, by simp, List.nil_suffix⟩

namespace MRDPacket

/-- The slots of a packet that has the values `pre`. -/
def slots (pre : List (List UInt8)) (room : ℕ) : List (List UInt8) := pre ++ List.replicate room []

theorem slots_set (pre : List (List UInt8)) (room : ℕ) (v : List UInt8) :
    (slots pre (room + 1)).set pre.length v = slots (pre ++ [v]) room := by
  rw [slots, slots, List.set_append_right _ _ le_rfl, Nat.sub_self, List.replicate_succ,
    List.set_cons_zero, List.append_assoc, List.singleton_append]

/-- What the loop of `FromString` makes of the values it finds, with `room` slots
left. -/
def stored (self : MRDPacket) (pre found : List (List UInt8)) (room : ℕ) : MRDPacket :=
  if found.length ≤ room then
    { self with values := slots (pre ++ found) (room - found.length),
                numValues := pre.length + found.length, isValid := true }
  else { self with values := pre ++ found.take room, numValues := pre.length + room }

/-- A further value. -/
def store (self : MRDPacket) (value : List UInt8) : MRDPacket :=
  { self with values := self.values.set self.numValues value, numValues := self.numValues + 1 }

/-- The loop of `FromString` on the tokens it finds.  `ahead` says that the first
`*` of the line has not been passed. -/
def storeTokens : (ahead : Bool) → (room : ℕ) → MRDPacket → List (List UInt8) →
    Except Fault MRDPacket
  | _, _, self, [] => .ok { self with isValid := true }
  | _, 0, self, _ :: _ => .ok self
  | false, _ + 1, _, _ :: _ => .error .badCount
  | true, room + 1, self, tok :: toks =>
    storeTokens (decide (star ∉ tok)) room (self.store (valueOf tok)) toks

section Loop

variable {pre E : List UInt8}

/-- A token that starts before the `*` ends at a comma before it, or has it. -/
theorem token_ahead (E w : List UInt8) :
    (comma ∉ w ∧ token comma (w ++ star :: E) = w ++ star :: token comma E) ∨
      ∃ a b, w = a ++ comma :: b ∧ comma ∉ a ∧ token comma (w ++ star :: E) = a := by
  rcases mem_split w comma with hc | ⟨a, b, rfl, ha⟩
  · refine Or.inl ⟨hc, ?_⟩
    rw [token, List.takeWhile_append_of_pos fun x hx =>
      decide_eq_true (ne_of_mem_of_not_mem hx hc), List.takeWhile_cons_of_pos (by decide)]
    rfl
  · refine Or.inr ⟨a, b, rfl, ha, ?_⟩
    rw [List.append_assoc, List.cons_append, token_field ha]

theorem valueOf_token_ahead {w : List UInt8} (hw : star ∉ w) :
    valueOf (token comma (w ++ star :: E)) = (token comma w).take 19 := by
  rcases token_ahead E w with ⟨hc, htok⟩ | ⟨a, b, rfl, ha, htok⟩
  · rw [htok, valueOf_append hw, token_last hc]
  · rw [htok, valueOf_of_not_mem fun h => hw (List.mem_append_left _ h), token_field ha]

/-- A value before the first `*` of the line is copied up to that `*`. -/
theorem copyValue_ahead {w : List UInt8} (hw : star ∉ w) :
    copyValue (w ++ star :: E) (copyCount (w ++ star :: E) (some (star :: E))) =
      .ok (valueOf (token comma (w ++ star :: E))) := by
  have hcount : copyCount (w ++ star :: E) (some (star :: E)) = (min w.length 19 : ℕ) := by
    simp only [copyCount, List.length_append, List.length_cons, kMaxPacketFieldLen]
    omega
  rw [hcount, copyValue, if_neg (by omega), Int.toNat_natCast, min_comm, ← List.take_take,
    valueOf_token_ahead hw]
  rcases token_ahead E w with ⟨hc, htok⟩ | ⟨a, b, rfl, ha, htok⟩
  · rw [htok, List.take_left, token_last hc]
  · rw [htok, token_field ha, List.take_of_length_le (i := (a ++ comma :: b).length) (by simp)]

/-- As long as the first `*` is ahead, a call of `strtok` starts a token before it,
or at it, and the `*` stays ahead unless the token has it. -/
theorem strtok_ahead (hpre : star ∉ pre) {s p save : List UInt8} (hs : s <:+ pre ++ star :: E)
    (hlen : E.length < s.length) (htok : strtok comma s = some (p, save)) :
    ∃ w, p = w ++ star :: E ∧ star ∉ w ∧ w <:+ pre ∧
      (E.length < save.length ↔ star ∉ token comma p) := by
  obtain ⟨k, hk, -, hcut⟩ := strtok_eq_some htok
  have hplen : E.length < p.length := by
    obtain ⟨w, hw, -, -⟩ := cut_at_star hpre hs hlen
    have hmem : star ∉ List.replicate k comma := fun h =>
      absurd (List.eq_of_mem_replicate h) (by decide)
    rw [hk] at hw
    rcases List.append_eq_append_iff.1 hw with ⟨a, -, hpa⟩ | ⟨a, hka, ha⟩
    · rw [hpa, List.length_append, List.length_cons]
      omega
    · cases a with
      | nil =>
        rw [List.nil_append] at ha
        rw [← ha, List.length_cons]
        omega
      | cons x a =>
        obtain rfl : x = star := by simpa using (List.cons.inj ha).1.symm
        exact absurd (by rw [hka]; simp) hmem
  obtain ⟨w, hw, hstar, hwpre⟩ := cut_at_star hpre ((strtok_suffix htok).1.trans hs) hplen
  refine ⟨w, hw, hstar, hwpre, ?_⟩
  have hcutlen : p = token comma p ++ comma :: save →
      p.length = (token comma p).length + (save.length + 1) := by
    intro h
    simpa using congrArg List.length h
  rcases token_ahead E w with ⟨-, htoken⟩ | ⟨a, b, rfl, -, htoken⟩
  · rw [← hw] at htoken
    refine iff_of_false ?_ (by rw [htoken]; simp)
    rcases hcut with ⟨-, rfl⟩ | hcut
    · simp
    · have := hcutlen hcut
      rw [htoken, hw] at this
      simp only [List.length_append, List.length_cons] at this
      omega
  · rw [← hw] at htoken
    refine iff_of_true ?_ (by rw [htoken]; exact fun h => hstar (List.mem_append_left _ h))
    rcases hcut with ⟨hcut, -⟩ | hcut
    · have := congrArg List.length hcut
      rw [htoken, hw] at this
      simp only [List.length_append, List.length_cons] at this
      omega
    · have := hcutlen hcut
      rw [htoken, hw] at this
      simp only [List.length_append, List.length_cons] at this
      omega

/-- **The loop of `FromString`**, on what is left of a line whose first `*` stands
between `pre` and `E`. -/
theorem readValues_tokens (hpre : star ∉ pre) :
    ∀ (room : ℕ) (self : MRDPacket) (save : List UInt8), save <:+ pre ++ star :: E →
      readValues (some (star :: E)) room self (strtok comma save) =
        storeTokens (decide (E.length < save.length)) room self (tokens comma save) := by
  intro room
  induction room with
  | zero =>
    intro self save _
    cases hs : strtok comma save with
    | none => rw [tokens_of_strtok_none hs, readValues, storeTokens]
    | some r => rw [tokens_of_strtok hs, readValues, storeTokens]
  | succ room ih =>
    intro self save hsave
    cases hs : strtok comma save with
    | none => rw [tokens_of_strtok_none hs, readValues, storeTokens]
    | some r =>
      obtain ⟨p, save'⟩ := r
      obtain ⟨hp, hsave'⟩ := strtok_suffix hs
      rw [tokens_of_strtok hs, readValues]
      by_cases hahead : E.length < save.length
      · obtain ⟨w, hw, hstar, -, hiff⟩ := strtok_ahead hpre hsave hahead hs
        rw [decide_eq_true hahead, storeTokens]
        simp only [hw, copyValue_ahead hstar, bind, Except.bind]
        rw [← hw, ih _ save' (hsave'.trans (hp.trans hsave)), decide_eq_decide.2 hiff]
        rfl
      · have hcount : copyCount p (some (star :: E)) < 0 := by
          have := hp.length_le
          simp only [copyCount, List.length_cons]
          omega
        rw [decide_eq_false hahead, storeTokens, copyValue, if_pos hcount]
        rfl

/-- A value that can come out of a line with `pre` before its first `*`. -/
structure Kept (pre v : List UInt8) : Prop where
  length_le : v.length ≤ 19
  no_comma : comma ∉ v
  mem_pre : ∀ c ∈ v, c ∈ pre

theorem kept_valueOf {w p : List UInt8} (hw : p = w ++ star :: E) (hstar : star ∉ w)
    (hpre : w <:+ pre) : Kept pre (valueOf (token comma p)) := by
  rw [hw, valueOf_token_ahead hstar]
  exact ⟨by simp, fun h => delim_not_mem_token comma w (List.mem_of_mem_take h), fun c hc =>
    hpre.subset ((List.takeWhile_prefix _).subset (List.mem_of_mem_take hc))⟩

/-- **The loop keeps its array in order**: the values stored so far come from the
line, and the other slots are empty. -/
theorem readValues_inv (hpre : star ∉ pre) :
    ∀ (room : ℕ) (self p : MRDPacket) (save : List UInt8) (vals : List (List UInt8)),
      save <:+ pre ++ star :: E → self.values = slots vals room → self.numValues = vals.length →
      (∀ v ∈ vals, Kept pre v) →
      readValues (some (star :: E)) room self (strtok comma save) = .ok p →
      ∃ vals' room', room' + vals'.length = room + vals.length ∧ p.values = slots vals' room' ∧
        p.numValues = vals'.length ∧ p.regAddr = self.regAddr ∧ ∀ v ∈ vals', Kept pre v := by
  intro room
  induction room with
  | zero =>
    intro self p save vals _ hvalues hnum hkept h
    cases hs : strtok comma save <;>
    · rw [hs, readValues] at h
      obtain rfl := Except.ok.inj h
      exact ⟨vals, 0, rfl, hvalues, hnum, rfl, hkept⟩
  | succ room ih =>
    intro self p save vals hsave hvalues hnum hkept h
    cases hs : strtok comma save with
    | none =>
      rw [hs, readValues] at h
      obtain rfl := Except.ok.inj h
      exact ⟨vals, room + 1, rfl, hvalues, hnum, rfl, hkept⟩
    | some r =>
      obtain ⟨q, save'⟩ := r
      obtain ⟨hq, hsave'⟩ := strtok_suffix hs
      rw [hs, readValues] at h
      by_cases hahead : E.length < save.length
      · obtain ⟨w, hw, hstar, hwpre, -⟩ := strtok_ahead hpre hsave hahead hs
        have hcopy :
            copyValue q (copyCount q (some (star :: E))) = .ok (valueOf (token comma q)) := by
          rw [hw, copyValue_ahead hstar]
        simp only [hcopy, bind, Except.bind] at h
        have hkept' : ∀ v ∈ vals ++ [valueOf (token comma q)], Kept pre v := by
          intro v hv
          rcases List.mem_append.1 hv with hv | hv
          · exact hkept v hv
          · rw [List.mem_singleton.1 hv]
            exact kept_valueOf hw hstar hwpre
        obtain ⟨vals', room', hlen, hrest⟩ := ih _ p save' _ (hsave'.trans (hq.trans hsave))
          (by simp only [hvalues, hnum, slots_set]) (by simp [hnum]) hkept' h
        rw [List.length_append, List.length_singleton] at hlen
        exact ⟨vals', room', by omega, hrest⟩
      · have hcount : copyCount q (some (star :: E)) < 0 := by
          have := hq.length_le
          simp only [copyCount, List.length_cons]
          omega
        rw [copyValue, if_pos hcount] at h
        exact absurd h (by simp [bind, Except.bind])

end Loop

theorem stored_store (self : MRDPacket) (pre found : List (List UInt8)) (v : List UInt8)
    (room : ℕ) :
    stored (self.store v) (pre ++ [v]) found room = stored self pre (v :: found) (room + 1) := by
  simp only [stored, store, List.length_cons, Nat.add_le_add_iff_right, List.append_assoc,
    List.singleton_append, List.take_succ_cons, List.length_append, List.length_nil, Nat.zero_add,
    Nat.add_sub_add_right]
  split <;> simp only [MRDPacket.mk.injEq, true_and] <;> omega

theorem stored_eq (self : MRDPacket) {found : List (List UInt8)} {room : ℕ}
    (h : found.length ≤ room) :
    stored self [] found room = { self with
      values := slots found (room - found.length)
      numValues := found.length
      isValid := true } := by
  rw [stored, if_pos h, List.nil_append, List.length_nil, Nat.zero_add]

/-- A packet becomes valid by storing all values found. -/
theorem length_le_of_stored {self : MRDPacket} (hself : self.isValid = false)
    {found : List (List UInt8)} {room : ℕ} (h : (stored self [] found room).isValid = true) :
    found.length ≤ room := by
  by_contra hlen
  rw [stored, if_neg hlen] at h
  exact absurd h (by simp [hself])

@[simp] theorem take_slots (vs : List (List UInt8)) (room : ℕ) :
    (slots vs room).take vs.length = vs := List.take_left

/-- **The loop on tokens.**  It stores every value it has room for, unless a value
follows a token with a `*`, of which `prev` is the first. -/
theorem storeTokens_eq (toks : List (List UInt8)) :
    ∀ (prev : List UInt8) (pre : List (List UInt8)) (room : ℕ) (self : MRDPacket),
      self.values = slots pre room → self.numValues = pre.length →
      storeTokens (decide (star ∉ prev)) room self toks =
        if ∀ tok ∈ (prev :: toks.take room).dropLast, star ∉ tok
        then .ok (stored self pre (toks.map valueOf) room) else .error .badCount := by
  induction toks with
  | nil =>
    intro prev pre room self hvalues hnum
    obtain ⟨base, addr, values, num⟩ := self
    simp only at hvalues hnum
    subst hvalues hnum
    simp [storeTokens, stored]
  | cons tok toks ih =>
    intro prev pre room self hvalues hnum
    cases room with
    | zero =>
      obtain ⟨base, addr, values, num⟩ := self
      simp only at hvalues hnum
      subst hvalues hnum
      simp [storeTokens, stored, slots]
    | succ room =>
      rw [List.take_succ_cons, List.dropLast_cons_cons]
      by_cases hprev : star ∈ prev
      · rw [decide_eq_false (not_not.2 hprev), storeTokens, if_neg]
        exact fun h => h prev (by simp) hprev
      · rw [decide_eq_true hprev, storeTokens, ih tok (pre ++ [valueOf tok]) room _
          (by rw [store, hvalues, hnum, slots_set]) (by simp [store, hnum]),
          stored_store, List.map_cons]
        simp [hprev]

/-- With no `*` before the last value, every value is stored. -/
theorem storeTokens_of_free (pre : List (List UInt8)) (room : ℕ) {prev : List UInt8}
    {toks : List (List UInt8)} (h : ∀ tok ∈ (prev :: toks).dropLast, star ∉ tok) {self : MRDPacket}
    (hvalues : self.values = slots pre room) (hnum : self.numValues = pre.length) :
    storeTokens (decide (star ∉ prev)) room self toks =
      .ok (stored self pre (toks.map valueOf) room) := by
  have hcut : ((prev :: toks).take (room + 1)).dropLast <+: (prev :: toks).dropLast := by
    rw [List.dropLast_eq_take, List.dropLast_eq_take, List.take_take, List.length_take]
    exact List.take_prefix_take_left (by omega)
  rw [storeTokens_eq toks prev pre room self hvalues hnum, if_pos]
  exact fun tok htok => h tok (hcut.subset htok)

end MRDPacket

/-! ## The typed parsers -/

/-- A parser's own header check on the first token: `parse` gets the other tokens,
and a line with another header gives `other`. -/
def withHeader {α : Type} (t : PacketType) (other : α)
    (parse : List (List UInt8) → Except Fault α) : List (List UInt8) → Except Fault α
  | [] => .error .nullHeader
  | hd :: toks => if hd = dollar :: packetHeaderStr t then parse toks else .ok other

/-- What `DISPacket::FromString` makes of the tokens of a line that `BSPacket`
accepted as `base`. -/
def DISPacket.ofTokens (base : BSPacket) : List (List UInt8) → Except Fault DISPacket :=
  withHeader .dis { toBSPacket := base } fun
    | id :: _ => .ok { toBSPacket := { base with isValid := true }, lastCellId := idOf id }
    | _ => .error .nullField

/-- The same for `MWRPacket::FromString`. -/
def MWRPacket.ofTokens (base : BSPacket) : List (List UInt8) → Except Fault MWRPacket :=
  withHeader .mwr { toBSPacket := base } fun
    | addr :: value :: _ => (valueOfToken value).map fun v =>
        { toBSPacket := { base with isValid := true }, regAddr := addrOf addr, value := v }
    | _ => .error .nullField

/-- The same for `MRDPacket::FromString`, which resets `is_valid_` before its
header check. -/
def MRDPacket.ofTokens (base : BSPacket) : List (List UInt8) → Except Fault MRDPacket :=
  let base := { base with isValid := false }
  withHeader .mrd { toBSPacket := base, values := slots [] kMaxNumValues } fun
    | addr :: values =>
      storeTokens (decide (star ∉ addr)) kMaxNumValues
        { toBSPacket := base, values := slots [] kMaxNumValues, regAddr := addrOf addr } values
    | _ => .error .nullField

/-- The same for `SWRPacket::FromString`. -/
def SWRPacket.ofTokens (base : BSPacket) : List (List UInt8) → Except Fault SWRPacket :=
  withHeader .swr { toBSPacket := base } fun
    | id :: addr :: value :: _ => (valueOfToken value).map fun v =>
        { toBSPacket := { base with isValid := true }, cellId := idOf id, regAddr := addrOf addr,
          value := v }
    | _ => .error .nullField

/-- The same for `SRDPacket::FromString`, which resets `is_valid_` before its
header check. -/
def SRDPacket.ofTokens (base : BSPacket) : List (List UInt8) → Except Fault SRDPacket :=
  let base := { base with isValid := false }
  withHeader .srd { toBSPacket := base } fun
    | id :: addr :: _ =>
      .ok { toBSPacket := { base with isValid := true }, cellId := idOf id, regAddr := addrOf addr }
    | _ => .error .nullField

/-- The same for `SRSPacket::FromString`. -/
def SRSPacket.ofTokens (base : BSPacket) : List (List UInt8) → Except Fault SRSPacket :=
  withHeader .srs { toBSPacket := base } fun
    | id :: value :: _ => (valueOfToken value).map fun v =>
        { toBSPacket := { base with isValid := true }, cellId := idOf id, value := v }
    | _ => .error .nullField

section Parsers

variable {stack : Stack} {line : List UInt8} {t : PacketType}

/-- **What `DISPacket::FromString` makes of an accepted line.** -/
theorem DISPacket.ofString_tokens (hacc : BSPacket.Accepts stack line t) :
    ofString stack line =
      ofTokens { packetStr := line, isValid := true, packetType := t } (tokens comma line) := by
  simp only [ofString, fromString, BSPacket.fromString_of_accepts hacc, bind, Except.bind]
  rcases expectHeader_cases .dis line with ⟨htok, hexp⟩ | ⟨hd, save, -, htok, hexp⟩
  · rw [hexp, htok]; rfl
  rw [hexp, htok, ofTokens, withHeader]
  by_cases hhd : token comma hd = dollar :: packetHeaderStr .dis
  · rw [if_pos hhd, if_pos hhd]
    rcases nextField_cases save with ⟨hnil, hnext⟩ | ⟨p, save', -, hcons, hnext⟩
    · simp [hnil, hnext]
    · simp only [hcons, hnext]; rfl
  · rw [if_neg hhd, if_neg hhd]; rfl

/-- **What `MWRPacket::FromString` makes of an accepted line.** -/
theorem MWRPacket.ofString_tokens (hacc : BSPacket.Accepts stack line t) :
    ofString stack line =
      ofTokens { packetStr := line, isValid := true, packetType := t } (tokens comma line) := by
  simp only [ofString, fromString, BSPacket.fromString_of_accepts hacc, bind, Except.bind]
  rcases expectHeader_cases .mwr line with ⟨htok, hexp⟩ | ⟨hd, save, -, htok, hexp⟩
  · rw [hexp, htok]; rfl
  rw [hexp, htok, ofTokens, withHeader]
  by_cases hhd : token comma hd = dollar :: packetHeaderStr .mwr
  · rw [if_pos hhd, if_pos hhd]
    rcases nextField_cases save with ⟨hnil, hnext⟩ | ⟨p, save₁, -, hcons, hnext⟩
    · simp [hnil, hnext]
    rcases nextField_cases save₁ with ⟨hnil₁, hnext₁⟩ | ⟨q, save₂, -, hcons₁, hnext₁⟩
    · simp [hcons, hnext, hnil₁, hnext₁]
    · simp only [hcons, hnext, hcons₁, hnext₁, readValue_eq]
      cases valueOfToken (token comma q) <;> rfl
  · rw [if_neg hhd, if_neg hhd]; rfl

/-- **What `MRDPacket::FromString` makes of an accepted line.** -/
theorem MRDPacket.ofString_tokens (hacc : BSPacket.Accepts stack line t) :
    ofString stack line =
      ofTokens { packetStr := line, isValid := true, packetType := t } (tokens comma line) := by
  obtain ⟨pre, E, hline, hpre⟩ := List.eq_append_cons_of_mem hacc.star_mem
  have hstr : strchr line star = some (star :: E) := by rw [hline, strchr_append hpre]
  simp only [ofString, fromString, BSPacket.fromString_of_accepts hacc, bind, Except.bind]
  rcases expectHeader_cases .mrd line with ⟨htok, hexp⟩ | ⟨hd, save, hs, htok, hexp⟩
  · rw [hexp, htok]; rfl
  rw [hexp, htok, ofTokens, withHeader]
  by_cases hhd : token comma hd = dollar :: packetHeaderStr .mrd
  · rw [if_pos hhd, if_pos hhd]
    -- the `*` is ahead after the header, which has none
    have hsave := (strtok_suffix hs).2.trans (strtok_suffix hs).1
    rw [hline] at hsave hs
    obtain ⟨-, -, -, -, hiff⟩ := strtok_ahead hpre List.suffix_rfl (by simp; omega) hs
    have hahead : E.length < save.length := hiff.2 (by rw [hhd]; decide)
    rcases nextField_cases save with ⟨hnil, hnext⟩ | ⟨p, save₁, hs₁, hcons, hnext⟩
    · simp [hnil, hnext]
    · obtain ⟨-, -, -, -, hiff₁⟩ := strtok_ahead hpre hsave hahead hs₁
      have hsave₁ := ((strtok_suffix hs₁).2.trans (strtok_suffix hs₁).1).trans hsave
      simp only [hcons, hnext, hstr, readValues_tokens hpre _ _ _ hsave₁,
        decide_eq_decide.2 hiff₁]
      rfl
  · rw [if_neg hhd, if_neg hhd]; rfl

/-- **The packet that a valid line gives**: its address and up to 20 values, which
stood before the first `*` of the line. -/
theorem MRDPacket.ofString_inv {p : MRDPacket} (h : ofString stack line = .ok p)
    (hv : p.isValid = true) :
    star ∈ line ∧ ∃ vals : List (List UInt8), vals.length ≤ kMaxNumValues ∧
      p.values = slots vals (kMaxNumValues - vals.length) ∧ p.numValues = vals.length ∧
      ∀ v ∈ vals, Kept (line.takeWhile (· ≠ star)) v := by
  simp only [ofString, fromString, bind, Except.bind] at h
  split at h
  · exact absurd h (by simp)
  rename_i base hbase
  rcases BSPacket.fromString_cases hbase with rfl | ⟨t, hacc, rfl⟩
  · obtain rfl := Except.ok.inj h
    exact absurd hv (by simp)
  obtain ⟨pre, E, hline, hpre⟩ := List.eq_append_cons_of_mem hacc.star_mem
  have hstr : strchr line star = some (star :: E) := by rw [hline, strchr_append hpre]
  have htake : line.takeWhile (· ≠ star) = pre := by rw [hline, takeWhile_ne_append hpre]
  rcases expectHeader_cases .mrd line with ⟨-, hexp⟩ | ⟨hd, save, hs, -, hexp⟩
  · rw [hexp] at h
    exact absurd h (by simp)
  by_cases hhd : token comma hd = dollar :: packetHeaderStr .mrd
  · rcases nextField_cases save with ⟨-, hnext⟩ | ⟨q, save₁, hs₁, -, hnext⟩
    · simp [hexp, hhd, hnext] at h
    · have hsave := (strtok_suffix hs).2.trans (strtok_suffix hs).1
      have hsave₁ := ((strtok_suffix hs₁).2.trans (strtok_suffix hs₁).1).trans hsave
      rw [hline] at hsave₁
      simp only [hexp, hhd, if_true, hnext, hstr] at h
      obtain ⟨vals, room, hlen, hvalues, hnum, -, hkept⟩ :=
        readValues_inv hpre kMaxNumValues _ p save₁ [] hsave₁ rfl rfl (by simp) h
      rw [List.length_nil] at hlen
      refine ⟨hacc.star_mem, vals, by omega, ?_, hnum, by rw [htake]; exact hkept⟩
      rw [hvalues, show kMaxNumValues - vals.length = room by omega]
  · simp only [hexp, hhd, if_false] at h
    obtain rfl := Except.ok.inj h
    exact absurd hv (by simp)

/-- **What `SWRPacket::FromString` makes of an accepted line.** -/
theorem SWRPacket.ofString_tokens (hacc : BSPacket.Accepts stack line t) :
    ofString stack line =
      ofTokens { packetStr := line, isValid := true, packetType := t } (tokens comma line) := by
  simp only [ofString, fromString, BSPacket.fromString_of_accepts hacc, bind, Except.bind]
  rcases expectHeader_cases .swr line with ⟨htok, hexp⟩ | ⟨hd, save, -, htok, hexp⟩
  · rw [hexp, htok]; rfl
  rw [hexp, htok, ofTokens, withHeader]
  by_cases hhd : token comma hd = dollar :: packetHeaderStr .swr
  · rw [if_pos hhd, if_pos hhd]
    rcases nextField_cases save with ⟨hnil, hnext⟩ | ⟨p, save₁, -, hcons, hnext⟩
    · simp [hnil, hnext]
    rcases nextField_cases save₁ with ⟨hnil₁, hnext₁⟩ | ⟨q, save₂, -, hcons₁, hnext₁⟩
    · simp [hcons, hnext, hnil₁, hnext₁]
    rcases nextField_cases save₂ with ⟨hnil₂, hnext₂⟩ | ⟨r, save₃, -, hcons₂, hnext₂⟩
    · simp [hcons, hnext, hcons₁, hnext₁, hnil₂, hnext₂]
    · simp only [hcons, hnext, hcons₁, hnext₁, hcons₂, hnext₂, readValue_eq]
      cases valueOfToken (token comma r) <;> rfl
  · rw [if_neg hhd, if_neg hhd]; rfl

/-- **What `SRDPacket::FromString` makes of an accepted line.** -/
theorem SRDPacket.ofString_tokens (hacc : BSPacket.Accepts stack line t) :
    ofString stack line =
      ofTokens { packetStr := line, isValid := true, packetType := t } (tokens comma line) := by
  simp only [ofString, fromString, BSPacket.fromString_of_accepts hacc, bind, Except.bind]
  rcases expectHeader_cases .srd line with ⟨htok, hexp⟩ | ⟨hd, save, -, htok, hexp⟩
  · rw [hexp, htok]; rfl
  rw [hexp, htok, ofTokens, withHeader]
  by_cases hhd : token comma hd = dollar :: packetHeaderStr .srd
  · rw [if_pos hhd, if_pos hhd]
    rcases nextField_cases save with ⟨hnil, hnext⟩ | ⟨p, save₁, -, hcons, hnext⟩
    · simp [hnil, hnext]
    rcases nextField_cases save₁ with ⟨hnil₁, hnext₁⟩ | ⟨q, save₂, -, hcons₁, hnext₁⟩
    · simp [hcons, hnext, hnil₁, hnext₁]
    · simp only [hcons, hnext, hcons₁, hnext₁]; rfl
  · rw [if_neg hhd, if_neg hhd]; rfl

/-- **What `SRSPacket::FromString` makes of an accepted line.** -/
theorem SRSPacket.ofString_tokens (hacc : BSPacket.Accepts stack line t) :
    ofString stack line =
      ofTokens { packetStr := line, isValid := true, packetType := t } (tokens comma line) := by
  simp only [ofString, fromString, BSPacket.fromString_of_accepts hacc, bind, Except.bind]
  rcases expectHeader_cases .srs line with ⟨htok, hexp⟩ | ⟨hd, save, -, htok, hexp⟩
  · rw [hexp, htok]; rfl
  rw [hexp, htok, ofTokens, withHeader]
  by_cases hhd : token comma hd = dollar :: packetHeaderStr .srs
  · rw [if_pos hhd, if_pos hhd]
    rcases nextField_cases save with ⟨hnil, hnext⟩ | ⟨p, save₁, -, hcons, hnext⟩
    · simp [hnil, hnext]
    rcases nextField_cases save₁ with ⟨hnil₁, hnext₁⟩ | ⟨q, save₂, -, hcons₁, hnext₁⟩
    · simp [hcons, hnext, hnil₁, hnext₁]
    · simp only [hcons, hnext, hcons₁, hnext₁, readValue_eq]
      cases valueOfToken (token comma q) <;> rfl
  · rw [if_neg hhd, if_neg hhd]; rfl

end Parsers

end Scbs
