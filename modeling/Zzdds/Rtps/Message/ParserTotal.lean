import Zzdds.Rtps.Message.ParserSafe

/-! # When parsing a datagram is total

`HeaderAt` is the chain of positions at which the iterator reads a submessage header, across
failed calls as well: a call moves past the header before it looks at the content, so the
next call goes on from there.  `parsing_total_iff` says that every call returns a submessage,
the end or an error, that the position never leaves the datagram and strictly advances while
a header is left to read, and that the iteration ends, exactly when no DATA or DATA_FRAG of
the chain carries an inline QoS that overhangs it. -/

namespace Zzdds.Rtps

open Zzdds.Lib MessageIterator

/-! ### What a header announces -/

/-- The submessage whose header stands at `p` carries an inline QoS that overhangs it. -/
def OverhangsAt (buf : List UInt8) (p : ℕ) : Prop :=
  p + 4 + contentLen buf p ≤ buf.length ∧
    let flags := byteAt buf (p + 1)
    let le := hasFlag flags FLAG_ENDIANNESS
    let content := (buf.drop (p + 4)).take (contentLen buf p)
    (SubMessageId.ofByte (byteAt buf p) = .data ∧
      QosOverhangs (hasFlag flags DataFlags.inlineQos) 16 le content) ∨
    (SubMessageId.ofByte (byteAt buf p) = .dataFrag ∧
      QosOverhangs (hasFlag flags DataFragFlags.inlineQos) 28 le content)

/-- Where the header after the one at `p` is read: behind the content, or right behind the
header when the content would not fit. -/
def nextHeader (buf : List UInt8) (p : ℕ) : ℕ :=
  if buf.length < p + 4 + contentLen buf p then p + 4 else p + 4 + contentLen buf p

/-- A submessage header is read at this position of the datagram. -/
inductive HeaderAt (buf : List UInt8) : ℕ → Prop
  | first (hl : 20 ≤ buf.length) (hid : buf.take 4 = PROTOCOL_ID) : HeaderAt buf 20
  | next {p : ℕ} (h : HeaderAt buf p) (hp : p + 4 ≤ buf.length) : HeaderAt buf (nextHeader buf p)

theorem lt_nextHeader (buf : List UInt8) (p : ℕ) : p < nextHeader buf p := by
  unfold nextHeader
  split <;> omega

theorem nextHeader_le {buf : List UInt8} {p : ℕ} (hp : p + 4 ≤ buf.length) :
    nextHeader buf p ≤ buf.length := by
  unfold nextHeader
  split <;> omega

theorem HeaderAt.le_length {buf : List UInt8} {p : ℕ} (h : HeaderAt buf p) :
    p ≤ buf.length := by
  cases h with
  | first hl _ => exact hl
  | next _ hp => exact nextHeader_le hp

/-- The content of a submessage stops the program exactly when its inline QoS overhangs. -/
theorem parseContent_eq_trap_iff {id : SubMessageId} {flags : UInt8} {cap : ℕ}
    {content : List UInt8} {le : Bool} {p : Parse SubMessage}
    (h : parseContent id flags cap content = some p) :
    p (Reader.init content le) = .trap ↔
      (id = .data ∧ QosOverhangs (hasFlag flags DataFlags.inlineQos) 16 le content) ∨
      (id = .dataFrag ∧ QosOverhangs (hasFlag flags DataFragFlags.inlineQos) 28 le content) := by
  have hb : (Reader.init content le).InBounds := Nat.zero_le _
  have hbind : ∀ {α : Type} {q : Parse α} {f : α → SubMessage},
      (q >>= fun a => pure (f a)) (Reader.init content le) = .trap ↔
        q (Reader.init content le) = .trap := by
    intro α q f
    simp [Checked.bind_eq_trap, Checked.pure_apply]
  have hsafe : ∀ {α : Type} {q : Parse α}, q.Safe → q (Reader.init content le) ≠ .trap :=
    fun hq => (hq _ hb).ne_trap
  cases id <;> simp only [parseContent, Option.some.injEq, reduceCtorEq] at h <;> subst h
  case data => simp [hbind, parseData_eq_trap_iff]
  case dataFrag => simp [hbind, parseDataFrag_eq_trap_iff]
  case heartbeat => simp [hbind, hsafe (Parse.safe_parseHeartbeat flags)]
  case acknack => simp [hbind, hsafe (Parse.safe_parseAckNack flags)]
  case gap => simp [hbind, hsafe (Parse.safe_parseGap flags)]
  case infoTs => simp [hbind, hsafe (Parse.safe_parseInfoTs flags)]
  case infoDst => simp [hbind, hsafe Parse.safe_parseInfoDst]
  case infoSrc => simp [hbind, hsafe Parse.safe_parseInfoSrc]
  case heartbeatFrag => simp [hbind, hsafe (Parse.safe_parseHeartbeatFrag flags)]
  case nackFrag => simp [hbind, hsafe (Parse.safe_parseNackFrag flags)]
  all_goals simp [Checked.pure_apply]

/-- Only skipped kinds have no content parser. -/
theorem not_overhangs_of_skipped {id : SubMessageId} {flags : UInt8} {cap : ℕ}
    {content : List UInt8} (h : parseContent id flags cap content = none) :
    id ≠ .data ∧ id ≠ .dataFrag := by
  constructor <;> rintro rfl <;> simp [parseContent] at h

/-! ### One call -/

/-- What a call returns with fewer than four octets left. -/
def endOutcome (it : MessageIterator) : Outcome ParseError (Option SubMessage) :=
  if it.buf.length ≤ it.pos then .ok none else .error .badSubmessageLength

theorem nextLoop_at_end (cap fuel : ℕ) {it : MessageIterator}
    (h : it.buf.length < it.pos + 4) : nextLoop cap (fuel + 1) it = (endOutcome it, it) := by
  rw [nextLoop, endOutcome]
  split
  · rfl
  · rw [if_pos (by omega)]

/-- Every way a call goes on from a header: it fails on the content's length, skips the
submessage, or parses its content. -/
theorem nextLoop_step (cap fuel : ℕ) {it : MessageIterator} (h : it.pos + 4 ≤ it.buf.length) :
    let it' : MessageIterator := { it with pos := nextHeader it.buf it.pos }
    (it.buf.length < it.pos + 4 + contentLen it.buf it.pos ∧
      nextLoop cap (fuel + 1) it = (.error .badSubmessageLength, it')) ∨
    (¬ OverhangsAt it.buf it.pos ∧ nextLoop cap (fuel + 1) it = nextLoop cap fuel it') ∨
    (∃ o, nextLoop cap (fuel + 1) it = (o, it') ∧ (o = .trap ↔ OverhangsAt it.buf it.pos)) := by
  intro it'
  rw [nextLoop, if_neg (by omega), if_neg (by omega)]
  simp only
  by_cases hc : it.buf.length < it.pos + 4 + contentLen it.buf it.pos
  · refine .inl ⟨hc, ?_⟩
    rw [if_pos hc]
    simp only [it', nextHeader, if_pos hc]
  · have hit : ({ it with pos := it.pos + 4 + contentLen it.buf it.pos } : MessageIterator) =
        it' := by
      simp only [it', nextHeader, if_neg hc]
    rw [if_neg hc, hit]
    cases hp : parseContent (SubMessageId.ofByte (byteAt it.buf it.pos))
        (byteAt it.buf (it.pos + 1)) cap
        ((it.buf.drop (it.pos + 4)).take (contentLen it.buf it.pos)) with
    | none =>
        refine .inr (.inl ⟨?_, rfl⟩)
        rintro ⟨-, h | h⟩
        · exact (not_overhangs_of_skipped hp).1 h.1
        · exact (not_overhangs_of_skipped hp).2 h.1
    | some p =>
        refine .inr (.inr ⟨_, rfl, ?_⟩)
        rw [OverhangsAt, Outcome.map, Outcome.bind_eq_trap, and_iff_right (by omega),
          ← parseContent_eq_trap_iff hp]
        simp

/-- A call from a position inside the datagram, with fuel for every octet left: it moves
along the header chain, strictly if a header is left, and stops the program only at a
submessage of the chain that overhangs. -/
theorem nextLoop_spec (cap : ℕ) :
    ∀ (fuel : ℕ) (it : MessageIterator), HeaderAt it.buf it.pos →
      it.buf.length - it.pos < fuel →
      ∃ q, (nextLoop cap fuel it).2 = { it with pos := q } ∧ HeaderAt it.buf q ∧
        it.pos ≤ q ∧ (it.pos + 4 ≤ it.buf.length → it.pos < q) ∧
        ((nextLoop cap fuel it).1 = .trap →
          ∃ p, HeaderAt it.buf p ∧ p + 4 ≤ it.buf.length ∧ OverhangsAt it.buf p)
  | 0, _, _, hf => absurd hf (Nat.not_lt_zero _)
  | fuel + 1, it, hh, hf => by
      by_cases h4 : it.pos + 4 ≤ it.buf.length
      · have hlt := lt_nextHeader it.buf it.pos
        have hnext : HeaderAt it.buf (nextHeader it.buf it.pos) := hh.next h4
        rcases nextLoop_step cap fuel h4 with ⟨-, he⟩ | ⟨-, he⟩ | ⟨o, he, ho⟩
        · rw [he]
          exact ⟨_, rfl, hnext, hlt.le, fun _ => hlt, fun h => nomatch h⟩
        · rw [he]
          obtain ⟨q, hq, hhq, hle, -, ht⟩ :=
            nextLoop_spec cap fuel { it with pos := nextHeader it.buf it.pos } hnext
              (by simp only; omega)
          exact ⟨q, hq, hhq, hlt.le.trans hle, fun _ => hlt.trans_le hle, ht⟩
        · rw [he]
          exact ⟨_, rfl, hnext, hlt.le, fun _ => hlt, fun h => ⟨_, hh, h4, ho.mp h⟩⟩
      · rw [nextLoop_at_end cap fuel (by omega)]
        refine ⟨it.pos, rfl, hh, le_rfl, fun h => absurd h h4, fun h => ?_⟩
        unfold endOutcome at h
        split at h <;> cases h

/-! ### The whole iteration -/

theorem init_eq_ok {buf : List UInt8} {it : MessageIterator}
    (h : MessageIterator.init buf = .ok it) : it.buf = buf ∧ it.pos = 20 ∧ HeaderAt buf 20 := by
  unfold MessageIterator.init at h
  split at h
  · cases h
  next hl =>
    unfold Header.fromBytes at h
    split at h
    · cases h
    next hd hid =>
      cases h
      refine ⟨rfl, rfl, .first (by omega) ?_⟩
      by_contra hc
      rw [if_neg (by simpa [List.take_take] using hc)] at hid
      cases hid

theorem headerAt_init {buf : List UInt8} {p : ℕ} (h : HeaderAt buf p) :
    ∃ it, MessageIterator.init buf = .ok it := by
  induction h with
  | next _ _ ih => exact ih
  | first hl hid =>
      unfold MessageIterator.init Header.fromBytes
      rw [dif_neg (by omega)]
      simp only [List.take_take]
      rw [if_pos (by simpa using hid)]
      exact ⟨_, rfl⟩

theorem after_zero (cap : ℕ) (it : MessageIterator) : after cap 0 it = it := rfl

theorem after_succ (cap k : ℕ) (it : MessageIterator) :
    after cap (k + 1) it = (next cap (after cap k it)).2 :=
  Function.iterate_succ_apply' _ k it

theorem after_spec (cap : ℕ) {it : MessageIterator} (h : HeaderAt it.buf it.pos) :
    ∀ k, ∃ q, after cap k it = { it with pos := q } ∧ HeaderAt it.buf q
  | 0 => ⟨it.pos, rfl, h⟩
  | k + 1 => by
      obtain ⟨q, hq, hh⟩ := after_spec cap h k
      obtain ⟨q', hq', hh', -⟩ := nextLoop_spec cap (it.buf.length + 1) { it with pos := q } hh
        (by simp only; omega)
      refine ⟨q', ?_, hh'⟩
      rw [after_succ, hq, next, hq']

/-- Every header of the chain is read by some call. -/
theorem headerAt_visited {buf : List UInt8} {p : ℕ} (cap : ℕ) {it : MessageIterator}
    (hit : MessageIterator.init buf = .ok it) (h : HeaderAt buf p) :
    ∃ k fuel, buf.length - p < fuel ∧
      next cap (after cap k it) = nextLoop cap fuel { it with pos := p } := by
  obtain ⟨rfl, hpos, -⟩ := init_eq_ok hit
  induction h with
  | first hl hid =>
      refine ⟨0, it.buf.length + 1, by omega, ?_⟩
      rw [after_zero, next, ← hpos]
  | @next p h hp ih =>
      obtain ⟨k, fuel, hf, hk⟩ := ih
      obtain ⟨f, rfl⟩ : ∃ f, fuel = f + 1 := ⟨fuel - 1, by omega⟩
      have hlt := lt_nextHeader it.buf p
      have hfresh : (next cap (after cap k it)).2 = { it with pos := nextHeader it.buf p } →
          next cap (after cap (k + 1) it) =
            nextLoop cap (it.buf.length + 1) { it with pos := nextHeader it.buf p } := by
        intro e
        rw [after_succ, e, next]
      have hstep := @nextLoop_step cap f { it with pos := p } hp
      rcases hstep with ⟨-, he⟩ | ⟨-, he⟩ | ⟨o, he, -⟩
      · exact ⟨k + 1, _, by omega, hfresh (by rw [hk, he])⟩
      · exact ⟨k, f, by omega, by rw [hk, he]⟩
      · exact ⟨k + 1, _, by omega, hfresh (by rw [hk, he])⟩

/-- What totality asks of the calls on one iterator: none stops the program, the position
stays inside the datagram and strictly advances while a header is left to read (with fewer
than four octets left the call says so and changes nothing), and after finitely many calls no
header is left. -/
def IterationTotal (cap : ℕ) (it : MessageIterator) : Prop :=
  (∀ k, let s := after cap k it
    (next cap s).1 ≠ .trap ∧ s.pos ≤ s.buf.length ∧
      (s.pos + 4 ≤ s.buf.length → s.pos < (next cap s).2.pos) ∧
      (s.buf.length < s.pos + 4 → next cap s = (endOutcome s, s))) ∧
  ∃ k ≤ it.buf.length, it.buf.length < (after cap k it).pos + 4

/-- Parsing the datagram is total, with room for `cap` inline QoS parameters. -/
def ParsingTotal (cap : ℕ) (buf : List UInt8) : Prop :=
  match MessageIterator.init buf with
  | .ok it => IterationTotal cap it
  | .error _ => True
  | .trap => False

/-- The position reaches the end: it gains an octet with every call until it does. -/
theorem after_reaches_end (cap : ℕ) {it : MessageIterator} (h : HeaderAt it.buf it.pos) :
    ∃ k ≤ it.buf.length, it.buf.length < (after cap k it).pos + 4 := by
  by_contra hc
  simp only [not_exists, not_and, Nat.not_lt] at hc
  have hgain : ∀ k ≤ it.buf.length, it.pos + k ≤ (after cap k it).pos := by
    intro k
    induction k with
    | zero => exact fun _ => le_rfl
    | succ k ih =>
        intro hk
        obtain ⟨q, hq, hh⟩ := after_spec cap h k
        obtain ⟨q', hq', -, -, hlt, -⟩ := nextLoop_spec cap (it.buf.length + 1)
          { it with pos := q } hh (by simp only; omega)
        have h4 := hc k (by omega)
        have hle := ih (by omega)
        rw [hq] at h4 hle
        have hnext : (after cap (k + 1) it).pos = q' := by
          rw [after_succ, hq, next, hq']
        have := hlt h4
        simp only at this hle
        omega
  have hend := hgain _ le_rfl
  have := hc _ le_rfl
  omega

/-- A submessage of the chain that overhangs stops the program. -/
theorem not_parsingTotal_of_overhangs (cap : ℕ) {buf : List UInt8} {p : ℕ}
    (hp : HeaderAt buf p) (h4 : p + 4 ≤ buf.length) (ho : OverhangsAt buf p) :
    ¬ ParsingTotal cap buf := by
  intro hT
  obtain ⟨it, hit⟩ := headerAt_init hp
  rw [ParsingTotal, hit] at hT
  obtain ⟨k, fuel, hf, hk⟩ := headerAt_visited cap hit hp
  obtain ⟨rfl, -, -⟩ := init_eq_ok hit
  obtain ⟨f, rfl⟩ : ∃ f, fuel = f + 1 := ⟨fuel - 1, by omega⟩
  apply (hT.1 k).1
  rw [hk]
  have hstep := @nextLoop_step cap f { it with pos := p } h4
  rcases hstep with ⟨hc, -⟩ | ⟨hno, -⟩ | ⟨o, he, hiff⟩
  · exact absurd ho.1 (Nat.not_le.mpr hc)
  · exact absurd ho hno
  · rw [he]
    exact hiff.mpr ho

theorem init_ne_trap (buf : List UInt8) : MessageIterator.init buf ≠ .trap := by
  unfold MessageIterator.init
  split
  · exact fun h => nomatch h
  · split <;> exact fun h => nomatch h

/-- Parsing a datagram is total exactly when no DATA or DATA_FRAG of its header chain carries
an inline QoS parameter whose padding leaves the submessage. -/
theorem parsing_total_iff (cap : ℕ) (buf : List UInt8) :
    ParsingTotal cap buf ↔
      ¬ ∃ p, HeaderAt buf p ∧ p + 4 ≤ buf.length ∧ OverhangsAt buf p := by
  constructor
  · rintro hT ⟨p, hp, h4, ho⟩
    exact not_parsingTotal_of_overhangs cap hp h4 ho hT
  · intro hno
    unfold ParsingTotal
    cases hit : MessageIterator.init buf with
    | error e => trivial
    | trap => exact init_ne_trap buf hit
    | ok it =>
        obtain ⟨rfl, hpos, hfirst⟩ := init_eq_ok hit
        rw [← hpos] at hfirst
        refine ⟨fun k => ?_, after_reaches_end cap hfirst⟩
        obtain ⟨q, hq, hh⟩ := after_spec cap hfirst k
        obtain ⟨q', hq', -, -, hlt, htrap⟩ := nextLoop_spec cap (it.buf.length + 1)
          { it with pos := q } hh (by simp only; omega)
        simp only [hq, next]
        refine ⟨fun h => hno (htrap h), hh.le_length, fun h => ?_, fun h => ?_⟩
        · rw [hq']
          exact hlt h
        · exact nextLoop_at_end cap _ h

/-- A DATA whose inline QoS is one parameter with a single octet of value, at the very end of
the datagram. -/
def overhangingDatagram : List UInt8 :=
  PROTOCOL_ID ++ [2, 5, 0x01, 0x1b] ++ List.replicate 12 0 ++
    [0x15, 0x03, 25, 0, 0, 0, 16, 0, 0, 0, 0, 0, 0, 0, 0, 0, 0, 0, 0, 0, 1, 0, 0, 0,
      0x70, 0x00, 1, 0, 0xff]

/-- Its first `next` stops the program: the cursor is aligned from 25 to 28 in a content of
25 octets, and the next read subtracts 28 from 25. -/
theorem overhanging_datagram_not_total : ¬ ParsingTotal 32 overhangingDatagram := by
  have hat : ParamAt true ((overhangingDatagram.drop 24).take 25) 20 := by
    refine ⟨by decide, by decide, by decide⟩
  have ho : OverhangsAt overhangingDatagram 20 :=
    ⟨by decide, .inl ⟨by decide, by decide, .here hat (by decide)⟩⟩
  exact not_parsingTotal_of_overhangs 32 (.first (by decide) (by decide)) (by decide) ho

end Zzdds.Rtps
