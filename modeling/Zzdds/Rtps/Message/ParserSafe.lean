import Zzdds.Rtps.Message.Parser

/-! # When parsing one submessage is safe

Every read of the parser checks what is left of its slice first, so a cursor that is inside
its slice stays inside: the parsers are `Safe` for `InBounds`.  The one move without a check
is `align4` after an inline QoS parameter.  `Overhang` says, of the bytes alone, that some
parameter before the sentinel ends so close to the end of the submessage that its padding
would leave it; `parseInlineQosLoop_eq_trap_iff` shows that this is exactly when the loop
stops the program, and `parseData_eq_trap_iff` and `parseDataFrag_eq_trap_iff` carry it to
the two submessages with an inline QoS. -/

namespace Zzdds.Rtps

open Zzdds.Lib Reader

/-! ### Reads stay inside the slice -/

/-- The cursor is inside its slice. -/
def Reader.InBounds (r : Reader) : Prop := r.pos ≤ r.buf.length

/-- The cursor moved forward over the same slice. -/
def Reader.Advances (r r' : Reader) : Prop := r'.buf = r.buf ∧ r'.le = r.le ∧ r.pos ≤ r'.pos

theorem Reader.Advances.refl (r : Reader) : r.Advances r := ⟨rfl, rfl, le_rfl⟩

theorem Reader.Advances.trans (r₁ r₂ r₃ : Reader) (h : r₁.Advances r₂) (h' : r₂.Advances r₃) :
    r₁.Advances r₃ :=
  ⟨h'.1.trans h.1, h'.2.1.trans h.2.1, h.2.2.trans h'.2.2⟩

/-- A parser that keeps the cursor inside its slice and does not stop the program. -/
abbrev Parse.Safe {α : Type} (p : Parse α) : Prop := Checked.Safe Reader.InBounds Reader.Advances p

namespace Parse

variable {α β : Type}

theorem safe_pure (a : α) : Parse.Safe (pure a) := Checked.Safe.pure Advances.refl a

theorem safe_throw (e : ParseError) : Parse.Safe (Checked.throw e : Parse α) :=
  Checked.Safe.throw e

theorem safe_bind {p : Parse α} {f : α → Parse β} (hp : p.Safe) (hf : ∀ a, (f a).Safe) :
    Parse.Safe (p >>= f) :=
  Checked.Safe.bind Advances.trans hp hf

/-- The octets a read of `n` returns. -/
theorem take_of_le {r : Reader} {n : ℕ} (h : r.pos + n ≤ r.buf.length) :
    ∃ b : Bytes n, b.val = (r.buf.drop r.pos).take n ∧
      Reader.take n r = .ok ((r.le, b), { r with pos := r.pos + n }) := by
  refine ⟨⟨(r.buf.drop r.pos).take n, by simp; omega⟩, rfl, ?_⟩
  rw [Reader.take, if_neg (by omega), dif_neg (by omega)]

theorem take_of_lt {r : Reader} {n : ℕ} (hr : r.InBounds) (h : r.buf.length < r.pos + n) :
    Reader.take n r = .error .tooShort := by
  unfold InBounds at hr
  rw [Reader.take, if_neg (by omega), dif_pos (by omega)]

theorem safe_take (n : ℕ) : Parse.Safe (Reader.take n) := by
  intro r hr
  by_cases h : r.pos + n ≤ r.buf.length
  · obtain ⟨b, -, hb⟩ := take_of_le h
    rw [hb]
    exact ⟨h, rfl, rfl, Nat.le_add_right _ _⟩
  · rw [take_of_lt hr (by omega)]
    trivial

theorem safe_readU8 : Parse.Safe readU8 := safe_bind (safe_take 1) fun _ => safe_pure _

theorem safe_readU16 : Parse.Safe readU16 := safe_bind (safe_take 2) fun _ => safe_pure _

theorem safe_readU32 : Parse.Safe readU32 := safe_bind (safe_take 4) fun _ => safe_pure _

theorem safe_readI32 : Parse.Safe readI32 := safe_bind safe_readU32 fun _ => safe_pure _

theorem safe_readEntityId : Parse.Safe readEntityId :=
  safe_bind (safe_take 4) fun _ => safe_pure _

theorem safe_readSequenceNumber : Parse.Safe readSequenceNumber :=
  safe_bind safe_readI32 fun _ => safe_bind safe_readU32 fun _ => safe_pure _

theorem safe_readGuidPrefix : Parse.Safe readGuidPrefix :=
  safe_bind (safe_take 12) fun _ => safe_pure _

theorem safe_readTimestamp : Parse.Safe readTimestamp :=
  safe_bind safe_readU32 fun _ => safe_bind safe_readU32 fun _ => safe_pure _

theorem safe_sliceFrom : Parse.Safe sliceFrom := by
  intro r hr
  rw [sliceFrom, if_neg (Nat.not_lt.mpr hr)]
  exact ⟨hr, Advances.refl r⟩

theorem safe_readWords : ∀ n : ℕ, Parse.Safe (readWords n)
  | 0 => safe_pure _
  | n + 1 => safe_bind safe_readU32 fun _ => safe_bind (safe_readWords n) fun _ => safe_pure _

theorem safe_ite {c : Prop} [Decidable c] {p q : Parse α} (hp : p.Safe) (hq : q.Safe) :
    Parse.Safe (if c then p else q) := by
  split
  · exact hp
  · exact hq

/-! ### The parsers without inline QoS -/

theorem safe_parseSequenceNumberSet : Parse.Safe parseSequenceNumberSet :=
  safe_bind safe_readSequenceNumber fun _ => safe_bind safe_readU32 fun _ =>
    safe_ite (safe_throw _) (safe_bind (safe_readWords _) fun _ => safe_pure _)

theorem safe_parseFragmentNumberSet : Parse.Safe parseFragmentNumberSet :=
  safe_bind safe_readU32 fun _ => safe_bind safe_readU32 fun _ =>
    safe_ite (safe_throw _) (safe_bind (safe_readWords _) fun _ => safe_pure _)

theorem safe_parseHeartbeat (flags : UInt8) : Parse.Safe (parseHeartbeat flags) :=
  safe_bind safe_readEntityId fun _ => safe_bind safe_readEntityId fun _ =>
    safe_bind safe_readSequenceNumber fun _ => safe_bind safe_readSequenceNumber fun _ =>
      safe_bind safe_readI32 fun _ => safe_pure _

theorem safe_parseAckNack (flags : UInt8) : Parse.Safe (parseAckNack flags) :=
  safe_bind safe_readEntityId fun _ => safe_bind safe_readEntityId fun _ =>
    safe_bind safe_parseSequenceNumberSet fun _ => safe_bind safe_readI32 fun _ => safe_pure _

theorem safe_parseGap (flags : UInt8) : Parse.Safe (parseGap flags) :=
  safe_bind safe_readEntityId fun _ => safe_bind safe_readEntityId fun _ =>
    safe_bind safe_readSequenceNumber fun _ => safe_bind safe_parseSequenceNumberSet fun _ =>
      safe_pure _

theorem safe_parseInfoTs (flags : UInt8) : Parse.Safe (parseInfoTs flags) :=
  safe_ite (safe_pure _) (safe_bind safe_readTimestamp fun _ => safe_pure _)

theorem safe_parseInfoDst : Parse.Safe parseInfoDst :=
  safe_bind safe_readGuidPrefix fun _ => safe_pure _

theorem safe_parseInfoSrc : Parse.Safe parseInfoSrc :=
  safe_bind safe_readU32 fun _ => safe_bind safe_readU8 fun _ => safe_bind safe_readU8 fun _ =>
    safe_bind safe_readU8 fun _ => safe_bind safe_readU8 fun _ =>
      safe_bind safe_readGuidPrefix fun _ => safe_pure _

theorem safe_parseHeartbeatFrag (flags : UInt8) : Parse.Safe (parseHeartbeatFrag flags) :=
  safe_bind safe_readEntityId fun _ => safe_bind safe_readEntityId fun _ =>
    safe_bind safe_readSequenceNumber fun _ => safe_bind safe_readU32 fun _ =>
      safe_bind safe_readI32 fun _ => safe_pure _

theorem safe_parseNackFrag (flags : UInt8) : Parse.Safe (parseNackFrag flags) :=
  safe_bind safe_readEntityId fun _ => safe_bind safe_readEntityId fun _ =>
    safe_bind safe_readSequenceNumber fun _ => safe_bind safe_parseFragmentNumberSet fun _ =>
      safe_bind safe_readI32 fun _ => safe_pure _

end Parse

/-! ### Inline QoS -/

/-- The 16-bit number at offset `i`. -/
def u16At (le : Bool) (buf : List UInt8) (i : ℕ) : ℕ := readInt le ((buf.drop i).take 2)

/-- Where the value of the parameter at `pos` ends. -/
def paramEnd (le : Bool) (content : List UInt8) (pos : ℕ) : ℕ :=
  pos + 4 + u16At le content (pos + 2)

/-- A whole parameter other than the sentinel stands at `pos`. -/
def ParamAt (le : Bool) (content : List UInt8) (pos : ℕ) : Prop :=
  pos + 4 ≤ content.length ∧ UInt16.ofNat (u16At le content pos) ≠ ParameterId.sentinel ∧
    paramEnd le content pos ≤ content.length

/-- Some parameter of the list that starts at `pos` ends inside the content while its padding
to four octets does not. -/
inductive Overhang (le : Bool) (content : List UInt8) : ℕ → Prop
  | here {pos : ℕ} (h : ParamAt le content pos)
      (hp : content.length < alignUp4 (paramEnd le content pos)) : Overhang le content pos
  | later {pos : ℕ} (h : ParamAt le content pos)
      (hn : Overhang le content (alignUp4 (paramEnd le content pos))) : Overhang le content pos

theorem Overhang.paramAt {le : Bool} {content : List UInt8} {pos : ℕ}
    (h : Overhang le content pos) : ParamAt le content pos := by
  cases h with
  | here h _ => exact h
  | later h _ => exact h

theorem le_alignUp4 (n : ℕ) : n ≤ alignUp4 n := by
  unfold alignUp4
  split <;> omega

theorem readU16_of_le {r : Reader} (h : r.pos + 2 ≤ r.buf.length) :
    readU16 r = .ok (u16At r.le r.buf r.pos, { r with pos := r.pos + 2 }) := by
  obtain ⟨b, hv, hb⟩ := Parse.take_of_le h
  rw [readU16, Checked.bind_of_ok hb, Checked.pure_apply, hv]
  rfl

theorem readBytes_of_le {r : Reader} {n : ℕ} (h : r.pos + n ≤ r.buf.length) :
    readBytes n r = .ok ((r.buf.drop r.pos).take n, { r with pos := r.pos + n }) := by
  obtain ⟨b, hv, hb⟩ := Parse.take_of_le h
  rw [readBytes, Checked.bind_of_ok hb, Checked.pure_apply, hv]

theorem readU16_past_end {r : Reader} (h : r.buf.length < r.pos) : readU16 r = .trap := by
  rw [readU16, Checked.bind_apply, Reader.take, if_pos h]
  rfl

/-- A read that does not fit ends the parse with an error, whatever follows. -/
theorem bind_ne_trap_of_short {α β : Type} {p : Parse α} {f : α → Parse β} {r : Reader}
    {e : ParseError} (h : p r = .error e) : (p >>= f) r ≠ .trap := by
  rw [Checked.bind_apply, h]
  exact fun e => nomatch e

theorem readU16_of_lt {r : Reader} (hr : r.InBounds) (h : r.buf.length < r.pos + 2) :
    readU16 r = .error .tooShort := by
  rw [readU16, Checked.bind_apply, Parse.take_of_lt hr h]
  rfl

theorem readBytes_of_lt {r : Reader} {n : ℕ} (hr : r.InBounds)
    (h : r.buf.length < r.pos + n) : readBytes n r = .error .tooShort := by
  rw [readBytes, Checked.bind_apply, Parse.take_of_lt hr h]
  rfl

/-- With fuel for every octet left, the parameter loop stops the program exactly when some
parameter overhangs. -/
theorem parseInlineQosLoop_eq_trap_iff (cap : ℕ) :
    ∀ (fuel : ℕ) (params : List InlineQosParam) (r : Reader), r.InBounds →
      r.buf.length - r.pos < fuel →
      (parseInlineQosLoop cap fuel params r = .trap ↔ Overhang r.le r.buf r.pos)
  | 0, _, _, _, hf => absurd hf (Nat.not_lt_zero _)
  | fuel + 1, params, r, hr, hf => by
      have hr' : r.pos ≤ r.buf.length := hr
      rw [parseInlineQosLoop]
      by_cases h2 : r.pos + 2 ≤ r.buf.length
      · rw [Checked.bind_of_ok (readU16_of_le h2)]
        by_cases h4 : r.pos + 4 ≤ r.buf.length
        · rw [Checked.bind_of_ok (readU16_of_le (by simpa using h4))]
          by_cases hs : UInt16.ofNat (u16At r.le r.buf r.pos) = ParameterId.sentinel
          · rw [if_pos hs]
            exact ⟨(fun h => nomatch h), fun h => absurd hs h.paramAt.2.1⟩
          · rw [if_neg hs]
            by_cases hl : paramEnd r.le r.buf r.pos ≤ r.buf.length
            · rw [Checked.bind_of_ok (readBytes_of_le (by simpa [paramEnd] using hl))]
              have hat : ParamAt r.le r.buf r.pos := ⟨h4, hs, hl⟩
              -- the loop goes round with the cursor at the parameter's aligned end
              change parseInlineQosLoop cap fuel _
                { r with pos := alignUp4 (paramEnd r.le r.buf r.pos) } = .trap ↔ _
              have hle := le_alignUp4 (paramEnd r.le r.buf r.pos)
              have hge : r.pos + 4 ≤ paramEnd r.le r.buf r.pos := Nat.le_add_right _ _
              by_cases ho : r.buf.length < alignUp4 (paramEnd r.le r.buf r.pos)
              · obtain ⟨fuel', rfl⟩ : ∃ k, fuel = k + 1 := ⟨fuel - 1, by omega⟩
                refine ⟨fun _ => .here hat ho, fun _ => ?_⟩
                rw [parseInlineQosLoop, Checked.bind_apply, readU16_past_end ho]
                rfl
              · rw [parseInlineQosLoop_eq_trap_iff cap fuel _ _ (Nat.not_lt.mp ho)
                  (by simp only; omega)]
                refine ⟨fun h => .later hat h, fun h => ?_⟩
                cases h with
                | here _ hp => exact absurd hp ho
                | later _ hn => exact hn
            · refine ⟨fun h => absurd h (bind_ne_trap_of_short (readBytes_of_lt ?_ ?_)),
                fun h => absurd h.paramAt.2.2 hl⟩
              · exact h4
              · simpa [paramEnd] using hl
        · refine ⟨fun h => absurd h (bind_ne_trap_of_short (readU16_of_lt ?_ ?_)),
            fun h => absurd h.paramAt.1 h4⟩
          · exact h2
          · simp only
            omega
      · refine ⟨fun h => absurd h (bind_ne_trap_of_short (readU16_of_lt hr (by omega))),
          fun h => ?_⟩
        have := h.paramAt.1
        omega

theorem parseInlineQos_eq_trap_iff (cap : ℕ) {r : Reader} (hr : r.InBounds) :
    parseInlineQos cap r = .trap ↔ Overhang r.le r.buf r.pos :=
  parseInlineQosLoop_eq_trap_iff cap _ _ r hr (by omega)

/-! ### DATA and DATA_FRAG -/

/-- A parser that reads exactly `n` octets, and fails when they are not there. -/
def Parse.Fixed {α : Type} (n : ℕ) (p : Parse α) : Prop :=
  ∀ r : Reader, r.InBounds →
    (r.pos + n ≤ r.buf.length ∧ ∃ a, p r = .ok (a, { r with pos := r.pos + n })) ∨
    (r.buf.length < r.pos + n ∧ ∃ e, p r = .error e)

namespace Parse

variable {α β : Type}

theorem fixed_take (n : ℕ) : Fixed n (Reader.take n) := by
  intro r hr
  by_cases h : r.pos + n ≤ r.buf.length
  · obtain ⟨b, -, hb⟩ := take_of_le h
    exact .inl ⟨h, _, hb⟩
  · exact .inr ⟨by omega, _, take_of_lt hr (by omega)⟩

theorem Fixed.bind {n m : ℕ} {p : Parse α} {f : α → Parse β} (hp : Fixed n p)
    (hf : ∀ a, Fixed m (f a)) : Fixed (n + m) (p >>= f) := by
  intro r hr
  rcases hp r hr with ⟨hn, a, ha⟩ | ⟨hn, e, he⟩
  · rcases hf a { r with pos := r.pos + n } hn with ⟨hm, b, hb⟩ | ⟨hm, e, he⟩
    · refine .inl ⟨by simp only at hm; omega, b, ?_⟩
      rw [Checked.bind_of_ok ha, hb, Nat.add_assoc]
    · refine .inr ⟨by simp only at hm; omega, e, ?_⟩
      rw [Checked.bind_of_ok ha, he]
  · refine .inr ⟨by omega, e, ?_⟩
    rw [Checked.bind_apply, he]
    rfl

theorem fixed_pure (a : α) : Fixed 0 (pure a : Parse α) :=
  fun _ hr => .inl ⟨hr, a, rfl⟩

theorem fixed_readBytes (n : ℕ) : Fixed n (readBytes n) :=
  (fixed_take n).bind fun _ => fixed_pure _

theorem fixed_readU16 : Fixed 2 readU16 := (fixed_take 2).bind fun _ => fixed_pure _

theorem fixed_readU32 : Fixed 4 readU32 := (fixed_take 4).bind fun _ => fixed_pure _

theorem fixed_readI32 : Fixed 4 readI32 := fixed_readU32.bind fun _ => fixed_pure _

theorem fixed_readEntityId : Fixed 4 readEntityId := (fixed_take 4).bind fun _ => fixed_pure _

theorem fixed_readSequenceNumber : Fixed 8 readSequenceNumber :=
  fixed_readI32.bind fun _ => fixed_readU32.bind fun _ => fixed_pure _

/-- Behind a read of `n` octets, whether the rest traps from the moved cursor decides
whether the whole does. -/
theorem Fixed.bind_eq_trap_iff {n : ℕ} {p : Parse α} {f : α → Parse β} (hp : Fixed n p)
    {buf : List UInt8} {pos pos' : ℕ} {le : Bool} (hpos : pos ≤ buf.length)
    (hn : pos + n = pos') {T : Prop} (hT : T → pos' ≤ buf.length)
    (hf : ∀ a, p ⟨buf, pos, le⟩ = .ok (a, ⟨buf, pos', le⟩) → pos' ≤ buf.length →
      (f a ⟨buf, pos', le⟩ = .trap ↔ T)) :
    (p >>= f) ⟨buf, pos, le⟩ = .trap ↔ T := by
  subst hn
  rcases hp ⟨buf, pos, le⟩ hpos with ⟨hn, a, ha⟩ | ⟨hn, e, he⟩
  · rw [Checked.bind_of_ok ha]
    exact hf a ha hn
  · refine ⟨fun h => absurd h (bind_ne_trap_of_short he), fun h => ?_⟩
    exact absurd (hT h) (Nat.not_le.mpr hn)

end Parse

/-- A trap of `p >>= f` is a trap of `p` when `f` is safe and `p` returns inside the slice. -/
theorem bind_eq_trap_iff_of_safe {α β : Type} {p : Parse α} {f : α → Parse β} {r : Reader}
    (hf : ∀ a, (f a).Safe) (hp : ∀ a r', p r = .ok (a, r') → r'.InBounds) :
    (p >>= f) r = .trap ↔ p r = .trap := by
  rw [Checked.bind_eq_trap]
  refine ⟨fun h => h.elim id ?_, .inl⟩
  rintro ⟨a, r', ha, ht⟩
  exact absurd ht (hf a r' (hp a r' ha)).ne_trap

theorem readU16_inBounds {r r' : Reader} {v : ℕ} (h : readU16 r = .ok (v, r')) :
    r'.InBounds := by
  by_cases hr : r.buf.length < r.pos
  · rw [readU16_past_end hr] at h
    cases h
  · have hs := Parse.safe_readU16 r (Nat.not_lt.mp hr)
    rw [h] at hs
    exact hs.1

/-- A parameter list that was parsed leaves the cursor inside the slice: the last move was
the read of the sentinel. -/
theorem parseInlineQosLoop_inBounds (cap : ℕ) :
    ∀ (fuel : ℕ) (params : List InlineQosParam) (r r' : Reader) (q : InlineQos),
      parseInlineQosLoop cap fuel params r = .ok (q, r') → r'.InBounds
  | 0, _, _, _, _, h => nomatch h
  | fuel + 1, params, r, r', q, h => by
      rw [parseInlineQosLoop] at h
      obtain ⟨pid, r₁, _, h⟩ := Checked.bind_eq_ok.mp h
      obtain ⟨len, r₂, h₂, h⟩ := Checked.bind_eq_ok.mp h
      split at h
      · cases h
        exact readU16_inBounds h₂
      · obtain ⟨v, r₃, _, h⟩ := Checked.bind_eq_ok.mp h
        obtain ⟨_, r₄, _, h⟩ := Checked.bind_eq_ok.mp h
        exact parseInlineQosLoop_inBounds cap fuel _ r₄ r' q h

theorem parseInlineQos_inBounds {cap : ℕ} {r r' : Reader} {q : InlineQos}
    (h : parseInlineQos cap r = .ok (q, r')) : r'.InBounds :=
  parseInlineQosLoop_inBounds cap _ _ _ _ _ h

theorem fixed_skipToInlineQos (qosOffset fixed : ℕ) :
    Parse.Fixed (qosOffset - fixed) (skipToInlineQos qosOffset fixed) := by
  unfold skipToInlineQos
  split
  · exact (Parse.fixed_readBytes _).bind fun _ => Parse.fixed_pure _
  · rw [Nat.sub_eq_zero_of_le (by omega)]
    exact Parse.fixed_pure _

/-- The part DATA and DATA_FRAG share: skip to the inline QoS, parse it if it is flagged. -/
theorem inlineQos_tail_eq_trap_iff {α : Type} (qosOffset fixed cap : ℕ) (present : Bool)
    {k : Option InlineQos → Parse α} (hk : ∀ q, (k q).Safe) {buf : List UInt8} {pos : ℕ}
    {le : Bool} (hpos : pos ≤ buf.length) :
    (skipToInlineQos qosOffset fixed >>= fun _ => inlineQosIf present cap >>= k)
        ⟨buf, pos, le⟩ = .trap ↔
      present = true ∧ Overhang le buf (pos + (qosOffset - fixed)) := by
  refine (fixed_skipToInlineQos _ _).bind_eq_trap_iff hpos rfl (fun h => ?_) (fun _ _ hn => ?_)
  · have := h.2.paramAt.1
    omega
  · have hn' : (Reader.mk buf (pos + (qosOffset - fixed)) le).InBounds := hn
    cases present with
    | false =>
        simp only [Bool.false_eq_true, false_and, iff_false]
        exact ((Parse.safe_bind (Parse.safe_pure none) hk) _ hn').ne_trap
    | true =>
        have hq : ∀ q r', inlineQosIf true cap ⟨buf, pos + (qosOffset - fixed), le⟩ =
            .ok (q, r') → r'.InBounds := by
          intro q r' h
          rw [inlineQosIf, if_pos rfl] at h
          obtain ⟨q', r'', h', h⟩ := Checked.bind_eq_ok.mp h
          cases h
          exact parseInlineQos_inBounds h'
        rw [bind_eq_trap_iff_of_safe hk hq, inlineQosIf, if_pos rfl,
          bind_eq_trap_iff_of_safe (fun _ => Parse.safe_pure _)
            (fun _ _ => parseInlineQos_inBounds),
          parseInlineQos_eq_trap_iff cap hn']
        simp

/-- Where the inline QoS of a submessage with `fixed` standard octets after
`octetsToInlineQos` starts. -/
def inlineQosStart (fixed : ℕ) (le : Bool) (content : List UInt8) : ℕ :=
  4 + fixed + (u16At le content 2 - fixed)

/-- A flagged inline QoS overhangs its submessage. -/
def QosOverhangs (present : Bool) (fixed : ℕ) (le : Bool) (content : List UInt8) : Prop :=
  present = true ∧ Overhang le content (inlineQosStart fixed le content)

theorem QosOverhangs.le_length {present : Bool} {fixed : ℕ} {le : Bool} {content : List UInt8}
    {n : ℕ} (hn : n ≤ 4 + fixed) (h : QosOverhangs present fixed le content) :
    n ≤ content.length := by
  have := h.2.paramAt.1
  unfold inlineQosStart at this
  omega

/-- The second 16-bit field of a submessage is what `u16At` finds there. -/
theorem readU16_eq_u16At {buf : List UInt8} {pos v : ℕ} {le : Bool} (hn : pos + 2 ≤ buf.length)
    (h : readU16 ⟨buf, pos, le⟩ = .ok (v, ⟨buf, pos + 2, le⟩)) : u16At le buf pos = v := by
  rw [readU16_of_le hn] at h
  injection h with h
  exact congrArg Prod.fst h

section
open Parse

theorem parseData_eq_trap_iff (flags : UInt8) (cap : ℕ) (content : List UInt8) (le : Bool) :
    parseData flags cap (Reader.init content le) = .trap ↔
      QosOverhangs (hasFlag flags DataFlags.inlineQos) 16 le content := by
  have hT : ∀ n ≤ 20, QosOverhangs (hasFlag flags DataFlags.inlineQos) 16 le content →
      n ≤ content.length := fun n hn => QosOverhangs.le_length hn
  unfold parseData Reader.init
  refine fixed_readU16.bind_eq_trap_iff (Nat.zero_le _) rfl (hT 2 (by decide)) fun _ _ h2 => ?_
  refine fixed_readU16.bind_eq_trap_iff h2 rfl (hT 4 (by decide)) fun off hoff h4 => ?_
  obtain rfl := readU16_eq_u16At h4 hoff
  refine fixed_readEntityId.bind_eq_trap_iff h4 rfl (hT 8 (by decide)) fun _ _ h8 => ?_
  refine fixed_readEntityId.bind_eq_trap_iff h8 rfl (hT 12 (by decide)) fun _ _ h12 => ?_
  refine fixed_readSequenceNumber.bind_eq_trap_iff h12 rfl (hT 20 (by decide)) fun _ _ h20 => ?_
  refine inlineQos_tail_eq_trap_iff _ _ cap _ (fun q => ?_) h20
  exact safe_ite (safe_bind safe_sliceFrom fun _ => safe_pure _)
    (safe_bind (safe_pure _) fun _ => safe_pure _)

theorem parseDataFrag_eq_trap_iff (flags : UInt8) (cap : ℕ) (content : List UInt8)
    (le : Bool) :
    parseDataFrag flags cap (Reader.init content le) = .trap ↔
      QosOverhangs (hasFlag flags DataFragFlags.inlineQos) 28 le content := by
  have hT : ∀ n ≤ 32, QosOverhangs (hasFlag flags DataFragFlags.inlineQos) 28 le content →
      n ≤ content.length := fun n hn => QosOverhangs.le_length hn
  unfold parseDataFrag Reader.init
  refine fixed_readU16.bind_eq_trap_iff (Nat.zero_le _) rfl (hT 2 (by decide)) fun _ _ h2 => ?_
  refine fixed_readU16.bind_eq_trap_iff h2 rfl (hT 4 (by decide)) fun off hoff h4 => ?_
  obtain rfl := readU16_eq_u16At h4 hoff
  refine fixed_readEntityId.bind_eq_trap_iff h4 rfl (hT 8 (by decide)) fun _ _ h8 => ?_
  refine fixed_readEntityId.bind_eq_trap_iff h8 rfl (hT 12 (by decide)) fun _ _ h12 => ?_
  refine fixed_readSequenceNumber.bind_eq_trap_iff h12 rfl (hT 20 (by decide)) fun _ _ h20 => ?_
  refine fixed_readU32.bind_eq_trap_iff h20 rfl (hT 24 (by decide)) fun _ _ h24 => ?_
  refine fixed_readU16.bind_eq_trap_iff h24 rfl (hT 26 (by decide)) fun _ _ h26 => ?_
  refine fixed_readU16.bind_eq_trap_iff h26 rfl (hT 28 (by decide)) fun _ _ h28 => ?_
  refine fixed_readU32.bind_eq_trap_iff h28 rfl (hT 32 (by decide)) fun _ _ h32 => ?_
  refine inlineQos_tail_eq_trap_iff _ _ cap _ (fun q => ?_) h32
  exact safe_bind safe_sliceFrom fun _ => safe_pure _

end

end Zzdds.Rtps
