import Zzdds.Rtps.Message.ParserSafe

/-! # What a parsed submessage takes of a datagram

`SubMessage.minLen` bounds from below the content octets of a submessage by the fields it was
parsed into; `parseContent_minLen` shows that no parser returns more than it was given. -/

namespace Zzdds.Rtps

open Zzdds.Lib

/-! ### What a parsed submessage takes -/

/-- Octets a parameter list takes at least. -/
def InlineQos.minLen (q : InlineQos) : ℕ := (q.params.map (fun p => 4 + p.value.length)).sum + 4

/-- Octets of content a parsed submessage takes at least. -/
def SubMessage.minLen : SubMessage → ℕ
  | .data m => 20 + (m.inlineQos.map InlineQos.minLen).getD 0 + m.serializedPayload.length
  | .dataFrag m => 32 + (m.inlineQos.map InlineQos.minLen).getD 0 + m.serializedPayload.length
  | .heartbeat _ => 28
  | .acknack m => 24 + 4 * numWords m.readerSnState.numBits
  | .gap m => 28 + 4 * numWords m.gapList.numBits
  | .infoTs m => if m.timestamp.isSome then 8 else 0
  | .infoDst _ => 12
  | .heartbeatFrag _ => 24
  | .nackFrag m => 28 + 4 * numWords m.fragmentNumberState.numBits
  | _ => 0

section
open Parse Reader
variable {α β : Type} {buf : List UInt8} {pos : ℕ} {le : Bool}

theorem Parse.Fixed.bind_ok {n : ℕ} {p : Parse α} {f : α → Parse β} (hp : Fixed n p)
    (hpos : pos ≤ buf.length) {b : β} {r' : Reader}
    (h : (p >>= f) ⟨buf, pos, le⟩ = .ok (b, r')) :
    ∃ a, pos + n ≤ buf.length ∧ f a ⟨buf, pos + n, le⟩ = .ok (b, r') := by
  obtain ⟨a, r₁, ha, hf⟩ := Checked.bind_eq_ok.mp h
  rcases hp ⟨buf, pos, le⟩ hpos with ⟨hn, a', ha'⟩ | ⟨-, e, he⟩
  · rw [ha'] at ha
    cases ha
    exact ⟨_, hn, hf⟩
  · rw [he] at ha
    cases ha

theorem fixed_readWords : ∀ k : ℕ, Fixed (4 * k) (readWords k)
  | 0 => fixed_pure _
  | k + 1 => by
      have h : Fixed (4 + (4 * k + 0)) (readWords (k + 1)) :=
        fixed_readU32.bind fun _ => (fixed_readWords k).bind fun _ => fixed_pure _
      rwa [show 4 + (4 * k + 0) = 4 * (k + 1) by omega] at h

theorem parseSequenceNumberSet_ok (hpos : pos ≤ buf.length) {s : SequenceNumberSet} {r' : Reader}
    (h : parseSequenceNumberSet ⟨buf, pos, le⟩ = .ok (s, r')) :
    pos + 12 + 4 * numWords s.numBits ≤ buf.length ∧
      r' = ⟨buf, pos + 12 + 4 * numWords s.numBits, le⟩ := by
  obtain ⟨base, h8, h⟩ := fixed_readSequenceNumber.bind_ok hpos h
  obtain ⟨bits, h12, h⟩ := fixed_readU32.bind_ok h8 h
  split at h
  · cases h
  · obtain ⟨ws, hw, h⟩ := (fixed_readWords _).bind_ok h12 h
    cases h
    exact ⟨hw, rfl⟩

theorem parseFragmentNumberSet_ok (hpos : pos ≤ buf.length) {s : FragmentNumberSet} {r' : Reader}
    (h : parseFragmentNumberSet ⟨buf, pos, le⟩ = .ok (s, r')) :
    pos + 8 + 4 * numWords s.numBits ≤ buf.length ∧
      r' = ⟨buf, pos + 8 + 4 * numWords s.numBits, le⟩ := by
  obtain ⟨base, h4, h⟩ := fixed_readU32.bind_ok hpos h
  obtain ⟨bits, h8, h⟩ := fixed_readU32.bind_ok h4 h
  split at h
  · cases h
  · obtain ⟨ws, hw, h⟩ := (fixed_readWords _).bind_ok h8 h
    cases h
    exact ⟨hw, rfl⟩

/-- A read that returned was inside the slice. -/
theorem readU16_ok {r r' : Reader} {v : ℕ} (h : readU16 r = .ok (v, r')) :
    r.pos ≤ r.buf.length := by
  by_contra hc
  rw [readU16_past_end (by omega)] at h
  cases h

theorem parseInlineQosLoop_ok (cap : ℕ) :
    ∀ (fuel : ℕ) (params : List InlineQosParam) (buf : List UInt8) (pos : ℕ) (le : Bool)
      (q : InlineQos) (r' : Reader),
      parseInlineQosLoop cap fuel params ⟨buf, pos, le⟩ = .ok (q, r') →
      r'.buf = buf ∧ r'.pos ≤ buf.length ∧
        pos + q.minLen ≤ r'.pos + (params.map (fun p => 4 + p.value.length)).sum
  | 0, _, _, _, _, _, _, h => nomatch h
  | fuel + 1, params, buf, pos, le, q, r', h => by
      rw [parseInlineQosLoop] at h
      have hpos : pos ≤ buf.length := by
        obtain ⟨_, _, h1, _⟩ := Checked.bind_eq_ok.mp h
        exact readU16_ok h1
      obtain ⟨pid, h2, h⟩ := fixed_readU16.bind_ok hpos h
      obtain ⟨len, h4, h⟩ := fixed_readU16.bind_ok h2 h
      split at h
      · cases h
        refine ⟨rfl, h4, ?_⟩
        simp only [InlineQos.minLen]
        omega
      · obtain ⟨v, r₃, hv, h⟩ := Checked.bind_eq_ok.mp h
        rcases fixed_readBytes len ⟨buf, pos + 2 + 2, le⟩ h4 with ⟨hl, v', hv'⟩ | ⟨-, e, he⟩
        · have hval := readBytes_of_le hl
          rw [hval] at hv
          cases hv
          have ih := parseInlineQosLoop_ok cap fuel _ buf _ le q r' h
          refine ⟨ih.1, ih.2.1, ?_⟩
          have hal := le_alignUp4 (pos + 2 + 2 + len)
          have hih := ih.2.2
          simp only at hl hih
          split at hih
          · simp only [List.map_append, List.sum_append, List.map_cons, List.map_nil,
              List.sum_cons, List.sum_nil, List.length_take, List.length_drop] at hih
            omega
          · omega
        · rw [he] at hv
          cases hv

theorem inlineQos_tail_ok {qosOffset fixed cap : ℕ} {present : Bool}
    {k : Option InlineQos → Parse α} (hpos : pos ≤ buf.length) {b : α} {r' : Reader}
    (h : (skipToInlineQos qosOffset fixed >>= fun _ => inlineQosIf present cap >>= k)
      ⟨buf, pos, le⟩ = .ok (b, r')) :
    ∃ q pos', pos + (q.map InlineQos.minLen).getD 0 ≤ pos' ∧ pos' ≤ buf.length ∧
      ∃ le', k q ⟨buf, pos', le'⟩ = .ok (b, r') := by
  have hskip := fixed_skipToInlineQos qosOffset fixed
  obtain ⟨_, hn, h⟩ := hskip.bind_ok hpos h
  cases present with
  | false => exact ⟨none, _, by simp, hn, le, h⟩
  | true =>
      obtain ⟨oq, r₁, hq, hk⟩ := Checked.bind_eq_ok.mp h
      rw [inlineQosIf, if_pos rfl] at hq
      obtain ⟨q, r₂, hq, hp⟩ := Checked.bind_eq_ok.mp hq
      cases hp
      have hl := parseInlineQosLoop_ok cap _ _ _ _ _ _ _ hq
      obtain ⟨b₁, p₁, le₁⟩ := r₁
      obtain rfl : b₁ = buf := hl.1
      have := hl.2.2
      refine ⟨some q, p₁, ?_, hl.2.1, le₁, hk⟩
      simp only [List.map_nil, List.sum_nil, Nat.add_zero] at this
      simp only [Option.map_some, Option.getD_some]
      omega

/-! ### The parsers -/

theorem sliceFrom_ok {v : List UInt8} {r' : Reader}
    (h : sliceFrom ⟨buf, pos, le⟩ = .ok (v, r')) : pos + v.length ≤ buf.length := by
  rw [sliceFrom] at h
  split at h
  · cases h
  next hp =>
    cases h
    simp only at hp
    simp only [List.length_drop]
    omega

theorem parseData_minLen {flags : UInt8} {cap : ℕ} {m : DataSubmessage} {r' : Reader}
    (h : parseData flags cap (Reader.init buf le) = .ok (m, r')) :
    (SubMessage.data m).minLen ≤ buf.length := by
  unfold parseData Reader.init at h
  obtain ⟨_, h2, h⟩ := fixed_readU16.bind_ok (Nat.zero_le _) h
  obtain ⟨_, h4, h⟩ := fixed_readU16.bind_ok h2 h
  obtain ⟨_, h8, h⟩ := fixed_readEntityId.bind_ok h4 h
  obtain ⟨_, h12, h⟩ := fixed_readEntityId.bind_ok h8 h
  obtain ⟨_, h20, h⟩ := fixed_readSequenceNumber.bind_ok h12 h
  obtain ⟨q, pos', hq, hle, le', h⟩ := inlineQos_tail_ok h20 h
  split at h
  · obtain ⟨v, r₁, hv, h⟩ := Checked.bind_eq_ok.mp h
    cases h
    have := sliceFrom_ok hv
    simp only [SubMessage.minLen]
    omega
  · cases h
    simp only [SubMessage.minLen, List.length_nil]
    omega

theorem parseDataFrag_minLen {flags : UInt8} {cap : ℕ} {m : DataFragSubmessage} {r' : Reader}
    (h : parseDataFrag flags cap (Reader.init buf le) = .ok (m, r')) :
    (SubMessage.dataFrag m).minLen ≤ buf.length := by
  unfold parseDataFrag Reader.init at h
  obtain ⟨_, h2, h⟩ := fixed_readU16.bind_ok (Nat.zero_le _) h
  obtain ⟨_, h4, h⟩ := fixed_readU16.bind_ok h2 h
  obtain ⟨_, h8, h⟩ := fixed_readEntityId.bind_ok h4 h
  obtain ⟨_, h12, h⟩ := fixed_readEntityId.bind_ok h8 h
  obtain ⟨_, h20, h⟩ := fixed_readSequenceNumber.bind_ok h12 h
  obtain ⟨_, h24, h⟩ := fixed_readU32.bind_ok h20 h
  obtain ⟨_, h26, h⟩ := fixed_readU16.bind_ok h24 h
  obtain ⟨_, h28, h⟩ := fixed_readU16.bind_ok h26 h
  obtain ⟨_, h32, h⟩ := fixed_readU32.bind_ok h28 h
  obtain ⟨q, pos', hq, hle, le', h⟩ := inlineQos_tail_ok h32 h
  obtain ⟨v, r₁, hv, h⟩ := Checked.bind_eq_ok.mp h
  cases h
  have := sliceFrom_ok hv
  simp only [SubMessage.minLen]
  omega

theorem parseHeartbeat_minLen {flags : UInt8} {m : HeartbeatSubmessage} {r' : Reader}
    (h : parseHeartbeat flags (Reader.init buf le) = .ok (m, r')) :
    (SubMessage.heartbeat m).minLen ≤ buf.length := by
  unfold parseHeartbeat Reader.init at h
  obtain ⟨_, h4, h⟩ := fixed_readEntityId.bind_ok (Nat.zero_le _) h
  obtain ⟨_, h8, h⟩ := fixed_readEntityId.bind_ok h4 h
  obtain ⟨_, h16, h⟩ := fixed_readSequenceNumber.bind_ok h8 h
  obtain ⟨_, h24, h⟩ := fixed_readSequenceNumber.bind_ok h16 h
  obtain ⟨_, h28, -⟩ := fixed_readI32.bind_ok h24 h
  exact h28

theorem parseAckNack_minLen {flags : UInt8} {m : AckNackSubmessage} {r' : Reader}
    (h : parseAckNack flags (Reader.init buf le) = .ok (m, r')) :
    (SubMessage.acknack m).minLen ≤ buf.length := by
  unfold parseAckNack Reader.init at h
  obtain ⟨_, h4, h⟩ := fixed_readEntityId.bind_ok (Nat.zero_le _) h
  obtain ⟨_, h8, h⟩ := fixed_readEntityId.bind_ok h4 h
  obtain ⟨s, r₁, hs, h⟩ := Checked.bind_eq_ok.mp h
  obtain ⟨hsl, rfl⟩ := parseSequenceNumberSet_ok h8 hs
  obtain ⟨_, h28, h⟩ := fixed_readI32.bind_ok hsl h
  cases h
  simp only [SubMessage.minLen]
  omega

theorem parseGap_minLen {flags : UInt8} {m : GapSubmessage} {r' : Reader}
    (h : parseGap flags (Reader.init buf le) = .ok (m, r')) :
    (SubMessage.gap m).minLen ≤ buf.length := by
  unfold parseGap Reader.init at h
  obtain ⟨_, h4, h⟩ := fixed_readEntityId.bind_ok (Nat.zero_le _) h
  obtain ⟨_, h8, h⟩ := fixed_readEntityId.bind_ok h4 h
  obtain ⟨_, h16, h⟩ := fixed_readSequenceNumber.bind_ok h8 h
  obtain ⟨s, r₁, hs, h⟩ := Checked.bind_eq_ok.mp h
  obtain ⟨hsl, rfl⟩ := parseSequenceNumberSet_ok h16 hs
  cases h
  simp only [SubMessage.minLen]
  omega

theorem parseInfoTs_minLen {flags : UInt8} {m : InfoTsSubmessage} {r' : Reader}
    (h : parseInfoTs flags (Reader.init buf le) = .ok (m, r')) :
    (SubMessage.infoTs m).minLen ≤ buf.length := by
  unfold parseInfoTs Reader.init at h
  split at h
  · cases h
    exact Nat.zero_le _
  · obtain ⟨ts, r₁, hts, h⟩ := Checked.bind_eq_ok.mp h
    cases h
    unfold readTimestamp at hts
    obtain ⟨_, h4, hts⟩ := fixed_readU32.bind_ok (Nat.zero_le _) hts
    obtain ⟨_, h8, -⟩ := fixed_readU32.bind_ok h4 hts
    exact h8

theorem parseInfoDst_minLen {m : InfoDstSubmessage} {r' : Reader}
    (h : parseInfoDst (Reader.init buf le) = .ok (m, r')) :
    (SubMessage.infoDst m).minLen ≤ buf.length := by
  have hfixed : Fixed 12 readGuidPrefix := (fixed_take 12).bind fun _ => fixed_pure _
  obtain ⟨_, h12, -⟩ := hfixed.bind_ok (Nat.zero_le _) h
  exact h12

theorem parseHeartbeatFrag_minLen {flags : UInt8} {m : HeartbeatFragSubmessage} {r' : Reader}
    (h : parseHeartbeatFrag flags (Reader.init buf le) = .ok (m, r')) :
    (SubMessage.heartbeatFrag m).minLen ≤ buf.length := by
  unfold parseHeartbeatFrag Reader.init at h
  obtain ⟨_, h4, h⟩ := fixed_readEntityId.bind_ok (Nat.zero_le _) h
  obtain ⟨_, h8, h⟩ := fixed_readEntityId.bind_ok h4 h
  obtain ⟨_, h16, h⟩ := fixed_readSequenceNumber.bind_ok h8 h
  obtain ⟨_, h20, h⟩ := fixed_readU32.bind_ok h16 h
  obtain ⟨_, h24, -⟩ := fixed_readI32.bind_ok h20 h
  exact h24

theorem parseNackFrag_minLen {flags : UInt8} {m : NackFragSubmessage} {r' : Reader}
    (h : parseNackFrag flags (Reader.init buf le) = .ok (m, r')) :
    (SubMessage.nackFrag m).minLen ≤ buf.length := by
  unfold parseNackFrag Reader.init at h
  obtain ⟨_, h4, h⟩ := fixed_readEntityId.bind_ok (Nat.zero_le _) h
  obtain ⟨_, h8, h⟩ := fixed_readEntityId.bind_ok h4 h
  obtain ⟨_, h16, h⟩ := fixed_readSequenceNumber.bind_ok h8 h
  obtain ⟨s, r₁, hs, h⟩ := Checked.bind_eq_ok.mp h
  obtain ⟨hsl, rfl⟩ := parseFragmentNumberSet_ok h16 hs
  obtain ⟨_, h28, h⟩ := fixed_readI32.bind_ok hsl h
  cases h
  simp only [SubMessage.minLen]
  omega

/-- No parser returns a submessage that takes more than the content it was given. -/
theorem parseContent_minLen {id : SubMessageId} {flags : UInt8} {cap : ℕ} {p : Parse SubMessage}
    (h : parseContent id flags cap buf = some p) {sm : SubMessage} {r' : Reader}
    (hp : p (Reader.init buf le) = .ok (sm, r')) : sm.minLen ≤ buf.length := by
  cases id <;> simp only [parseContent, Option.some.injEq, reduceCtorEq] at h <;> subst h
  case data =>
    obtain ⟨m, r₁, hm, hp⟩ := Checked.bind_eq_ok.mp hp
    cases hp
    exact parseData_minLen hm
  case dataFrag =>
    obtain ⟨m, r₁, hm, hp⟩ := Checked.bind_eq_ok.mp hp
    cases hp
    exact parseDataFrag_minLen hm
  case heartbeat =>
    obtain ⟨m, r₁, hm, hp⟩ := Checked.bind_eq_ok.mp hp
    cases hp
    exact parseHeartbeat_minLen hm
  case acknack =>
    obtain ⟨m, r₁, hm, hp⟩ := Checked.bind_eq_ok.mp hp
    cases hp
    exact parseAckNack_minLen hm
  case gap =>
    obtain ⟨m, r₁, hm, hp⟩ := Checked.bind_eq_ok.mp hp
    cases hp
    exact parseGap_minLen hm
  case infoTs =>
    obtain ⟨m, r₁, hm, hp⟩ := Checked.bind_eq_ok.mp hp
    cases hp
    exact parseInfoTs_minLen hm
  case infoDst =>
    obtain ⟨m, r₁, hm, hp⟩ := Checked.bind_eq_ok.mp hp
    cases hp
    exact parseInfoDst_minLen hm
  case infoSrc =>
    obtain ⟨m, r₁, hm, hp⟩ := Checked.bind_eq_ok.mp hp
    cases hp
    exact Nat.zero_le _
  case heartbeatFrag =>
    obtain ⟨m, r₁, hm, hp⟩ := Checked.bind_eq_ok.mp hp
    cases hp
    exact parseHeartbeatFrag_minLen hm
  case nackFrag =>
    obtain ⟨m, r₁, hm, hp⟩ := Checked.bind_eq_ok.mp hp
    cases hp
    exact parseNackFrag_minLen hm
  all_goals
    cases hp
    exact Nat.zero_le _

end

end Zzdds.Rtps
