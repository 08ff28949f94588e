import Zzdds.Rtps.Message.ReadBack

/-! # The octets of a builder call

`BuilderCall.bytes` spells out what one call on the builder puts on the wire: submessage
header, content and payload.  The lengths the encoders announce are the lengths they write
(`body_length`), every content is read back as the call's submessage (`reads_content`), and
the iterator steps over it (`nextLoop_bytes`). -/

namespace Zzdds.Rtps

open Zzdds.Lib MessageIterator

namespace BuilderCall

/-! ### The octets of a call -/

def id : BuilderCall → SubMessageId
  | infoTs _ => .infoTs
  | infoTsInvalidate => .infoTs
  | infoDst _ => .infoDst
  | data _ _ => .data
  | heartbeat .. => .heartbeat
  | ackNack .. => .acknack
  | gap .. => .gap
  | dataFrag _ _ => .dataFrag
  | heartbeatFrag .. => .heartbeatFrag
  | nackFrag .. => .nackFrag

def flags : BuilderCall → UInt8
  | infoTs _ => FLAG_ENDIANNESS
  | infoTsInvalidate => FLAG_ENDIANNESS ||| InfoTsFlags.invalidateTs
  | infoDst _ => FLAG_ENDIANNESS
  | data params _ => params.flags
  | heartbeat _ _ _ _ _ final liveliness => heartbeatFlags final liveliness
  | ackNack _ _ _ _ final => ackNackFlags final
  | gap .. => FLAG_ENDIANNESS
  | dataFrag params _ => params.flags
  | heartbeatFrag .. => FLAG_ENDIANNESS
  | nackFrag .. => FLAG_ENDIANNESS

def payload : BuilderCall → List UInt8
  | data _ payload => payload
  | dataFrag _ payload => payload
  | _ => []

def idBytes (e : EntityId) : List UInt8 := e.entityKey.val ++ [e.entityKind]

/-- The content a call writes into the scratch buffer. -/
def body : BuilderCall → List UInt8
  | infoTs ts => leBytes 4 ts.seconds.toNat ++ leBytes 4 ts.fraction.toNat
  | infoTsInvalidate => []
  | infoDst dst => dst.val
  | data params _ =>
      leBytes 2 0 ++ (leBytes 2 16 ++ (idBytes params.readerEntityId ++
        (idBytes params.writerEntityId ++ (snBytes params.writerSn ++
          params.writeInlineQos.flatten))))
  | heartbeat rid wid first last count _ _ =>
      idBytes rid ++ (idBytes wid ++ (snBytes first ++ (snBytes last ++
        leBytes 4 count.toUInt32.toNat)))
  | ackNack rid wid sns count _ =>
      idBytes rid ++ (idBytes wid ++ ((snBytes sns.base ++ setBytes sns.numBits sns.bitmap) ++
        leBytes 4 count.toUInt32.toNat))
  | gap rid wid start list =>
      idBytes rid ++ (idBytes wid ++ (snBytes start ++
        (snBytes list.base ++ setBytes list.numBits list.bitmap)))
  | dataFrag params _ =>
      leBytes 2 0 ++ (leBytes 2 28 ++ (idBytes params.readerEntityId ++
        (idBytes params.writerEntityId ++ (snBytes params.writerSn ++
          (leBytes 4 params.fragmentStartingNum ++ (leBytes 2 params.fragmentsInSubmessage ++
            (leBytes 2 params.fragmentSize ++ (leBytes 4 params.dataSize ++
              params.writeInlineQos.flatten))))))))
  | heartbeatFrag rid wid sn last count =>
      idBytes rid ++ (idBytes wid ++ (snBytes sn ++ (leBytes 4 last ++
        leBytes 4 count.toUInt32.toNat)))
  | nackFrag rid wid sn set count =>
      idBytes rid ++ (idBytes wid ++ (snBytes sn ++
        ((leBytes 4 set.base ++ setBytes set.numBits set.bitmap) ++
          leBytes 4 count.toUInt32.toNat)))

/-- Scratch bytes a call takes, its submessage header included. -/
def scratchLen : BuilderCall → ℕ
  | infoTs _ => 12
  | infoTsInvalidate => 4
  | infoDst _ => 16
  | data params _ => 24 + params.len
  | heartbeat .. => 32
  | ackNack _ _ sns _ _ => 28 + numWords sns.numBits * 4
  | gap _ _ _ list => 32 + numWords list.numBits * 4
  | dataFrag params _ => 36 + params.len
  | heartbeatFrag .. => 28
  | nackFrag _ _ _ set _ => 32 + numWords set.numBits * 4

/-- The arguments are in the range of their types: sequence numbers the wire carries, number
sets of at most 256 bits, a content whose length fits 16 bits, and no payload on a DATA that
announces none. -/
def WellFormed : BuilderCall → Prop
  | infoTs _ => True
  | infoTsInvalidate => True
  | infoDst _ => True
  | data params payload =>
      OnWire params.writerSn ∧ (params.noPayload = true → payload = []) ∧
        20 + params.len + payload.length < 2 ^ 16
  | heartbeat _ _ first last _ _ _ => OnWire first ∧ OnWire last
  | ackNack _ _ sns _ _ => OnWire sns.base ∧ sns.numBits ≤ 256
  | gap _ _ start list => OnWire start ∧ OnWire list.base ∧ list.numBits ≤ 256
  | dataFrag params payload =>
      OnWire params.writerSn ∧ params.fragmentStartingNum < 2 ^ 32 ∧
        params.fragmentsInSubmessage < 2 ^ 16 ∧ params.fragmentSize < 2 ^ 16 ∧
        params.dataSize < 2 ^ 32 ∧ 32 + params.len + payload.length < 2 ^ 16
  | heartbeatFrag _ _ sn last _ => OnWire sn ∧ last < 2 ^ 32
  | nackFrag _ _ sn set _ => OnWire sn ∧ set.base < 2 ^ 32 ∧ set.numBits ≤ 256

theorem length_idBytes (e : EntityId) : (idBytes e).length = 4 := by simp [idBytes]

/-- The announced lengths are the lengths written. -/
theorem body_length {c : BuilderCall} (h : c.WellFormed) : 4 + c.body.length = c.scratchLen := by
  cases c <;> simp only [body, scratchLen, List.length_append, length_idBytes, leBytes_length,
    snBytes_length, Bytes.length_val, QosParams.length_writeInlineQos, List.length_nil]
  case ackNack rid wid sns count final =>
    rw [setBytes_length h.2]
    omega
  case gap rid wid start list =>
    rw [setBytes_length h.2.2]
    omega
  case nackFrag rid wid sn set count =>
    rw [setBytes_length h.2.2]
    omega
  all_goals omega

/-- The submessage header of a call. -/
def header (c : BuilderCall) : List UInt8 :=
  [c.id.toByte, c.flags] ++ leBytes 2 (c.body.length + c.payload.length)

/-! ### Every content is read back -/

theorem flags_or_endianness (c : BuilderCall) : c.flags ||| FLAG_ENDIANNESS = c.flags := by
  have h : ∀ x : UInt8, (FLAG_ENDIANNESS ||| x) ||| FLAG_ENDIANNESS = FLAG_ENDIANNESS ||| x := by
    intro x
    rw [UInt8.or_comm, ← UInt8.or_assoc, UInt8.or_self]
  have h2 : ∀ x y : UInt8, (FLAG_ENDIANNESS ||| x ||| y) ||| FLAG_ENDIANNESS =
      FLAG_ENDIANNESS ||| x ||| y := by
    intro x y
    rw [UInt8.or_assoc FLAG_ENDIANNESS x y, h]
  cases c
  case data => exact h2 _ _
  case dataFrag => exact h2 _ _
  case heartbeat => exact h2 _ _
  case ackNack => exact h _
  case infoTsInvalidate => exact h _
  all_goals exact UInt8.or_self

theorem DataParams.hasFlag_inlineQos (params : DataParams) :
    hasFlag params.flags DataFlags.inlineQos = params.hasIqos := by
  unfold DataParams.flags
  cases params.noPayload <;> cases params.isKey <;> cases params.hasIqos <;> rfl

theorem DataParams.hasFlag_payload (params : DataParams) :
    (hasFlag params.flags DataFlags.dataPresent || hasFlag params.flags DataFlags.keyFlag) =
      !params.noPayload := by
  unfold DataParams.flags
  cases params.noPayload <;> cases params.isKey <;> cases params.hasIqos <;> rfl

theorem DataFragParams.hasFlag_inlineQos (params : DataFragParams) :
    hasFlag params.flags DataFragFlags.inlineQos = params.hasIqos := by
  unfold DataFragParams.flags
  cases params.isKey <;> cases params.hasIqos <;> rfl

variable {n : ℕ} {rest : List UInt8}

theorem reads_sliceFrom : Reads n Reader.sliceFrom [] rest rest := by
  intro before hb
  rw [Reader.sliceFrom, if_neg (by simp [hb])]
  simp [← hb]

theorem reads_id (e : EntityId) : Reads n Reader.readEntityId (idBytes e) rest e :=
  reads_readEntityId e

theorem reads_parseInfoTs (ts : RtpsTimestamp) :
    Reads n (parseInfoTs FLAG_ENDIANNESS) (infoTs ts).body rest ⟨FLAG_ENDIANNESS, some ts⟩ :=
  (reads_readTimestamp ts).map (fun ts => (⟨FLAG_ENDIANNESS, some ts⟩ : InfoTsSubmessage))

theorem reads_parseHeartbeat {rid wid : EntityId} {first last : ℤ} {count : Int32}
    {final liveliness : Bool} (flags : UInt8) (hf : OnWire first) (hl : OnWire last) :
    Reads n (parseHeartbeat flags) (heartbeat rid wid first last count final liveliness).body rest
      ⟨flags, rid, wid, first, last, count⟩ :=
  (reads_id rid).bind ((reads_id wid).bind ((reads_readSequenceNumber hf).bind
    ((reads_readSequenceNumber hl).bind ((reads_readI32 count).map
      (fun count => HeartbeatSubmessage.mk flags rid wid first last count)))))

theorem reads_parseAckNack {rid wid : EntityId} {sns : SequenceNumberSet} {count : Int32}
    {final : Bool} (flags : UInt8) (hb : OnWire sns.base) (hn : sns.numBits ≤ 256) :
    Reads n (parseAckNack flags) (ackNack rid wid sns count final).body rest
      ⟨flags, rid, wid, { sns with bitmap := wireBitmap sns.bitmap sns.numBits }, count⟩ :=
  (reads_id rid).bind ((reads_id wid).bind ((reads_parseSequenceNumberSet hb hn).bind
    ((reads_readI32 count).map (fun count => AckNackSubmessage.mk flags rid wid
      { sns with bitmap := wireBitmap sns.bitmap sns.numBits } count))))

theorem reads_parseGap {rid wid : EntityId} {start : ℤ} {list : SequenceNumberSet}
    (flags : UInt8) (hs : OnWire start) (hb : OnWire list.base) (hn : list.numBits ≤ 256) :
    Reads n (parseGap flags) (gap rid wid start list).body rest
      ⟨flags, rid, wid, start, { list with bitmap := wireBitmap list.bitmap list.numBits }⟩ :=
  (reads_id rid).bind ((reads_id wid).bind ((reads_readSequenceNumber hs).bind
    ((reads_parseSequenceNumberSet hb hn).map (fun list => GapSubmessage.mk flags rid wid start
      list))))

theorem reads_parseHeartbeatFrag {rid wid : EntityId} {sn : ℤ} {last : ℕ} {count : Int32}
    (flags : UInt8) (hs : OnWire sn) (hl : last < 2 ^ 32) :
    Reads n (parseHeartbeatFrag flags) (heartbeatFrag rid wid sn last count).body rest
      ⟨flags, rid, wid, sn, last, count⟩ :=
  (reads_id rid).bind ((reads_id wid).bind ((reads_readSequenceNumber hs).bind
    ((Zzdds.Rtps.reads_readU32 hl).bind ((reads_readI32 count).map
      (fun count => HeartbeatFragSubmessage.mk flags rid wid sn last count)))))

theorem reads_parseNackFrag {rid wid : EntityId} {sn : ℤ} {set : FragmentNumberSet}
    {count : Int32} (flags : UInt8) (hs : OnWire sn) (hb : set.base < 2 ^ 32)
    (hn : set.numBits ≤ 256) :
    Reads n (parseNackFrag flags) (nackFrag rid wid sn set count).body rest
      ⟨flags, rid, wid, sn, { set with bitmap := wireBitmap set.bitmap set.numBits }, count⟩ :=
  (reads_id rid).bind ((reads_id wid).bind ((reads_readSequenceNumber hs).bind
    ((reads_parseFragmentNumberSet hb hn).bind ((reads_readI32 count).map
      (fun count => NackFragSubmessage.mk flags rid wid sn
        { set with bitmap := wireBitmap set.bitmap set.numBits } count)))))

/-- The inline QoS and the payload behind it, with nothing to skip in between. -/
theorem reads_inlineQos_tail {α : Type} (q : QosParams) {cap fixed : ℕ} (hcap : 7 ≤ cap)
    (hn : n % 4 = 0) {k : Option InlineQos → Parse α} {v : α}
    (hk : Reads (n + q.writeInlineQos.flatten.length) (k q.inlineQos) [] rest v) :
    Reads n (skipToInlineQos fixed fixed >>= fun _ => inlineQosIf q.hasIqos cap >>= k)
      q.writeInlineQos.flatten rest v := by
  have hskip : Reads n (skipToInlineQos fixed fixed) []
      (q.writeInlineQos.flatten ++ rest) () := by
    rw [skipToInlineQos, if_neg (lt_irrefl _)]
    exact Reads.pure ()
  have hq : Reads n (inlineQosIf q.hasIqos cap >>= k) (q.writeInlineQos.flatten ++ []) rest v :=
    (q.reads_inlineQosIf hcap hn).bind hk
  rw [List.append_nil] at hq
  exact hskip.bind hq

theorem reads_parseData {params : DataParams} {payload : List UInt8} {cap : ℕ} (hcap : 7 ≤ cap)
    (hs : OnWire params.writerSn) (hp : params.noPayload = true → payload = []) :
    Reads 0 (parseData params.flags cap) (data params payload).body payload
      { flags := params.flags
        readerEntityId := params.readerEntityId
        writerEntityId := params.writerEntityId
        writerSn := params.writerSn
        inlineQos := params.inlineQos
        serializedPayload := payload } := by
  unfold parseData
  refine (reads_readU16 (by decide)).bind ((reads_readU16 (by decide)).bind
    ((reads_id _).bind ((reads_id _).bind ((reads_readSequenceNumber hs).bind ?_))))
  rw [DataParams.hasFlag_inlineQos, DataParams.hasFlag_payload]
  refine reads_inlineQos_tail params.toQosParams hcap (by simp [idBytes]) ?_
  cases hno : params.noPayload with
  | true =>
      rw [hp hno]
      exact (Reads.pure _).map _
  | false => exact reads_sliceFrom.map _

theorem reads_parseDataFrag {params : DataFragParams} {payload : List UInt8} {cap : ℕ}
    (hcap : 7 ≤ cap) (h : (dataFrag params payload).WellFormed) :
    Reads 0 (parseDataFrag params.flags cap) (dataFrag params payload).body payload
      { flags := params.flags
        readerEntityId := params.readerEntityId
        writerEntityId := params.writerEntityId
        writerSn := params.writerSn
        fragmentStartingNum := params.fragmentStartingNum
        fragmentsInSubmessage := params.fragmentsInSubmessage
        fragmentSize := params.fragmentSize
        dataSize := params.dataSize
        inlineQos := params.inlineQos
        serializedPayload := payload } := by
  obtain ⟨hs, hst, hcnt, hsz, hds, -⟩ := h
  unfold parseDataFrag
  refine (reads_readU16 (by decide)).bind ((reads_readU16 (by decide)).bind
    ((reads_id _).bind ((reads_id _).bind ((reads_readSequenceNumber hs).bind
      ((reads_readU32 hst).bind ((reads_readU16 hcnt).bind ((reads_readU16 hsz).bind
        ((reads_readU32 hds).bind ?_))))))))
  rw [DataFragParams.hasFlag_inlineQos]
  refine reads_inlineQos_tail params.toQosParams hcap (by simp [idBytes]) ?_
  exact reads_sliceFrom.map _

theorem reads_content {c : BuilderCall} (h : c.WellFormed) {cap : ℕ} (hcap : 7 ≤ cap)
    (content : List UInt8) :
    ∃ p, parseContent c.id c.flags cap content = some p ∧
      Reads 0 p c.body c.payload c.submessage := by
  cases c
  case infoTs ts => exact ⟨_, rfl, (reads_parseInfoTs ts).map SubMessage.infoTs⟩
  case infoTsInvalidate =>
    exact ⟨_, rfl, (Reads.pure (⟨_, none⟩ : InfoTsSubmessage)).map SubMessage.infoTs⟩
  case infoDst dst =>
    exact ⟨_, rfl, ((reads_readGuidPrefix dst).map InfoDstSubmessage.mk).map SubMessage.infoDst⟩
  case data params payload => exact ⟨_, rfl, (reads_parseData hcap h.1 h.2.1).map SubMessage.data⟩
  case heartbeat => exact ⟨_, rfl, (reads_parseHeartbeat _ h.1 h.2).map SubMessage.heartbeat⟩
  case ackNack => exact ⟨_, rfl, (reads_parseAckNack _ h.1 h.2).map SubMessage.acknack⟩
  case gap => exact ⟨_, rfl, (reads_parseGap _ h.1 h.2.1 h.2.2).map SubMessage.gap⟩
  case dataFrag params payload =>
    exact ⟨_, rfl, (reads_parseDataFrag hcap h).map SubMessage.dataFrag⟩
  case heartbeatFrag =>
    exact ⟨_, rfl, (reads_parseHeartbeatFrag _ h.1 h.2).map SubMessage.heartbeatFrag⟩
  case nackFrag => exact ⟨_, rfl, (reads_parseNackFrag _ h.1 h.2.1 h.2.2).map SubMessage.nackFrag⟩

/-- All the octets of a call. -/
def bytes (c : BuilderCall) : List UInt8 := c.header ++ (c.body ++ c.payload)

theorem length_header (c : BuilderCall) : c.header.length = 4 := by simp [header]

theorem id_ofByte (c : BuilderCall) : SubMessageId.ofByte c.id.toByte = c.id := by
  cases c <;> rfl

theorem content_lt {c : BuilderCall} (h : c.WellFormed) :
    c.body.length + c.payload.length < 2 ^ 16 := by
  have hb := body_length h
  cases c <;> simp only [scratchLen, WellFormed, payload, numWords, List.length_nil] at * <;> omega

/-- Only the invalidating INFO_TS has no content. -/
theorem content_pos {c : BuilderCall} (h : c.WellFormed) (hi : c ≠ infoTsInvalidate) :
    0 < c.body.length := by
  have hb := body_length h
  cases c <;> simp only [scratchLen] at hb <;> first | omega | exact absurd rfl hi

theorem hasFlag_endianness (c : BuilderCall) : hasFlag c.flags FLAG_ENDIANNESS = true := by
  cases c
  case data params payload =>
    change hasFlag params.flags _ = _
    unfold DataParams.flags
    cases params.noPayload <;> cases params.isKey <;> cases params.hasIqos <;> rfl
  case dataFrag params payload =>
    change hasFlag params.flags _ = _
    unfold DataFragParams.flags
    cases params.isKey <;> cases params.hasIqos <;> rfl
  case heartbeat rid wid first last count final liveliness =>
    change hasFlag (heartbeatFlags final liveliness) _ = _
    cases final <;> cases liveliness <;> decide
  case ackNack rid wid sns count final =>
    change hasFlag (ackNackFlags final) _ = _
    cases final <;> decide
  case infoTsInvalidate => decide
  all_goals exact (by decide : hasFlag FLAG_ENDIANNESS FLAG_ENDIANNESS = true)

/-! ### One call through the iterator -/

section
variable (before after : List UInt8) (c : BuilderCall)

theorem byteAt_id : byteAt (before ++ (c.bytes ++ after)) before.length = c.id.toByte := by
  simp [byteAt, bytes, header, List.getD_eq_getElem?_getD]

theorem byteAt_flags :
    byteAt (before ++ (c.bytes ++ after)) (before.length + 1) = c.flags := by
  simp [byteAt, bytes, header, List.getD_eq_getElem?_getD]

theorem announced_length (h : c.WellFormed) :
    leValue (((before ++ (c.bytes ++ after)).drop (before.length + 2)).take 2) =
      c.body.length + c.payload.length := by
  have hlt := content_lt h
  have hd : ((before ++ (c.bytes ++ after)).drop (before.length + 2)).take 2 =
      leBytes 2 (c.body.length + c.payload.length) := by
    rw [List.drop_length_add_append]
    simp [bytes, header]
  rw [hd, leValue_leBytes, Nat.mod_eq_of_lt (by omega)]

theorem drop_header :
    (before ++ (c.bytes ++ after)).drop (before.length + 4) = c.body ++ (c.payload ++ after) := by
  rw [List.drop_length_add_append]
  simp [bytes, header]

/-- The iterator on a call's octets: it parses what the length field delimits, and moves past
it. -/
theorem nextLoop_at_call (cap fuel clen : ℕ) (hdr : Header)
    (hc : contentLen (before ++ (c.bytes ++ after)) before.length = clen)
    (hfit : before.length + 4 + clen ≤ (before ++ (c.bytes ++ after)).length)
    {p : Parse SubMessage} {r : Reader} {sm : SubMessage}
    (hp : parseContent c.id c.flags cap ((c.body ++ (c.payload ++ after)).take clen) = some p)
    (hr : p (Reader.init ((c.body ++ (c.payload ++ after)).take clen) true) = .ok (sm, r)) :
    nextLoop cap (fuel + 1) ⟨before ++ (c.bytes ++ after), before.length, hdr⟩ =
      (.ok (some sm), ⟨before ++ (c.bytes ++ after), before.length + 4 + clen, hdr⟩) := by
  rw [nextLoop, if_neg (by simp only; omega), if_neg (by simp only; omega)]
  simp only [byteAt_id, byteAt_flags, hc, drop_header, id_ofByte, hp, hasFlag_endianness]
  rw [if_neg (by omega), hr]
  rfl

theorem length_bytes (c : BuilderCall) :
    c.bytes.length = 4 + (c.body.length + c.payload.length) := by
  simp only [bytes, List.length_append, length_header]

/-- A call with content is read as its submessage. -/
theorem nextLoop_bytes {c : BuilderCall} (h : c.WellFormed) (hi : c ≠ infoTsInvalidate) {cap : ℕ}
    (hcap : 7 ≤ cap) (hdr : Header) (fuel : ℕ) :
    nextLoop cap (fuel + 1) ⟨before ++ (c.bytes ++ after), before.length, hdr⟩ =
      (.ok (some c.submessage),
        ⟨before ++ (c.bytes ++ after), before.length + c.bytes.length, hdr⟩) := by
  have hpos := content_pos h hi
  obtain ⟨p, hp, hr⟩ := reads_content h hcap (c.body ++ c.payload)
  have hread := hr [] rfl
  rw [List.nil_append] at hread
  have hcontent : (c.body ++ (c.payload ++ after)).take (c.body.length + c.payload.length) =
      c.body ++ c.payload := by
    rw [← List.append_assoc, ← List.length_append, List.take_left]
  have hc : contentLen (before ++ (c.bytes ++ after)) before.length =
      c.body.length + c.payload.length := by
    rw [contentLen, announced_length before after c h, if_neg (by omega)]
  rw [length_bytes, ← Nat.add_assoc]
  refine nextLoop_at_call before after c cap fuel _ hdr hc ?_ (hcontent ▸ hp)
    (hcontent ▸ hread)
  rw [List.length_append, List.length_append, length_bytes]
  omega

/-- An invalidating INFO_TS announces length zero, which takes the rest of the message as its
content. -/
theorem nextLoop_invalidate (cap fuel : ℕ) (hdr : Header) :
    nextLoop cap (fuel + 1)
        ⟨before ++ (infoTsInvalidate.bytes ++ after), before.length, hdr⟩ =
      (.ok (some infoTsInvalidate.submessage), ⟨before ++ (infoTsInvalidate.bytes ++ after),
        (before ++ (infoTsInvalidate.bytes ++ after)).length, hdr⟩) := by
  have hlen : (before ++ (infoTsInvalidate.bytes ++ after)).length =
      before.length + 4 + after.length := by
    simp only [List.length_append, length_bytes, body, payload, List.length_nil]
    omega
  have hc : contentLen (before ++ (infoTsInvalidate.bytes ++ after)) before.length =
      after.length := by
    rw [contentLen, announced_length before after infoTsInvalidate True.intro, hlen]
    simp only [body, payload, List.length_nil, Nat.add_zero, if_true]
    omega
  rw [hlen]
  exact nextLoop_at_call before after infoTsInvalidate cap fuel _ hdr hc (by omega) rfl rfl

end

end BuilderCall

end Zzdds.Rtps
