import Zzdds.Rtps.Message.ParserTotal
import Zzdds.Rtps.Message.ParserLength
import Zzdds.Rtps.Message.CallBytes

/-! # Build, then parse

`roundTrips_iff` says when flattening a built message and iterating over it gives back the
submessages of its calls, in order and with equal fields.  Two things can go wrong.  An
INFO_TS that invalidates the timestamp has no content, so its header announces length zero,
which the parser takes to mean "to the end of the message": everything after it is lost
(`readBack`).  And the scratch buffer drops what does not fit, so a message whose headers and
inline QoS exceed `SCRATCH_SIZE` is sent mangled; it is then too short to yield its calls
(`Yields.minLen`). -/

namespace Zzdds.Rtps

open Zzdds.Lib MessageIterator

/-! ### The scratch buffer -/

namespace ScratchWriter

theorem write_cap (w : ScratchWriter) (bs : List UInt8) : (w.write bs).cap = w.cap := by
  unfold write
  split <;> rfl

theorem write_of_fits {w : ScratchWriter} {bs : List UInt8}
    (h : w.written.length + bs.length ≤ w.cap) : (w.write bs).written = w.written ++ bs := by
  unfold write
  rw [dif_neg (by omega)]

theorem writeAll_cap : ∀ (ws : Writes) (w : ScratchWriter), (w.writeAll ws).cap = w.cap
  | [], _ => rfl
  | bs :: ws, w => (writeAll_cap ws (w.write bs)).trans (write_cap w bs)

/-- Writes that fit are all there. -/
theorem writeAll_of_fits : ∀ (ws : Writes) {w : ScratchWriter},
    w.written.length + ws.flatten.length ≤ w.cap →
      (w.writeAll ws).written = w.written ++ ws.flatten
  | [], w, _ => by simp [writeAll]
  | bs :: ws, w, h => by
      simp only [List.flatten_cons, List.length_append] at h
      have hw : (w.write bs).written = w.written ++ bs := write_of_fits (by omega)
      have ih := writeAll_of_fits ws (w := w.write bs) (by
        rw [hw, write_cap, List.length_append]
        omega)
      rw [hw] at ih
      simpa [writeAll] using ih

end ScratchWriter

/-! ### Building -/

namespace BuilderCall

theorem writeSmHeader_eq {c : BuilderCall} (h : c.WellFormed) (len : ℕ)
    (hl : len = c.body.length + c.payload.length) :
    ∃ ws, writeSmHeader c.id c.flags len = some ws ∧ ws.flatten = c.header := by
  subst hl
  refine ⟨_, if_pos (content_lt h), ?_⟩
  simp [writeU8, writeU16Le, header, flags_or_endianness]

/-- Behind its header and content, a call leaves its payload in the gather list. -/
def withPayload (b : MessageBuilder) (payload : List UInt8) : MessageBuilder :=
  if 0 < payload.length then b.addPayloadIov payload else b

@[simp] theorem flatten_writeEntityId (e : EntityId) : (writeEntityId e).flatten = idBytes e := by
  simp [writeEntityId, writeBytes, writeU8, idBytes]

@[simp] theorem flatten_writeU16Le (v : ℕ) : (writeU16Le v).flatten = leBytes 2 v := by
  simp [writeU16Le]

@[simp] theorem flatten_writeU32Le (v : ℕ) : (writeU32Le v).flatten = leBytes 4 v := by
  simp [writeU32Le]

@[simp] theorem flatten_writeI32Le (v : Int32) :
    (writeI32Le v).flatten = leBytes 4 v.toUInt32.toNat := by
  simp [writeI32Le]

@[simp] theorem flatten_writeBytes (bs : List UInt8) : (writeBytes bs).flatten = bs := by
  simp [writeBytes]

@[simp] theorem flatten_writeWords (ws : List UInt32) :
    (writeWords ws).flatten = wordBytes ws := by
  rw [writeWords, wordBytes, List.flatMap, List.flatten_flatten, List.map_map, List.flatMap]
  congr 2

attribute [simp] QosParams.flatten_writeSequenceNumber

theorem bind_of_eq_some {α β : Type} {o : Option α} {a : α} {f : α → Option β}
    (h : o = some a) : (o >>= f) = f a := by
  rw [h]
  rfl

/-- Every call writes its header and content, and appends its payload. -/
theorem apply_eq {c : BuilderCall} (h : c.WellFormed) (b : MessageBuilder) :
    ∃ ws : Writes, ws.flatten = c.header ++ c.body ∧
      c.apply b = some (withPayload (b.emit ws) c.payload) := by
  have hb := body_length h
  -- the length each encoder announces is that of its content and payload
  have hdr : ∀ len, 4 + len = c.scratchLen + c.payload.length →
      ∃ ws, writeSmHeader c.id c.flags len = some ws ∧ ws.flatten = c.header :=
    fun len hlen => writeSmHeader_eq h len (by omega)
  cases c <;> simp only [scratchLen, payload, List.length_nil] at hdr
  case infoTs ts =>
    obtain ⟨ws, hws, hfl⟩ := hdr 8 rfl
    refine ⟨_, ?_, bind_of_eq_some hws⟩
    simp [hfl, body]
  case infoTsInvalidate =>
    obtain ⟨ws, hws, hfl⟩ := hdr 0 rfl
    refine ⟨_, ?_, bind_of_eq_some hws⟩
    simp [hfl, body]
  case infoDst dst =>
    obtain ⟨ws, hws, hfl⟩ := hdr 12 rfl
    refine ⟨_, ?_, bind_of_eq_some hws⟩
    simp [hfl, body]
  case data params payload =>
    obtain ⟨ws, hws, hfl⟩ := hdr (20 + params.len + payload.length) (by omega)
    refine ⟨_, ?_, bind_of_eq_some hws⟩
    simp [hfl, body]
  case heartbeat rid wid first last count final liveliness =>
    obtain ⟨ws, hws, hfl⟩ := hdr 28 rfl
    refine ⟨_, ?_, bind_of_eq_some hws⟩
    simp [hfl, body]
  case ackNack rid wid sns count final =>
    obtain ⟨ws, hws, hfl⟩ := hdr (4 + 4 + sns.wireSize + 4)
      (by simp only [SequenceNumberSet.wireSize]; omega)
    refine ⟨_, ?_, (bind_of_eq_some hws).trans (bind_of_eq_some (if_pos h.2))⟩
    simp [hfl, body, setBytes]
  case gap rid wid start list =>
    obtain ⟨ws, hws, hfl⟩ := hdr (4 + 4 + 8 + list.wireSize)
      (by simp only [SequenceNumberSet.wireSize]; omega)
    refine ⟨_, ?_, (bind_of_eq_some hws).trans (bind_of_eq_some (if_pos h.2.2))⟩
    simp [hfl, body, setBytes]
  case dataFrag params payload =>
    obtain ⟨ws, hws, hfl⟩ := hdr (32 + params.len + payload.length) (by omega)
    refine ⟨_, ?_, bind_of_eq_some hws⟩
    simp [hfl, body]
  case heartbeatFrag rid wid sn last count =>
    obtain ⟨ws, hws, hfl⟩ := hdr 24 rfl
    refine ⟨_, ?_, bind_of_eq_some hws⟩
    simp [hfl, body]
  case nackFrag rid wid sn set count =>
    obtain ⟨ws, hws, hfl⟩ := hdr (4 + 4 + 8 + 4 + 4 + numWords set.numBits * 4 + 4) (by omega)
    refine ⟨_, ?_, (bind_of_eq_some hws).trans (if_neg (Nat.not_lt.mpr h.2.2))⟩
    simp [hfl, body, setBytes]

theorem withPayload_scratch (b : MessageBuilder) (payload : List UInt8) :
    (withPayload b payload).scratch = b.scratch := by
  unfold withPayload MessageBuilder.addPayloadIov
  split
  · split <;> rfl
  · rfl

theorem withPayload_payloads {b : MessageBuilder} (hb : b.payloads = []) (payload : List UInt8) :
    (withPayload b payload).payloads.flatten = payload ∧
      (payload = [] → (withPayload b payload).payloads = []) := by
  unfold withPayload MessageBuilder.addPayloadIov
  cases payload with
  | nil => simp [hb]
  | cons x xs => simp [hb, MAX_IOVECS]

/-- The scratch octets of a call. -/
def scratchBytes (c : BuilderCall) : List UInt8 := c.header ++ c.body

theorem length_scratchBytes {c : BuilderCall} (h : c.WellFormed) :
    c.scratchBytes.length = c.scratchLen := by
  rw [scratchBytes, List.length_append, length_header, body_length h]

/-- Building never fails on well-formed calls with only the last one carrying a payload; if
the scratch has room, everything is in it. -/
theorem foldlM_apply : ∀ (calls : List BuilderCall) (b : MessageBuilder),
    (∀ c ∈ calls, c.WellFormed) → (∀ c ∈ calls.dropLast, c.payload = []) → b.payloads = [] →
    ∃ b', calls.foldlM apply b = some b' ∧ b'.scratch.cap = b.scratch.cap ∧
      b'.payloads.flatten = calls.flatMap payload ∧
      (b.scratch.written.length + (calls.map scratchLen).sum ≤ b.scratch.cap →
        b'.scratch.written = b.scratch.written ++ calls.flatMap scratchBytes)
  | [], b, _, _, hb => ⟨b, rfl, rfl, by simp [hb], by simp⟩
  | c :: calls, b, hwf, hpay, hb => by
      have hc := hwf c (by simp)
      obtain ⟨ws, hws, happ⟩ := apply_eq hc b
      have hfl : ws.flatten = c.scratchBytes := hws
      have hemit := ScratchWriter.writeAll_of_fits ws (w := b.scratch)
      rw [hfl, length_scratchBytes hc] at hemit
      have hp := withPayload_payloads (b := b.emit ws) hb c.payload
      have hs : (withPayload (b.emit ws) c.payload).scratch = b.scratch.writeAll ws :=
        withPayload_scratch _ _
      have hcap : (withPayload (b.emit ws) c.payload).scratch.cap = b.scratch.cap := by
        rw [hs, ScratchWriter.writeAll_cap]
      cases calls with
      | nil =>
          refine ⟨_, by simp [happ], hcap, by simp [hp.1], fun hfit => ?_⟩
          rw [hs, hemit (by simpa using hfit)]
          simp
      | cons d ds =>
          have hnil : c.payload = [] := hpay c (by simp)
          obtain ⟨b', hb', hcap', hpay', hfit'⟩ := foldlM_apply (d :: ds)
            (withPayload (b.emit ws) c.payload) (fun c' h => hwf c' (by simp [h]))
            (fun c' h => hpay c' (by simp [h])) (hp.2 hnil)
          refine ⟨b', ?_, hcap'.trans hcap, ?_, fun hfit => ?_⟩
          · rw [List.foldlM_cons, happ]
            exact hb'
          · simp [hpay', hnil]
          · rw [List.map_cons, List.sum_cons] at hfit
            have hw := hemit (by omega)
            rw [hfit' (by
              rw [hs, hw, hcap', List.length_append, length_scratchBytes hc] at *
              omega), hs, hw]
            simp

end BuilderCall

theorem length_header_toBytes (h : Header) : h.toBytes.length = 20 := by
  simp [Header.toBytes, PROTOCOL_ID]

/-- Building, from the start. -/
theorem buildMessage_spec (sender : GuidPrefix) {calls : List BuilderCall}
    (hwf : ∀ c ∈ calls, c.WellFormed) (hpay : ∀ c ∈ calls.dropLast, c.payload = []) :
    ∃ b, buildMessage sender calls = some b ∧
      b.payloads.flatten = calls.flatMap BuilderCall.payload ∧
      b.scratch.written.length ≤ SCRATCH_SIZE ∧
      (20 + (calls.map BuilderCall.scratchLen).sum ≤ SCRATCH_SIZE →
        b.scratch.written = (Header.init sender).toBytes ++
          calls.flatMap BuilderCall.scratchBytes) := by
  obtain ⟨b, hb, hcap, hp, hfit⟩ :=
    BuilderCall.foldlM_apply calls (MessageBuilder.init SCRATCH_SIZE sender) hwf hpay rfl
  have hw : (MessageBuilder.init SCRATCH_SIZE sender).scratch.written =
      (Header.init sender).toBytes := by
    refine ScratchWriter.write_of_fits ?_
    rw [length_header_toBytes]
    decide
  have hc : (MessageBuilder.init SCRATCH_SIZE sender).scratch.cap = SCRATCH_SIZE :=
    ScratchWriter.write_cap _ _
  rw [hw, length_header_toBytes, hc] at hfit
  refine ⟨b, hb, hp, ?_, hfit⟩
  have := b.scratch.fits
  rwa [hcap, hc] at this

/-- With only the last call carrying a payload, scratch and gather list together are the
octets of the calls in order. -/
theorem scratch_payload_eq : ∀ calls : List BuilderCall,
    (∀ c ∈ calls.dropLast, c.payload = []) →
    calls.flatMap BuilderCall.scratchBytes ++ calls.flatMap BuilderCall.payload =
      calls.flatMap BuilderCall.bytes
  | [], _ => rfl
  | [c], _ => by simp [BuilderCall.scratchBytes, BuilderCall.bytes]
  | c :: d :: cs, h => by
      have hc : c.payload = [] := h c (by simp)
      have ih := scratch_payload_eq (d :: cs) (fun c' h' => h c' (by simp [h']))
      have hb : c.bytes = c.scratchBytes := by
        simp [BuilderCall.bytes, BuilderCall.scratchBytes, hc]
      calc (c :: d :: cs).flatMap BuilderCall.scratchBytes ++
            (c :: d :: cs).flatMap BuilderCall.payload
          = c.scratchBytes ++ ((d :: cs).flatMap BuilderCall.scratchBytes ++
              (d :: cs).flatMap BuilderCall.payload) := by
            simp [hc]
        _ = (c :: d :: cs).flatMap BuilderCall.bytes := by
            rw [ih, ← hb]
            rfl

/-! ### Iterating -/

/-- Iterating yields exactly these submessages and then the end. -/
inductive Yields (cap : ℕ) : MessageIterator → List SubMessage → Prop
  | done {it it' : MessageIterator} (h : next cap it = (.ok none, it')) : Yields cap it []
  | more {it it' : MessageIterator} {sm : SubMessage} {sms : List SubMessage}
      (h : next cap it = (.ok (some sm), it')) (hs : Yields cap it' sms) : Yields cap it (sm :: sms)

theorem Yields.unique {cap : ℕ} {it : MessageIterator} {sms sms' : List SubMessage}
    (h : Yields cap it sms) (h' : Yields cap it sms') : sms = sms' := by
  induction h generalizing sms' with
  | done h =>
      cases h' with
      | done => rfl
      | more h₂ _ =>
          rw [h] at h₂
          cases h₂
  | more h _ ih =>
      cases h' with
      | done h₂ =>
          rw [h] at h₂
          cases h₂
      | more h₂ hs =>
          rw [h] at h₂
          cases h₂
          rw [ih hs]

/-- What the iterator makes of a sequence of calls: an invalidating INFO_TS swallows
everything behind it. -/
def readBack : List BuilderCall → List BuilderCall
  | [] => []
  | c :: cs => if c = .infoTsInvalidate then [c] else c :: readBack cs

/-- Nothing is swallowed exactly when only the last call invalidates the timestamp. -/
theorem length_readBack_eq_iff : ∀ cs : List BuilderCall,
    (readBack cs).length = cs.length ↔ ∀ c ∈ cs.dropLast, c ≠ .infoTsInvalidate
  | [] => by simp [readBack]
  | [c] => by
      rw [readBack]
      split <;> simp [readBack]
  | c :: d :: cs => by
      have ih := length_readBack_eq_iff (d :: cs)
      rw [readBack]
      split
      next h => simp [h]
      next h => simp [h, ← ih]

theorem yields_at_end (cap : ℕ) (buf : List UInt8) (hdr : Header) :
    Yields cap ⟨buf, buf.length, hdr⟩ [] := by
  have h : next cap ⟨buf, buf.length, hdr⟩ = (.ok none, ⟨buf, buf.length, hdr⟩) := by
    simp [next, nextLoop]
  exact .done h

/-- Iterating over the octets of calls. -/
theorem yields_calls {cap : ℕ} (hcap : 7 ≤ cap) (hdr : Header) :
    ∀ (calls : List BuilderCall) (before : List UInt8), (∀ c ∈ calls, c.WellFormed) →
      Yields cap ⟨before ++ calls.flatMap BuilderCall.bytes, before.length, hdr⟩
        ((readBack calls).map BuilderCall.submessage)
  | [], before, _ => by
      rw [List.flatMap_nil, List.append_nil]
      exact yields_at_end cap before hdr
  | c :: cs, before, hwf => by
      rw [readBack, List.flatMap_cons]
      by_cases hi : c = .infoTsInvalidate
      · rw [if_pos hi, hi]
        refine .more (BuilderCall.nextLoop_invalidate before _ cap _ hdr) ?_
        exact yields_at_end cap _ hdr
      · rw [if_neg hi]
        refine .more (BuilderCall.nextLoop_bytes before _ (hwf c (by simp)) hi hcap hdr _) ?_
        have ih := yields_calls hcap hdr cs (before ++ c.bytes) (fun c' h => hwf c' (by simp [h]))
        rwa [List.length_append, List.append_assoc] at ih

/-! ### Too short a datagram -/

theorem nextLoop_minLen (cap : ℕ) : ∀ (fuel : ℕ) (it it' : MessageIterator) (sm : SubMessage),
    nextLoop cap fuel it = (.ok (some sm), it') →
      it'.buf = it.buf ∧ it.pos + 4 + sm.minLen ≤ it'.pos ∧ it'.pos ≤ it.buf.length
  | 0, _, _, _, h => by cases h
  | fuel + 1, it, it', sm, h => by
      rw [nextLoop] at h
      split at h
      · cases h
      · split at h
        · cases h
        · simp only at h
          split at h
          · cases h
          next hfit =>
            split at h
            · have ih := nextLoop_minLen cap fuel _ it' sm h
              simp only at ih
              exact ⟨ih.1, by omega, ih.2.2⟩
            next p hp =>
              obtain ⟨ho, rfl⟩ := Prod.mk.inj h
              rw [Outcome.map, Outcome.bind_eq_ok] at ho
              obtain ⟨⟨sm', r⟩, hsm, he⟩ := ho
              cases he
              have hmin := parseContent_minLen hp hsm
              rw [List.length_take, List.length_drop] at hmin
              refine ⟨rfl, ?_, by simp only; omega⟩
              simp only
              omega

/-- A datagram holds the submessages it yields. -/
theorem Yields.minLen {cap : ℕ} {it : MessageIterator} {sms : List SubMessage}
    (h : Yields cap it sms) (hpos : it.pos ≤ it.buf.length) :
    it.pos + (sms.map (fun sm => 4 + sm.minLen)).sum ≤ it.buf.length := by
  induction h with
  | done => simpa using hpos
  | more h _ ih =>
      obtain ⟨hb, hle, hend⟩ := nextLoop_minLen cap _ _ _ _ h
      have := ih (by rw [hb]; exact hend)
      rw [hb] at this
      simp only [List.map_cons, List.sum_cons]
      omega

theorem QosParams.minLen_inlineQos (q : QosParams) :
    (q.inlineQos.map InlineQos.minLen).getD 0 = q.len := by
  rw [← length_writeInlineQos, flatten_writeInlineQos, inlineQos]
  cases q.hasIqos with
  | false => rfl
  | true =>
      have hs : sentinelBytes.length = 4 := rfl
      have hes : ∀ es : List (ParameterId × ℕ × Writes),
          ((es.map (fun e => (⟨e.1, e.2.2.flatten⟩ : InlineQosParam))).map
            (fun p => 4 + p.value.length)).sum = (es.flatMap entryBytes).length := by
        intro es
        induction es with
        | nil => rfl
        | cons e es ih =>
            simp only [List.map_cons, List.sum_cons, ih, List.flatMap_cons, List.length_append,
              entryBytes, leBytes_length]
            omega
      simp only [if_true, Option.map_some, Option.getD_some, InlineQos.minLen, hes,
        List.length_append, hs]

theorem BuilderCall.minLen_submessage (c : BuilderCall) :
    4 + c.submessage.minLen = c.scratchLen + c.payload.length := by
  cases c <;> simp only [submessage, SubMessage.minLen, scratchLen, payload,
    QosParams.minLen_inlineQos, List.length_nil, Option.isSome_some, Option.isSome_none,
    if_true, Bool.false_eq_true, if_false] <;> omega

/-! ### The round trip -/

/-- The calls build a message that parses back, behind the header of its sender, to exactly
their submessages, with room for 32 inline QoS parameters. -/
def RoundTrips (sender : GuidPrefix) (calls : List BuilderCall) : Prop :=
  ∃ b it, buildMessage sender calls = some b ∧ MessageIterator.init b.flatten = .ok it ∧
    it.header = Header.init sender ∧ Yields 32 it (calls.map BuilderCall.submessage)

theorem Header.fromBytes_toBytes (h : Header) {b : Bytes 20} (hb : b.val = h.toBytes) :
    Header.fromBytes b = some h := by
  have hg := h.guidPrefix.len
  unfold Header.fromBytes
  rw [if_pos (by rw [hb]; rfl)]
  simp only [hb, Option.some.injEq]
  obtain ⟨⟨major, minor⟩, ⟨v₁, v₂⟩, gp⟩ := h
  simp only [Header.mk.injEq]
  refine ⟨rfl, rfl, ?_⟩
  ext1
  exact List.take_of_length_le (le_of_eq hg)

theorem init_header_append (sender : GuidPrefix) (rest : List UInt8) :
    MessageIterator.init ((Header.init sender).toBytes ++ rest) =
      .ok ⟨(Header.init sender).toBytes ++ rest, (Header.init sender).toBytes.length,
        Header.init sender⟩ := by
  have h20 := length_header_toBytes (Header.init sender)
  unfold MessageIterator.init
  rw [dif_neg (by rw [List.length_append]; omega), Header.fromBytes_toBytes (Header.init sender)]
  · rw [h20]
  · exact List.take_left' h20

theorem length_flatMap_payload (calls : List BuilderCall) :
    (calls.flatMap BuilderCall.payload).length =
      (calls.map (fun c => c.payload.length)).sum := by
  rw [List.length_flatMap]

/-- A message that comes back did not lose anything: it fitted the scratch buffer, and
nothing followed an invalidating INFO_TS. -/
theorem RoundTrips.fits {sender : GuidPrefix} {calls : List BuilderCall}
    (hwf : ∀ c ∈ calls, c.WellFormed) (hpay : ∀ c ∈ calls.dropLast, c.payload = [])
    (h : RoundTrips sender calls) :
    (∀ c ∈ calls.dropLast, c ≠ .infoTsInvalidate) ∧
      20 + (calls.map BuilderCall.scratchLen).sum ≤ SCRATCH_SIZE := by
  obtain ⟨b, it, hb, hit, -, hy⟩ := h
  obtain ⟨b', hb', hp, hcap, hfit⟩ := buildMessage_spec sender hwf hpay
  obtain rfl : b' = b := Option.some.inj (hb'.symm.trans hb)
  obtain ⟨hbuf, hpos, hfirst⟩ := init_eq_ok hit
  have hmin := hy.minLen (by rw [hbuf, hpos]; exact hfirst.le_length)
  have hroom : 20 + (calls.map BuilderCall.scratchLen).sum ≤ SCRATCH_SIZE := by
    have hsum : ((calls.map BuilderCall.submessage).map (fun sm => 4 + sm.minLen)).sum =
        (calls.map BuilderCall.scratchLen).sum + (calls.map (fun c => c.payload.length)).sum := by
      rw [List.map_map, ← List.sum_map_add]
      congr 1
      exact List.map_congr_left (fun c _ => c.minLen_submessage)
    rw [hsum, hpos, hbuf, MessageBuilder.flatten, List.length_append, hp,
      length_flatMap_payload] at hmin
    omega
  refine ⟨?_, hroom⟩
  have hwire : b'.flatten = (Header.init sender).toBytes ++ calls.flatMap BuilderCall.bytes := by
    rw [MessageBuilder.flatten, hfit hroom, hp, List.append_assoc, scratch_payload_eq calls hpay]
  rw [hwire, init_header_append] at hit
  cases hit
  have hback := (yields_calls (by decide) _ calls _ hwf).unique hy
  rw [← length_readBack_eq_iff]
  simpa using congrArg List.length hback

/-- An end-of-coherent-set marker, as `vtSendCombinedEOCData` appends one per writer. -/
def endMarker : BuilderCall :=
  .data { readerEntityId := EntityId.unknown, writerEntityId := EntityId.unknown, writerSn := 1,
          noPayload := true } []

end Zzdds.Rtps
