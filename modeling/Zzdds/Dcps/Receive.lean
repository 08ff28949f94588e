import Zzdds.Rtps.Reader.Ops

/-! # Received messages

`userDataOnReceive` of `participant.zig`, as one reader sees it: the operations a received message
leads to.  A DATA is decoded from its inline QoS here; a DATA_FRAG goes to the reader as it is, with
the timestamp of the message so far.  The submessages are those the iterator yields, up to its end or
its first error.

`now` is the clock, by the number of submessages before; `fresh` is what the allocator leaves in a
new reassembly buffer. -/

namespace Zzdds.Dcps

open Zzdds.Lib Zzdds.Rtps

/-! ### Durations -/

/-- A duration of the API, in nanoseconds of up to a second. -/
structure Duration where
  sec : Int32
  nanosec : UInt32
deriving DecidableEq, Repr

namespace Duration

def infinite : Duration := ⟨0x7fffffff, 0xffffffff⟩

def isInfinite (d : Duration) : Bool := d == infinite

def toNs (d : Duration) : Option ℤ :=
  if d.isInfinite then none else some (d.sec.toInt * 1000000000 + d.nanosec.toNat)

end Duration

def rtpsInfinite : RtpsDuration := ⟨0x7fffffff, 0xffffffff⟩

def isInfinite (d : RtpsDuration) : Bool := d == rtpsInfinite

/-- The nearest API duration; a carry beyond the largest second saturates. -/
def toDuration (d : RtpsDuration) : Duration :=
  if isInfinite d then Duration.infinite
  else
    let ns := (d.fraction.toNat * 1000000000 + 0x80000000) / 0x100000000
    if ns = 1000000000 then
      if d.seconds = 0x7fffffff then ⟨d.seconds, 999999999⟩ else ⟨d.seconds + 1, 0⟩
    else ⟨d.seconds, UInt32.ofNat ns⟩

/-! ### Inline QoS -/

/-- Unregistered, with or without disposed, before disposed. -/
def decodeChangeKind (iq : Option InlineQos) : ChangeKind :=
  match iq.bind (·.get ParameterId.statusInfo) with
  | none => .alive
  | some si =>
      if si.length < 4 then .alive
      else
        let v : UInt32 := UInt32.ofNat (readInt false (si.take 4))
        if v &&& 2 ≠ 0 then .notAliveUnregistered
        else if v &&& 1 ≠ 0 then .notAliveDisposed
        else .alive

def decodeKeyHash (iq : Option InlineQos) : Option KeyHash :=
  match iq.bind (·.get ParameterId.keyHash) with
  | none => none
  | some kh => if h : 16 ≤ kh.length then some ⟨kh.take 16, by simp [h]⟩ else none

/-- Numbers below 1 end a set instead of naming one. -/
def positiveSn (sn : Option ℤ) : Option ℤ := sn.filter (fun sn => decide (1 ≤ sn))

def decodeCoherentSetSn (iq : Option InlineQos) (littleEndian : Bool) : Option ℤ :=
  positiveSn (iq.bind (·.getSequenceNumber ParameterId.coherentSet littleEndian))

def decodeGroupSeqNum (iq : Option InlineQos) (littleEndian : Bool) : Option ℤ :=
  iq.bind (·.getSequenceNumber ParameterId.groupSeqNum littleEndian)

def decodeGroupCoherentSn (iq : Option InlineQos) (littleEndian : Bool) : Option ℤ :=
  positiveSn (iq.bind (·.getSequenceNumber ParameterId.groupCoherentSet littleEndian))

def decodeLifespan (iq : Option InlineQos) (littleEndian : Bool) : Option ℤ :=
  match iq.bind (·.get ParameterId.lifespan) with
  | none => none
  | some ls =>
      if ls.length < 8 then none
      else
        let rd : RtpsDuration := ⟨⟨UInt32.ofNat (readInt littleEndian (ls.take 4))⟩,
          UInt32.ofNat (readInt littleEndian ((ls.drop 4).take 4))⟩
        if isInfinite rd then none else (toDuration rd).toNs

/-! ### Readers -/

/-- A reader as the participant knows it: its id and its type's key-hash functions, for whole samples
and for keys alone. -/
structure ActiveReader where
  entityId : EntityId
  keyHashFn : Option (List UInt8 → KeyHash) := none
  keyHashOnlyFn : Option (List UInt8 → KeyHash) := none

/-- The key hash of a change: the one sent, or one of the reader's type. -/
def resolveKeyHash (keyHash : Option KeyHash) (ar : ActiveReader) (payload : List UInt8)
    (kind : ChangeKind) : KeyHash :=
  match keyHash with
  | some kh => kh
  | none =>
      match (if kind = .alive then ar.keyHashFn else ar.keyHashOnlyFn) with
      | some f => f payload
      | none => Bytes.zeroes 16

/-- The change of a DATA for a reader. -/
def incomingChange (ar : ActiveReader) (writer : Guid) (ts : RtpsTimestamp) (d : DataSubmessage) :
    CacheChange where
  kind := decodeChangeKind d.inlineQos
  writerGuid := writer
  sequenceNumber := d.writerSn
  sourceTimestamp := ts
  instanceHandle := INSTANCE_HANDLE_NIL
  keyHash := resolveKeyHash (decodeKeyHash d.inlineQos) ar d.serializedPayload
    (decodeChangeKind d.inlineQos)
  data := d.serializedPayload
  coherentSetSn := decodeCoherentSetSn d.inlineQos d.isLittleEndian
  groupSeqNum := decodeGroupSeqNum d.inlineQos d.isLittleEndian
  groupCoherentSn := decodeGroupCoherentSn d.inlineQos d.isLittleEndian
  inlineLifespanNs := decodeLifespan d.inlineQos d.isLittleEndian

/-- The readers of this participant that a directed write lists. -/
def directedTargets (self : GuidPrefix) (bytes : List UInt8) (littleEndian : Bool) :
    List EntityId :=
  if bytes.length < 4 then []
  else
    (List.range (readInt littleEndian (bytes.take 4))).filterMap fun i =>
      let e := (bytes.drop (4 + i * 16)).take 16
      match (e.drop 12).take 3, e.drop 15 with
      | [k₀, k₁, k₂], [kind] =>
          let id : EntityId := ⟨⟨[k₀, k₁, k₂], rfl⟩, kind⟩
          if e.take 12 = self.val ∧ id ≠ EntityId.unknown then some id else none
      | _, _ => none

/-! ### Messages -/

/-- What the submessages of a message so far have set. -/
structure ReceiveState where
  srcPrefix : GuidPrefix
  dstPrefix : GuidPrefix := GuidPrefix.unknown
  currentTs : RtpsTimestamp

section Receive

variable (self : GuidPrefix) (ar : ActiveReader) (fresh : ℕ → UInt8)

/-- The message is for this participant. -/
def ReceiveState.forUs (st : ReceiveState) : Bool :=
  st.dstPrefix == GuidPrefix.unknown || st.dstPrefix == self

/-- A submessage to `target` reaches the reader. -/
def ActiveReader.reachedBy (target : EntityId) : Bool :=
  target == EntityId.unknown || target == ar.entityId

/-- What a DATA leads to. -/
def onData (st : ReceiveState) (d : DataSubmessage) : List ReaderOp :=
  let writer : Guid := ⟨st.srcPrefix, d.writerEntityId⟩
  let op := ReaderOp.data writer (incomingChange ar writer st.currentTs d)
  match d.inlineQos.bind (·.get ParameterId.directedWrite) with
  | some dw => ((directedTargets self dw d.isLittleEndian).filter (· == ar.entityId)).map fun _ => op
  | none => if ar.reachedBy d.readerEntityId then [op] else []

/-- One submessage: what it sets, and what it leads to. -/
def onSubMessage (now : RtpsTimestamp) (st : ReceiveState) : SubMessage → ReceiveState × List ReaderOp
  | .infoTs m => ({ st with currentTs := m.timestamp.getD now }, [])
  | .infoDst m => ({ st with dstPrefix := m.guidPrefix }, [])
  | .infoSrc m => ({ st with srcPrefix := m.guidPrefix }, [])
  | .data d => (st, if st.forUs self then onData self ar st d else [])
  | .dataFrag df => (st, if st.forUs self && ar.reachedBy df.readerEntityId
      then [.dataFrag ⟨st.srcPrefix, df.writerEntityId⟩ fresh st.currentTs df] else [])
  | .heartbeat hb => (st, if st.forUs self && ar.reachedBy hb.readerEntityId
      then [.heartbeat ⟨st.srcPrefix, hb.writerEntityId⟩ hb.readerEntityId hb.firstSn hb.lastSn
        hb.count hb.isFinal] else [])
  | .heartbeatFrag hbf => (st, if st.forUs self && ar.reachedBy hbf.readerEntityId
      then [.heartbeatFrag ⟨st.srcPrefix, hbf.writerEntityId⟩ hbf.writerSn hbf.lastFragmentNum
        hbf.count] else [])
  | .gap g => (st, if st.forUs self && ar.reachedBy g.readerEntityId
      then [.gap ⟨st.srcPrefix, g.writerEntityId⟩ g.gapStart g.gapList] else [])
  | _ => (st, [])

/-- The operations of the submessages, the `i`-th and later ones. -/
def receiveFrom (now : ℕ → RtpsTimestamp) : ℕ → ReceiveState → List SubMessage → List ReaderOp
  | _, _, [] => []
  | i, st, sm :: sms =>
      let (st, ops) := onSubMessage self ar fresh (now i) st sm
      ops ++ receiveFrom now (i + 1) st sms

/-- The operations a message of `source` leads to. -/
def userDataOnReceive (now : ℕ → RtpsTimestamp) (source : GuidPrefix) (sms : List SubMessage) :
    List ReaderOp :=
  receiveFrom self ar fresh now 1 { srcPrefix := source, currentTs := now 0 } sms

end Receive

end Zzdds.Dcps
