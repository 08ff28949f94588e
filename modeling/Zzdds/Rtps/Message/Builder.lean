import Zzdds.Rtps.Message.Parser

/-! # The message builder

`message/builder.zig`.  The builder writes the RTPS header and every submessage's fields into
a scratch buffer of fixed size and keeps payloads aside as gather entries, so that a message
is the scratch bytes followed by the payloads (`MessageBuilder.flatten`).  A write that does
not fit the scratch is dropped without a word: `ScratchWriter.write`.

An encoder is the list of its writes (`Writes`), one entry per reservation it makes.  It is
`none` where the source would stop: a content length that does not fit 16 bits, or a number
set whose bit count exceeds its bitmap.  `BuilderCall` names the calls a message is built
from, and `BuilderCall.submessage` what a receiver is meant to read back for each. -/

namespace Zzdds.Rtps

open Zzdds.Lib

/-! ### The scratch buffer -/

/-- Scratch bytes available to one message. -/
def SCRATCH_SIZE : ℕ := 6144

/-- Gather entries of one message, the scratch buffer included. -/
def MAX_IOVECS : ℕ := 128

/-- Writes bytes into a buffer of `cap` bytes. -/
structure ScratchWriter where
  cap : ℕ
  written : List UInt8
  fits : written.length ≤ cap
deriving DecidableEq, Repr

namespace ScratchWriter

def init (cap : ℕ) : ScratchWriter := ⟨cap, [], Nat.zero_le _⟩

/-- Reserve room for `bs` and fill it; nothing happens when the room is not there. -/
def write (w : ScratchWriter) (bs : List UInt8) : ScratchWriter :=
  if h : w.cap - w.written.length < bs.length then w
  else
    { w with
      written := w.written ++ bs
      fits := by
        have := w.fits
        simp only [List.length_append]
        omega }

end ScratchWriter

/-- The writes of an encoder, one entry per reservation. -/
abbrev Writes := List (List UInt8)

def ScratchWriter.writeAll (w : ScratchWriter) (ws : Writes) : ScratchWriter :=
  ws.foldl ScratchWriter.write w

def writeU8 (v : UInt8) : Writes := [[v]]

def writeU16Le (v : ℕ) : Writes := [leBytes 2 v]

def writeU32Le (v : ℕ) : Writes := [leBytes 4 v]

def writeI32Le (v : Int32) : Writes := writeU32Le v.toUInt32.toNat

def writeBytes (data : List UInt8) : Writes := [data]

def writeEntityId (id : EntityId) : Writes := writeBytes id.entityKey.val ++ writeU8 id.entityKind

def writeSequenceNumber (sn : ℤ) : Writes :=
  writeI32Le (toWire sn).high ++ writeU32Le (toWire sn).low.toNat

/-- The bitmap words `bitmap[0..num_words]`. -/
def writeWords (ws : List UInt32) : Writes := ws.flatMap (fun w => writeU32Le w.toNat)

/-- A submessage header; every submessage is little-endian.  The length is cast to 16 bits. -/
def writeSmHeader (id : SubMessageId) (flags : UInt8) (contentLen : ℕ) : Option Writes :=
  if contentLen < 2 ^ 16 then
    some (writeU8 id.toByte ++ writeU8 (flags ||| FLAG_ENDIANNESS) ++ writeU16Le contentLen)
  else none

def writeSequenceNumberSet (sns : SequenceNumberSet) : Option Writes :=
  if sns.numBits ≤ 256 then
    some (writeSequenceNumber sns.base ++ writeU32Le sns.numBits ++
      writeWords (sns.bitmap.words.take (numWords sns.numBits)))
  else none

/-! ### Inline QoS -/

/-- The inline QoS parameters of `addData` and `addDataFrag`; each absent one is omitted. -/
structure QosParams where
  keyHash : Option KeyHash := none
  statusInfo : Option UInt32 := none
  coherentSetSn : Option ℤ := none
  groupSeqNum : Option ℤ := none
  groupCoherentSn : Option ℤ := none
  writerGroupInfo : Option (Bytes 4) := none
  lifespan : Option RtpsDuration := none
deriving DecidableEq, Repr

namespace QosParams

def hasIqos (q : QosParams) : Bool :=
  q.keyHash.isSome || q.statusInfo.isSome || q.coherentSetSn.isSome || q.groupSeqNum.isSome ||
    q.groupCoherentSn.isSome || q.writerGroupInfo.isSome || q.lifespan.isSome

/-- The bytes the parameters are announced to take. -/
def len (q : QosParams) : ℕ :=
  (if q.keyHash.isSome then 20 else 0) + (if q.statusInfo.isSome then 8 else 0) +
  (if q.groupSeqNum.isSome then 12 else 0) + (if q.coherentSetSn.isSome then 12 else 0) +
  (if q.groupCoherentSn.isSome then 12 else 0) + (if q.writerGroupInfo.isSome then 8 else 0) +
  (if q.lifespan.isSome then 12 else 0) + (if q.hasIqos then 4 else 0)

/-- A parameter with its announced length and its value, if there is one. -/
def entry {γ : Type} (pid : ParameterId) (len : ℕ) (value : Option γ) (enc : γ → Writes) :
    List (ParameterId × ℕ × Writes) :=
  (value.map (fun v => (pid, len, enc v))).toList

/-- The parameters in the order they are written. -/
def entries (q : QosParams) : List (ParameterId × ℕ × Writes) :=
  entry ParameterId.keyHash 16 q.keyHash (fun kh => writeBytes kh.val) ++
  entry ParameterId.statusInfo 4 q.statusInfo (fun si =>
    writeU8 0 ++ writeU8 0 ++ writeU8 0 ++ writeU8 (UInt8.ofNat si.toNat)) ++
  entry ParameterId.groupSeqNum 8 q.groupSeqNum writeSequenceNumber ++
  entry ParameterId.coherentSet 8 q.coherentSetSn writeSequenceNumber ++
  entry ParameterId.groupCoherentSet 8 q.groupCoherentSn writeSequenceNumber ++
  entry ParameterId.writerGroupInfo 4 q.writerGroupInfo (fun wgi => writeBytes wgi.val) ++
  entry ParameterId.lifespan 8 q.lifespan (fun ls =>
    writeI32Le ls.seconds ++ writeU32Le ls.fraction.toNat)

def writeInlineQos (q : QosParams) : Writes :=
  q.entries.flatMap (fun e => writeU16Le e.1.toNat ++ writeU16Le e.2.1 ++ e.2.2) ++
  if q.hasIqos then writeU16Le ParameterId.sentinel.toNat ++ writeU16Le 0 else []

/-- What a receiver reads back. -/
def inlineQos (q : QosParams) : Option InlineQos :=
  if q.hasIqos then some ⟨q.entries.map (fun e => ⟨e.1, e.2.2.flatten⟩)⟩ else none

end QosParams

/-- Parameters of `addData`. -/
structure DataParams extends QosParams where
  readerEntityId : EntityId
  writerEntityId : EntityId
  writerSn : ℤ
  isKey : Bool := false
  noPayload : Bool := false
deriving DecidableEq, Repr

/-- Parameters of `addDataFrag`. -/
structure DataFragParams extends QosParams where
  readerEntityId : EntityId
  writerEntityId : EntityId
  writerSn : ℤ
  fragmentStartingNum : ℕ
  fragmentsInSubmessage : ℕ
  fragmentSize : ℕ
  dataSize : ℕ
  isKey : Bool := false
deriving DecidableEq, Repr

/-! ### The builder -/

/-- A flag, if the condition holds. -/
def flagIf (c : Bool) (flag : UInt8) : UInt8 := if c then flag else 0

def DataParams.flags (params : DataParams) : UInt8 :=
  FLAG_ENDIANNESS |||
    (if params.noPayload then 0
      else if params.isKey then DataFlags.keyFlag else DataFlags.dataPresent) |||
    flagIf params.hasIqos DataFlags.inlineQos

def DataFragParams.flags (params : DataFragParams) : UInt8 :=
  FLAG_ENDIANNESS ||| flagIf params.isKey DataFragFlags.keyFlag |||
    flagIf params.hasIqos DataFragFlags.inlineQos

def heartbeatFlags (final liveliness : Bool) : UInt8 :=
  FLAG_ENDIANNESS ||| flagIf final HeartbeatFlags.final |||
    flagIf liveliness HeartbeatFlags.liveliness

def ackNackFlags (final : Bool) : UInt8 := FLAG_ENDIANNESS ||| flagIf final AckNackFlags.final

def PROTOCOL_VERSION : ProtocolVersion := ⟨2, 5⟩

def VENDOR_ID : UInt8 × UInt8 := (0x01, 0x1b)

/-- The header of a message from `sender`. -/
def Header.init (sender : GuidPrefix) : Header := ⟨PROTOCOL_VERSION, VENDOR_ID, sender⟩

def Header.toBytes (h : Header) : List UInt8 :=
  PROTOCOL_ID ++ [h.protocolVersion.major, h.protocolVersion.minor] ++
    [h.vendorId.1, h.vendorId.2] ++ h.guidPrefix.val

/-- A message under construction: the scratch bytes and the payload entries behind them. -/
structure MessageBuilder where
  scratch : ScratchWriter
  payloads : List (List UInt8)
deriving DecidableEq, Repr

namespace MessageBuilder

def init (cap : ℕ) (sender : GuidPrefix) : MessageBuilder :=
  ⟨(ScratchWriter.init cap).write (Header.init sender).toBytes, []⟩

def emit (b : MessageBuilder) (ws : Writes) : MessageBuilder :=
  { b with scratch := b.scratch.writeAll ws }

/-- Append a payload entry; dropped when the gather list is full. -/
def addPayloadIov (b : MessageBuilder) (payload : List UInt8) : MessageBuilder :=
  if MAX_IOVECS ≤ 1 + b.payloads.length then b
  else { b with payloads := b.payloads ++ [payload] }

def addInfoTs (b : MessageBuilder) (ts : RtpsTimestamp) : Option MessageBuilder := do
  let h ← writeSmHeader .infoTs FLAG_ENDIANNESS 8
  return b.emit (h ++ writeU32Le ts.seconds.toNat ++ writeU32Le ts.fraction.toNat)

def addInfoTsInvalidate (b : MessageBuilder) : Option MessageBuilder := do
  let h ← writeSmHeader .infoTs (FLAG_ENDIANNESS ||| InfoTsFlags.invalidateTs) 0
  return b.emit h

def addInfoDst (b : MessageBuilder) (dst : GuidPrefix) : Option MessageBuilder := do
  let h ← writeSmHeader .infoDst FLAG_ENDIANNESS 12
  return b.emit (h ++ writeBytes dst.val)

def addData (b : MessageBuilder) (params : DataParams) (payload : List UInt8) :
    Option MessageBuilder := do
  let h ← writeSmHeader .data params.flags (20 + params.len + payload.length)
  let b := b.emit (h ++ writeU16Le 0 ++ writeU16Le 16 ++ writeEntityId params.readerEntityId ++
    writeEntityId params.writerEntityId ++ writeSequenceNumber params.writerSn ++
    params.writeInlineQos)
  return if 0 < payload.length then b.addPayloadIov payload else b

def addHeartbeat (b : MessageBuilder) (readerEntityId writerEntityId : EntityId)
    (firstSn lastSn : ℤ) (count : Int32) (final liveliness : Bool) :
    Option MessageBuilder := do
  let h ← writeSmHeader .heartbeat (heartbeatFlags final liveliness) 28
  return b.emit (h ++ writeEntityId readerEntityId ++ writeEntityId writerEntityId ++
    writeSequenceNumber firstSn ++ writeSequenceNumber lastSn ++ writeI32Le count)

def addAckNack (b : MessageBuilder) (readerEntityId writerEntityId : EntityId)
    (sns : SequenceNumberSet) (count : Int32) (final : Bool) : Option MessageBuilder := do
  let h ← writeSmHeader .acknack (ackNackFlags final) (4 + 4 + sns.wireSize + 4)
  let s ← writeSequenceNumberSet sns
  return b.emit (h ++ writeEntityId readerEntityId ++ writeEntityId writerEntityId ++ s ++
    writeI32Le count)

def addGap (b : MessageBuilder) (readerEntityId writerEntityId : EntityId) (gapStart : ℤ)
    (gapList : SequenceNumberSet) : Option MessageBuilder := do
  let h ← writeSmHeader .gap FLAG_ENDIANNESS (4 + 4 + 8 + gapList.wireSize)
  let s ← writeSequenceNumberSet gapList
  return b.emit (h ++ writeEntityId readerEntityId ++ writeEntityId writerEntityId ++
    writeSequenceNumber gapStart ++ s)

def addDataFrag (b : MessageBuilder) (params : DataFragParams) (payload : List UInt8) :
    Option MessageBuilder := do
  let h ← writeSmHeader .dataFrag params.flags (32 + params.len + payload.length)
  let b := b.emit (h ++ writeU16Le 0 ++ writeU16Le 28 ++ writeEntityId params.readerEntityId ++
    writeEntityId params.writerEntityId ++ writeSequenceNumber params.writerSn ++
    writeU32Le params.fragmentStartingNum ++ writeU16Le params.fragmentsInSubmessage ++
    writeU16Le params.fragmentSize ++ writeU32Le params.dataSize ++ params.writeInlineQos)
  return if 0 < payload.length then b.addPayloadIov payload else b

def addHeartbeatFrag (b : MessageBuilder) (readerEntityId writerEntityId : EntityId)
    (writerSn : ℤ) (lastFragmentNum : ℕ) (count : Int32) : Option MessageBuilder := do
  let h ← writeSmHeader .heartbeatFrag FLAG_ENDIANNESS 24
  return b.emit (h ++ writeEntityId readerEntityId ++ writeEntityId writerEntityId ++
    writeSequenceNumber writerSn ++ writeU32Le lastFragmentNum ++ writeI32Le count)

def addNackFrag (b : MessageBuilder) (readerEntityId writerEntityId : EntityId)
    (writerSn : ℤ) (fragSet : FragmentNumberSet) (count : Int32) : Option MessageBuilder := do
  let h ← writeSmHeader .nackFrag FLAG_ENDIANNESS
    (4 + 4 + 8 + 4 + 4 + numWords fragSet.numBits * 4 + 4)
  if 256 < fragSet.numBits then none
  else
    return b.emit (h ++ writeEntityId readerEntityId ++ writeEntityId writerEntityId ++
      writeSequenceNumber writerSn ++ writeU32Le fragSet.base ++ writeU32Le fragSet.numBits ++
      writeWords (fragSet.bitmap.words.take (numWords fragSet.numBits)) ++ writeI32Le count)

/-- The bytes on the wire: the scratch entry, then the payload entries. -/
def flatten (b : MessageBuilder) : List UInt8 := b.scratch.written ++ b.payloads.flatten

end MessageBuilder

/-! ### Messages as sequences of calls -/

/-- One call on a builder. -/
inductive BuilderCall where
  | infoTs (ts : RtpsTimestamp)
  | infoTsInvalidate
  | infoDst (dst : GuidPrefix)
  | data (params : DataParams) (payload : List UInt8)
  | heartbeat (readerEntityId writerEntityId : EntityId) (firstSn lastSn : ℤ) (count : Int32)
      (final liveliness : Bool)
  | ackNack (readerEntityId writerEntityId : EntityId) (sns : SequenceNumberSet) (count : Int32)
      (final : Bool)
  | gap (readerEntityId writerEntityId : EntityId) (gapStart : ℤ) (gapList : SequenceNumberSet)
  | dataFrag (params : DataFragParams) (payload : List UInt8)
  | heartbeatFrag (readerEntityId writerEntityId : EntityId) (writerSn : ℤ)
      (lastFragmentNum : ℕ) (count : Int32)
  | nackFrag (readerEntityId writerEntityId : EntityId) (writerSn : ℤ)
      (fragSet : FragmentNumberSet) (count : Int32)
deriving DecidableEq, Repr

namespace BuilderCall

def apply (b : MessageBuilder) : BuilderCall → Option MessageBuilder
  | infoTs ts => b.addInfoTs ts
  | infoTsInvalidate => b.addInfoTsInvalidate
  | infoDst dst => b.addInfoDst dst
  | data params payload => b.addData params payload
  | heartbeat rid wid first last count final liveliness =>
      b.addHeartbeat rid wid first last count final liveliness
  | ackNack rid wid sns count final => b.addAckNack rid wid sns count final
  | gap rid wid start list => b.addGap rid wid start list
  | dataFrag params payload => b.addDataFrag params payload
  | heartbeatFrag rid wid sn last count => b.addHeartbeatFrag rid wid sn last count
  | nackFrag rid wid sn set count => b.addNackFrag rid wid sn set count

/-- The number set a receiver sees: the words `numBits` does not reach are not sent. -/
def wireBitmap (m : Bitmap) (numBits : ℕ) : Bitmap :=
  Bitmap.ofWords (m.words.take (numWords numBits))

/-- The submessage a receiver is meant to read back. -/
def submessage : BuilderCall → SubMessage
  | infoTs ts => .infoTs ⟨FLAG_ENDIANNESS, some ts⟩
  | infoTsInvalidate => .infoTs ⟨FLAG_ENDIANNESS ||| InfoTsFlags.invalidateTs, none⟩
  | infoDst dst => .infoDst ⟨dst⟩
  | data params payload => .data {
      flags := params.flags
      readerEntityId := params.readerEntityId
      writerEntityId := params.writerEntityId
      writerSn := params.writerSn
      inlineQos := params.inlineQos
      serializedPayload := payload }
  | heartbeat rid wid first last count final liveliness =>
      .heartbeat ⟨heartbeatFlags final liveliness, rid, wid, first, last, count⟩
  | ackNack rid wid sns count final =>
      .acknack ⟨ackNackFlags final, rid, wid,
        { sns with bitmap := wireBitmap sns.bitmap sns.numBits }, count⟩
  | gap rid wid start list =>
      .gap ⟨FLAG_ENDIANNESS, rid, wid, start,
        { list with bitmap := wireBitmap list.bitmap list.numBits }⟩
  | dataFrag params payload => .dataFrag {
      flags := params.flags
      readerEntityId := params.readerEntityId
      writerEntityId := params.writerEntityId
      writerSn := params.writerSn
      fragmentStartingNum := params.fragmentStartingNum
      fragmentsInSubmessage := params.fragmentsInSubmessage
      fragmentSize := params.fragmentSize
      dataSize := params.dataSize
      inlineQos := params.inlineQos
      serializedPayload := payload }
  | heartbeatFrag rid wid sn last count =>
      .heartbeatFrag ⟨FLAG_ENDIANNESS, rid, wid, sn, last, count⟩
  | nackFrag rid wid sn set count =>
      .nackFrag ⟨FLAG_ENDIANNESS, rid, wid, sn,
        { set with bitmap := wireBitmap set.bitmap set.numBits }, count⟩

end BuilderCall

/-- Build a message from `sender` over a scratch buffer of `SCRATCH_SIZE`. -/
def buildMessage (sender : GuidPrefix) (calls : List BuilderCall) : Option MessageBuilder :=
  calls.foldlM BuilderCall.apply (MessageBuilder.init SCRATCH_SIZE sender)

end Zzdds.Rtps
