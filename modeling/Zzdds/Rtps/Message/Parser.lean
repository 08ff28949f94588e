import Zzdds.Lib.Checked
import Zzdds.Rtps.Message.Submessage

/-! # The message parser

`message/parser.zig`: a cursor over a byte slice (`Reader`), one parser per submessage kind,
and the iterator over the submessages of a datagram.

A read first computes `remaining = buf.len - pos` in unsigned arithmetic, and slices are
bounds-checked, so a cursor that has left its buffer stops the program at the next read;
that is the `trap` outcome of `Lib.Checked`.  Everything else a hostile datagram may provoke
is a `ParseError`.  The loop over inline QoS parameters and the skip of PAD-like submessages
take a fuel; running out of it is also a `trap`, so that a proof that nothing traps covers
the loops' termination. -/

namespace Zzdds.Rtps

open Zzdds.Lib

inductive ParseError where
  | tooShort | badProtocolId | badSubmessageLength | malformedSubmessage
deriving DecidableEq, Repr

/-! ### The cursor -/

/-- Cursor over a byte slice; `le` is the byte order of multi-byte reads. -/
structure Reader where
  buf : List UInt8
  pos : ℕ
  le : Bool
deriving DecidableEq, Repr

/-- A parser: a checked computation over the cursor. -/
abbrev Parse := Checked Reader ParseError

/-- The next multiple of four. -/
def alignUp4 (pos : ℕ) : ℕ := if pos % 4 = 0 then pos else pos + (4 - pos % 4)

namespace Reader

def init (buf : List UInt8) (littleEndian : Bool) : Reader := ⟨buf, 0, littleEndian⟩

/-- `ensureAvailable(n)`, the slice `buf[pos..pos + n]` and the advance; what is read comes
with the byte order it is to be decoded in.  `remaining` underflows when the cursor is past
the end. -/
def take (n : ℕ) : Parse (Bool × Bytes n) := fun r =>
  if r.buf.length < r.pos then .trap
  else if h : r.buf.length - r.pos < n then .error .tooShort
  else .ok ((r.le, ⟨(r.buf.drop r.pos).take n, by simp; omega⟩), { r with pos := r.pos + n })

def readBytes (n : ℕ) : Parse (List UInt8) := do
  let b ← take n
  return b.2.val

def readU8 : Parse UInt8 := do
  let b ← take 1
  return b.2.val.headD 0

def readU16 : Parse ℕ := do
  let b ← take 2
  return readInt b.1 b.2.val

def readU32 : Parse ℕ := do
  let b ← take 4
  return readInt b.1 b.2.val

/-- A `u32` reinterpreted as an `i32`. -/
def readI32 : Parse Int32 := do
  let v ← readU32
  return ⟨UInt32.ofNat v⟩

def readEntityId : Parse EntityId := do
  let b ← take 4
  return ⟨⟨b.2.val.take 3, by simp⟩, b.2.val.getD 3 0⟩

def readSequenceNumber : Parse ℤ := do
  let high ← readI32
  let low ← readU32
  return fromWire ⟨high, UInt32.ofNat low⟩

def readGuidPrefix : Parse GuidPrefix := do
  let b ← take 12
  return b.2

def readTimestamp : Parse RtpsTimestamp := do
  let seconds ← readU32
  let fraction ← readU32
  return ⟨UInt32.ofNat seconds, UInt32.ofNat fraction⟩

/-- Align the position to a 4-byte boundary.  There is no bounds check. -/
def align4 : Parse Unit := fun r => .ok ((), { r with pos := alignUp4 r.pos })

/-- `content[r.pos..]`, where `content` is the slice the cursor runs over. -/
def sliceFrom : Parse (List UInt8) := fun r =>
  if r.buf.length < r.pos then .trap else .ok (r.buf.drop r.pos, r)

/-- Fill `n` bitmap words. -/
def readWords : ℕ → Parse (List UInt32)
  | 0 => return []
  | n + 1 => do
      let w ← readU32
      let ws ← readWords n
      return UInt32.ofNat w :: ws

end Reader

open Reader

/-! ### Inline QoS and number sets -/

/-- The loop of `parseInlineQos`: parameters are recorded while the caller's buffer of `cap`
entries has room for them, and skipped over after that. -/
def parseInlineQosLoop (cap : ℕ) : ℕ → List InlineQosParam → Parse InlineQos
  | 0, _ => fun _ => .trap
  | fuel + 1, params => do
      let pid ← readU16
      let length ← readU16
      if UInt16.ofNat pid = ParameterId.sentinel then return ⟨params⟩
      else do
        let value ← readBytes length
        align4
        parseInlineQosLoop cap fuel
          (if params.length < cap then params ++ [⟨UInt16.ofNat pid, value⟩] else params)

def parseInlineQos (cap : ℕ) : Parse InlineQos :=
  fun r => parseInlineQosLoop cap (r.buf.length + 1) [] r

/-- The first eight of `ws`, padded with zero words. -/
def Bitmap.ofWords (ws : List UInt32) : Bitmap where
  words := (ws ++ List.replicate 8 0).take 8
  len := by simp

def parseSequenceNumberSet : Parse SequenceNumberSet := do
  let base ← readSequenceNumber
  let numBits ← readU32
  if 256 < numBits then Checked.throw .malformedSubmessage
  else do
    let ws ← readWords (numWords numBits)
    return ⟨base, numBits, Bitmap.ofWords ws⟩

def parseFragmentNumberSet : Parse FragmentNumberSet := do
  let base ← readU32
  let numBits ← readU32
  if 256 < numBits then Checked.throw .malformedSubmessage
  else do
    let ws ← readWords (numWords numBits)
    return ⟨base, numBits, Bitmap.ofWords ws⟩

/-! ### Per-submessage parsers -/

/-- Skip what lies between the `fixed` standard octets and the inline QoS. -/
def skipToInlineQos (qosOffset fixed : ℕ) : Parse Unit :=
  if fixed < qosOffset then do
    let _ ← readBytes (qosOffset - fixed)
    return ()
  else return ()

/-- The inline QoS, when the submessage's flag announces one. -/
def inlineQosIf (present : Bool) (cap : ℕ) : Parse (Option InlineQos) :=
  if present then do
    let q ← parseInlineQos cap
    return some q
  else return none

def parseData (flags : UInt8) (cap : ℕ) : Parse DataSubmessage := do
  let _ ← readU16
  let qosOffset ← readU16
  let readerId ← readEntityId
  let writerId ← readEntityId
  let sn ← readSequenceNumber
  skipToInlineQos qosOffset 16
  let iqos ← inlineQosIf (hasFlag flags DataFlags.inlineQos) cap
  let payload ←
    if hasFlag flags DataFlags.dataPresent || hasFlag flags DataFlags.keyFlag then sliceFrom
    else pure []
  return {
    flags := flags
    readerEntityId := readerId
    writerEntityId := writerId
    writerSn := sn
    inlineQos := iqos
    serializedPayload := payload }

def parseDataFrag (flags : UInt8) (cap : ℕ) : Parse DataFragSubmessage := do
  let _ ← readU16
  let qosOffset ← readU16
  let readerId ← readEntityId
  let writerId ← readEntityId
  let sn ← readSequenceNumber
  let fragStart ← readU32
  let fragCount ← readU16
  let fragSize ← readU16
  let dataSize ← readU32
  skipToInlineQos qosOffset 28
  let iqos ← inlineQosIf (hasFlag flags DataFragFlags.inlineQos) cap
  let payload ← sliceFrom
  return {
    flags := flags
    readerEntityId := readerId
    writerEntityId := writerId
    writerSn := sn
    fragmentStartingNum := fragStart
    fragmentsInSubmessage := fragCount
    fragmentSize := fragSize
    dataSize := dataSize
    inlineQos := iqos
    serializedPayload := payload }

def parseHeartbeat (flags : UInt8) : Parse HeartbeatSubmessage := do
  let readerId ← readEntityId
  let writerId ← readEntityId
  let firstSn ← readSequenceNumber
  let lastSn ← readSequenceNumber
  let count ← readI32
  return ⟨flags, readerId, writerId, firstSn, lastSn, count⟩

def parseAckNack (flags : UInt8) : Parse AckNackSubmessage := do
  let readerId ← readEntityId
  let writerId ← readEntityId
  let sns ← parseSequenceNumberSet
  let count ← readI32
  return ⟨flags, readerId, writerId, sns, count⟩

def parseGap (flags : UInt8) : Parse GapSubmessage := do
  let readerId ← readEntityId
  let writerId ← readEntityId
  let gapStart ← readSequenceNumber
  let gapList ← parseSequenceNumberSet
  return ⟨flags, readerId, writerId, gapStart, gapList⟩

def parseInfoTs (flags : UInt8) : Parse InfoTsSubmessage :=
  if hasFlag flags InfoTsFlags.invalidateTs then return ⟨flags, none⟩
  else do
    let ts ← readTimestamp
    return ⟨flags, some ts⟩

def parseInfoDst : Parse InfoDstSubmessage := do
  let gp ← readGuidPrefix
  return ⟨gp⟩

def parseInfoSrc : Parse InfoSrcSubmessage := do
  let _ ← readU32
  let pv0 ← readU8
  let pv1 ← readU8
  let vi0 ← readU8
  let vi1 ← readU8
  let gp ← readGuidPrefix
  return ⟨(pv0, pv1), (vi0, vi1), gp⟩

def parseHeartbeatFrag (flags : UInt8) : Parse HeartbeatFragSubmessage := do
  let readerId ← readEntityId
  let writerId ← readEntityId
  let sn ← readSequenceNumber
  let lastFrag ← readU32
  let count ← readI32
  return ⟨flags, readerId, writerId, sn, lastFrag, count⟩

def parseNackFrag (flags : UInt8) : Parse NackFragSubmessage := do
  let readerId ← readEntityId
  let writerId ← readEntityId
  let sn ← readSequenceNumber
  let fns ← parseFragmentNumberSet
  let count ← readI32
  return ⟨flags, readerId, writerId, sn, fns, count⟩

/-! ### The message header and the iterator -/

structure ProtocolVersion where
  major : UInt8
  minor : UInt8
deriving DecidableEq, Repr

/-- RTPS message header, after its protocol id was checked. -/
structure Header where
  protocolVersion : ProtocolVersion
  vendorId : UInt8 × UInt8
  guidPrefix : GuidPrefix
deriving DecidableEq, Repr

/-- `"RTPS"`. -/
def PROTOCOL_ID : List UInt8 := [0x52, 0x54, 0x50, 0x53]

/-- Parse the first 20 bytes of a message; `none` when the protocol id is wrong. -/
def Header.fromBytes (bytes : Bytes 20) : Option Header :=
  if bytes.val.take 4 = PROTOCOL_ID then
    some {
      protocolVersion := ⟨bytes.val.getD 4 0, bytes.val.getD 5 0⟩
      vendorId := (bytes.val.getD 6 0, bytes.val.getD 7 0)
      guidPrefix := ⟨(bytes.val.drop 8).take 12, by simp⟩ }
  else none

/-- The parser of one submessage's content, by its id; `none` for the kinds that are
skipped. -/
def parseContent (id : SubMessageId) (flags : UInt8) (cap : ℕ) (content : List UInt8) :
    Option (Parse SubMessage) :=
  match id with
  | .data => some do return .data (← parseData flags cap)
  | .dataFrag => some do return .dataFrag (← parseDataFrag flags cap)
  | .heartbeat => some do return .heartbeat (← parseHeartbeat flags)
  | .acknack => some do return .acknack (← parseAckNack flags)
  | .gap => some do return .gap (← parseGap flags)
  | .infoTs => some do return .infoTs (← parseInfoTs flags)
  | .infoDst => some do return .infoDst (← parseInfoDst)
  | .infoSrc => some do return .infoSrc (← parseInfoSrc)
  | .heartbeatFrag => some do return .heartbeatFrag (← parseHeartbeatFrag flags)
  | .nackFrag => some do return .nackFrag (← parseNackFrag flags)
  | .secBody => some (return .secBody content)
  | .secPrefix => some (return .secPrefix content)
  | .secPostfix => some (return .secPostfix content)
  | .secHbPrefix => some (return .secHbPrefix content)
  | .secHbPostfix => some (return .secHbPostfix content)
  | .pad | .infoReplyIp4 | .infoReply => none
  | .unknown _ => some (return .unknown content)

/-- Iterator over the submessages of one RTPS message. -/
structure MessageIterator where
  buf : List UInt8
  pos : ℕ
  header : Header
deriving DecidableEq, Repr

namespace MessageIterator

def init (buf : List UInt8) : Outcome ParseError MessageIterator :=
  if h : buf.length < 20 then .error .tooShort
  else
    match Header.fromBytes ⟨buf.take 20, by simp; omega⟩ with
    | none => .error .badProtocolId
    | some h => .ok ⟨buf, 20, h⟩

/-- Octet `i` of the datagram. -/
def byteAt (buf : List UInt8) (i : ℕ) : UInt8 := buf.getD i 0

/-- The content length of the submessage whose header stands at `pos`: its
`octetsToNextHeader`, always little-endian, where `0` extends to the end of the message. -/
def contentLen (buf : List UInt8) (pos : ℕ) : ℕ :=
  let n := leValue ((buf.drop (pos + 2)).take 2)
  if n = 0 then buf.length - (pos + 4) else n

/-- One call of `next`, with the iterator it leaves behind: the position moves before the
content is parsed, so it has moved when the call fails as well. -/
def nextLoop (cap : ℕ) :
    ℕ → MessageIterator → Outcome ParseError (Option SubMessage) × MessageIterator
  | 0, it => (.trap, it)
  | fuel + 1, it =>
      if it.buf.length ≤ it.pos then (.ok none, it)
      else if it.buf.length - it.pos < 4 then (.error .badSubmessageLength, it)
      else
        let id := SubMessageId.ofByte (byteAt it.buf it.pos)
        let flags := byteAt it.buf (it.pos + 1)
        let clen := contentLen it.buf it.pos
        if it.buf.length < it.pos + 4 + clen then
          (.error .badSubmessageLength, { it with pos := it.pos + 4 })
        else
          let content := (it.buf.drop (it.pos + 4)).take clen
          let it' := { it with pos := it.pos + 4 + clen }
          match parseContent id flags cap content with
          | none => nextLoop cap fuel it'
          | some p => ((p (Reader.init content (hasFlag flags FLAG_ENDIANNESS))).map
              (fun v => some v.1), it')

/-- Parse and return the next submessage, or `none` at the end of the message. -/
def next (cap : ℕ) (it : MessageIterator) :
    Outcome ParseError (Option SubMessage) × MessageIterator :=
  nextLoop cap (it.buf.length + 1) it

/-- The iterator after `k` calls. -/
def after (cap k : ℕ) (it : MessageIterator) : MessageIterator :=
  (fun it => (next cap it).2)^[k] it

end MessageIterator

end Zzdds.Rtps
