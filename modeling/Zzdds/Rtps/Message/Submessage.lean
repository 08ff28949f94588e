import Zzdds.Rtps.Types

/-! # Submessages

The submessage types of `message/submessage.zig`: identifiers, flags, the two number sets,
inline QoS, and one record per parsed submessage kind.  A bitmap of the source's `[8]u32`
carries its width.  `FragmentNumber` is a `u32`; parameter ids form a non-exhaustive
`enum(u16)`, hence every 16-bit value with names for the ones the code looks up. -/

namespace Zzdds.Rtps

open Zzdds.Lib

/-! ### Submessage identifiers -/

/-- Submessage ids; any other byte is kept as `unknown`. -/
inductive SubMessageId where
  | pad | acknack | heartbeat | gap | infoTs | infoSrc | infoReplyIp4 | infoDst | infoReply
  | nackFrag | heartbeatFrag | data | dataFrag
  | secBody | secPrefix | secPostfix | secHbPrefix | secHbPostfix
  | unknown (id : UInt8)
deriving DecidableEq, Repr

namespace SubMessageId

/-- The id byte of a submessage header. -/
def toByte : SubMessageId → UInt8
  | pad => 0x01
  | acknack => 0x06
  | heartbeat => 0x07
  | gap => 0x08
  | infoTs => 0x09
  | infoSrc => 0x0c
  | infoReplyIp4 => 0x0d
  | infoDst => 0x0e
  | infoReply => 0x0f
  | nackFrag => 0x12
  | heartbeatFrag => 0x13
  | data => 0x15
  | dataFrag => 0x16
  | secBody => 0x30
  | secPrefix => 0x31
  | secPostfix => 0x32
  | secHbPrefix => 0x33
  | secHbPostfix => 0x34
  | unknown id => id

def ofByte (b : UInt8) : SubMessageId :=
  if b = 0x01 then pad
  else if b = 0x06 then acknack
  else if b = 0x07 then heartbeat
  else if b = 0x08 then gap
  else if b = 0x09 then infoTs
  else if b = 0x0c then infoSrc
  else if b = 0x0d then infoReplyIp4
  else if b = 0x0e then infoDst
  else if b = 0x0f then infoReply
  else if b = 0x12 then nackFrag
  else if b = 0x13 then heartbeatFrag
  else if b = 0x15 then data
  else if b = 0x16 then dataFrag
  else if b = 0x30 then secBody
  else if b = 0x31 then secPrefix
  else if b = 0x32 then secPostfix
  else if b = 0x33 then secHbPrefix
  else if b = 0x34 then secHbPostfix
  else unknown b

end SubMessageId

/-! ### Flags -/

/-- Bit 0 of any submessage's flags: set for little-endian. -/
def FLAG_ENDIANNESS : UInt8 := 0x01

namespace DataFlags
def inlineQos : UInt8 := 0x02
def dataPresent : UInt8 := 0x04
def keyFlag : UInt8 := 0x08
end DataFlags

namespace DataFragFlags
def inlineQos : UInt8 := 0x02
def keyFlag : UInt8 := 0x04
end DataFragFlags

namespace HeartbeatFlags
def final : UInt8 := 0x02
def liveliness : UInt8 := 0x04
end HeartbeatFlags

namespace AckNackFlags
def final : UInt8 := 0x02
end AckNackFlags

namespace InfoTsFlags
def invalidateTs : UInt8 := 0x02
end InfoTsFlags

/-- A flag bit is set. -/
def hasFlag (flags bit : UInt8) : Bool := flags &&& bit != 0

/-! ### Number sets -/

/-- The eight 32-bit words of a number set's bitmap. -/
structure Bitmap where
  words : List UInt32
  len : words.length = 8
deriving DecidableEq, Repr

namespace Bitmap

def zeroes : Bitmap := ⟨List.replicate 8 0, rfl⟩

/-- Bit `offset`, most significant first within each word. -/
def bit (m : Bitmap) (offset : ℕ) : Bool :=
  (m.words.getD (offset / 32) 0).toNat.testBit (31 - offset % 32)

/-- Set bit `offset`. -/
def setBit (m : Bitmap) (offset : ℕ) : Bitmap where
  words := m.words.modify (offset / 32) (fun w => w ||| UInt32.ofNat (2 ^ (31 - offset % 32)))
  len := by simp [m.len]

end Bitmap

/-- Words a set of `numBits` bits takes on the wire. -/
def numWords (numBits : ℕ) : ℕ := (numBits + 31) / 32

/-- A base sequence number and a bitmask of up to 256 numbers from it. -/
structure SequenceNumberSet where
  base : ℤ
  numBits : ℕ
  bitmap : Bitmap
deriving DecidableEq, Repr

/-- `sn` is in the set. -/
def SequenceNumberSet.contains (s : SequenceNumberSet) (sn : ℤ) : Bool :=
  if sn < s.base then false
  else if s.numBits ≤ (sn - s.base).toNat then false
  else s.bitmap.bit (sn - s.base).toNat

/-- Wire size in bytes. -/
def SequenceNumberSet.wireSize (s : SequenceNumberSet) : ℕ := 8 + 4 + numWords s.numBits * 4

structure FragmentNumberSet where
  base : ℕ
  numBits : ℕ
  bitmap : Bitmap
deriving DecidableEq, Repr

def FragmentNumberSet.contains (s : FragmentNumberSet) (fn : ℕ) : Bool :=
  if fn < s.base then false
  else if s.numBits ≤ fn - s.base then false
  else s.bitmap.bit (fn - s.base)

/-! ### Inline QoS -/

/-- A parameter id. -/
abbrev ParameterId := UInt16

namespace ParameterId
def sentinel : ParameterId := 0x0001
def lifespan : ParameterId := 0x002b
def coherentSet : ParameterId := 0x0056
def directedWrite : ParameterId := 0x0057
def groupCoherentSet : ParameterId := 0x0063
def groupSeqNum : ParameterId := 0x0064
def writerGroupInfo : ParameterId := 0x0065
def keyHash : ParameterId := 0x0070
def statusInfo : ParameterId := 0x0071
end ParameterId

/-- One inline QoS parameter. -/
structure InlineQosParam where
  pid : ParameterId
  value : List UInt8
deriving DecidableEq, Repr

/-- The parsed inline QoS parameters of a submessage. -/
structure InlineQos where
  params : List InlineQosParam
deriving DecidableEq, Repr

namespace InlineQos

/-- The value of the first parameter `pid`. -/
def get (q : InlineQos) (pid : ParameterId) : Option (List UInt8) :=
  (q.params.find? (fun p => p.pid == pid)).map (·.value)

/-- A parameter whose value is a sequence number: the two words as written, without the
sentinel `fromWire` recognises. -/
def getSequenceNumber (q : InlineQos) (pid : ParameterId) (littleEndian : Bool) : Option ℤ :=
  match q.get pid with
  | none => none
  | some v =>
      if v.length < 8 then none
      else
        let high : Int32 := ⟨UInt32.ofNat (readInt littleEndian (v.take 4))⟩
        let low : UInt32 := UInt32.ofNat (readInt littleEndian ((v.drop 4).take 4))
        some (high.toInt * 2 ^ 32 + low.toNat)

end InlineQos

/-! ### Parsed submessages -/

structure DataSubmessage where
  flags : UInt8
  readerEntityId : EntityId
  writerEntityId : EntityId
  writerSn : ℤ
  inlineQos : Option InlineQos
  serializedPayload : List UInt8
deriving DecidableEq, Repr

structure DataFragSubmessage where
  flags : UInt8
  readerEntityId : EntityId
  writerEntityId : EntityId
  writerSn : ℤ
  fragmentStartingNum : ℕ
  fragmentsInSubmessage : ℕ
  fragmentSize : ℕ
  dataSize : ℕ
  inlineQos : Option InlineQos
  serializedPayload : List UInt8
deriving DecidableEq, Repr

structure HeartbeatSubmessage where
  flags : UInt8
  readerEntityId : EntityId
  writerEntityId : EntityId
  firstSn : ℤ
  lastSn : ℤ
  count : Int32
deriving DecidableEq, Repr

structure AckNackSubmessage where
  flags : UInt8
  readerEntityId : EntityId
  writerEntityId : EntityId
  readerSnState : SequenceNumberSet
  count : Int32
deriving DecidableEq, Repr

structure GapSubmessage where
  flags : UInt8
  readerEntityId : EntityId
  writerEntityId : EntityId
  gapStart : ℤ
  gapList : SequenceNumberSet
deriving DecidableEq, Repr

structure InfoTsSubmessage where
  flags : UInt8
  timestamp : Option RtpsTimestamp
deriving DecidableEq, Repr

structure InfoDstSubmessage where
  guidPrefix : GuidPrefix
deriving DecidableEq, Repr

structure InfoSrcSubmessage where
  protocolVersion : UInt8 × UInt8
  vendorId : UInt8 × UInt8
  guidPrefix : GuidPrefix
deriving DecidableEq, Repr

structure HeartbeatFragSubmessage where
  flags : UInt8
  readerEntityId : EntityId
  writerEntityId : EntityId
  writerSn : ℤ
  lastFragmentNum : ℕ
  count : Int32
deriving DecidableEq, Repr

structure NackFragSubmessage where
  flags : UInt8
  readerEntityId : EntityId
  writerEntityId : EntityId
  writerSn : ℤ
  fragmentNumberState : FragmentNumberSet
  count : Int32
deriving DecidableEq, Repr

/-- A single parsed submessage.  The kinds the parser skips (PAD and the two INFO_REPLY
forms) never reach a caller. -/
inductive SubMessage where
  | acknack (m : AckNackSubmessage)
  | heartbeat (m : HeartbeatSubmessage)
  | gap (m : GapSubmessage)
  | infoTs (m : InfoTsSubmessage)
  | infoSrc (m : InfoSrcSubmessage)
  | infoDst (m : InfoDstSubmessage)
  | nackFrag (m : NackFragSubmessage)
  | heartbeatFrag (m : HeartbeatFragSubmessage)
  | data (m : DataSubmessage)
  | dataFrag (m : DataFragSubmessage)
  | secBody (content : List UInt8)
  | secPrefix (content : List UInt8)
  | secPostfix (content : List UInt8)
  | secHbPrefix (content : List UInt8)
  | secHbPostfix (content : List UInt8)
  | unknown (content : List UInt8)
deriving DecidableEq, Repr

def DataSubmessage.isLittleEndian (m : DataSubmessage) : Bool := hasFlag m.flags FLAG_ENDIANNESS

def DataFragSubmessage.isLittleEndian (m : DataFragSubmessage) : Bool :=
  hasFlag m.flags FLAG_ENDIANNESS

def HeartbeatSubmessage.isFinal (m : HeartbeatSubmessage) : Bool :=
  hasFlag m.flags HeartbeatFlags.final

def AckNackSubmessage.isFinal (m : AckNackSubmessage) : Bool :=
  hasFlag m.flags AckNackFlags.final

end Zzdds.Rtps
