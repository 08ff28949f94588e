import Zzdds.Lib.Numerals
import Zzdds.Rtps.Message.Submessage

/-! # Trace events and their lines

`TraceEvent` of `trace.zig`, and what `formatEvent` writes of one as NDJSON.  The writer has room; a
slice out of the bounds of a bitmap stops the program, and then nothing is written. -/

namespace Zzdds.Trace

open Zzdds.Lib Zzdds.Rtps

/-! ### Events -/

structure DataFields where
  srcPrefix : GuidPrefix
  writerEid : EntityId
  readerEid : EntityId
  sn : ℤ
  keyHash : KeyHash := Bytes.zeroes 16
  dataLen : UInt32
deriving DecidableEq, Repr

structure HeartbeatFields where
  srcPrefix : GuidPrefix
  writerEid : EntityId
  readerEid : EntityId
  firstSn : ℤ
  lastSn : ℤ
  count : Int32
  flags : UInt8
deriving DecidableEq, Repr

structure AckNackFields where
  srcPrefix : GuidPrefix
  readerEid : EntityId
  writerEid : EntityId
  baseSn : ℤ
  bitmap : SequenceNumberSet
  count : Int32
  final : Bool
deriving DecidableEq, Repr

structure GapFields where
  srcPrefix : GuidPrefix
  writerEid : EntityId
  readerEid : EntityId
  gapStart : ℤ
  gapList : SequenceNumberSet
deriving DecidableEq, Repr

structure InfoTsFields where
  timestamp : RtpsTimestamp
deriving DecidableEq, Repr

structure InfoDstFields where
  guidPrefix : GuidPrefix
deriving DecidableEq, Repr

structure DataDupFields where
  srcPrefix : GuidPrefix
  writerEid : EntityId
  sn : ℤ
deriving DecidableEq, Repr

structure HbDupFields where
  srcPrefix : GuidPrefix
  writerEid : EntityId
  count : Int32
deriving DecidableEq, Repr

inductive TraceEvent where
  | sendData (e : DataFields)
  | sendHeartbeat (e : HeartbeatFields)
  | sendAckNack (e : AckNackFields)
  | sendGap (e : GapFields)
  | recvData (e : DataFields)
  | recvHeartbeat (e : HeartbeatFields)
  | recvAckNack (e : AckNackFields)
  | recvGap (e : GapFields)
  | recvInfoTs (e : InfoTsFields)
  | recvInfoDst (e : InfoDstFields)
  | recvDataDup (e : DataDupFields)
  | recvHeartbeatDup (e : HbDupFields)
  | skipped (count : UInt64)
deriving DecidableEq, Repr

namespace TraceEvent

def tagName : TraceEvent → List Char
  | sendData _ => "send_data".toList
  | sendHeartbeat _ => "send_heartbeat".toList
  | sendAckNack _ => "send_acknack".toList
  | sendGap _ => "send_gap".toList
  | recvData _ => "recv_data".toList
  | recvHeartbeat _ => "recv_heartbeat".toList
  | recvAckNack _ => "recv_acknack".toList
  | recvGap _ => "recv_gap".toList
  | recvInfoTs _ => "recv_info_ts".toList
  | recvInfoDst _ => "recv_info_dst".toList
  | recvDataDup _ => "recv_data_dup".toList
  | recvHeartbeatDup _ => "recv_heartbeat_dup".toList
  | skipped _ => "skipped".toList

/-- The set of numbers that the event carries. -/
def numberSet : TraceEvent → Option SequenceNumberSet
  | sendAckNack e | recvAckNack e => some e.bitmap
  | sendGap e | recvGap e => some e.gapList
  | _ => none

end TraceEvent

/-! ### Lines -/

def writeBytes (bs : List UInt8) : List Char := bs.flatMap fun b => hex 2 b.toNat

def writeGuidPrefix (p : GuidPrefix) : List Char := writeBytes p.val

def writeEntityId (e : EntityId) : List Char := writeBytes (e.entityKey.val ++ [e.entityKind])

def writeSns (set : SequenceNumberSet) : Option (List Char) :=
  if 8 < numWords set.numBits then none
  else some ("\x7b\"base\":".toList ++ decimal set.base ++ ",\"bits\":".toList ++
    decimal set.numBits ++ ",\"bm\":\"".toList ++
    (set.bitmap.words.take (numWords set.numBits)).flatMap (fun word => hex 8 word.toNat) ++
    "\"\x7d".toList)

/-- What `formatNdjson` writes between the tag and the end. -/
def writeFields : TraceEvent → Option (List Char)
  | .sendData e | .recvData e =>
      some (",\"src\":\"".toList ++ writeGuidPrefix e.srcPrefix ++
        "\",\"writer\":\"".toList ++ writeEntityId e.writerEid ++
        "\",\"reader\":\"".toList ++ writeEntityId e.readerEid ++
        "\",\"sn\":".toList ++ decimal e.sn ++ ",\"len\":".toList ++ decimal e.dataLen.toNat)
  | .sendHeartbeat e | .recvHeartbeat e =>
      some (",\"src\":\"".toList ++ writeGuidPrefix e.srcPrefix ++
        "\",\"writer\":\"".toList ++ writeEntityId e.writerEid ++
        "\",\"reader\":\"".toList ++ writeEntityId e.readerEid ++
        "\",\"first\":".toList ++ decimal e.firstSn ++ ",\"last\":".toList ++ decimal e.lastSn ++
        ",\"count\":".toList ++ decimal e.count.toInt ++ ",\"flags\":".toList ++
        decimal e.flags.toNat)
  | .sendAckNack e | .recvAckNack e => do
      let sns ← writeSns e.bitmap
      -- nothing closes the quotes of the writer
      some (",\"src\":\"".toList ++ writeGuidPrefix e.srcPrefix ++
        "\",\"reader\":\"".toList ++ writeEntityId e.readerEid ++
        "\",\"writer\":\"".toList ++ writeEntityId e.writerEid ++
        ",\"sns\":".toList ++ sns ++
        ",\"count\":".toList ++ decimal e.count.toInt ++ ",\"final\":".toList ++
        (if e.final then "true" else "false").toList)
  | .sendGap e | .recvGap e => do
      let sns ← writeSns e.gapList
      -- nor here those of the reader
      some (",\"src\":\"".toList ++ writeGuidPrefix e.srcPrefix ++
        "\",\"writer\":\"".toList ++ writeEntityId e.writerEid ++
        "\",\"reader\":\"".toList ++ writeEntityId e.readerEid ++
        ",\"gap_start\":".toList ++ decimal e.gapStart ++ ",\"gap_list\":".toList ++ sns)
  | .recvInfoTs e =>
      some (",\"sec\":".toList ++ decimal e.timestamp.seconds.toNat ++
        ",\"frac\":".toList ++ decimal e.timestamp.fraction.toNat)
  | .recvInfoDst e =>
      some (",\"prefix\":\"".toList ++ writeGuidPrefix e.guidPrefix ++ "\"".toList)
  | .recvDataDup e =>
      some (",\"src\":\"".toList ++ writeGuidPrefix e.srcPrefix ++
        "\",\"writer\":\"".toList ++ writeEntityId e.writerEid ++
        "\",\"sn\":".toList ++ decimal e.sn)
  | .recvHeartbeatDup e =>
      some (",\"src\":\"".toList ++ writeGuidPrefix e.srcPrefix ++
        "\",\"writer\":\"".toList ++ writeEntityId e.writerEid ++
        "\",\"count\":".toList ++ decimal e.count.toInt)
  | .skipped count => some (",\"count\":".toList ++ decimal count.toNat)

def formatNdjson (event : TraceEvent) : Option (List Char) := do
  let fields ← writeFields event
  some ("\x7b\"t\":\"".toList ++ event.tagName ++ "\"".toList ++ fields ++ "\x7d\n".toList)

/-- What is written of events one after the other. -/
def formatTrace : List TraceEvent → Option (List Char)
  | [] => some []
  | event :: events => do
      let line ← formatNdjson event
      let lines ← formatTrace events
      some (line ++ lines)

end Zzdds.Trace
