import Zzdds.Lib.Json
import Zzdds.Trace.Ndjson

/-! # Trace lines read back

A line is read as a JSON object, and its members as an event.  Lines of events without a set of
sequence numbers give the event back; of those with one, a closing quote is missing, and they are no
JSON at all. -/

namespace Zzdds.Trace

open Zzdds.Lib Zzdds.Rtps Json

/-! ### Reading an event -/

def asString : Json → Option (List Char)
  | .string s => some s
  | _ => none

def asInt : Json → Option ℤ
  | .number text => readDecimal text
  | _ => none

def asBool : Json → Option Bool
  | .bool b => some b
  | _ => none

def asObject : Json → Option (List (List Char × Json))
  | .object ms => some ms
  | _ => none

def readBytes (n : ℕ) (cs : List Char) : Option (Bytes n) := do
  let ns ← readHexes 2 n cs
  if h : (ns.map UInt8.ofNat).length = n then some ⟨ns.map UInt8.ofNat, h⟩ else none

def readEntityId (cs : List Char) : Option EntityId := do
  let entityKey ← readBytes 3 (cs.take 6)
  let kind ← readBytes 1 (cs.drop 6)
  some ⟨entityKey, kind.val.headD 0⟩

/-- A number that the type has. -/
def exactly {α : Type} (ofInt : ℤ → α) (toInt : α → ℤ) (n : ℤ) : Option α :=
  if toInt (ofInt n) = n then some (ofInt n) else none

/-- A bitmap of which the first bits are given, and no others are set. -/
def bitmapOf (numBits : ℕ) (bit : ℕ → Bool) : Bitmap :=
  (List.range numBits).foldl (fun m i => if bit i then m.setBit i else m) Bitmap.zeroes

section Members

variable (ms : List (List Char × Json)) (name : String)

def stringAt : Option (List Char) := (ms.lookup name.toList).bind asString

def intAt : Option ℤ := (ms.lookup name.toList).bind asInt

def boolAt : Option Bool := (ms.lookup name.toList).bind asBool

def guidPrefixAt : Option GuidPrefix := (stringAt ms name).bind (readBytes 12)

def entityIdAt : Option EntityId := (stringAt ms name).bind readEntityId

def uint8At : Option UInt8 := (intAt ms name).bind (exactly (fun n => .ofNat n.toNat) (·.toNat))

def uint32At : Option UInt32 := (intAt ms name).bind (exactly (fun n => .ofNat n.toNat) (·.toNat))

def uint64At : Option UInt64 := (intAt ms name).bind (exactly (fun n => .ofNat n.toNat) (·.toNat))

def int32At : Option Int32 := (intAt ms name).bind (exactly Int32.ofInt Int32.toInt)

def snsAt : Option SequenceNumberSet := do
  let sns ← (ms.lookup name.toList).bind asObject
  let base ← intAt sns "base"
  let numBits ← (intAt sns "bits").bind (exactly Int.toNat (fun n => n))
  let words ← (stringAt sns "bm").bind (readHexes 8 (numWords numBits))
  some ⟨base, numBits, bitmapOf numBits fun i => (words.getD (i / 32) 0).testBit (31 - i % 32)⟩

end Members

section Decode

variable (ms : List (List Char × Json))

def decodeData : Option DataFields := do
  some { srcPrefix := ← guidPrefixAt ms "src", writerEid := ← entityIdAt ms "writer",
         readerEid := ← entityIdAt ms "reader", sn := ← intAt ms "sn",
         dataLen := ← uint32At ms "len" }

def decodeHeartbeat : Option HeartbeatFields := do
  some { srcPrefix := ← guidPrefixAt ms "src", writerEid := ← entityIdAt ms "writer",
         readerEid := ← entityIdAt ms "reader", firstSn := ← intAt ms "first",
         lastSn := ← intAt ms "last", count := ← int32At ms "count", flags := ← uint8At ms "flags" }

/-- The base is printed with the set only. -/
def decodeAckNack : Option AckNackFields := do
  some { srcPrefix := ← guidPrefixAt ms "src", readerEid := ← entityIdAt ms "reader",
         writerEid := ← entityIdAt ms "writer", baseSn := 0, bitmap := ← snsAt ms "sns",
         count := ← int32At ms "count", final := ← boolAt ms "final" }

def decodeGap : Option GapFields := do
  some { srcPrefix := ← guidPrefixAt ms "src", writerEid := ← entityIdAt ms "writer",
         readerEid := ← entityIdAt ms "reader", gapStart := ← intAt ms "gap_start",
         gapList := ← snsAt ms "gap_list" }

def decodeInfoTs : Option InfoTsFields := do
  some ⟨⟨← uint32At ms "sec", ← uint32At ms "frac"⟩⟩

def decodeInfoDst : Option InfoDstFields := do
  some ⟨← guidPrefixAt ms "prefix"⟩

def decodeDataDup : Option DataDupFields := do
  some { srcPrefix := ← guidPrefixAt ms "src", writerEid := ← entityIdAt ms "writer",
         sn := ← intAt ms "sn" }

def decodeHbDup : Option HbDupFields := do
  some { srcPrefix := ← guidPrefixAt ms "src", writerEid := ← entityIdAt ms "writer",
         count := ← int32At ms "count" }

/-- The event of a variant. -/
def decodeFields (tag : List Char) : Option TraceEvent :=
  if tag = "send_data".toList then (decodeData ms).map .sendData
  else if tag = "send_heartbeat".toList then (decodeHeartbeat ms).map .sendHeartbeat
  else if tag = "send_acknack".toList then (decodeAckNack ms).map .sendAckNack
  else if tag = "send_gap".toList then (decodeGap ms).map .sendGap
  else if tag = "recv_data".toList then (decodeData ms).map .recvData
  else if tag = "recv_heartbeat".toList then (decodeHeartbeat ms).map .recvHeartbeat
  else if tag = "recv_acknack".toList then (decodeAckNack ms).map .recvAckNack
  else if tag = "recv_gap".toList then (decodeGap ms).map .recvGap
  else if tag = "recv_info_ts".toList then (decodeInfoTs ms).map .recvInfoTs
  else if tag = "recv_info_dst".toList then (decodeInfoDst ms).map .recvInfoDst
  else if tag = "recv_data_dup".toList then (decodeDataDup ms).map .recvDataDup
  else if tag = "recv_heartbeat_dup".toList then (decodeHbDup ms).map .recvHeartbeatDup
  else if tag = "skipped".toList then (uint64At ms "count").map .skipped
  else none

end Decode

def decode (j : Json) : Option TraceEvent := do
  let ms ← asObject j
  decodeFields ms (← stringAt ms "t")

/-! ### What is printed of an event -/

/-- The set, with no bits set but the first `numBits`. -/
def printedSet (set : SequenceNumberSet) : SequenceNumberSet :=
  { set with bitmap := bitmapOf set.numBits set.bitmap.bit }

/-- An event without what is not printed of it. -/
def TraceEvent.printed : TraceEvent → TraceEvent
  | sendData e => sendData { e with keyHash := Bytes.zeroes 16 }
  | recvData e => recvData { e with keyHash := Bytes.zeroes 16 }
  | sendAckNack e => sendAckNack { e with baseSn := 0, bitmap := printedSet e.bitmap }
  | recvAckNack e => recvAckNack { e with baseSn := 0, bitmap := printedSet e.bitmap }
  | sendGap e => sendGap { e with gapList := printedSet e.gapList }
  | recvGap e => recvGap { e with gapList := printedSet e.gapList }
  | event => event

/-- A line, without its end, from which the event is read. -/
structure Line (line : List Char) (event : TraceEvent) : Prop where
  one : '\n' ∉ line
  parsed : ∃ j, IsText line j ∧ j.Distinct ∧ decode j = some event

/-- A text whose lines are read as the events, one after the other. -/
inductive Lines : List Char → List TraceEvent → Prop
  | nil : Lines [] []
  | cons {line text : List Char} {event : TraceEvent} {events : List TraceEvent}
      (h : Line line event) (ht : Lines text events) :
      Lines (line ++ '\n' :: text) (event :: events)

/-! ### What is written is read -/

theorem exactly_of_eq {α : Type} {ofInt : ℤ → α} {toInt : α → ℤ} {a : α} (h : ofInt (toInt a) = a) :
    exactly ofInt toInt (toInt a) = some a := by
  rw [exactly, h, if_pos rfl]

@[simp] theorem exactly_uint8 (a : UInt8) :
    exactly (fun n => UInt8.ofNat n.toNat) (·.toNat) a.toNat = some a :=
  exactly_of_eq (a := a) (by simp)

@[simp] theorem exactly_uint32 (a : UInt32) :
    exactly (fun n => UInt32.ofNat n.toNat) (·.toNat) a.toNat = some a :=
  exactly_of_eq (a := a) (by simp)

@[simp] theorem exactly_uint64 (a : UInt64) :
    exactly (fun n => UInt64.ofNat n.toNat) (·.toNat) a.toNat = some a :=
  exactly_of_eq (a := a) (by simp)

@[simp] theorem exactly_int32 (a : Int32) : exactly Int32.ofInt Int32.toInt a.toInt = some a :=
  exactly_of_eq (by simp)

@[simp] theorem readBytes_writeBytes {n : ℕ} (b : Bytes n) :
    readBytes n (writeBytes b.val) = some b := by
  have hns : readHexes 2 n (writeBytes b.val) = some (b.val.map UInt8.toNat) := by
    have hlt : ∀ k ∈ b.val.map UInt8.toNat, k < 16 ^ 2 := by
      intro k hk
      obtain ⟨c, -, rfl⟩ := List.mem_map.mp hk
      exact c.toNat_lt
    have hread := readHexes_flatMap hlt
    rwa [List.length_map, b.len, List.flatMap_map] at hread
  have hback : b.val.map (UInt8.ofNat ∘ UInt8.toNat) = b.val :=
    (List.map_congr_left fun c _ => UInt8.ofNat_toNat).trans (List.map_id _)
  simp [readBytes, hns, hback]

theorem length_writeBytes (bs : List UInt8) : (writeBytes bs).length = 2 * bs.length := by
  simp [writeBytes, List.length_flatMap, Nat.mul_comm]

@[simp] theorem readEntityId_writeEntityId (e : EntityId) :
    readEntityId (writeEntityId e) = some e := by
  have hlen : (writeBytes e.entityKey.val).length = 6 := by rw [length_writeBytes, e.entityKey.len]
  have hsplit : writeEntityId e = writeBytes e.entityKey.val ++ writeBytes [e.entityKind] :=
    List.flatMap_append
  have hkind : readBytes 1 (writeBytes [e.entityKind]) = some ⟨[e.entityKind], rfl⟩ :=
    readBytes_writeBytes (n := 1) ⟨[e.entityKind], rfl⟩
  rw [readEntityId, hsplit, List.take_left' hlen, List.drop_left' hlen, readBytes_writeBytes, hkind]
  rfl

/-! ### Members and their texts -/

theorem plain_hex {w n : ℕ} : Plain (hex w n) := by
  intro c hc
  obtain ⟨d, hd, rfl⟩ := mem_hex hc
  have hdigits : ∀ d < 16, isPlain d.digitChar = true := by decide
  exact hdigits d hd

theorem plain_writeBytes (bs : List UInt8) : Plain (writeBytes bs) := by
  intro c hc
  obtain ⟨b, -, hc⟩ := List.mem_flatMap.mp hc
  exact plain_hex c hc

section Fields

variable (name : List Char) (plain : Plain name)

def bytesField (bs : List UInt8) : Field :=
  ⟨name, .string (writeBytes bs), quoted (writeBytes bs), plain, .string (plain_writeBytes bs)⟩

def intField (n : ℤ) : Field := ⟨name, .number (decimal n), decimal n, plain, .integer n⟩

end Fields

def tagField (text : List Char) (plain : Plain text) : Field :=
  ⟨"t".toList, .string text, quoted text, by decide, .string plain⟩

def src (p : GuidPrefix) : Field := bytesField "src".toList (by decide) p.val

def writer (e : EntityId) : Field :=
  bytesField "writer".toList (by decide) (e.entityKey.val ++ [e.entityKind])

def reader (e : EntityId) : Field :=
  bytesField "reader".toList (by decide) (e.entityKey.val ++ [e.entityKind])

def DataFields.fields (e : DataFields) : List Field :=
  [src e.srcPrefix, writer e.writerEid, reader e.readerEid,
    intField "sn".toList (by decide) e.sn, intField "len".toList (by decide) e.dataLen.toNat]

def HeartbeatFields.fields (e : HeartbeatFields) : List Field :=
  [src e.srcPrefix, writer e.writerEid, reader e.readerEid,
    intField "first".toList (by decide) e.firstSn, intField "last".toList (by decide) e.lastSn,
    intField "count".toList (by decide) e.count.toInt,
    intField "flags".toList (by decide) e.flags.toNat]

def InfoTsFields.fields (e : InfoTsFields) : List Field :=
  [intField "sec".toList (by decide) e.timestamp.seconds.toNat,
    intField "frac".toList (by decide) e.timestamp.fraction.toNat]

def InfoDstFields.fields (e : InfoDstFields) : List Field :=
  [bytesField "prefix".toList (by decide) e.guidPrefix.val]

def DataDupFields.fields (e : DataDupFields) : List Field :=
  [src e.srcPrefix, writer e.writerEid, intField "sn".toList (by decide) e.sn]

def HbDupFields.fields (e : HbDupFields) : List Field :=
  [src e.srcPrefix, writer e.writerEid, intField "count".toList (by decide) e.count.toInt]

section Lookup

variable {ms : List (List Char × Json)} {name : String}

theorem guidPrefixAt_of {p : GuidPrefix}
    (h : ms.lookup name.toList = some (.string (writeBytes p.val))) :
    guidPrefixAt ms name = some p := by
  rw [guidPrefixAt, stringAt, h]
  exact readBytes_writeBytes p

theorem entityIdAt_of {e : EntityId}
    (h : ms.lookup name.toList = some (.string (writeEntityId e))) :
    entityIdAt ms name = some e := by
  rw [entityIdAt, stringAt, h]
  exact readEntityId_writeEntityId e

theorem intAt_of {n : ℤ} (h : ms.lookup name.toList = some (.number (decimal n))) :
    intAt ms name = some n := by
  rw [intAt, h]
  exact readDecimal_decimal n

theorem uint8At_of {a : UInt8} (h : ms.lookup name.toList = some (.number (decimal a.toNat))) :
    uint8At ms name = some a := by
  rw [uint8At, intAt_of h]
  exact exactly_uint8 a

theorem uint32At_of {a : UInt32} (h : ms.lookup name.toList = some (.number (decimal a.toNat))) :
    uint32At ms name = some a := by
  rw [uint32At, intAt_of h]
  exact exactly_uint32 a

theorem uint64At_of {a : UInt64} (h : ms.lookup name.toList = some (.number (decimal a.toNat))) :
    uint64At ms name = some a := by
  rw [uint64At, intAt_of h]
  exact exactly_uint64 a

theorem int32At_of {a : Int32} (h : ms.lookup name.toList = some (.number (decimal a.toInt))) :
    int32At ms name = some a := by
  rw [int32At, intAt_of h]
  exact exactly_int32 a

end Lookup

section Decode

variable {text : List Char} (plain : Plain text)

theorem decodeData_fields (e : DataFields) :
    decodeData ((tagField text plain :: e.fields).map Field.member) =
      some { e with keyHash := Bytes.zeroes 16 } := by
  rw [decodeData, guidPrefixAt_of (p := e.srcPrefix) rfl, entityIdAt_of (e := e.writerEid) rfl,
    entityIdAt_of (e := e.readerEid) rfl, intAt_of (n := e.sn) rfl,
    uint32At_of (a := e.dataLen) rfl]
  rfl

theorem decodeHeartbeat_fields (e : HeartbeatFields) :
    decodeHeartbeat ((tagField text plain :: e.fields).map Field.member) = some e := by
  rw [decodeHeartbeat, guidPrefixAt_of (p := e.srcPrefix) rfl, entityIdAt_of (e := e.writerEid) rfl,
    entityIdAt_of (e := e.readerEid) rfl, intAt_of (n := e.firstSn) rfl,
    intAt_of (n := e.lastSn) rfl, int32At_of (a := e.count) rfl, uint8At_of (a := e.flags) rfl]
  rfl

theorem decodeInfoTs_fields (e : InfoTsFields) :
    decodeInfoTs ((tagField text plain :: e.fields).map Field.member) = some e := by
  rw [decodeInfoTs, uint32At_of (a := e.timestamp.seconds) rfl,
    uint32At_of (a := e.timestamp.fraction) rfl]
  rfl

theorem decodeInfoDst_fields (e : InfoDstFields) :
    decodeInfoDst ((tagField text plain :: e.fields).map Field.member) = some e := by
  rw [decodeInfoDst, guidPrefixAt_of (p := e.guidPrefix) rfl]
  rfl

theorem decodeDataDup_fields (e : DataDupFields) :
    decodeDataDup ((tagField text plain :: e.fields).map Field.member) = some e := by
  rw [decodeDataDup, guidPrefixAt_of (p := e.srcPrefix) rfl, entityIdAt_of (e := e.writerEid) rfl,
    intAt_of (n := e.sn) rfl]
  rfl

theorem decodeHbDup_fields (e : HbDupFields) :
    decodeHbDup ((tagField text plain :: e.fields).map Field.member) = some e := by
  rw [decodeHbDup, guidPrefixAt_of (p := e.srcPrefix) rfl, entityIdAt_of (e := e.writerEid) rfl,
    int32At_of (a := e.count) rfl]
  rfl

end Decode

namespace TraceEvent

theorem plain_tagName (event : TraceEvent) : Plain event.tagName := by
  cases event <;> exact List.all_eq_true.mp rfl

def tag (event : TraceEvent) : Field := tagField event.tagName event.plain_tagName

/-- The members after the tag, of an event without a set. -/
def fields : TraceEvent → List Field
  | sendData e | recvData e => e.fields
  | sendHeartbeat e | recvHeartbeat e => e.fields
  | sendAckNack _ | recvAckNack _ | sendGap _ | recvGap _ => []
  | recvInfoTs e => e.fields
  | recvInfoDst e => e.fields
  | recvDataDup e => e.fields
  | recvHeartbeatDup e => e.fields
  | skipped count => [intField "count".toList (by decide) count.toNat]

variable {event : TraceEvent}

theorem formatNdjson_eq (h : event.numberSet = none) :
    formatNdjson event = some (objectText (event.tag :: event.fields) ++ ['\n']) := by
  cases event with
  | sendAckNack e => cases h
  | recvAckNack e => cases h
  | sendGap e => cases h
  | recvGap e => cases h
  | _ =>
    simp [formatNdjson, writeFields, objectText, fieldsText, List.intercalate, Field.write, quoted,
      tag, tagField, fields, DataFields.fields, HeartbeatFields.fields, InfoTsFields.fields,
      InfoDstFields.fields, DataDupFields.fields, HbDupFields.fields, src, writer, reader,
      bytesField, intField, writeGuidPrefix, writeEntityId]

theorem decode_fields (h : event.numberSet = none) :
    decode (.object ((event.tag :: event.fields).map Field.member)) = some event.printed := by
  have plain := event.plain_tagName
  cases event with
  | sendAckNack e => cases h
  | recvAckNack e => cases h
  | sendGap e => cases h
  | recvGap e => cases h
  | sendData e => exact congrArg (Option.map sendData) (decodeData_fields plain e)
  | recvData e => exact congrArg (Option.map recvData) (decodeData_fields plain e)
  | sendHeartbeat e => exact congrArg (Option.map sendHeartbeat) (decodeHeartbeat_fields plain e)
  | recvHeartbeat e => exact congrArg (Option.map recvHeartbeat) (decodeHeartbeat_fields plain e)
  | recvInfoTs e => exact congrArg (Option.map recvInfoTs) (decodeInfoTs_fields plain e)
  | recvInfoDst e => exact congrArg (Option.map recvInfoDst) (decodeInfoDst_fields plain e)
  | recvDataDup e => exact congrArg (Option.map recvDataDup) (decodeDataDup_fields plain e)
  | recvHeartbeatDup e =>
    exact congrArg (Option.map recvHeartbeatDup) (decodeHbDup_fields plain e)
  | skipped count => exact congrArg (Option.map skipped) (uint64At_of rfl)

theorem distinct_fields (event : TraceEvent) :
    Distinct (.object ((event.tag :: event.fields).map Field.member)) := by
  have hnames : ((event.tag :: event.fields).map Field.name).Nodup := by
    cases event <;> exact of_decide_eq_true rfl
  have hscalar : ∀ f ∈ event.tag :: event.fields,
      (∃ s, f.json = .string s) ∨ ∃ t, f.json = .number t := by
    cases event <;> simp [tag, tagField, fields, DataFields.fields, HeartbeatFields.fields,
      InfoTsFields.fields, InfoDstFields.fields, DataDupFields.fields, HbDupFields.fields, src,
      writer, reader, bytesField, intField]
  refine .object ?_ fun m hm => ?_
  · rwa [List.map_map]
  · obtain ⟨f, hf, rfl⟩ := List.mem_map.mp hm
    change Distinct f.json
    rcases hscalar f hf with ⟨s, hs⟩ | ⟨t, ht⟩
    · rw [hs]
      exact .string s
    · rw [ht]
      exact .number t

/-! ### Lines with a set -/

/-- A string that runs on over the comma after it. -/
def runsOn (name : List Char) (plain : Plain name) (e : EntityId) : Field :=
  have hs : Plain (writeEntityId e ++ [',']) := by
    intro c hc
    rcases List.mem_append.mp hc with hc | hc
    · exact plain_writeBytes _ c hc
    · cases List.mem_singleton.mp hc
      rfl
  ⟨name, .string (writeEntityId e ++ [',']), quoted (writeEntityId e ++ [',']), plain, .string hs⟩

/-- The members up to where the quotes are not closed. -/
def openFields : TraceEvent → List Field
  | sendAckNack e | recvAckNack e =>
      [src e.srcPrefix, reader e.readerEid, runsOn "writer".toList (by decide) e.writerEid]
  | sendGap e | recvGap e =>
      [src e.srcPrefix, writer e.writerEid, runsOn "reader".toList (by decide) e.readerEid]
  | _ => []

/-- After the string that runs on comes the name of the next member. -/
theorem formatNdjson_open {text : List Char} (h : event.numberSet ≠ none)
    (hf : formatNdjson event = some text) : ∃ c rest, (c = 's' ∨ c = 'g') ∧
      text = '\x7b' :: (fieldsText (event.tag :: event.openFields) ++ c :: rest) ++ ['\n'] := by
  obtain ⟨fields, hfields, hf⟩ := Option.bind_eq_some_iff.mp hf
  cases event with
  | sendAckNack e | recvAckNack e =>
    obtain ⟨sns, -, hfields⟩ := Option.bind_eq_some_iff.mp hfields
    cases hfields
    cases hf
    refine ⟨'s', "ns\":".toList ++ sns ++ ",\"count\":".toList ++ decimal e.count.toInt ++
      ",\"final\":".toList ++ (if e.final then "true" else "false").toList ++ ['\x7d'],
      .inl rfl, ?_⟩
    simp [fieldsText, List.intercalate, Field.write, quoted, tag, tagField, openFields, src,
      reader, bytesField, runsOn, writeGuidPrefix, writeEntityId]
  | sendGap e | recvGap e =>
    obtain ⟨sns, -, hfields⟩ := Option.bind_eq_some_iff.mp hfields
    cases hfields
    cases hf
    refine ⟨'g', "ap_start\":".toList ++ decimal e.gapStart ++ ",\"gap_list\":".toList ++ sns ++
      ['\x7d'], .inr rfl, ?_⟩
    simp [fieldsText, List.intercalate, Field.write, quoted, tag, tagField, openFields, src, writer,
      bytesField, runsOn, writeGuidPrefix, writeEntityId]
  | _ => exact absurd rfl h

theorem not_isText_open {line : List Char} {j : Json} (h : event.numberSet ≠ none)
    (hf : formatNdjson event = some (line ++ ['\n'])) : ¬ IsText line j := by
  obtain ⟨c, rest, hc, htext⟩ := formatNdjson_open h hf
  rw [List.append_cancel_right htext]
  rcases hc with rfl | rfl
  · exact not_isText_fields (by intro c hc; cases hc; rfl) rfl (by decide) (by decide)
  · exact not_isText_fields (by intro c hc; cases hc; rfl) rfl (by decide) (by decide)

end TraceEvent

/-! ### Ends of lines -/

theorem newline_notMem_hex {w n : ℕ} : '\n' ∉ hex w n := by
  intro h
  obtain ⟨d, hd, hc⟩ := mem_hex h
  have hdigits : ∀ d < 16, '\n' ≠ d.digitChar := by decide
  exact hdigits d hd hc

theorem newline_notMem_decimal {n : ℤ} : '\n' ∉ decimal n := by
  have hdigits : ∀ m : ℕ, '\n' ∉ Nat.toDigits 10 m := by
    intro m h
    exact absurd (List.all_eq_true.mp (all_isDigit_toDigits m) _ h) (by decide)
  cases n with
  | ofNat n => exact hdigits n
  | negSucc n => simpa [decimal] using hdigits (n + 1)

theorem newline_notMem_writeBytes {bs : List UInt8} : '\n' ∉ writeBytes bs := by
  intro h
  obtain ⟨b, -, hb⟩ := List.mem_flatMap.mp h
  exact newline_notMem_hex hb

theorem newline_notMem_writeSns {s : SequenceNumberSet} {sns : List Char}
    (h : writeSns s = some sns) : '\n' ∉ sns := by
  unfold writeSns at h
  split at h
  · cases h
  · cases h
    simp [newline_notMem_decimal, newline_notMem_hex]

namespace TraceEvent

variable {event : TraceEvent}

theorem newline_notMem_writeFields {fields : List Char} (h : writeFields event = some fields) :
    '\n' ∉ fields := by
  cases event with
  | sendAckNack e | recvAckNack e =>
    obtain ⟨sns, hsns, hfields⟩ := Option.bind_eq_some_iff.mp h
    cases hfields
    cases e.final <;> simp [writeGuidPrefix, writeEntityId, newline_notMem_writeBytes,
      newline_notMem_decimal, newline_notMem_writeSns hsns]
  | sendGap e | recvGap e =>
    obtain ⟨sns, hsns, hfields⟩ := Option.bind_eq_some_iff.mp h
    cases hfields
    simp [writeGuidPrefix, writeEntityId, newline_notMem_writeBytes, newline_notMem_decimal,
      newline_notMem_writeSns hsns]
  | _ =>
    cases h
    simp [writeGuidPrefix, writeEntityId, newline_notMem_writeBytes, newline_notMem_decimal]

/-- What is written of an event is a line. -/
theorem exists_line {text : List Char} (h : formatNdjson event = some text) :
    ∃ line, text = line ++ ['\n'] ∧ '\n' ∉ line := by
  obtain ⟨fields, hfields, htext⟩ := Option.bind_eq_some_iff.mp h
  cases htext
  refine ⟨"\x7b\"t\":\"".toList ++ event.tagName ++ "\"".toList ++ fields ++ ['\x7d'], by simp, ?_⟩
  have htag : '\n' ∉ event.tagName := by
    intro hin
    exact absurd (event.plain_tagName _ hin) (by decide)
  simp [htag, newline_notMem_writeFields hfields]

/-- A line is read as its event if and only if the event carries no set of sequence numbers. -/
theorem line_iff : (∃ line, formatNdjson event = some (line ++ ['\n']) ∧ Line line event.printed) ↔
    event.numberSet = none := by
  constructor
  · rintro ⟨line, hformat, hline⟩
    by_contra hset
    obtain ⟨j, hj, -⟩ := hline.parsed
    exact not_isText_open hset hformat hj
  · intro h
    obtain ⟨line, htext, hline⟩ := exists_line (formatNdjson_eq h)
    have hobject := List.append_cancel_right htext
    refine ⟨line, htext ▸ formatNdjson_eq h, hline, _, ?_, distinct_fields event, decode_fields h⟩
    rw [← hobject]
    exact (Text.object event.tag event.fields).isText

end TraceEvent

/-- A text has one first line. -/
theorem eq_of_line : ∀ {line line' rest rest' : List Char}, '\n' ∉ line → '\n' ∉ line' →
    line ++ '\n' :: rest = line' ++ '\n' :: rest' → line = line' ∧ rest = rest'
  | [], [], _, _, _, _, h => ⟨rfl, (List.cons.inj h).2⟩
  | [], _ :: _, _, _, _, h', h => absurd ((List.cons.inj h).1 ▸ List.mem_cons_self) h'
  | _ :: _, [], _, _, h', _, h => absurd ((List.cons.inj h).1 ▸ List.mem_cons_self) h'
  | c :: line, c' :: line', _, _, hl, hl', h => by
      obtain ⟨hc, htail⟩ := List.cons.inj h
      obtain ⟨hline, hrest⟩ := eq_of_line (fun hin => hl (List.mem_cons_of_mem _ hin))
        (fun hin => hl' (List.mem_cons_of_mem _ hin)) htail
      exact ⟨by rw [hc, hline], hrest⟩

theorem lines_iff {events : List TraceEvent} :
    (∃ text, formatTrace events = some text ∧ Lines text (events.map TraceEvent.printed)) ↔
      ∀ event ∈ events, event.numberSet = none := by
  induction events with
  | nil => exact ⟨fun _ => List.forall_mem_nil _, fun _ => ⟨[], rfl, .nil⟩⟩
  | cons event events ih =>
    rw [List.forall_mem_cons, ← ih, ← TraceEvent.line_iff]
    constructor
    · rintro ⟨text, hformat, hlines⟩
      obtain ⟨out, hout, hformat⟩ := Option.bind_eq_some_iff.mp hformat
      obtain ⟨rest, hrest, htext⟩ := Option.bind_eq_some_iff.mp hformat
      obtain ⟨line, rfl, hnone⟩ := TraceEvent.exists_line hout
      generalize hevents : (event :: events).map TraceEvent.printed = printed at hlines
      cases hlines with
      | nil => cases hevents
      | @cons line' text' _ _ h ht =>
        obtain ⟨rfl, rfl⟩ := List.cons.inj hevents
        have heq : line ++ '\n' :: rest = line' ++ '\n' :: text' := by
          simpa using Option.some.inj htext
        obtain ⟨rfl, rfl⟩ := eq_of_line hnone h.one heq
        exact ⟨⟨line, hout, h⟩, rest, hrest, ht⟩
    · rintro ⟨⟨line, hformat, hline⟩, rest, hrest, hlines⟩
      refine ⟨line ++ '\n' :: rest, ?_, .cons hline hlines⟩
      rw [formatTrace, hformat, hrest]
      simp

/-- A line, or the lines of a trace, are read as what they were written of if and only if no event
carries a set of sequence numbers. -/
theorem formatNdjson_faithful (event : TraceEvent) (events : List TraceEvent) :
    ((∃ line, formatNdjson event = some (line ++ ['\n']) ∧ Line line event.printed) ↔
      event.numberSet = none) ∧
    ((∃ text, formatTrace events = some text ∧ Lines text (events.map TraceEvent.printed)) ↔
      ∀ event ∈ events, event.numberSet = none) :=
  ⟨TraceEvent.line_iff, lines_iff⟩

/-- An ACKNACK that requests nothing. -/
def emptyAckNack : TraceEvent :=
  .sendAckNack
    { srcPrefix := GuidPrefix.unknown, readerEid := EntityId.unknown, writerEid := EntityId.unknown
      baseSn := 1, bitmap := ⟨1, 0, Bitmap.zeroes⟩, count := 1, final := true }

/-- Its line is no JSON. -/
theorem emptyAckNack_not_json : ¬ ∀ event : TraceEvent,
    (∀ set, event.numberSet = some set → set.numBits ≤ 256) →
      ∃ line, formatNdjson event = some (line ++ ['\n']) ∧ Line line event.printed := by
  intro h
  obtain ⟨line, hformat, hline⟩ := h emptyAckNack fun set hset => by
    cases hset
    exact Nat.zero_le _
  obtain ⟨j, hj, -⟩ := hline.parsed
  have hset : emptyAckNack.numberSet ≠ none := Option.some_ne_none _
  exact TraceEvent.not_isText_open hset hformat hj

end Zzdds.Trace
