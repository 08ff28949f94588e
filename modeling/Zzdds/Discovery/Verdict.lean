import Zzdds.Discovery.Announcement

/-! # The verdict of both participants

Of a writer and a reader of two participants, each participant decides on its own endpoint and on
the other as it was announced (`onReaderDiscovered` and `onWriterDiscovered` of
`participant.zig`).  A reader never announces its destination order, so only its own participant
checks that policy; the two agree on everything else. -/

namespace Zzdds.Discovery

open Zzdds.Lib Zzdds.Rtps

/-! ### Checks that cannot fail on the destination order -/

theorem requirePolicy_ne {p q : IncompatiblePolicy} {ok : Bool} (h : p ≠ q) :
    requirePolicy p ok ≠ .incompatible q := by
  unfold requirePolicy
  split
  · exact fun e => nomatch e
  · intro e
    cases e
    exact h rfl

theorem MatchResult.andThen_ne {a b : MatchResult} {q : IncompatiblePolicy}
    (ha : a ≠ .incompatible q) (hb : b ≠ .incompatible q) : a.andThen b ≠ .incompatible q := by
  cases a with
  | compatible => exact hb
  | incompatible p => exact ha

theorem checkFirst_ne (w : DiscoveredWriterData) (r : DiscoveredReaderData) :
    checkFirst w r ≠ .incompatible .destinationOrder := by
  unfold checkFirst
  repeat' apply MatchResult.andThen_ne
  all_goals exact requirePolicy_ne (by decide)

theorem checkLast_ne (w : DiscoveredWriterData) (r : DiscoveredReaderData) :
    checkLast w r ≠ .incompatible .destinationOrder := by
  unfold checkLast
  repeat' apply MatchResult.andThen_ne
  all_goals exact requirePolicy_ne (by decide)

theorem checkDestinationOrder_cases (w : DiscoveredWriterData) (r : DiscoveredReaderData) :
    checkDestinationOrder w r = .compatible ∨
      checkDestinationOrder w r = .incompatible .destinationOrder := by
  unfold checkDestinationOrder requirePolicy
  split
  · exact .inl rfl
  · exact .inr rfl

/-- Leaving one check out makes a difference exactly when it is the first to fail. -/
theorem MatchResult.skip_eq_iff {a b c : MatchResult} {q : IncompatiblePolicy}
    (ha : a ≠ .incompatible q) (hb : b = .compatible ∨ b = .incompatible q)
    (hc : c ≠ .incompatible q) :
    a.andThen c = (a.andThen b).andThen c ↔ (a.andThen b).andThen c ≠ .incompatible q := by
  cases a with
  | incompatible p =>
    constructor
    · intro _ e
      exact ha e
    · exact fun _ => rfl
  | compatible =>
    rcases hb with rfl | rfl
    · constructor
      · exact fun _ => hc
      · exact fun _ => rfl
    · constructor
      · intro e
        exact absurd e hc
      · exact fun h => absurd rfl h

/-! ### A participant's own endpoints -/

/-- What publishers and subscribers share. -/
structure GroupQos where
  presentation : PresentationQos := {}
  partitions : List CString := []
deriving DecidableEq, Repr

/-- The partition names handed on: at most 64 of them. -/
def GroupQos.pnameSlice (g : GroupQos) : List (List UInt8) := (g.partitions.take 64).map (·.bytes)

/-- A local writer, with the names and policies its announcement was prepared with. -/
structure ActiveWriter where
  guid : Guid
  topicName : List UInt8
  typeName : List UInt8
  qos : DataWriterQos
  presentation : PresentationQos
  partitionNames : List (List UInt8)
deriving DecidableEq, Repr

structure ActiveReader where
  guid : Guid
  topicName : List UInt8
  typeName : List UInt8
  qos : DataReaderQos
  presentation : PresentationQos
  partitionNames : List (List UInt8)
deriving DecidableEq, Repr

/-- PID_GROUP_GUID of the writers of a coherent publisher of GROUP scope. -/
def groupGuid (participant : GuidPrefix) (p : PresentationQos) (publisherHandle : UInt32) :
    Option Guid :=
  if p.coherentAccess ∧ p.accessScope = .group then
    some ⟨participant, ⟨⟨[(publisherHandle >>> 16).toUInt8, (publisherHandle >>> 8).toUInt8,
      publisherHandle.toUInt8], rfl⟩, 0x08⟩⟩
  else none

/-- `prepareEndpoints` of a writer: what it holds from then on, and what it announces. -/
def prepareWriter (guid : Guid) (topicName typeName : List UInt8) (qos : DataWriterQos)
    (publisher : GroupQos) (publisherHandle : UInt32) (typeInfoCdr : List UInt8) :
    ActiveWriter × WriterAnnouncement :=
  (⟨guid, topicName, typeName, qos, publisher.presentation, publisher.pnameSlice⟩, {
    guid := guid
    groupGuid := groupGuid guid.guidPrefix publisher.presentation publisherHandle
    topicName := topicName
    typeName := typeName
    qos := qos
    presentation := publisher.presentation
    partitionNames := publisher.pnameSlice
    typeInfoCdr := typeInfoCdr })

/-- `prepareEndpoints` of a reader. -/
def prepareReader (guid : Guid) (topicName typeName : List UInt8) (qos : DataReaderQos)
    (subscriber : GroupQos) (typeInfoCdr : List UInt8) : ActiveReader × ReaderAnnouncement :=
  (⟨guid, topicName, typeName, qos, subscriber.presentation, subscriber.pnameSlice⟩, {
    guid := guid
    topicName := topicName
    typeName := typeName
    qos := qos
    presentation := subscriber.presentation
    partitionNames := subscriber.pnameSlice
    typeInfoCdr := typeInfoCdr })

/-- What `onReaderDiscovered` decides on a local writer; `none` when the reader is not of its topic
and type. -/
def ActiveWriter.verdict (xtypes : Bool) (aw : ActiveWriter) (data : ReaderData) :
    Outcome CodecError (Option MatchResult) :=
  if aw.topicName ≠ data.topicName ∨ aw.typeName ≠ data.typeName then .ok none
  else (writerDiscoveredData xtypes aw.qos aw.presentation).map fun localWd =>
    some ((checkDiscovered localWd data.qos).andThen
      (checkPartition aw.partitionNames data.partitionNames))

/-- What `onWriterDiscovered` decides on a local reader. -/
def ActiveReader.verdict (xtypes : Bool) (ar : ActiveReader) (data : WriterData) :
    Outcome CodecError (Option MatchResult) :=
  if ar.topicName ≠ data.topicName ∨ ar.typeName ≠ data.typeName then .ok none
  else (readerDiscoveredData xtypes ar.qos ar.presentation).map fun localRd =>
    some ((checkDiscovered data.qos localRd).andThen
      (checkPartition data.partitionNames ar.partitionNames))

/-- The reader as its announcement has it: it requests the weakest destination order. -/
def ActiveReader.asAnnounced (ar : ActiveReader) : ActiveReader :=
  { ar with qos := { ar.qos with destinationOrder := .byReceptionTimestamp } }

/-! ### Agreement -/

theorem pnameSlice_span (g : GroupQos) :
    g.pnameSlice.map (fun n => (span n).bytes) = g.pnameSlice := by
  rw [GroupQos.pnameSlice, List.map_map]
  apply List.map_congr_left
  intro s _
  simp

theorem MatchResult.andThen_assoc (a b c : MatchResult) :
    (a.andThen b).andThen c = a.andThen (b.andThen c) := by
  cases a <;> rfl

theorem checkDestinationOrder_weakest (w : DiscoveredWriterData) {r : DiscoveredReaderData}
    (h : r.destinationOrder.getD 0 = 0) : checkDestinationOrder w r = .compatible := by
  have hle : (0 : UInt32) ≤ w.destinationOrder := UInt32.le_iff_toNat_le.mpr (Nat.zero_le _)
  rw [checkDestinationOrder, h, requirePolicy, if_pos (decide_eq_true hle)]

/-- Without a destination order the check is that of the other policies. -/
theorem checkDiscovered_weakest (w : DiscoveredWriterData) {r : DiscoveredReaderData}
    (h : r.destinationOrder.getD 0 = 0) (part : MatchResult) :
    (checkDiscovered w r).andThen part = (checkFirst w r).andThen ((checkLast w r).andThen part) := by
  have hcompat (a : MatchResult) : a.andThen .compatible = a := by cases a <;> rfl
  rw [checkDiscovered, checkDestinationOrder_weakest w h, hcompat, MatchResult.andThen_assoc]

/-- With one, the two verdicts differ exactly when it is the first policy to fail. -/
theorem checkDiscovered_skip_iff (w : DiscoveredWriterData) (r : DiscoveredReaderData)
    {part : MatchResult} (hpart : part ≠ .incompatible .destinationOrder) :
    (checkFirst w r).andThen ((checkLast w r).andThen part) = (checkDiscovered w r).andThen part ↔
      (checkDiscovered w r).andThen part ≠ .incompatible .destinationOrder := by
  rw [checkDiscovered, MatchResult.andThen_assoc]
  exact MatchResult.skip_eq_iff (checkFirst_ne w r) (checkDestinationOrder_cases w r)
    (MatchResult.andThen_ne (checkLast_ne w r) hpart)

theorem ActiveWriter.verdict_eq {xtypes : Bool} {aw : ActiveWriter} {data : ReaderData}
    {wd : DiscoveredWriterData} (ht : aw.topicName = data.topicName)
    (hn : aw.typeName = data.typeName)
    (h : writerDiscoveredData (ε := CodecError) xtypes aw.qos aw.presentation = .ok wd) :
    aw.verdict xtypes data = .ok (some ((checkDiscovered wd data.qos).andThen
      (checkPartition aw.partitionNames data.partitionNames))) := by
  have hsame : ¬ (aw.topicName ≠ data.topicName ∨ aw.typeName ≠ data.typeName) := by
    simp [ht, hn]
  rw [verdict, if_neg hsame, h]
  rfl

theorem ActiveReader.verdict_eq {xtypes : Bool} {ar : ActiveReader} {data : WriterData}
    {rd : DiscoveredReaderData} (ht : ar.topicName = data.topicName)
    (hn : ar.typeName = data.typeName)
    (h : readerDiscoveredData (ε := CodecError) xtypes ar.qos ar.presentation = .ok rd) :
    ar.verdict xtypes data = .ok (some ((checkDiscovered data.qos rd).andThen
      (checkPartition data.partitionNames ar.partitionNames))) := by
  have hsame : ¬ (ar.topicName ≠ data.topicName ∨ ar.typeName ≠ data.typeName) := by
    simp [ht, hn]
  rw [verdict, if_neg hsame, h]
  rfl

/-- Of a reader's policies the destination order is the only one its announcement changes. -/
theorem readerDiscoveredData_asAnnounced {xtypes : Bool} {ar : ActiveReader}
    {rd : DiscoveredReaderData}
    (h : readerDiscoveredData (ε := CodecError) xtypes ar.qos ar.presentation = .ok rd) :
    readerDiscoveredData (ε := CodecError) xtypes ar.asAnnounced.qos ar.asAnnounced.presentation =
      .ok { rd with destinationOrder := some 0 } := by
  obtain ⟨deadline, hd, h⟩ := Outcome.bind_eq_ok.mp h
  obtain ⟨liveliness, hl, h⟩ := Outcome.bind_eq_ok.mp h
  cases h
  refine Outcome.bind_eq_ok.mpr ⟨deadline, hd, ?_⟩
  exact Outcome.bind_eq_ok.mpr ⟨liveliness, hl, rfl⟩

theorem checkPartition_ne (offered requested : List (List UInt8)) :
    checkPartition offered requested ≠ .incompatible .destinationOrder :=
  requirePolicy_ne (by decide)

variable {xw xr : Bool} {writerSide readerSide : SedpConfig}

/-- The writer's participant decides as the reader's does on a reader that requests the weakest
destination order.  So the two verdicts differ exactly when the reader's participant finds the
destination order the first policy to fail. -/
theorem verdicts_agree (guidW guidR : Guid) (topicName typeName : List UInt8)
    (qosW : DataWriterQos) (qosR : DataReaderQos) (publisher subscriber : GroupQos)
    (publisherHandle : UInt32) (typeInfoW typeInfoR : List UInt8) {bytesW bytesR : List UInt8}
    {wd : WriterData} {rd : ReaderData}
    (hcw : readerSide.writerCodec.RoundTrips) (hcr : writerSide.readerCodec.RoundTrips)
    (hbw : encodeWriterData xw readerSide.writerCodec (prepareWriter guidW topicName typeName qosW
      publisher publisherHandle typeInfoW).2 = .ok bytesW)
    (hbr : encodeReaderData xr writerSide.readerCodec (prepareReader guidR topicName typeName qosR
      subscriber typeInfoR).2 = .ok bytesR)
    (hwd : readerSide.writerData bytesW = some wd) (hrd : writerSide.readerData bytesR = some rd) :
    ∃ vW vR,
      (prepareWriter guidW topicName typeName qosW publisher publisherHandle typeInfoW).1.verdict xw
        rd = .ok (some vW) ∧
      (prepareReader guidR topicName typeName qosR subscriber typeInfoR).1.verdict xr wd =
        .ok (some vR) ∧
      (prepareReader guidR topicName typeName qosR subscriber typeInfoR).1.asAnnounced.verdict xr
        wd = .ok (some vW) ∧
      (vW = vR ↔ vR ≠ .incompatible .destinationOrder) := by
  obtain ⟨outW, hoW, hdW⟩ := writerData_of_encode hcw hbw
  obtain ⟨outR, hoR, hdR⟩ := readerData_of_encode hcr hbr
  rw [hdW] at hwd
  rw [hdR] at hrd
  split at hwd
  next =>
    split at hrd
    next =>
      cases hwd
      cases hrd
      obtain ⟨wd, hwd, ho⟩ := Outcome.bind_eq_ok.mp hoW
      cases ho
      obtain ⟨rd, hrd, ho⟩ := Outcome.bind_eq_ok.mp hoR
      cases ho
      have hpW : publisher.pnameSlice.map (fun n => (span n).bytes) = publisher.pnameSlice :=
        pnameSlice_span publisher
      have hpR : subscriber.pnameSlice.map (fun n => (span n).bytes) = subscriber.pnameSlice :=
        pnameSlice_span subscriber
      refine ⟨_, _, ActiveWriter.verdict_eq rfl rfl hwd, ActiveReader.verdict_eq rfl rfl hrd, ?_, ?_⟩
      · refine (ActiveReader.verdict_eq rfl rfl (readerDiscoveredData_asAnnounced hrd)).trans ?_
        rw [checkDiscovered_weakest _ rfl, checkDiscovered_weakest _ rfl]
        simp only [prepareWriter, prepareReader, ActiveReader.asAnnounced, hpW, hpR]
        rfl
      · simp only [prepareWriter, prepareReader, hpW, hpR]
        rw [checkDiscovered_weakest _ rfl]
        exact checkDiscovered_skip_iff _ rd (checkPartition_ne _ _)
    next => cases hrd
  next => cases hwd

def helloWriter : ActiveWriter × WriterAnnouncement :=
  prepareWriter (testGuid 0xa1 0x02) helloTopic helloType helloWriterQos {} 0 []

def helloReader (order : DestinationOrderKind) : ActiveReader × ReaderAnnouncement :=
  prepareReader (testGuid 0xc3 0x07) helloTopic helloType (helloReaderQos order) {} []

theorem checkPartition_default : checkPartition [] [] = .compatible := by
  simp [checkPartition, partitionsOrDefault, partitionNamesMatch, fnmatch, fnmatchLoop,
    requirePolicy]

theorem helloWriter_encode :
    encodeWriterData true helloConfig.writerCodec helloWriter.2 = .ok helloWriterBytes := rfl

theorem helloReader_encode (order : DestinationOrderKind) :
    encodeReaderData true helloConfig.readerCodec (helloReader order).2 = .ok helloReaderBytes := by
  cases order <;> rfl

theorem verdicts_agree_hello : ∃ vW vR,
    helloWriter.1.verdict true helloReaderData = .ok (some vW) ∧
    (helloReader .byReceptionTimestamp).1.verdict true helloWriterData = .ok (some vR) ∧
    (helloReader .byReceptionTimestamp).1.asAnnounced.verdict true helloWriterData =
      .ok (some vW) ∧
    (vW = vR ↔ vR ≠ .incompatible .destinationOrder) :=
  verdicts_agree _ _ _ _ _ _ _ _ _ _ _ helloConfig_roundTrips.1 helloConfig_roundTrips.2
    helloWriter_encode (helloReader_encode .byReceptionTimestamp) helloConfig_writerData
    helloConfig_readerData

/-- A writer of the weaker destination order, and a reader that requests the stronger one: only the
reader's participant sees it. -/
theorem destinationOrder_one_sided :
    helloConfig.writerCodec.RoundTrips ∧ helloConfig.readerCodec.RoundTrips ∧
    encodeWriterData true helloConfig.writerCodec helloWriter.2 = .ok helloWriterBytes ∧
    encodeReaderData true helloConfig.readerCodec (helloReader .bySourceTimestamp).2 =
      .ok helloReaderBytes ∧
    helloConfig.writerData helloWriterBytes = some helloWriterData ∧
    helloConfig.readerData helloReaderBytes = some helloReaderData ∧
    helloWriter.1.verdict true helloReaderData = .ok (some .compatible) ∧
    (helloReader .bySourceTimestamp).1.verdict true helloWriterData =
      .ok (some (.incompatible .destinationOrder)) := by
  refine ⟨helloConfig_roundTrips.1, helloConfig_roundTrips.2, helloWriter_encode,
    helloReader_encode _, helloConfig_writerData, helloConfig_readerData, ?_, rfl⟩
  refine (ActiveWriter.verdict_eq rfl rfl rfl).trans ?_
  rw [show checkPartition helloWriter.1.partitionNames helloReaderData.partitionNames = _ from
    checkPartition_default]
  rfl

end Zzdds.Discovery
