import Zzdds.Discovery.Announcement
import Zzdds.Rtps.Reader.Ops
import Zzdds.Rtps.Writer.Send

/-! # The receiving side of SEDP

`SedpEndpoints.onReceive` of `sedp.zig` over `BuiltinPair.tryHandle` of `builtin_endpoint.zig`: the
submessages of a datagram go to the built-in writers and readers of publications and
subscriptions.  A built-in reader hands its changes over under its lock; they are processed, in
order, when it has released it (`onFlush`), so here behind each of its operations.  What the
participant is told, and what is passed on to SPDP and WLP, is the list `events`.

`isWriter` says which of the two pairs is meant: that of publications, which announces writers, or
that of subscriptions.  The callbacks are registered; allocation succeeds.  `now` is the time of
receipt. -/

namespace Zzdds.Discovery

open Zzdds.Lib Zzdds.Rtps

/-! ### Built-in entities -/

namespace EntityIds
def spdpBuiltinParticipantWriter : EntityId := ⟨⟨[0x00, 0x01, 0x00], rfl⟩, 0xc2⟩
def sedpBuiltinPublicationsWriter : EntityId := ⟨⟨[0x00, 0x00, 0x03], rfl⟩, 0xc2⟩
def sedpBuiltinPublicationsReader : EntityId := ⟨⟨[0x00, 0x00, 0x03], rfl⟩, 0xc7⟩
def sedpBuiltinSubscriptionsWriter : EntityId := ⟨⟨[0x00, 0x00, 0x04], rfl⟩, 0xc2⟩
def sedpBuiltinSubscriptionsReader : EntityId := ⟨⟨[0x00, 0x00, 0x04], rfl⟩, 0xc7⟩
end EntityIds

/-- The built-in writer of a pair. -/
def writerEntityId (isWriter : Bool) : EntityId :=
  if isWriter then EntityIds.sedpBuiltinPublicationsWriter
  else EntityIds.sedpBuiltinSubscriptionsWriter

def readerEntityId (isWriter : Bool) : EntityId :=
  if isWriter then EntityIds.sedpBuiltinPublicationsReader
  else EntityIds.sedpBuiltinSubscriptionsReader

/-! ### A built-in pair -/

structure BuiltinPair where
  writer : StatefulWriter
  reader : StatefulReader
  writerEntityId : EntityId
  readerEntityId : EntityId

/-- The change that a DATA with a payload becomes, of whatever kind it was. -/
def makeAliveCacheChange (writer : Guid) (sn : ℤ) (data : List UInt8) (now : RtpsTimestamp) :
    CacheChange where
  kind := .alive
  writerGuid := writer
  sequenceNumber := sn
  sourceTimestamp := now
  instanceHandle := INSTANCE_HANDLE_NIL
  keyHash := Bytes.zeroes 16
  data := data

/-- Octets of a fragment. -/
def DEFAULT_FRAG_SIZE : ℕ := 16384

/-- A writer of `start`; it replays what it announced to late participants.  `resumeHeld` says
whether the transport reports that it can send again. -/
def builtinWriter (gp : GuidPrefix) (resumeHeld isWriter : Bool) : StatefulWriter where
  config := {
    guid := ⟨gp, writerEntityId isWriter⟩
    fragSize := DEFAULT_FRAG_SIZE
    replayOnMatch := true
    resumeHeld := resumeHeld
    dropAcked := false
    keyed := false
    fragSize_pos := by decide }
  cache := .init .keepLast 1

/-- A reader of `start`. -/
def builtinReader (gp : GuidPrefix) (isWriter : Bool) : StatefulReader where
  core := {
    guid := ⟨gp, readerEntityId isWriter⟩
    cache := .init .keepLast 1
    callback := some ⟨false, false⟩
    reliable := true }
  writerProxies := []
  nodup := List.nodup_nil

namespace BuiltinPair

def withReader (p : BuiltinPair) (r : Option StatefulReader) : Option (BuiltinPair × Bool) :=
  r.map (fun r => ({ p with reader := r }, true))

/-- Route a submessage to the pair; false when it is not one of its own.  `none` is a stop of the
program, in the reader. -/
def tryHandle (p : BuiltinPair) (sm : SubMessage) (srcPrefix : GuidPrefix) (now : RtpsTimestamp) :
    Option (BuiltinPair × Bool) :=
  let wguid : Guid := ⟨srcPrefix, p.writerEntityId⟩
  match sm with
  | .data d =>
      if d.writerEntityId ≠ p.writerEntityId then some (p, false)
      -- a DATA without payload never reaches the reader
      else if d.serializedPayload.isEmpty then some (p, true)
      else p.withReader (p.reader.step
        (.data wguid (makeAliveCacheChange wguid d.writerSn d.serializedPayload now)))
  | .heartbeat hb =>
      if hb.writerEntityId ≠ p.writerEntityId then some (p, false)
      else p.withReader (p.reader.step
        (.heartbeat wguid hb.readerEntityId hb.firstSn hb.lastSn hb.count hb.isFinal))
  | .gap g =>
      if g.writerEntityId ≠ p.writerEntityId then some (p, false)
      else p.withReader (p.reader.step (.gap wguid g.gapStart g.gapList))
  | .acknack an =>
      if an.readerEntityId ≠ p.readerEntityId then some (p, false)
      else
        let w := p.writer.handleAckNack ⟨srcPrefix, p.readerEntityId⟩ (an.readerSnState.base - 1)
          an.readerSnState an.count an.isFinal
        some ({ p with writer := w }, true)
  | _ => some (p, false)

end BuiltinPair

/-! ### Disposals -/

/-- The status bits of a DATA say that its endpoint is disposed of or unregistered. -/
def isDisposal (d : DataSubmessage) : Bool :=
  match d.inlineQos.bind (·.get .statusInfo) with
  | none => false
  | some si => decide (4 ≤ si.length) && (readInt false (si.take 4)) &&& 3 != 0

theorem length_guidBytes {v : List UInt8} (h : 16 ≤ v.length) : (v.take 16).length = 16 :=
  List.length_take_of_le h

/-- The first 16 bytes, as a GUID. -/
def guidOfSlice (v : List UInt8) : Option Guid :=
  if h : 16 ≤ v.length then some (guidFromBytes ⟨v.take 16, length_guidBytes h⟩) else none

def PID_SENTINEL : ℕ := 0x0001

def PID_ENDPOINT_GUID : ℕ := 0x005a

/-- The loop of `guidFromDisposalPayload`, over at most `n` parameters. -/
def guidParam (le : Bool) : ℕ → List UInt8 → Option Guid
  | 0, _ => none
  | n + 1, v =>
      if v.length < 4 then none
      else
        let pid := readInt le (v.take 2)
        let len := readInt le ((v.drop 2).take 2)
        let v := v.drop 4
        if pid = PID_SENTINEL ∨ v.length < len then none
        else if pid = PID_ENDPOINT_GUID ∧ 16 ≤ len then guidOfSlice (v.take len)
        else guidParam le n (v.drop len)

/-- A parameter takes at least four bytes. -/
def guidFromDisposalPayload (payload : List UInt8) : Option Guid :=
  if payload.length < 4 then none
  else guidParam (isLittleEndian payload) payload.length (payload.drop 4)

/-- The endpoint of a disposal: by its key hash, or else by its payload. -/
def disposedGuid (d : DataSubmessage) : Option Guid :=
  match d.inlineQos.bind (·.get .keyHash) with
  | some kh => guidOfSlice kh
  | none => guidFromDisposalPayload d.serializedPayload

/-! ### SEDP -/

/-- A discovered endpoint. -/
inductive EndpointData where
  | writer (data : WriterData)
  | reader (data : ReaderData)
deriving DecidableEq, Repr

def EndpointData.guid : EndpointData → Guid
  | writer data => data.guid
  | reader data => data.guid

/-- `handleEndpointChange`: what the participant is told, if anything. -/
def SedpConfig.endpointData (cfg : SedpConfig) (isWriter : Bool) (payload : List UInt8) :
    Option EndpointData :=
  if isWriter then (cfg.writerData payload).map .writer else (cfg.readerData payload).map .reader

inductive DiscoveryEvent where
  /-- `on_writer_discovered` or `on_reader_discovered`. -/
  | discovered (data : EndpointData)
  /-- `on_writer_lost` or `on_reader_lost`. -/
  | lost (isWriter : Bool) (guid : Guid)
  | participantBye (srcPrefix : GuidPrefix)
  | spdpRelay (srcPrefix : GuidPrefix) (sn : ℤ) (payload : List UInt8)
  | sedpSeen (srcPrefix : GuidPrefix)
  | wlp (sm : SubMessage) (srcPrefix : GuidPrefix)
deriving DecidableEq, Repr

structure SedpEndpoints where
  config : SedpConfig
  pubWriter : StatefulWriter
  pubReader : StatefulReader
  subWriter : StatefulWriter
  subReader : StatefulReader
  events : List DiscoveryEvent := []

/-- What a built-in reader deferred: the alive changes it handed over. -/
def deferred (log : List ReaderEvent) : List CacheChange :=
  log.filterMap fun ev =>
    match ev with
    | .onData _ ch => if ch.kind = .alive then some ch else none
    | _ => none

/-- What the participant is told when the deferred changes are processed. -/
def SedpConfig.processed (cfg : SedpConfig) (isWriter : Bool) (log : List ReaderEvent) :
    List DiscoveryEvent :=
  (deferred log).filterMap fun ch => (cfg.endpointData isWriter ch.data).map .discovered

namespace SedpEndpoints

def start (config : SedpConfig) (gp : GuidPrefix) (resumeHeld : Bool) : SedpEndpoints where
  config := config
  pubWriter := builtinWriter gp resumeHeld true
  pubReader := builtinReader gp true
  subWriter := builtinWriter gp resumeHeld false
  subReader := builtinReader gp false

def emit (s : SedpEndpoints) (ev : DiscoveryEvent) : SedpEndpoints :=
  { s with events := s.events ++ [ev] }

def reader (s : SedpEndpoints) (isWriter : Bool) : StatefulReader :=
  if isWriter then s.pubReader else s.subReader

/-- `pubPair` and `subPair`. -/
def pair (s : SedpEndpoints) (isWriter : Bool) : BuiltinPair where
  writer := if isWriter then s.pubWriter else s.subWriter
  reader := s.reader isWriter
  writerEntityId := Discovery.writerEntityId isWriter
  readerEntityId := Discovery.readerEntityId isWriter

def setPair (s : SedpEndpoints) (isWriter : Bool) (p : BuiltinPair) : SedpEndpoints :=
  if isWriter then { s with pubWriter := p.writer, pubReader := p.reader }
  else { s with subWriter := p.writer, subReader := p.reader }

/-- Put a pair back and process what its reader deferred. -/
def flush (s : SedpEndpoints) (isWriter : Bool) (p : BuiltinPair) : SedpEndpoints :=
  let log := p.reader.core.log.drop (s.reader isWriter).core.log.length
  let s := s.setPair isWriter p
  { s with events := s.events ++ s.config.processed isWriter log }

/-- The built-in writer of a participant. -/
def peer (srcPrefix : GuidPrefix) (isWriter : Bool) : Guid := ⟨srcPrefix, writerEntityId isWriter⟩

/-- The peer's writer, as `matchRemote` adds it. -/
def peerWriter (s : SedpEndpoints) (isWriter : Bool) (srcPrefix : GuidPrefix)
    (locs : List Locator) : MatchedWriter where
  guid := peer srcPrefix isWriter
  selectedLocators := locs
  reliable := true
  historyEstablished := true
  isLocal := srcPrefix == (s.reader isWriter).core.guid.guidPrefix

/-- The reader's part of `matchRemote`. -/
def matchRemote (s : SedpEndpoints) (isWriter : Bool) (srcPrefix : GuidPrefix)
    (locs : List Locator) : SedpEndpoints :=
  s.setPair isWriter { s.pair isWriter with
    reader := (s.reader isWriter).addOrRefreshMatchedWriterWith
      (s.peerWriter isWriter srcPrefix locs) none true }

def tryPair (s : SedpEndpoints) (isWriter : Bool) (sm : SubMessage) (srcPrefix : GuidPrefix)
    (now : RtpsTimestamp) : Option (SedpEndpoints × Bool) :=
  ((s.pair isWriter).tryHandle sm srcPrefix now).map (fun out => (s.flush isWriter out.1, out.2))

/-- A disposal: its pair takes the DATA, then the endpoint is lost. -/
def onDisposal (s : SedpEndpoints) (d : DataSubmessage) (srcPrefix : GuidPrefix)
    (now : RtpsTimestamp) : Option SedpEndpoints :=
  if d.writerEntityId = EntityIds.spdpBuiltinParticipantWriter then
    some (s.emit (.participantBye srcPrefix))
  else if d.writerEntityId = writerEntityId true then
    (s.tryPair true (.data d) srcPrefix now).map fun out =>
      (disposedGuid d).elim out.1 (fun g => out.1.emit (.lost true g))
  else if d.writerEntityId = writerEntityId false then
    (s.tryPair false (.data d) srcPrefix now).map fun out =>
      (disposedGuid d).elim out.1 (fun g => out.1.emit (.lost false g))
  else some s

/-- The pairs in their order, then WLP; `seen` reports the sender when a pair took it. -/
def route (s : SedpEndpoints) (sm : SubMessage) (srcPrefix : GuidPrefix) (now : RtpsTimestamp)
    (seen : Bool) : Option SedpEndpoints :=
  (s.tryPair true sm srcPrefix now).bind fun out =>
    if out.2 then some (if seen then out.1.emit (.sedpSeen srcPrefix) else out.1)
    else
      (out.1.tryPair false sm srcPrefix now).map fun out =>
        if out.2 then (if seen then out.1.emit (.sedpSeen srcPrefix) else out.1)
        else out.1.emit (.wlp sm srcPrefix)

/-- `onReceive`, of one submessage. -/
def onSubMessage (s : SedpEndpoints) (srcPrefix : GuidPrefix) (now : RtpsTimestamp)
    (sm : SubMessage) : Option SedpEndpoints :=
  match sm with
  | .data d =>
      if isDisposal d then s.onDisposal d srcPrefix now
      else if d.serializedPayload.isEmpty then some s
      else if d.writerEntityId = EntityIds.spdpBuiltinParticipantWriter then
        some (s.emit (.spdpRelay srcPrefix d.writerSn d.serializedPayload))
      else s.route sm srcPrefix now true
  | .heartbeat _ => s.route sm srcPrefix now false
  | .gap _ => s.route sm srcPrefix now false
  | .acknack _ => s.route sm srcPrefix now false
  -- fragments among them
  | _ => some s

/-- `onReceive`, of the submessages of one datagram. -/
def onReceive (s : SedpEndpoints) (srcPrefix : GuidPrefix) (now : RtpsTimestamp)
    (sms : List SubMessage) : Option SedpEndpoints :=
  sms.foldlM (fun s sm => s.onSubMessage srcPrefix now sm) s

/-! ### What one submessage does to its pair -/

variable {s s' : SedpEndpoints} {isWriter : Bool} {srcPrefix : GuidPrefix} {now : RtpsTimestamp}

/-- The reader of a pair is `r'` now; what it deferred was processed, and `after` told behind it. -/
structure Told (isWriter : Bool) (s s' : SedpEndpoints) (r' : StatefulReader)
    (after : List DiscoveryEvent) : Prop where
  reader : s'.reader isWriter = r'
  config : s'.config = s.config
  events : s'.events = s.events ++
    s.config.processed isWriter (r'.core.log.drop (s.reader isWriter).core.log.length) ++ after

theorem writerEntityId_ne_spdp :
    ∀ b : Bool, writerEntityId b ≠ EntityIds.spdpBuiltinParticipantWriter := by decide

theorem told_flush (s : SedpEndpoints) (isWriter : Bool) (r' : StatefulReader) :
    Told isWriter s (s.flush isWriter { s.pair isWriter with reader := r' }) r' [] := by
  cases isWriter <;> exact ⟨rfl, rfl, by simp [flush, setPair]⟩

theorem Told.emit {r' : StatefulReader} (h : Told isWriter s s' r' []) (ev : DiscoveryEvent) :
    Told isWriter s (s'.emit ev) r' [ev] := by
  constructor
  · rw [← h.reader]
    cases isWriter <;> rfl
  · exact h.config
  · rw [SedpEndpoints.emit, h.events, List.append_nil]

theorem flush_pair (s : SedpEndpoints) (isWriter : Bool) :
    s.flush isWriter (s.pair isWriter) = s := by
  cases isWriter <;> simp [flush, setPair, pair, reader, SedpConfig.processed, deferred]

/-- What a built-in reader is given of its writer. -/
def readerOp (srcPrefix : GuidPrefix) (isWriter : Bool) (now : RtpsTimestamp) :
    SubMessage → Option ReaderOp
  | .data d => some (.data (peer srcPrefix isWriter)
      (makeAliveCacheChange (peer srcPrefix isWriter) d.writerSn d.serializedPayload now))
  | .heartbeat hb => some (.heartbeat (peer srcPrefix isWriter) hb.readerEntityId hb.firstSn
      hb.lastSn hb.count hb.isFinal)
  | .gap g => some (.gap (peer srcPrefix isWriter) g.gapStart g.gapList)
  | _ => none

/-- The writer of a submessage that goes to a reader. -/
def senderId : SubMessage → Option EntityId
  | .data d => some d.writerEntityId
  | .heartbeat hb => some hb.writerEntityId
  | .gap g => some g.writerEntityId
  | _ => none

/-- A DATA with a payload, or no DATA. -/
def hasPayload : SubMessage → Bool
  | .data d => !d.serializedPayload.isEmpty
  | _ => true

theorem tryPair_own {sm : SubMessage} {op : ReaderOp}
    (hid : senderId sm = some (writerEntityId isWriter))
    (hop : readerOp srcPrefix isWriter now sm = some op) (hp : hasPayload sm = true) :
    s.tryPair isWriter sm srcPrefix now = ((s.reader isWriter).step op).map fun r =>
      (s.flush isWriter { s.pair isWriter with reader := r }, true) := by
  have hw : (s.pair isWriter).writerEntityId = writerEntityId isWriter := rfl
  have hr : (s.pair isWriter).reader = s.reader isWriter := rfl
  cases sm <;> try cases hop
  case data d =>
    have hid : d.writerEntityId = writerEntityId isWriter := Option.some_inj.mp hid
    have hp : d.serializedPayload.isEmpty = false := by simpa [hasPayload] using hp
    simp only [tryPair, BuiltinPair.tryHandle, hw, hid, ne_eq, not_true_eq_false, if_false, hp,
      Bool.false_eq_true, BuiltinPair.withReader, hr, Option.map_map]
    rfl
  case heartbeat hb =>
    have hid : hb.writerEntityId = writerEntityId isWriter := Option.some_inj.mp hid
    simp only [tryPair, BuiltinPair.tryHandle, hw, hid, ne_eq, not_true_eq_false, if_false,
      BuiltinPair.withReader, hr, Option.map_map]
    rfl
  case gap g =>
    have hid : g.writerEntityId = writerEntityId isWriter := Option.some_inj.mp hid
    simp only [tryPair, BuiltinPair.tryHandle, hw, hid, ne_eq, not_true_eq_false, if_false,
      BuiltinPair.withReader, hr, Option.map_map]
    rfl

theorem tryPair_other {sm : SubMessage} {id : EntityId} (hid : senderId sm = some id)
    (hne : id ≠ writerEntityId isWriter) :
    s.tryPair isWriter sm srcPrefix now = some (s, false) := by
  have hw : (s.pair isWriter).writerEntityId = writerEntityId isWriter := rfl
  have hstay : ((some (s.pair isWriter, false) : Option (BuiltinPair × Bool)).map fun out =>
      (s.flush isWriter out.1, out.2)) = some (s, false) := by
    rw [Option.map_some, flush_pair]
  rw [← hstay, tryPair]
  congr 1
  cases sm <;> cases hid <;> exact if_pos hne

/-- A submessage of a built-in writer reaches the reader of its pair. -/
theorem route_own {sm : SubMessage} {op : ReaderOp} {seen : Bool}
    (hid : senderId sm = some (writerEntityId isWriter))
    (hop : readerOp srcPrefix isWriter now sm = some op) (hp : hasPayload sm = true) :
    s.route sm srcPrefix now seen = ((s.reader isWriter).step op).map (fun r =>
      if seen then (s.flush isWriter { s.pair isWriter with reader := r }).emit (.sedpSeen srcPrefix)
      else s.flush isWriter { s.pair isWriter with reader := r }) := by
  have hown := tryPair_own (s := s) hid hop hp
  rw [route]
  cases isWriter with
  | true =>
    rw [hown]
    cases (s.reader true).step op <;> rfl
  | false =>
    rw [tryPair_other hid (by decide)]
    simp only [Option.bind_some, Bool.false_eq_true, if_false]
    rw [hown]
    cases (s.reader false).step op <;> rfl

/-- What the reader of the pair makes of it is told. -/
theorem route_told {sm : SubMessage} {op : ReaderOp} {seen : Bool} {r' : StatefulReader}
    (hid : senderId sm = some (writerEntityId isWriter))
    (hop : readerOp srcPrefix isWriter now sm = some op) (hp : hasPayload sm = true)
    (hr : (s.reader isWriter).step op = some r') :
    ∃ s', s.route sm srcPrefix now seen = some s' ∧
      Told isWriter s s' r' (if seen then [.sedpSeen srcPrefix] else []) := by
  rw [route_own hid hop hp, hr, Option.map_some]
  refine ⟨_, rfl, ?_⟩
  cases seen with
  | true => exact (told_flush s isWriter r').emit _
  | false => exact told_flush s isWriter r'

theorem told_route {sm : SubMessage} {op : ReaderOp} {seen : Bool}
    (h : s.route sm srcPrefix now seen = some s')
    (hid : senderId sm = some (writerEntityId isWriter))
    (hop : readerOp srcPrefix isWriter now sm = some op) (hp : hasPayload sm = true) :
    ∃ r', (s.reader isWriter).step op = some r' ∧
      Told isWriter s s' r' (if seen then [.sedpSeen srcPrefix] else []) := by
  have hroute := h
  rw [route_own hid hop hp] at hroute
  obtain ⟨r', hr, -⟩ := Option.map_eq_some_iff.mp hroute
  obtain ⟨s'', hs'', htold⟩ : ∃ s'', s.route sm srcPrefix now seen = some s'' ∧
      Told isWriter s s'' r' (if seen then [.sedpSeen srcPrefix] else []) :=
    route_told hid hop hp hr
  cases h.symm.trans hs''
  exact ⟨r', hr, htold⟩

theorem Told.same (s : SedpEndpoints) (isWriter : Bool) :
    Told isWriter s s (s.reader isWriter) [] := by
  constructor
  · rfl
  · rfl
  · simp [SedpConfig.processed, deferred]

/-- A disposal of a built-in writer, whose endpoint can be told. -/
theorem onDisposal_eq {d : DataSubmessage} {g : Guid}
    (hid : d.writerEntityId = writerEntityId isWriter) (hg : disposedGuid d = some g) :
    s.onDisposal d srcPrefix now = (s.tryPair isWriter (.data d) srcPrefix now).map
      (fun out => out.1.emit (.lost isWriter g)) := by
  have hspdp : ¬ d.writerEntityId = EntityIds.spdpBuiltinParticipantWriter := by
    rw [hid]
    exact writerEntityId_ne_spdp isWriter
  rw [onDisposal, if_neg hspdp, hg]
  cases isWriter with
  | true => rw [if_pos hid]; rfl
  | false =>
    have hpub : ¬ d.writerEntityId = writerEntityId true := by
      rw [hid]
      decide
    rw [if_neg hpub, if_pos hid]
    rfl

/-- The reader never sees a disposal without payload. -/
theorem told_onDisposal_empty {d : DataSubmessage} {g : Guid}
    (h : s.onDisposal d srcPrefix now = some s')
    (hid : d.writerEntityId = writerEntityId isWriter) (hg : disposedGuid d = some g)
    (hp : d.serializedPayload = []) :
    Told isWriter s s' (s.reader isWriter) [.lost isWriter g] := by
  have hw : (s.pair isWriter).writerEntityId = writerEntityId isWriter := rfl
  have hskip : s.tryPair isWriter (.data d) srcPrefix now = some (s, true) := by
    simp only [tryPair, BuiltinPair.tryHandle, hw, hid, hp, ne_eq, not_true_eq_false, if_false,
      List.isEmpty_nil, if_true, Option.map_some, flush_pair]
  rw [onDisposal_eq hid hg, hskip] at h
  cases h
  exact (Told.same s isWriter).emit _

theorem told_onDisposal {d : DataSubmessage} {g : Guid}
    (h : s.onDisposal d srcPrefix now = some s')
    (hid : d.writerEntityId = writerEntityId isWriter) (hg : disposedGuid d = some g)
    (hp : d.serializedPayload ≠ []) :
    ∃ r', (s.reader isWriter).step (.data (peer srcPrefix isWriter) (makeAliveCacheChange
        (peer srcPrefix isWriter) d.writerSn d.serializedPayload now)) = some r' ∧
      Told isWriter s s' r' [.lost isWriter g] := by
  have hpay : hasPayload (.data d) = true := by simpa [hasPayload] using hp
  have hsender : senderId (.data d) = some (writerEntityId isWriter) := congrArg some hid
  rw [onDisposal_eq hid hg, tryPair_own hsender rfl hpay, Option.map_map] at h
  obtain ⟨r', hr, rfl⟩ := Option.map_eq_some_iff.mp h
  exact ⟨r', hr, (told_flush s isWriter r').emit _⟩

/-- What is no disposal goes the way of its pair. -/
theorem onSubMessage_eq_route {sm : SubMessage} (hid : senderId sm = some (writerEntityId isWriter))
    (hp : hasPayload sm = true) (hd : ∀ d, sm = .data d → isDisposal d = false) :
    ∃ seen, s.onSubMessage srcPrefix now sm = s.route sm srcPrefix now seen := by
  cases sm with
  | data d =>
    have hid : d.writerEntityId = writerEntityId isWriter := Option.some_inj.mp hid
    have hspdp : ¬ d.writerEntityId = EntityIds.spdpBuiltinParticipantWriter := by
      rw [hid]
      exact writerEntityId_ne_spdp isWriter
    have hpay : d.serializedPayload.isEmpty = false := by simpa [hasPayload] using hp
    refine ⟨true, ?_⟩
    simp only [onSubMessage, hd d rfl, hpay, hspdp, Bool.false_eq_true, if_false]
  | heartbeat hb => exact ⟨false, rfl⟩
  | gap g => exact ⟨false, rfl⟩
  | _ => cases hid

end SedpEndpoints

end Zzdds.Discovery
