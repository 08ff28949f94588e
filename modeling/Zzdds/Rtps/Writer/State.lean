import Zzdds.Rtps.Message.Builder
import Zzdds.Rtps.History

/-! # The writer's state

`StatefulWriter`, `ReaderProxy` and `EndMarker` of `writer_sm.zig`.  A proxy is found by its
GUID, and the writer carries that no two proxies share one.

What the writer sends is its `log`: a `WriterMessage` to one reader, of which
`WriterMessage.calls` gives the builder calls.  With each message stands the part of the
writer's state at that moment that says which samples are still hidden (`hidden`) and which
samples and markers it still has (`kept`).  The log also records what each trim of the history removed, with the state it was decided on, and the
life of each sample: its write, its going out to all readers, the coherent set it is tagged
with.

Whether the transport would block is an oracle: `blocks n` says that no locator took the `n`-th
DATA or DATA_FRAG send.  `hbCount` counts the increments without bound; `Int32.ofNat` is what
goes on the wire, and the source's `i32` holds the count up to `2 ^ 31 - 1`.  Allocation
succeeds, and liveness probes, timers and wake-ups of waiting threads are left out. -/

namespace Zzdds.Rtps

open Zzdds.Lib

/-! ### Coherent sets -/

inductive CoherentFlushMode where
  | none | groupSeqOnly | coherentOnly | full
deriving DecidableEq, Repr

/-- One group coherent set across the writers of a publisher. -/
structure GroupCoherentSet where
  firstGsn : ℤ
  endGsn : ℤ
  writerGroupInfo : Bytes 4
deriving DecidableEq, Repr

/-- An end-of-coherent-set marker, for the samples from `firstSn` to `lastSn`. -/
structure EndMarker where
  sn : ℤ
  firstSn : ℤ
  lastSn : ℤ
  group : Option GroupCoherentSet := none
deriving DecidableEq, Repr

/-- The marker's DATA for one reader. -/
def EndMarker.dataParams (m : EndMarker) (readerEntityId writerEntityId : EntityId)
    (needsPidCoherentSetMarker : Bool) : DataParams where
  readerEntityId := readerEntityId
  writerEntityId := writerEntityId
  writerSn := m.sn
  noPayload := true
  coherentSetSn :=
    if needsPidCoherentSetMarker && m.group.isNone then some SEQUENCENUMBER_UNKNOWN else none
  groupSeqNum := m.group.map (·.endGsn)
  groupCoherentSn := m.group.map (·.firstGsn)
  writerGroupInfo := m.group.map (·.writerGroupInfo)

/-! ### Messages -/

def statusInfoFromKind : ChangeKind → Option UInt32
  | .alive => none
  | .notAliveDisposed => some 1
  | .notAliveUnregistered => some 2

/-- The key hash to place inline: always for a keyed writer, else only a non-zero one. -/
def inlineKeyHash (keyed : Bool) (kh : KeyHash) : Option KeyHash :=
  if keyed || kh != Bytes.zeroes 16 then some kh else none

/-- What a writer puts on the wire for one reader. -/
inductive WriterMessage where
  /-- A HEARTBEAT for a reader served from `startSn` on, behind GAPs for `[start, base)`. -/
  | heartbeat (startSn : ℤ) (gaps : List (ℤ × ℤ)) (firstSn lastSn : ℤ) (count : ℕ) (final liveliness : Bool)
  /-- A whole sample. -/
  | data (change : CacheChange)
  /-- One fragment of a sample. -/
  | dataFrag (change : CacheChange) (fragNum : ℕ) (withTs : Bool)
  | heartbeatFrag (sn : ℤ) (numFrags : ℕ) (count : ℕ)
  | endMarker (m : EndMarker)
  /-- A GAP for one sample. -/
  | gap (sn : ℤ)

/-- The writer's fixed properties. -/
structure WriterConfig where
  guid : Guid
  fragSize : ℕ
  replayOnMatch : Bool
  resumeHeld : Bool
  dropAcked : Bool
  keyed : Bool
  lifespan : Option RtpsDuration := none
  /-- `groupDigest` of the writer alone. -/
  ownDigest : Bytes 4 := Bytes.zeroes 4
  protocolReadyFn : Bool := false
  fragSize_pos : 0 < fragSize

/-- The inline QoS of a sample. -/
def WriterConfig.qosParams (cfg : WriterConfig) (ch : CacheChange) : QosParams where
  keyHash := inlineKeyHash cfg.keyed ch.keyHash
  statusInfo := statusInfoFromKind ch.kind
  coherentSetSn := ch.coherentSetSn
  groupSeqNum := ch.groupSeqNum
  groupCoherentSn := ch.groupCoherentSn
  writerGroupInfo := ch.writerGroupInfo
  lifespan := if ch.kind = .alive then cfg.lifespan else none

/-- Fragments of a sample. -/
def WriterConfig.numFrags (cfg : WriterConfig) (ch : CacheChange) : ℕ :=
  (ch.data.length + cfg.fragSize - 1) / cfg.fragSize

/-- The sample goes out in fragments. -/
def WriterConfig.isFragmented (cfg : WriterConfig) (ch : CacheChange) : Bool :=
  decide (cfg.fragSize < ch.data.length)

/-- A number set without numbers, from `base` on. -/
def emptySnSet (base : ℤ) : SequenceNumberSet := ⟨base, 0, Bitmap.zeroes⟩

/-- The builder calls of a message to a reader. -/
def WriterMessage.calls (cfg : WriterConfig) (reader : Guid) (needsPidCoherentSetMarker : Bool) :
    WriterMessage → List BuilderCall
  | heartbeat _ gaps firstSn lastSn count final liveliness =>
      [.infoDst reader.guidPrefix] ++
      gaps.map (fun g => .gap reader.entityId cfg.guid.entityId g.1 (emptySnSet g.2)) ++
      [.heartbeat reader.entityId cfg.guid.entityId firstSn lastSn (Int32.ofNat count) final
        liveliness]
  | data ch =>
      [.infoDst reader.guidPrefix, .infoTs ch.sourceTimestamp,
        .data { cfg.qosParams ch with
          readerEntityId := reader.entityId
          writerEntityId := cfg.guid.entityId
          writerSn := ch.sequenceNumber
          isKey := decide (ch.kind ≠ .alive) } ch.data]
  | dataFrag ch fragNum withTs =>
      [.infoDst reader.guidPrefix] ++
      (if withTs then [.infoTs ch.sourceTimestamp] else []) ++
      -- inline QoS stands on fragment 1 only
      [.dataFrag { (if fragNum = 1 then cfg.qosParams ch else {}) with
          readerEntityId := reader.entityId
          writerEntityId := cfg.guid.entityId
          writerSn := ch.sequenceNumber
          fragmentStartingNum := fragNum
          fragmentsInSubmessage := 1
          fragmentSize := cfg.fragSize
          dataSize := ch.data.length }
        ((ch.data.drop ((fragNum - 1) * cfg.fragSize)).take cfg.fragSize)]
  | heartbeatFrag sn numFrags count =>
      [.infoDst reader.guidPrefix,
        .heartbeatFrag reader.entityId cfg.guid.entityId sn numFrags (Int32.ofNat count)]
  | endMarker m =>
      [.infoDst reader.guidPrefix,
        .data (m.dataParams reader.entityId cfg.guid.entityId needsPidCoherentSetMarker) []]
  | gap sn =>
      [.infoDst reader.guidPrefix,
        .gap reader.entityId cfg.guid.entityId sn (emptySnSet (sn + 1))]

/-! ### Reader proxies -/

/-- What a writer tracks for a matched reader. -/
structure ReaderProxy where
  guid : Guid
  selectedLocators : List Locator
  reliable : Bool
  highestAckedSn : ℤ := 0
  startSn : ℤ := 1
  lastAckNackCount : Option Int32 := none
  lastNackFragCount : Option Int32 := none
  suppressLiveData : Bool := false
  historyFloorSn : ℤ := 0
  firstSentHbFirstSn : Option ℤ := none
  protocolReady : Bool := false
  wantsReplay : Bool := true
  needsPidCoherentSetMarker : Bool := false
  isLocal : Bool := false
  lastSeenConnectionGeneration : UInt32 := 0
  unsentFromSn : Option ℤ := none
  unsentFrag : ℕ := 1
  sendingSn : Option ℤ := none
  matchId : ℕ := 0
  historyFloor_nonneg : 0 ≤ historyFloorSn := by decide

/-- One match of a reader. -/
structure ReaderMatch where
  guid : Guid
  id : ℕ
deriving DecidableEq, Repr

namespace ReaderProxy

/-- The proxy's match; the source's word for it is reserved. -/
def readerMatch (rp : ReaderProxy) : ReaderMatch := ⟨rp.guid, rp.matchId⟩

/-- Lower the held start to `sn`; a new start begins at its first fragment. -/
def markUnsent (rp : ReaderProxy) (sn : ℤ) : ReaderProxy :=
  let held := match rp.unsentFromSn with
    | some cur => min cur sn
    | none => sn
  { rp with
    unsentFrag := if rp.unsentFromSn ≠ some held then 1 else rp.unsentFrag
    unsentFromSn := some held }

end ReaderProxy

/-! ### The writer -/

/-- What a writer does to the outside, and what its trims remove. -/
inductive WriterEvent where
  /-- A message to a reader, sent while the samples `hidden` were not to be seen and the writer
  had the samples and markers `kept`. -/
  | send (hidden kept : List ℤ) (reader : Guid) (locators : List Locator) (message : WriterMessage)
  /-- Samples removed as acknowledged, and what the trim went by. -/
  | trim (removed : List ℤ) (lastFlushedSn : ℤ) (proxies : List ReaderProxy)
  | ready (reader : Guid) (isReady : Bool)
  /-- A sample written, while publications were suspended or not. -/
  | wrote (sn : ℤ) (suspended : Bool)
  /-- A sample goes out to all readers: with its `write`, or from `endCoherentSet`. -/
  | offer (sn : ℤ) (atOnce : Bool)
  /-- Samples tagged as one coherent set. -/
  | coherentSet (mode : CoherentFlushMode) (sns : List ℤ) (group : Option GroupCoherentSet)

structure StatefulWriter where
  config : WriterConfig
  cache : HistoryCache
  readerProxies : List ReaderProxy := []
  hbCount : ℕ := 0
  lastMatchId : ℕ := 0
  coherentActive : Bool := false
  coherentPendingSns : List ℤ := []
  coherentWindowStart : ℕ := 0
  lastFlushedSn : ℤ := 0
  groupSeqNumCounter : ℤ := 0
  trimmedThrough : ℤ := 0
  pendingEocSn : Option ℤ := none
  endMarkers : List EndMarker := []
  blocks : ℕ → Bool := fun _ => false
  attempts : ℕ := 0
  log : List WriterEvent := []
  nodup : (readerProxies.map (·.guid)).Nodup := by simp

namespace StatefulWriter

/-- The samples of an open coherent set, which readers are not to see yet. -/
def hiddenSns (w : StatefulWriter) : List ℤ := if w.coherentActive then w.coherentPendingSns else []

/-- The samples and markers the writer can still send. -/
def keptSns (w : StatefulWriter) : List ℤ :=
  w.cache.changes.map (·.sequenceNumber) ++ w.endMarkers.map (·.sn)

def emit (w : StatefulWriter) (ev : WriterEvent) : StatefulWriter :=
  { w with log := w.log ++ [ev] }

/-- Send a message to a reader's locators. -/
def send (w : StatefulWriter) (reader : Guid) (locs : List Locator) (message : WriterMessage) :
    StatefulWriter :=
  w.emit (.send w.hiddenSns w.keptSns reader locs message)

def countAttempt (w : StatefulWriter) : StatefulWriter := { w with attempts := w.attempts + 1 }

/-- `sendDataIovecs`: send a DATA or DATA_FRAG; false when it would block, no locator took it
and the writer holds readers. -/
def sendData (w : StatefulWriter) (reader : Guid) (locs : List Locator)
    (message : WriterMessage) : StatefulWriter × Bool :=
  if locs.isEmpty then (w, true)
  else if w.blocks w.attempts then (w.countAttempt, !w.config.resumeHeld)
  else (w.countAttempt.send reader locs message, true)

def bumpHb (w : StatefulWriter) : StatefulWriter := { w with hbCount := w.hbCount + 1 }

def reportReady (w : StatefulWriter) (reader : Guid) (isReady : Bool) : StatefulWriter :=
  if w.config.protocolReadyFn then w.emit (.ready reader isReady) else w

/-! ### Proxies -/

def findReaderProxyLocked (w : StatefulWriter) (guid : Guid) : Option ReaderProxy :=
  w.readerProxies.find? (fun rp => rp.guid == guid)

def findMatchLocked (w : StatefulWriter) (m : ReaderMatch) : Option ReaderProxy :=
  (w.findReaderProxyLocked m.guid).filter (fun rp => rp.matchId == m.id)

/-- The readers matched. -/
def guids (w : StatefulWriter) : List Guid := w.readerProxies.map (·.guid)

/-- Put a proxy in the place of the one of its reader. -/
def replaceProxy (proxies : List ReaderProxy) (rp : ReaderProxy) : List ReaderProxy :=
  proxies.map (fun rp' => if rp'.guid = rp.guid then rp else rp')

theorem replaceProxy_guids (proxies : List ReaderProxy) (rp : ReaderProxy) :
    (replaceProxy proxies rp).map (·.guid) = proxies.map (·.guid) := by
  rw [replaceProxy, List.map_map]
  apply List.map_congr_left
  intro rp' _
  by_cases e : rp'.guid = rp.guid <;> simp [e]

/-- Write back the proxy of a reader. -/
def setProxy (w : StatefulWriter) (rp : ReaderProxy) : StatefulWriter :=
  { w with
    readerProxies := replaceProxy w.readerProxies rp
    nodup := by
      rw [replaceProxy_guids]
      exact w.nodup }

theorem setProxy_guids (w : StatefulWriter) (rp : ReaderProxy) :
    (w.setProxy rp).guids = w.guids :=
  replaceProxy_guids w.readerProxies rp

/-- Add a proxy for a reader that has none. -/
def appendProxy (w : StatefulWriter) (rp : ReaderProxy)
    (h : w.findReaderProxyLocked rp.guid = none) : StatefulWriter :=
  { w with
    readerProxies := w.readerProxies ++ [rp]
    nodup := by
      simp only [List.map_append, List.map_cons, List.map_nil]
      rw [List.nodup_append]
      refine ⟨w.nodup, List.nodup_singleton _, ?_⟩
      rintro g hg g' hg' rfl
      obtain ⟨rp', hm, he⟩ := List.mem_map.mp hg
      have hne := List.find?_eq_none.mp h rp' hm
      rw [List.mem_singleton.mp hg'] at he
      simp [he] at hne }

/-- Remove the proxy of a reader.  The source moves the last proxy into its place, which changes
only the order in which readers are served. -/
def removeProxy (w : StatefulWriter) (guid : Guid) : StatefulWriter :=
  { w with
    readerProxies := w.readerProxies.filter (fun rp => rp.guid != guid)
    nodup := w.nodup.sublist (List.filter_sublist.map _) }

/-- Change the proxy of a match, if it is still there. -/
def modifyMatch (w : StatefulWriter) (m : ReaderMatch) (f : ReaderProxy → ReaderProxy) :
    StatefulWriter :=
  match w.findMatchLocked m with
  | some rp => w.setProxy (f rp)
  | none => w

/-! ### What the writer can still send -/

def firstAvailableSnLocked (w : StatefulWriter) : ℤ :=
  let cacheFirst :=
    if w.cache.minSn = 0 ∧ 0 < w.trimmedThrough then w.trimmedThrough + 1 else w.cache.minSn
  match w.endMarkers.head? with
  | none => cacheFirst
  | some m => if cacheFirst = 0 then m.sn else min cacheFirst m.sn

def lastAvailableSnLocked (w : StatefulWriter) : ℤ :=
  let cacheLast := max w.cache.maxSn w.trimmedThrough
  match w.endMarkers.getLast? with
  | none => cacheLast
  | some m => max cacheLast m.sn

/-- The first number readers have not been sent. -/
def firstUnsentSnLocked (w : StatefulWriter) : ℤ :=
  match w.hiddenSns with
  | sn :: _ => sn
  | [] => w.cache.nextSn

/-- The highest number readers have been sent. -/
def lastSentSnLocked (w : StatefulWriter) : ℤ :=
  if w.coherentActive then min w.lastAvailableSnLocked w.lastFlushedSn
  else w.lastAvailableSnLocked

def isCoherentPendingSn (w : StatefulWriter) (sn : ℤ) : Bool :=
  w.coherentActive && w.coherentPendingSns.contains sn

def findEndMarkerLocked (w : StatefulWriter) (sn : ℤ) : Option EndMarker :=
  w.endMarkers.find? (fun m => m.sn == sn)

def allProxiesAckedLocked (w : StatefulWriter) (targetSn : ℤ) : Bool :=
  targetSn == 0 || w.readerProxies.all (fun rp => !rp.reliable || decide (targetSn ≤ rp.highestAckedSn))

/-- A held proxy is still to be sent `sn`, or a send under way may hold one from there. -/
def holdsLocked (w : StatefulWriter) (sn : ℤ) : Bool :=
  w.readerProxies.any (fun rp => rp.unsentFromSn.any (fun held => decide (held ≤ sn)) ||
    rp.sendingSn.any (fun held => decide (held ≤ sn)))

/-! ### Trimming -/

/-- Keep the floor of a trim below what a reader has not acknowledged or is still to be sent. -/
def capFloor (floor : ℤ) (rp : ReaderProxy) : ℤ :=
  let floor := if rp.reliable then min floor rp.highestAckedSn else floor
  let floor := match rp.unsentFromSn with
    | some held => min floor (held - 1)
    | none => floor
  match rp.sendingSn with
    | some sn => min floor (sn - 1)
    | none => floor

/-- The highest number a trim may remove. -/
def trimFloor (w : StatefulWriter) : ℤ := w.readerProxies.foldl capFloor w.lastFlushedSn

/-- The samples a trim removes: those up to its floor, since they are sorted. -/
def trimmedSns (w : StatefulWriter) : List ℤ :=
  (w.cache.changes.takeWhile (fun ch => ch.sequenceNumber ≤ w.trimFloor)).map (·.sequenceNumber)

/-- Drop what every reliable reader has acknowledged. -/
def trimAckedLocked (w : StatefulWriter) : StatefulWriter :=
  if !w.config.dropAcked then w
  else if w.trimFloor ≤ w.trimmedThrough then w
  else
    { w with
      cache := w.cache.removeWriterChangesUpTo w.trimFloor
      trimmedThrough := w.trimFloor }.emit (.trim w.trimmedSns w.lastFlushedSn w.readerProxies)

def MAX_END_MARKERS : ℕ := 1024

/-- Drop the first `excess` of the markers whose sets have left the cache. -/
def dropExcessMarkers (w : StatefulWriter) : ℕ → List EndMarker → List EndMarker
  | 0, ms => ms
  | _ + 1, [] => []
  | excess + 1, m :: ms =>
      if w.cache.hasWriterChangeIn m.firstSn m.lastSn || some m.sn == w.pendingEocSn then
        m :: w.dropExcessMarkers (excess + 1) ms
      else w.dropExcessMarkers excess ms

/-- Drop the markers whose sets are gone and that every reliable reader has acknowledged, and
then those over the bound. -/
def retireEndMarkersLocked (w : StatefulWriter) : StatefulWriter :=
  let kept := w.endMarkers.filter (fun m =>
    w.cache.hasWriterChangeIn m.firstSn m.lastSn || some m.sn == w.pendingEocSn ||
      !w.allProxiesAckedLocked m.sn || w.holdsLocked m.sn)
  { w with endMarkers := w.dropExcessMarkers (kept.length - MAX_END_MARKERS) kept }

end StatefulWriter

end Zzdds.Rtps
