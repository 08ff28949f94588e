import Zzdds.Rtps.Reader.State
import Zzdds.Rtps.Writer.State

/-! # What the writer does under its lock

The operations of `writer_sm.zig` that hold `mu` from their start to their end: heartbeats,
fragments, the answers to ACKNACK and NACK_FRAG, the resync of a reconnected reader, and the
removal of a reader. -/

namespace Zzdds.Rtps

namespace StatefulWriter

/-! ### Heartbeats -/

/-- The first number of a HEARTBEAT. -/
def hbFirstSn (cacheFirst lastSn startSn : ℤ) (firstSnOverride : Option ℤ) : ℤ :=
  match firstSnOverride with
  | some sn => sn
  | none => if lastSn = 0 then 1 else max (if cacheFirst = 0 then 1 else cacheFirst) startSn

/-- The GAP for samples that left the cache, from the reader's start on. -/
def evictedGap (cacheFirst startSn : ℤ) : List (ℤ × ℤ) :=
  if 0 < cacheFirst ∧ 0 < startSn ∧ startSn < cacheFirst then [(startSn, cacheFirst)] else []

/-- The GAP for samples from before the match that an overridden first number announces. -/
def preMatchGap (startSn : ℤ) : Option ℤ → List (ℤ × ℤ)
  | some fsn => if 0 < startSn ∧ fsn < startSn then [(fsn, startSn)] else []
  | none => []

def sendHeartbeatToProxyLockedWithLastSnAndFirstSn (w : StatefulWriter) (rp : ReaderProxy)
    (final : Bool) (lastSn : ℤ) (firstSnOverride : Option ℤ) : StatefulWriter :=
  let cacheFirst := w.firstAvailableSnLocked
  let firstSn := hbFirstSn cacheFirst lastSn rp.startSn firstSnOverride
  if rp.selectedLocators.isEmpty then w
  -- a capped last number can fall more than one short of the first: no valid HEARTBEAT
  else if 0 < lastSn ∧ lastSn + 1 < firstSn then w.bumpHb
  else w.bumpHb.send rp.guid rp.selectedLocators
    (.heartbeat rp.startSn
      (preMatchGap rp.startSn firstSnOverride ++ evictedGap cacheFirst rp.startSn) firstSn
      lastSn w.bumpHb.hbCount final false)

def sendHeartbeatToProxyLockedWithLastSn (w : StatefulWriter) (rp : ReaderProxy) (final : Bool)
    (lastSn : ℤ) : StatefulWriter :=
  w.sendHeartbeatToProxyLockedWithLastSnAndFirstSn rp final lastSn none

/-- A HEARTBEAT that announces what readers have been sent. -/
def sendHeartbeatToProxyLocked (w : StatefulWriter) (rp : ReaderProxy) (final : Bool) :
    StatefulWriter :=
  w.sendHeartbeatToProxyLockedWithLastSn rp final w.lastSentSnLocked

/-- The same, up to `lastSnCap`. -/
def sendHeartbeatToProxyLockedCapped (w : StatefulWriter) (rp : ReaderProxy) (final : Bool)
    (lastSnCap : ℤ) : StatefulWriter :=
  let cacheLast := w.lastSentSnLocked
  w.sendHeartbeatToProxyLockedWithLastSn rp final
    (if 0 < cacheLast then min cacheLast lastSnCap else cacheLast)

/-- The HEARTBEAT of a snapshot, sent with the lock released. -/
def sendHeartbeatUnlocked (w : StatefulWriter) (reader : Guid) (startSn : ℤ)
    (locs : List Locator) (final : Bool) (lastSn : ℤ) (count : ℕ) (cacheFirst : ℤ) :
    StatefulWriter :=
  let firstSn := hbFirstSn cacheFirst lastSn startSn none
  if locs.isEmpty then w
  else if 0 < lastSn ∧ lastSn + 1 < firstSn then w
  else w.send reader locs
    (.heartbeat startSn (evictedGap cacheFirst startSn) firstSn lastSn count final false)

/-- The periodic HEARTBEAT for one proxy.  A best-effort reader gets it only as a sign of life,
a local one only while it lacks something. -/
def periodicHeartbeat (cacheFirst lastSn : ℤ) (final liveliness : Bool) (w : StatefulWriter)
    (rp : ReaderProxy) : StatefulWriter :=
  let firstSn := hbFirstSn cacheFirst lastSn rp.startSn none
  if !rp.reliable && !liveliness then w
  else if rp.isLocal && decide (lastSn ≤ rp.highestAckedSn) then w
  else if rp.selectedLocators.isEmpty then w
  else if 0 < lastSn ∧ lastSn + 1 < firstSn then w
  else w.send rp.guid rp.selectedLocators
    (.heartbeat rp.startSn (evictedGap cacheFirst rp.startSn) firstSn lastSn w.hbCount final
      liveliness)

/-- Send a HEARTBEAT to all matched readers, under one count. -/
def sendHeartbeat (w : StatefulWriter) (final liveliness : Bool) : StatefulWriter :=
  w.readerProxies.foldl
    (periodicHeartbeat w.firstAvailableSnLocked w.lastSentSnLocked final liveliness) w.bumpHb

/-! ### Fragments and markers -/

/-- Send `n` fragments from `fragNum` on, to the first that would block. -/
def sendFragsLoop (w : StatefulWriter) (rp : ReaderProxy) (ch : CacheChange) :
    ℕ → ℕ → StatefulWriter × Option ℕ
  | 0, _ => (w, none)
  | n + 1, fragNum =>
      let (w, took) := w.sendData rp.guid rp.selectedLocators (.dataFrag ch fragNum (fragNum == 1))
      if took then w.sendFragsLoop rp ch n (fragNum + 1) else (w, some fragNum)

/-- Send the fragments from `firstFrag` on and a HEARTBEAT_FRAG; the fragment that would block,
if one does. -/
def sendFragsToProxyLocked (w : StatefulWriter) (rp : ReaderProxy) (ch : CacheChange)
    (hbCount firstFrag : ℕ) : StatefulWriter × Option ℕ :=
  if rp.selectedLocators.isEmpty then (w, none)
  else
    match w.sendFragsLoop rp ch (w.config.numFrags ch + 1 - firstFrag) firstFrag with
    | (w, some frag) => (w, some frag)
    | (w, none) => (w.send rp.guid rp.selectedLocators
        (.heartbeatFrag ch.sequenceNumber (w.config.numFrags ch) hbCount), none)

/-- Send fragment 1 and a HEARTBEAT_FRAG; the reader asks for the rest. -/
def sendFrag1ToProxyLocked (w : StatefulWriter) (rp : ReaderProxy) (ch : CacheChange)
    (hbCount : ℕ) : StatefulWriter × Bool :=
  if rp.selectedLocators.isEmpty then (w, true)
  else
    let (w, took) := w.sendData rp.guid rp.selectedLocators (.dataFrag ch 1 true)
    if took then (w.send rp.guid rp.selectedLocators
      (.heartbeatFrag ch.sequenceNumber (w.config.numFrags ch) hbCount), true)
    else (w, false)

def sendEndMarkerToProxyLocked (w : StatefulWriter) (rp : ReaderProxy) (m : EndMarker) :
    StatefulWriter × Bool :=
  w.sendData rp.guid rp.selectedLocators (.endMarker m)

/-! ### Holding a reader -/

/-- Hold a reader's data from `sn` on. -/
def holdUnsentLocked (w : StatefulWriter) (rp : ReaderProxy) (sn : ℤ) : StatefulWriter :=
  w.setProxy (rp.markUnsent sn)

/-! ### NACK_FRAG -/

/-- The fragments a NACK_FRAG asks for, up to the first beyond the sample. -/
def nackedFrags (cfg : WriterConfig) (ch : CacheChange) (fragSet : FragmentNumberSet) : List ℕ :=
  (((List.range fragSet.numBits).map (fragSet.base + ·)).filter fragSet.contains).takeWhile
    (fun fragNum => decide ((fragNum - 1) * cfg.fragSize < ch.data.length))

/-- `handleNackFrag`: `none` when it stops the program, as a request for fragment 0 does, and one
whose numbers do not all fit in 32 bits. -/
def handleNackFrag (w : StatefulWriter) (reader : Guid) (writerSn : ℤ)
    (fragSet : FragmentNumberSet) (count : Int32) : Option StatefulWriter :=
  match w.cache.getChange writerSn with
  | none => some w
  | some ch =>
      if !w.config.isFragmented ch then some w
      else
        match w.findReaderProxyLocked reader with
        | none => some w
        | some rp =>
            if !isNewerCount count rp.lastNackFragCount then some w
            else
              let w := w.setProxy { rp with lastNackFragCount := some count }
              if rp.selectedLocators.isEmpty then some w
              else if 2 ^ 32 ≤ fragSet.base + fragSet.numBits ∨ fragSet.contains 0 then none
              else
                let w := (nackedFrags w.config ch fragSet).foldl (fun w fragNum =>
                  w.send rp.guid rp.selectedLocators (.dataFrag ch fragNum false)) w
                some (w.bumpHb.send rp.guid rp.selectedLocators
                  (.heartbeatFrag writerSn (w.config.numFrags ch) w.bumpHb.hbCount))

/-! ### ACKNACK -/

/-- Resend one sample; of the fragmented ones an ACKNACK asks for, only the first goes out with
its fragment 1. -/
def retransmitChange (w : StatefulWriter) (rp : ReaderProxy) (ch : CacheChange)
    (fragBudget : ℕ) : StatefulWriter × ℕ :=
  if w.config.isFragmented ch then
    if 0 < fragBudget then
      ((w.bumpHb.sendFrag1ToProxyLocked rp ch w.bumpHb.hbCount).1, fragBudget - 1)
    else
      (w.bumpHb.send rp.guid rp.selectedLocators
        (.heartbeatFrag ch.sequenceNumber (w.config.numFrags ch) w.bumpHb.hbCount), fragBudget)
  else (w.send rp.guid rp.selectedLocators (.data ch), fragBudget)

/-- The state of the repair loop. -/
structure Repair where
  writer : StatefulWriter
  fragBudget : ℕ
  retransmitCount : ℕ

/-- Repair one number the reader asked for. -/
def repairSn (rp : ReaderProxy) (s : Repair) (sn : ℤ) : Repair :=
  if sn < rp.startSn then s
  -- not what is still inside a coherent window
  else if s.writer.isCoherentPendingSn sn then s
  else
    match s.writer.cache.getChange sn with
    | some ch =>
        let (w, fragBudget) := s.writer.retransmitChange rp ch s.fragBudget
        ⟨w, fragBudget, s.retransmitCount + 1⟩
    | none =>
        if sn < s.writer.cache.nextSn then
          match s.writer.findEndMarkerLocked sn with
          | some m =>
              ⟨(s.writer.sendEndMarkerToProxyLocked rp m).1, s.fragBudget, s.retransmitCount + 1⟩
          | none => ⟨s.writer.send rp.guid rp.selectedLocators (.gap sn), s.fragBudget,
              s.retransmitCount + 1⟩
        else s

/-- The numbers of the bitmap that are set. -/
def nackedSns (nackSet : SequenceNumberSet) : List ℤ :=
  ((List.range nackSet.numBits).map (fun (bit : ℕ) => nackSet.base + bit)).filter nackSet.contains

/-- The HEARTBEAT a non-final ACKNACK asks for: only while there is something at its base. -/
def answerNonFinal (w : StatefulWriter) (rp : ReaderProxy) (base : ℤ) : StatefulWriter :=
  let effectiveBase := max base rp.startSn
  let announceTo := min w.cache.maxSn w.lastSentSnLocked
  if !rp.suppressLiveData then
    if effectiveBase ≤ announceTo then w.sendHeartbeatToProxyLocked rp false else w
  else if effectiveBase ≤ min announceTo rp.historyFloorSn then
    w.sendHeartbeatToProxyLockedCapped rp false rp.historyFloorSn
  else w

/-- Record that the ACKNACK was answered, and follow with a HEARTBEAT. -/
def followRepair (w : StatefulWriter) (rp : ReaderProxy) (count : Int32) : StatefulWriter :=
  let w := w.setProxy { rp with lastAckNackCount := some count }
  if rp.suppressLiveData then w.sendHeartbeatToProxyLockedCapped rp false rp.historyFloorSn
  else w.sendHeartbeatToProxyLocked rp false

/-- Repair what the bitmap asks for, and follow with HEARTBEATs. -/
def answerAckNack (w : StatefulWriter) (rp : ReaderProxy) (nackSet : SequenceNumberSet)
    (count : Int32) (isFinal : Bool) : StatefulWriter :=
  let s := (nackedSns nackSet).foldl (repairSn rp) ⟨w, 1, 0⟩
  let w := if isFinal then s.writer else s.writer.answerNonFinal rp nackSet.base
  if s.retransmitCount = 0 then w else w.followRepair rp count

/-- The proxy once the history an ACKNACK acknowledges was trimmed to start at `minSn`. -/
def afterAck (rp : ReaderProxy) (minSn highestSn base : ℤ) (isFinal : Bool) :
    ReaderProxy :=
  { rp with
    protocolReady := rp.protocolReady || rp.firstSentHbFirstSn.any (fun floor => decide (floor ≤ base))
    suppressLiveData := rp.suppressLiveData && !(decide (rp.historyFloorSn < minSn) ||
      (!isFinal && decide (rp.historyFloorSn ≤ highestSn))) }

def handleAckNack (w : StatefulWriter) (reader : Guid) (highestSn : ℤ)
    (nackSet : SequenceNumberSet) (count : Int32) (isFinal : Bool) : StatefulWriter :=
  if nackSet.base < 0 ∨ 256 < nackSet.numBits then w
  else
    match w.findReaderProxyLocked reader with
    | none => w
    | some rp =>
        if !rp.reliable then w
        -- while history is protected, a repeated ACKNACK is answered again
        else if !rp.suppressLiveData && !isNewerCount count rp.lastAckNackCount then w
        else
          let acked := { rp with highestAckedSn := max rp.highestAckedSn highestSn }
          let w := (w.setProxy acked).trimAckedLocked.retireEndMarkersLocked
          let rp' := afterAck acked w.cache.minSn highestSn nackSet.base isFinal
          let w := w.setProxy rp'
          let w := if rp'.selectedLocators.isEmpty then w
            else w.answerAckNack rp' nackSet count isFinal
          if rp'.protocolReady && !rp.protocolReady then w.reportReady reader true else w

end StatefulWriter

/-! ### Replay -/

/-- A sample or an end marker of a replay. -/
inductive BatchItem where
  | sample (ch : CacheChange)
  | marker (m : EndMarker)

def BatchItem.sn : BatchItem → ℤ
  | sample ch => ch.sequenceNumber
  | marker m => m.sn

def BatchItem.message : BatchItem → WriterMessage
  | sample ch => .data ch
  | marker m => .endMarker m

/-- The markers in their place among the samples. -/
def mergeMarkers : List EndMarker → List CacheChange → List BatchItem
  | ms, [] => ms.map .marker
  | ms, ch :: chs =>
      (ms.takeWhile (fun m => decide (m.sn < ch.sequenceNumber))).map .marker ++
      .sample ch :: mergeMarkers (ms.dropWhile (fun m => decide (m.sn < ch.sequenceNumber))) chs

namespace StatefulWriter

/-- Fragment 1 of the first fragmented sample, so that the reader learns its layout. -/
def primeFragmented (w : StatefulWriter) (rp : ReaderProxy) : StatefulWriter :=
  match w.cache.changes.find? w.config.isFragmented with
  | none => w
  | some ch => (w.bumpHb.sendFrag1ToProxyLocked rp ch w.bumpHb.hbCount).1

/-- One item of a replay to a best-effort reader. -/
def replayItem (rp : ReaderProxy) (w : StatefulWriter) : BatchItem → StatefulWriter
  | .marker m => (w.sendEndMarkerToProxyLocked rp m).1
  | .sample ch =>
      if w.config.isFragmented ch then
        (w.bumpHb.sendFragsToProxyLocked rp ch w.bumpHb.hbCount 1).1
      else w.send rp.guid rp.selectedLocators (.data ch)

/-- Replay the cache to a reader under the lock. -/
def replayHistoryToProxyLocked (w : StatefulWriter) (rp : ReaderProxy) : StatefulWriter :=
  if rp.selectedLocators.isEmpty then w
  else if rp.reliable then (w.sendHeartbeatToProxyLocked rp false).primeFragmented rp
  else if w.config.resumeHeld then
    -- the history goes out as the reader's resume
    if 0 < w.firstAvailableSnLocked then w.holdUnsentLocked rp w.firstAvailableSnLocked else w
  else (mergeMarkers w.endMarkers w.cache.changes).foldl (replayItem rp) w

/-- The sum of the connection generations of a reader's locators. -/
def connectionGenerationSumLocked (gens : Locator → UInt32) (rp : ReaderProxy) : UInt32 :=
  rp.selectedLocators.foldl (fun sum loc => sum + gens loc) 0

/-- Replay to a reader whose connection was made anew. -/
def resyncIfGenerationChangedLocked (gens : Locator → UInt32) (w : StatefulWriter)
    (rp : ReaderProxy) : StatefulWriter :=
  let current := connectionGenerationSumLocked gens rp
  if current = rp.lastSeenConnectionGeneration then w
  else
    let rp := { rp with lastSeenConnectionGeneration := current }
    (w.setProxy rp).replayHistoryToProxyLocked rp

def checkConnectionGenerations (w : StatefulWriter) (gens : Locator → UInt32) : StatefulWriter :=
  w.readerProxies.foldl (resyncIfGenerationChangedLocked gens) w

/-! ### Removing a reader -/

def removeMatchedReader (w : StatefulWriter) (guid : Guid) : StatefulWriter :=
  match w.findReaderProxyLocked guid with
  | none => w
  | some rp =>
      -- the removed reader may have been the last to acknowledge
      let w := (w.removeProxy guid).trimAckedLocked
      if rp.protocolReady then w.reportReady guid false else w

end StatefulWriter

end Zzdds.Rtps
