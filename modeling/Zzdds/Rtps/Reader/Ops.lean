import Zzdds.Rtps.Reader.State
import Mathlib.Data.Int.Range

/-! # The reader's operations

The locked operations of `StatefulReader` (`reader_sm.zig`), each on the part the proxies
share and the proxy of the writer concerned, and over them the entry points as the steps of
the reader (`ReaderOp`, `StatefulReader.step`, `StatefulReader.run`).

`none` is a stop of the program: a count of lost samples that overflows `i32`, the end of a
GAP's bitmap beyond `i64`, or one of the stops of reassembly.  `fresh` is what the allocator
leaves in a new reassembly buffer. -/

namespace Zzdds.Rtps

open Zzdds.Lib

/-! ### Delivery -/

/-- Hand a change to the callback: an end marker as it is, any other change as the cache has
it after adding it. -/
def ReaderCore.handOver (core : ReaderCore) (writer : Guid) (change : CacheChange) :
    ReaderCore :=
  if isEndMarker change then
    if core.callback.any (·.onEoc) then core.emit (.onEoc writer change) else core
  else
    let core := { core with cache := core.cache.addReaderChange change }
    if core.callback.isSome then
      match core.cache.getChangeForWriter change.writerGuid change.sequenceNumber with
      | some cached => core.emit (.onData writer cached)
      | none => core
    else core

/-- The loop of `deliverPendingLocked`, `k` more numbers from `nextSn` on. -/
def deliverPendingLoop : ℕ → ℤ → ReaderCore → WriterProxy → ReaderCore × WriterProxy
  | 0, _, core, wp => (core, wp)
  | k + 1, nextSn, core, wp =>
      match wp.pendingChanges.find? (fun ch => ch.sequenceNumber == nextSn) with
      | none => deliverPendingLoop k (nextSn + 1) core wp
      | some ch => deliverPendingLoop k (nextSn + 1) (core.handOver wp.guid ch)
          { wp with
            pendingChanges := wp.pendingChanges.eraseP (fun ch => ch.sequenceNumber == nextSn) }

/-- Deliver the buffered changes after `prevDelivered`, up to the cumulative
acknowledgment. -/
def deliverPendingLocked (core : ReaderCore) (wp : WriterProxy) (prevDelivered : ℤ) :
    ReaderCore × WriterProxy :=
  deliverPendingLoop (wp.received.cumulativeAck - prevDelivered).toNat (prevDelivered + 1) core wp

/-- The sample processor's verdict; end markers are not samples. -/
def ReaderCore.process (core : ReaderCore) (change : CacheChange) : Option CacheChange :=
  if isEndMarker change then some change
  else
    match core.sampleProcessor with
    | none => some change
    | some p => (p change.data change.kind change.keyHash).map
        (fun kh => { change with keyHash := kh })

/-- Deliver a complete change, in order for a reliable reader and at once for a best-effort
one.  Callers check for duplicates. -/
def deliverChangeLocked (core : ReaderCore) (wp : WriterProxy) (incoming : CacheChange) :
    ReaderCore × WriterProxy :=
  match core.process incoming with
  | none => (core, wp)
  | some change =>
      let sn := change.sequenceNumber
      if core.reliable then
        if sn = wp.received.cumulativeAck + 1 then
          deliverPendingLocked (core.handOver wp.guid change)
            { wp with received := wp.received.insert sn } sn
        else if wp.pendingChanges.any (fun pc => pc.sequenceNumber == sn) then (core, wp)
        else
          (core, { wp with
            pendingChanges := wp.pendingChanges ++ [change]
            received := wp.received.insert sn })
      else if sn ≤ wp.received.max then (core, wp)
      else
        (core.handOver wp.guid change,
          { wp with received := wp.received.insert sn }.dropReassemblyBelow sn)

/-! ### Acknowledgments -/

/-- Send an ACKNACK to the writer, unless it has no locator.  The count wraps. -/
def sendAckNack (core : ReaderCore) (wp : WriterProxy) (locs : List Locator) (lastSn : ℤ)
    (final : Bool) : ReaderCore :=
  if wp.selectedLocators.isEmpty then core
  else
    let core := { core with ackCount := core.ackCount + 1 }
    core.emit (.send locs [.infoDst wp.guid.guidPrefix,
      .ackNack core.guid.entityId wp.guid.entityId (wp.missingSnSet lastSn) core.ackCount final])

def sendAckNackLocked (core : ReaderCore) (wp : WriterProxy) (lastSn : ℤ) (final : Bool) :
    ReaderCore :=
  sendAckNack core wp wp.selectedLocators lastSn final

/-- The variant that sends after releasing the lock, to at most eight locators. -/
def sendAckNackUnlocked (core : ReaderCore) (wp : WriterProxy) (lastSn : ℤ) (final : Bool) :
    ReaderCore :=
  sendAckNack core wp (wp.selectedLocators.take 8) lastSn final

/-- The fragments up to `lastFragNum` not received: a window of at most 256 from the first. -/
def missingFragSet (entry : Option ReassemblyEntry) (lastFragNum : ℕ) :
    Option FragmentNumberSet :=
  let missing := ((List.range lastFragNum).filter
    (fun idx => !entry.any (fun e => decide (idx < e.totalFrags) && e.isSet idx))).map (· + 1)
  match missing with
  | [] => none
  | base :: _ =>
      let window := missing.takeWhile (fun fragNum => fragNum - base < 256)
      some ⟨base, window.foldl (fun n fragNum => max n (fragNum - base + 1)) 0,
        window.foldl (fun m fragNum => m.setBit (fragNum - base)) Bitmap.zeroes⟩

def sendNackFragLocked (core : ReaderCore) (wp : WriterProxy) (writerSn : ℤ)
    (entry : Option ReassemblyEntry) (lastFragNum : ℕ) : ReaderCore :=
  if wp.selectedLocators.isEmpty then core
  else
    match missingFragSet entry lastFragNum with
    | none => core
    | some fragSet =>
        let core := { core with ackCount := core.ackCount + 1 }
        core.emit (.send wp.selectedLocators [.infoDst wp.guid.guidPrefix,
          .nackFrag core.guid.entityId wp.guid.entityId writerSn fragSet core.ackCount])

/-! ### Incoming submessages, for the writer's proxy -/

/-- Insert numbers that are gone, counting those not received before. -/
def markGone (received : ReceivedSet) (sns : List ℤ) : ReceivedSet × ℕ :=
  sns.foldl (fun acc sn => (acc.1.insert sn, if acc.1.contains sn then acc.2 else acc.2 + 1))
    (received, 0)

/-- A count of lost samples is an `i32`. -/
def lostFits (count : ℕ) : Option Unit := if count < 2 ^ 31 then some () else none

def handleDataLocked (core : ReaderCore) (wp : WriterProxy) (change : CacheChange) :
    ReaderCore × WriterProxy :=
  if wp.received.contains change.sequenceNumber then (core, wp)
  else deliverChangeLocked core wp change

/-- The change a complete reassembly becomes. -/
def assembledChange (writerGuid : Guid) (sn : ℤ) (entry : ReassemblyEntry) : CacheChange where
  kind := .alive
  writerGuid := writerGuid
  sequenceNumber := sn
  sourceTimestamp := entry.sourceTimestamp
  instanceHandle := INSTANCE_HANDLE_NIL
  keyHash := entry.keyHash
  data := entry.data
  coherentSetSn := entry.coherentSetSn
  groupSeqNum := entry.groupSeqNum
  groupCoherentSn := entry.groupCoherentSn

/-- The entry a fragment is added to: the one started earlier, or a new one.  `some none` when
the fragment is dropped before. -/
def fragEntryLocked (core : ReaderCore) (wp : WriterProxy) (fresh : ℕ → UInt8)
    (sourceTimestamp : RtpsTimestamp) (df : DataFragSubmessage) :
    Option (Option ReassemblyEntry) :=
  if wp.received.contains df.writerSn then some none
  else if !core.reliable && decide (df.writerSn ≤ wp.received.max) then some none
  else
    (ReassemblyEntry.init fresh df sourceTimestamp).map
      (fun e => e.map (fun new => (wp.getReassembly df.writerSn).getD new))

def handleDataFragLocked (core : ReaderCore) (wp : WriterProxy) (fresh : ℕ → UInt8)
    (sourceTimestamp : RtpsTimestamp) (df : DataFragSubmessage) :
    Option (ReaderCore × WriterProxy) := do
  match ← fragEntryLocked core wp fresh sourceTimestamp df with
  | none => return (core, wp)
  | some e =>
      let entry ← e.accept df
      if !entry.isComplete then return (core, wp.putReassembly df.writerSn entry)
      else
        let (core, wp) := deliverChangeLocked core (wp.putReassembly df.writerSn entry)
          (assembledChange wp.guid df.writerSn entry)
        return (core, wp.removeReassembly df.writerSn)

def handleHeartbeatFragLocked (core : ReaderCore) (wp : WriterProxy) (writerSn : ℤ)
    (lastFragNum : ℕ) (count : Int32) : ReaderCore × WriterProxy :=
  if !isNewerCount count wp.lastHbFragCount then (core, wp)
  else
    let wp := { wp with lastHbFragCount := some count }
    let entry := wp.getReassembly writerSn
    if wp.received.contains writerSn || entry.any (·.isComplete) then (core, wp)
    else (sendNackFragLocked core wp writerSn entry lastFragNum, wp)

/-- The proxy's own records of an accepted HEARTBEAT. -/
def acceptHeartbeat (core : ReaderCore) (wp : WriterProxy) (readerId : EntityId) (lastSn : ℤ)
    (count : Int32) : WriterProxy :=
  { wp with
    lastHbCount := some count
    protocolReady := wp.protocolReady || readerId == core.guid.entityId
    historyFloorSn :=
      if wp.lastHbCount.isNone && !wp.historyEstablished then lastSn else wp.historyFloorSn
    historyEstablished := wp.historyEstablished || wp.lastHbCount.isNone }

/-- What a HEARTBEAT's `firstSn` says is gone: for a reliable reader, every number below it
that is not yet acknowledged. -/
def heartbeatGone (core : ReaderCore) (wp : WriterProxy) (firstSn : ℤ) : List ℤ :=
  if core.reliable then Int.range (wp.received.cumulativeAck + 1) firstSn else []

/-- Mark numbers gone and, for a reliable reader, deliver what was waiting for them. -/
def advancePast (core : ReaderCore) (wp : WriterProxy) (sns : List ℤ) :
    Option (ReaderCore × WriterProxy × ℕ) := do
  let prevHighest := wp.received.cumulativeAck
  let (received, lost) := markGone wp.received sns
  lostFits lost
  let wp := { wp with received := received }
  let (core, wp) := if core.reliable then deliverPendingLocked core wp prevHighest else (core, wp)
  return (core, wp, lost)

/-- An accepted HEARTBEAT: skip what is gone, then acknowledge. -/
def handleHeartbeatLocked (core : ReaderCore) (wp : WriterProxy) (readerId : EntityId)
    (firstSn lastSn : ℤ) (count : Int32) (final : Bool) :
    Option (ReaderCore × WriterProxy) := do
  if !isNewerCount count wp.lastHbCount then return (core, wp)
  else
    let newlyReady := !wp.protocolReady && readerId == core.guid.entityId
    let wp := acceptHeartbeat core wp readerId lastSn count
    let (core, wp, lost) ← advancePast core wp (heartbeatGone core wp firstSn)
    let hasMissing := decide (wp.received.cumulativeAck < lastSn)
    let core :=
      if core.reliable && (!final || hasMissing) then
        sendAckNackLocked core wp lastSn (!hasMissing)
      else core
    let core := if newlyReady then core.reportReady wp.guid true else core
    return (core.reportLost lost, wp)

/-- The numbers a GAP lists: from its start to the base of its list, and those in the list. -/
def gapSns (gapStart : ℤ) (gapList : SequenceNumberSet) : List ℤ :=
  Int.range gapStart gapList.base ++
    (Int.range (max gapStart gapList.base) (gapList.base + gapList.numBits)).filter
      (fun sn => gapList.contains sn)

def handleGapLocked (core : ReaderCore) (wp : WriterProxy) (gapStart : ℤ)
    (gapList : SequenceNumberSet) : Option (ReaderCore × WriterProxy) := do
  if 2 ^ 63 ≤ gapList.base + gapList.numBits then none
  else
    let (core, wp, lost) ← advancePast core wp (gapSns gapStart gapList)
    return (core.reportLost lost, wp)

/-! ### Matching -/

/-- What a match says of a writer. -/
structure MatchedWriter where
  guid : Guid
  selectedLocators : List Locator
  reliable : Bool
  historyEstablished : Bool
  isLocal : Bool
deriving DecidableEq, Repr

/-- The proxy of a newly matched writer; a best-effort one is ready at once. -/
def MatchedWriter.proxy (m : MatchedWriter) : WriterProxy where
  guid := m.guid
  selectedLocators := m.selectedLocators
  reliable := m.reliable
  historyEstablished := m.historyEstablished
  protocolReady := !m.reliable
  isLocal := m.isLocal

/-- Take a held reassembly, unless the proxy is past it. -/
def takePartial (core : ReaderCore) (wp : WriterProxy) (q : ℤ × ReassemblyEntry) : WriterProxy :=
  if wp.received.contains q.1 || (wp.getReassembly q.1).isSome then wp
  else if !core.reliable && decide (q.1 ≤ wp.received.max) then wp
  else wp.putReassembly q.1 q.2

/-- Take what the writer sent before the match, as if it had arrived just after it. -/
def takePrematchLocked (core : ReaderCore) (wp : WriterProxy) (held : Collected) :
    ReaderCore × WriterProxy :=
  let (core, wp) := held.samples.foldl (fun acc s => handleDataLocked acc.1 acc.2 s.1) (core, wp)
  (core, held.partials.reverse.foldl (takePartial core) wp)

/-- Match a writer: refresh its proxy if there is one, else add one and take what is held. -/
def StatefulReader.addOrRefreshMatchedWriterWith (r : StatefulReader) (m : MatchedWriter)
    (prematch : Option Prematch) (isCurrent : Bool) : StatefulReader :=
  if !isCurrent then r
  else
    match h : r.find m.guid with
    | some wp => r.setProxy r.core { wp with
        selectedLocators := m.selectedLocators
        reliable := m.reliable
        isLocal := m.isLocal }
    | none =>
        let held := (prematch.map (·.collect m.guid r.core.guid.entityId)).getD {}
        let (core, wp) := takePrematchLocked r.core m.proxy held
        let core :=
          if core.reliable && !m.isLocal then sendAckNackUnlocked core wp 0 false else core
        let core := if m.reliable then core else core.reportReady m.guid true
        (r.appendProxy m.proxy h).setProxy core wp

/-- Unmatch a writer, reporting the history it announced and never delivered. -/
def StatefulReader.removeMatchedWriter (r : StatefulReader) (writer : Guid) : StatefulReader :=
  match r.find writer with
  | none => r
  | some wp =>
      let core := r.core.reportLost wp.undeliveredHistory.toNat
      let core := if wp.protocolReady then core.reportReady writer false else core
      { r.removeProxy writer with core := core }

/-! ### Steps and runs -/

/-- The entry points of the reader. -/
inductive ReaderOp where
  | data (writer : Guid) (change : CacheChange)
  | dataFrag (writer : Guid) (fresh : ℕ → UInt8) (sourceTimestamp : RtpsTimestamp)
      (df : DataFragSubmessage)
  | heartbeat (writer : Guid) (readerId : EntityId) (firstSn lastSn : ℤ) (count : Int32)
      (final : Bool)
  | heartbeatFrag (writer : Guid) (writerSn : ℤ) (lastFragNum : ℕ) (count : Int32)
  | gap (writer : Guid) (gapStart : ℤ) (gapList : SequenceNumberSet)
  | matchWriter (m : MatchedWriter) (prematch : Option Prematch) (isCurrent : Bool)
  | unmatchWriter (writer : Guid)

namespace StatefulReader

/-- Run a locked operation on a writer's proxy; nothing happens when the writer is not
matched. -/
def onProxy (r : StatefulReader) (writer : Guid)
    (f : ReaderCore → WriterProxy → Option (ReaderCore × WriterProxy)) : Option StatefulReader :=
  match r.find writer with
  | none => some r
  | some wp => (f r.core wp).map (fun out => r.setProxy out.1 out.2)

def step (r : StatefulReader) : ReaderOp → Option StatefulReader
  | .data writer change => r.onProxy writer (fun core wp => some (handleDataLocked core wp change))
  | .dataFrag writer fresh ts df =>
      r.onProxy writer (fun core wp => handleDataFragLocked core wp fresh ts df)
  | .heartbeat writer readerId firstSn lastSn count final =>
      -- ill-formed HEARTBEATs are dropped before the lock is taken
      if firstSn ≤ 0 ∨ lastSn < firstSn - 1 then some r
      else r.onProxy writer
        (fun core wp => handleHeartbeatLocked core wp readerId firstSn lastSn count final)
  | .heartbeatFrag writer sn last count =>
      r.onProxy writer (fun core wp => some (handleHeartbeatFragLocked core wp sn last count))
  | .gap writer gapStart gapList =>
      r.onProxy writer (fun core wp => handleGapLocked core wp gapStart gapList)
  | .matchWriter m prematch isCurrent =>
      some (r.addOrRefreshMatchedWriterWith m prematch isCurrent)
  | .unmatchWriter writer => some (r.removeMatchedWriter writer)

def run (r : StatefulReader) (ops : List ReaderOp) : Option StatefulReader :=
  ops.foldlM step r

end StatefulReader

end Zzdds.Rtps
