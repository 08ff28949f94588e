import Zzdds.Dcps.Samples

/-! # The data reader

`DataReaderImpl` of `reader.zig` as the protocol reader drives it: samples, end-of-set markers,
matches and unmatches, each one critical section of the reader's lock.  `now` is the clock at the
call.  Memory is given whenever it is asked for; statuses, listeners, deadlines and liveliness are
left out, but for the counters of rejected samples. -/

namespace Zzdds.Dcps

open Zzdds.Lib Zzdds.Rtps

/-! ### Quality of service -/

inductive AccessScope where
  | instancePresentation | topicPresentation | groupPresentation
deriving DecidableEq, Repr

structure PresentationQos where
  accessScope : AccessScope := .instancePresentation
  coherentAccess : Bool := false
  orderedAccess : Bool := false
deriving DecidableEq, Repr

/-- A limit that is not positive is none. -/
structure ResourceLimits where
  maxSamples : ℤ := -1
  maxInstances : ℤ := -1
  maxSamplesPerInstance : ℤ := -1
deriving DecidableEq, Repr

structure DataReaderQos where
  exclusiveOwnership : Bool := false
  minimumSeparation : Duration := ⟨0, 0⟩
  history : HistoryKind := .keepLast
  depth : ℤ := 1
  limits : ResourceLimits := {}
deriving DecidableEq, Repr

inductive SampleRejectedKind where
  | byInstancesLimit | bySamplesLimit | bySamplesPerInstanceLimit
deriving DecidableEq, Repr

/-! ### Coherent sets -/

/-- The coherent set a writer is in the middle of sending: its first sequence number `cs`, the id
of the group set it is part of, and whether no number of it is known missing. -/
structure CoherentWipEntry where
  cs : ℤ
  groupCs : Option ℤ
  intact : Bool
  samples : List PendingChange := []
deriving DecidableEq, Repr

/-- A coherent set that has ended, awaiting `begin_access`.  An incomplete one is queued, without
its samples, in group scope only. -/
structure CommittedSet where
  samples : List PendingChange
  writerGuid : Guid
  publisher : Guid
  groupCs : Option ℤ
  complete : Bool
deriving DecidableEq, Repr

/-- What the reader knows of one writer's coherent sets. -/
structure CoherentWriter where
  publisher : Guid
  publisherKnown : Bool := false
  nextSn : Option ℤ := none
  groupIds : Option Bool := none
  doneThrough : Option ℤ := none
  completeFrom : ℤ := 0
  lastProgressNs : ℤ
deriving DecidableEq, Repr

def CoherentWriter.advanceDone (cw : CoherentWriter) (through : ℤ) : CoherentWriter :=
  { cw with doneThrough := some (cw.doneThrough.elim through fun d => max d through) }

/-- `advanceDone`, where there is an id to advance through. -/
def CoherentWriter.advanceDone? (cw : CoherentWriter) (through : Option ℤ) : CoherentWriter :=
  through.elim cw cw.advanceDone

/-- `complete_from` raised, where there is an id to raise it to. -/
def CoherentWriter.raiseCompleteFrom? (cw : CoherentWriter) (id : Option ℤ) : CoherentWriter :=
  id.elim cw fun g => { cw with completeFrom := max cw.completeFrom g }

/-! ### The reader -/

structure InstanceEntry where
  instanceState : InstanceStateKind
  keyCdr : Option (List UInt8) := none
  disposedGenerationCount : ℤ := 0
  noWritersGenerationCount : ℤ := 0
deriving DecidableEq, Repr

structure DataReader where
  qos : DataReaderQos
  presentation : PresentationQos
  cftFilter : Option (List UInt8 → Bool)
  heap : Heap := {}
  pending : List ℕ := []
  orderedAccessWatermark : Option ℕ := none
  outstandingLoans : ℕ := 0
  coherentWip : Table Guid CoherentWipEntry := ∅
  coherentCommitted : List CommittedSet := []
  coherentWriters : Table Guid CoherentWriter := ∅
  lastCoherentWipStartNs : ℤ := 0
  writerLifespans : Table Guid ℤ := ∅
  writerStrengths : Table Guid ℤ := ∅
  ownerMap : Table HandleT Guid := ∅
  writerInstances : Table Guid (List HandleT) := ∅
  tbfMap : Table HandleT ℤ := ∅
  seenInstances : Table HandleT InstanceEntry := ∅
  subMatchedCurrent : ℤ := 0
  sampleRejectedTotal : ℕ := 0
  sampleRejectedLastReason : Option SampleRejectedKind := none
  sampleRejectedLastHandle : HandleT := 0

/-- What the protocol reader says of a writer it matches. -/
structure MatchedWriterInfo where
  guid : Guid
  ownershipStrength : ℤ := 0
  lifespanNs : ℤ := 0
  publisherGuid : Guid

namespace DataReader

variable (r : DataReader)

/-! ### Instances -/

def stateOfKind : ChangeKind → InstanceStateKind
  | .alive => .alive
  | .notAliveDisposed => .notAliveDisposed
  | .notAliveUnregistered => .notAliveNoWriters

/-- The entry of an instance after a change of it, and the view state of the sample.  A sample of an
instance that was not alive starts a new generation. -/
def nextEntry (kind : ChangeKind) : Option InstanceEntry → InstanceEntry × ViewStateKind
  | none => ({ instanceState := stateOfKind kind }, .new)
  | some entry =>
      let reborn := entry.instanceState ≠ .alive && kind = .alive
      ({ entry with
          instanceState := stateOfKind kind
          disposedGenerationCount := entry.disposedGenerationCount +
            if reborn && entry.instanceState = .notAliveDisposed then 1 else 0
          noWritersGenerationCount := entry.noWritersGenerationCount +
            if reborn && entry.instanceState = .notAliveNoWriters then 1 else 0 },
        if reborn then .new else .notNew)

/-- Take a change into the state of its instance, and give what its sample is stamped with. -/
def determineStatesLocked (ih : HandleT) (kind : ChangeKind) :
    DataReader × InstanceEntry × ViewStateKind :=
  let next := nextEntry kind (r.seenInstances.lookup ih)
  ({ r with seenInstances := r.seenInstances.insert ih next.1 }, next)

def storeKeyIfNeededLocked (ih : HandleT) (data : List UInt8) : DataReader :=
  { r with
    seenInstances := Table.update ih (fun e => { e with keyCdr := e.keyCdr.or (some data) })
      r.seenInstances }

/-- Record that a writer has published an alive sample of an instance. -/
def trackWriterInstanceLocked (guid : Guid) (ih : HandleT) : DataReader :=
  { r with
    writerInstances := r.writerInstances.insert guid
      (((r.writerInstances.lookup guid).getD []).insert ih) }

/-! ### Memory -/

def dupe (octets : List UInt8) : ℕ × DataReader :=
  ((r.heap.dupe octets).1, { r with heap := (r.heap.dupe octets).2 })

def freePayload (p : ℕ) : DataReader := { r with heap := r.heap.free p }

/-- Free the payloads of samples that are not in the queue yet. -/
def freeSamples (samples : List PendingChange) : DataReader :=
  { r with heap := samples.foldl (fun h pc => h.free pc.data) r.heap }

/-- Allocate a sample and append it to the queue. -/
def enqueue (pc : PendingChange) : DataReader :=
  { r with heap := (r.heap.create pc).2, pending := r.pending ++ [(r.heap.create pc).1] }

/-! ### Coherent sets -/

/-- What is known of a writer; until its match says which, its publisher is its participant. -/
def coherentWriterLocked (now : ℤ) (writer : Guid) : CoherentWriter :=
  (r.coherentWriters.lookup writer).getD
    { publisher := ⟨writer.guidPrefix, EntityId.unknown⟩, lastProgressNs := now }

def groupScope : Bool := r.presentation.accessScope = .groupPresentation

/-- End a writer's set in progress; it did not end cleanly when a number went missing right before
the change that ended it.  Says whether a complete set was queued. -/
def endCoherentWipLocked (now : ℤ) (writer : Guid) (cw : CoherentWriter) (endedCleanly : Bool) :
    DataReader × CoherentWriter × Bool :=
  match r.coherentWip.lookup writer with
  | none => (r, cw, false)
  | some wip =>
      let cw := { cw.advanceDone? wip.groupCs with lastProgressNs := now }
      let r := { r with coherentWip := r.coherentWip.erase writer }
      let queue (r : DataReader) (samples : List PendingChange) (complete : Bool) : DataReader :=
        { r with
          coherentCommitted := r.coherentCommitted ++
            [⟨samples, writer, cw.publisher, wip.groupCs, complete⟩] }
      if wip.intact && endedCleanly then (queue r wip.samples true, cw, true)
      else if r.groupScope then (queue (r.freeSamples wip.samples) [] false, cw, false)
      else (r.freeSamples wip.samples, cw, false)

/-- Track one change of a writer: a sample, in a set or not, or an end marker.  Says whether a
complete set was queued. -/
def trackCoherentLocked (now : ℤ) (change : CacheChange) (isMarker : Bool) : DataReader × Bool :=
  let writer := change.writerGuid
  let sn := change.sequenceNumber
  let cw₀ := r.coherentWriterLocked now writer
  let gapBefore : Bool := cw₀.nextSn.elim (sn ≠ 1) (sn ≠ ·)
  let cw := { cw₀ with nextSn := some (sn + 1) }
  let groupCs := change.groupCoherentSn
  let wip := r.coherentWip.lookup writer
  match (if isMarker then none else change.coherentSetSn) with
  | some cs =>
      if wip.any (·.cs = cs) then
        ({ r with
            coherentWip := Table.update writer
              (fun w => { w with intact := w.intact && !gapBefore }) r.coherentWip
            coherentWriters := r.coherentWriters.insert writer { cw with lastProgressNs := now } },
          false)
      else
        -- a sample of a new set ends the writer's previous one; with none in progress, a number
        -- missing before it may have been part of an earlier group set
        let (r, cw, queued) :=
          if wip.isSome then r.endCoherentWipLocked now writer cw (!gapBefore)
          else (r, if gapBefore then cw.raiseCompleteFrom? groupCs else cw, false)
        let cw := { cw with groupIds := some groupCs.isSome }.advanceDone? (groupCs.map (· - 1))
        ({ r with
            coherentWriters := r.coherentWriters.insert writer { cw with lastProgressNs := now }
            lastCoherentWipStartNs := now
            coherentWip := r.coherentWip.insert writer
              { cs := cs, groupCs := groupCs, intact := sn = cs } },
          queued)
  | none =>
      -- a sample outside any set, or an end marker, ends the writer's set
      let (r, cw, queued) :=
        if wip.isSome then r.endCoherentWipLocked now writer cw (!gapBefore)
        else (r, if isMarker && gapBefore then cw.raiseCompleteFrom? (groupCs.map (· + 1)) else cw,
          false)
      let cw :=
        if isMarker && groupCs.isSome then
          { { cw with groupIds := some true }.advanceDone? groupCs with lastProgressNs := now }
        else cw
      ({ r with coherentWriters := r.coherentWriters.insert writer cw }, queued)

/-- An end-of-coherent-set marker arrives. -/
def onEocCb (now : ℤ) (change : CacheChange) : DataReader :=
  if r.presentation.coherentAccess then (r.trackCoherentLocked now change true).1 else r

/-! ### Filters -/

/-- Exclusive ownership: the strongest writer that has written an instance owns it.  Says whether
the sample is taken. -/
def ownershipLocked (ih : HandleT) (writer : Guid) : DataReader × Bool :=
  if r.qos.exclusiveOwnership then
    match r.ownerMap.lookup ih with
    | some owner =>
        if owner = writer then (r, true)
        else if (r.writerStrengths.lookup owner).getD 0 < (r.writerStrengths.lookup writer).getD 0
        then ({ r with ownerMap := r.ownerMap.insert ih writer }, true)
        else (r, false)
    | none => ({ r with ownerMap := r.ownerMap.insert ih writer }, true)
  else (r, true)

def tbfActive (change : CacheChange) : Bool :=
  change.kind = .alive &&
    (r.qos.minimumSeparation.sec ≠ 0 || r.qos.minimumSeparation.nanosec ≠ 0)

def separationNs : ℤ :=
  r.qos.minimumSeparation.sec.toInt * 1000000000 + r.qos.minimumSeparation.nanosec.toNat

/-- Too close to the last sample taken of its instance. -/
def timeFiltered (ih : HandleT) (change : CacheChange) : Bool :=
  r.tbfActive change && (r.tbfMap.lookup ih).any fun last =>
    (toTime change.sourceTimestamp).toNs - last < r.separationNs

def contentFiltered (change : CacheChange) : Bool :=
  change.kind = .alive && r.cftFilter.any fun accepts => !accepts change.data

/-! ### History and resource limits -/

def handleAt (a : ℕ) : Option HandleT := (r.heap.get a).map (·.info.instanceHandle)

def instanceCount (ih : HandleT) : ℕ := r.pending.countP fun a => r.handleAt a = some ih

/-- Retire the oldest sample of an instance. -/
def evictOldestLocked (ih : HandleT) : DataReader :=
  match r.pending.find? fun a => r.handleAt a = some ih with
  | none => r
  | some a => { r with pending := r.pending.erase a, heap := r.heap.beginTeardown a }

/-- Under KEEP_LAST, make room for one more sample of an instance. -/
def keepLastLocked (ih : HandleT) : DataReader :=
  if r.qos.history = .keepLast ∧ (max 1 r.qos.depth).toNat ≤ r.instanceCount ih then
    r.evictOldestLocked ih
  else r

/-- The first limit one more sample of an instance would exceed. -/
def rejectReason (ih : HandleT) : Option SampleRejectedKind :=
  let limits := r.qos.limits
  if 0 < limits.maxInstances ∧ r.instanceCount ih = 0 ∧
      limits.maxInstances < ((r.pending.map r.handleAt).dedup.length + 1 : ℕ) then
    some .byInstancesLimit
  else if 0 < limits.maxSamplesPerInstance ∧
      limits.maxSamplesPerInstance ≤ (r.instanceCount ih : ℤ) then
    some .bySamplesPerInstanceLimit
  else if 0 < limits.maxSamples ∧ limits.maxSamples ≤ (r.pending.length : ℤ) then
    some .bySamplesLimit
  else none

/-! ### Samples -/

/-- The sample a change becomes; the lifespan it carries goes before the writer's. -/
def pendingChange (copy : ℕ) (ih : HandleT) (change : CacheChange) (entry : InstanceEntry)
    (view : ViewStateKind) : PendingChange where
  data := copy
  info :=
    { viewState := view
      instanceState := entry.instanceState
      sourceTimestamp := toTime change.sourceTimestamp
      instanceHandle := ih
      publicationHandle := guidToHandle change.writerGuid
      validData := change.kind = .alive
      disposedGenerationCount := entry.disposedGenerationCount
      noWritersGenerationCount := entry.noWritersGenerationCount }
  groupSeqNum := change.groupSeqNum
  expiryNs :=
    if change.kind = .alive then
      (change.inlineLifespanNs.or (r.writerLifespans.lookup change.writerGuid)).map
        ((toTime change.sourceTimestamp).toNs + ·)
    else none
  keyHash := change.keyHash
  sample := some (change.writerGuid, change.sequenceNumber)

/-- The sample of a change, with the state of its instance and its key taken in. -/
def stampLocked (copy : ℕ) (ih : HandleT) (change : CacheChange) : DataReader × PendingChange :=
  let (r, entry, view) := r.determineStatesLocked ih change.kind
  let r := if change.kind = .alive then r.storeKeyIfNeededLocked ih change.data else r
  (r, r.pendingChange copy ih change entry view)

/-- The time filter's window and the ownership of an instance, after a sample of it was taken. -/
def filtersTaken (ih : HandleT) (change : CacheChange) : DataReader :=
  let r := if r.tbfActive change then
      { r with tbfMap := r.tbfMap.insert ih (toTime change.sourceTimestamp).toNs } else r
  if change.kind = .alive then r
  else { r with tbfMap := r.tbfMap.erase ih, ownerMap := r.ownerMap.erase ih }

/-- A sample of a coherent set waits with the set. -/
def bufferLocked (copy : ℕ) (ih : HandleT) (change : CacheChange) : DataReader :=
  match r.coherentWip.lookup change.writerGuid with
  | none => r.freePayload copy
  | some _ =>
      let (r, pc) := r.stampLocked copy ih change
      let r := r.filtersTaken ih change
      { r with
        coherentWip := Table.update change.writerGuid
          (fun w => { w with samples := w.samples ++ [pc] }) r.coherentWip }

/-- A sample outside any set goes to the queue, or is rejected. -/
def queueLocked (copy : ℕ) (ih : HandleT) (change : CacheChange) : DataReader :=
  let r := r.keepLastLocked ih
  match r.rejectReason ih with
  | some reason =>
      { r.freePayload copy with
        sampleRejectedTotal := r.sampleRejectedTotal + 1
        sampleRejectedLastReason := some reason
        sampleRejectedLastHandle := ih }
  | none =>
      let (r, pc) := r.stampLocked copy ih change
      (r.enqueue pc).filtersTaken ih change

/-- What a sample changes before any filter sees it: the payload copy, the instances its writer has
written, and its writer's coherent set. -/
def arriveLocked (now : ℤ) (ih : HandleT) (change : CacheChange) : ℕ × DataReader :=
  let (copy, r) := r.dupe change.data
  let r := if change.kind = .alive then r.trackWriterInstanceLocked change.writerGuid ih else r
  (copy, if r.presentation.coherentAccess then (r.trackCoherentLocked now change false).1 else r)

/-- A change arrives from a matched writer. -/
def onDataCb (now : ℤ) (change : CacheChange) : DataReader :=
  let ih := keyHashToHandle change.keyHash
  let (copy, r) := r.arriveLocked now ih change
  let (r, owned) := r.ownershipLocked ih change.writerGuid
  if !owned || r.timeFiltered ih change || r.contentFiltered change then r.freePayload copy
  else if r.presentation.coherentAccess && change.coherentSetSn.isSome then
    r.bufferLocked copy ih change
  else r.queueLocked copy ih change

/-! ### Matches -/

/-- A writer is matched, or its match is refreshed. -/
def onWriterMatchingCb (now : ℤ) (info : MatchedWriterInfo) (isNew : Bool) : DataReader :=
  let r :=
    { r with
      writerStrengths := r.writerStrengths.insert info.guid info.ownershipStrength
      writerLifespans :=
        if 0 < info.lifespanNs then r.writerLifespans.insert info.guid info.lifespanNs
        else r.writerLifespans.erase info.guid
      subMatchedCurrent := r.subMatchedCurrent + if isNew then 1 else 0 }
  if r.presentation.coherentAccess then
    { r with
      coherentWriters := r.coherentWriters.insert info.guid
        { r.coherentWriterLocked now info.guid with
          publisher := info.publisherGuid
          publisherKnown := true }
      coherentCommitted := r.coherentCommitted.map fun part =>
        if part.writerGuid = info.guid then { part with publisher := info.publisherGuid }
        else part }
  else r

/-- The encapsulation header of an empty key. -/
def emptyKeyCdr : List UInt8 := [0x00, 0x01, 0x00, 0x00]

/-- An instance lost its last writer: its state changes and the application gets a sample. -/
def synthesizeNoWriters (guid : Guid) (now : Time) (ih : HandleT) : DataReader :=
  let (copy, r) := r.dupe emptyKeyCdr
  let (r, entry, view) := r.determineStatesLocked ih .notAliveUnregistered
  r.enqueue
    { data := copy
      info :=
        { viewState := view
          instanceState := entry.instanceState
          sourceTimestamp := now
          instanceHandle := ih
          publicationHandle := guidToHandle guid
          validData := false
          disposedGenerationCount := entry.disposedGenerationCount
          noWritersGenerationCount := entry.noWritersGenerationCount } }

/-- An instance a lost writer had published to: nothing, where another writer still has it or it is
not alive. -/
def orphanLocked (guid : Guid) (now : Time) (ih : HandleT) : DataReader :=
  if r.writerInstances.values.any (ih ∈ ·) then r
  else if (r.seenInstances.lookup ih).any (·.instanceState = .alive) then
    r.synthesizeNoWriters guid now ih
  else r

/-- A writer's match ends. -/
def onWriterUnmatchingCb (now : Time) (guid : Guid) : DataReader :=
  let wip := (r.coherentWip.lookup guid).elim [] (·.samples)
  let instances := (r.writerInstances.lookup guid).getD []
  let r :=
    { r.freeSamples wip with
      subMatchedCurrent := r.subMatchedCurrent - 1
      writerStrengths := r.writerStrengths.erase guid
      writerLifespans := r.writerLifespans.erase guid
      coherentWriters := r.coherentWriters.erase guid
      coherentWip := r.coherentWip.erase guid
      ownerMap := Table.filterValues (· ≠ guid) r.ownerMap
      writerInstances := r.writerInstances.erase guid }
  instances.foldl (fun r ih => r.orphanLocked guid now ih) r

/-! ### Access -/

/-- Move a queued set into the queue; an incomplete one has no samples. -/
def promoteCommittedSetLocked (idx : ℕ) : DataReader :=
  let samples := r.coherentCommitted[idx]?.elim [] (·.samples)
  samples.foldl enqueue { r with coherentCommitted := r.coherentCommitted.eraseIdx idx }

/-- Drop a queued set. -/
def discardCommittedSetLocked (idx : ℕ) : DataReader :=
  let samples := r.coherentCommitted[idx]?.elim [] (·.samples)
  { r with coherentCommitted := r.coherentCommitted.eraseIdx idx }.freeSamples samples

/-- Expose the oldest queued set. -/
def commitCoherentPendingLocked : DataReader :=
  if r.coherentCommitted = [] then r else r.promoteCommittedSetLocked 0

end DataReader

end Zzdds.Dcps
