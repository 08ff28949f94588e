import Zzdds.Dcps.DataReader
import Zzdds.Lib.Run
import Zzdds.Lib.StatusLedger
import Zzdds.Rtps.Writer.Sound

/-! # Communication statuses

The counter statuses of `reader.zig` and `writer.zig`, as two instances of `Lib.StatusLedger`: each
notification of the protocol layer or of a timer updates one status under `mu`, a getter takes the
status with its changes, and a listener, resolved before, claims it if it is still changed.  Of the
two entities this is all that happens to their statuses, in any order; what else the notifications
do is in `DataReader`.

`statuses_reported_once`: every change is reported exactly once. -/

namespace Zzdds.Dcps

open Zzdds.Lib Zzdds.Rtps

/-! ### The statuses of a reader -/

inductive ReaderStatus where
  | requestedDeadlineMissed | requestedIncompatibleQos | sampleLost | sampleRejected
  | livelinessChanged | subscriptionMatched
deriving DecidableEq, Repr

inductive ReaderCounter where
  | deadlineMissedTotal | incompatTotal | sampleLostTotal | sampleRejectedTotal
  | livelinessAliveCount | livelinessNotAliveCount | subMatchedTotal | subMatchedCurrent
deriving DecidableEq, Repr

instance readerCounterFintype : Fintype ReaderCounter where
  elems := {.deadlineMissedTotal, .incompatTotal, .sampleLostTotal, .sampleRejectedTotal,
    .livelinessAliveCount, .livelinessNotAliveCount, .subMatchedTotal, .subMatchedCurrent}
  complete := fun c => by cases c <;> decide

/-- The position of a status in `DDS.StatusMask`. -/
def ReaderStatus.flag : ReaderStatus → ℕ
  | requestedDeadlineMissed => 2
  | requestedIncompatibleQos => 6
  | sampleLost => 7
  | sampleRejected => 8
  | livelinessChanged => 12
  | subscriptionMatched => 14

def ReaderCounter.status : ReaderCounter → ReaderStatus
  | deadlineMissedTotal => .requestedDeadlineMissed
  | incompatTotal => .requestedIncompatibleQos
  | sampleLostTotal => .sampleLost
  | sampleRejectedTotal => .sampleRejected
  | livelinessAliveCount => .livelinessChanged
  | livelinessNotAliveCount => .livelinessChanged
  | subMatchedTotal => .subscriptionMatched
  | subMatchedCurrent => .subscriptionMatched

instance readerStatusTable : StatusTable ReaderStatus ReaderCounter where
  flag := ReaderStatus.flag
  status := ReaderCounter.status
  flag_lt := fun k => by cases k <;> decide
  flag_inj := fun k k' h => by cases k <;> cases k' <;> first | rfl | exact absurd h (by decide)

def DATA_AVAILABLE : ℕ := 10

/-- What a `LIVELINESS` kind is sent as. -/
def LIVELINESS_AUTOMATIC : UInt8 := 0
def LIVELINESS_MANUAL_BY_PARTICIPANT : UInt8 := 1
def LIVELINESS_MANUAL_BY_TOPIC : UInt8 := 2

/-- What the traffic of a writer says of its liveliness. -/
inductive AliveEvidence where
  | data | heartbeat | manualHeartbeat
deriving DecidableEq, Repr

structure WriterLivelinessEntry where
  /-- Not positive for an infinite lease. -/
  leaseNs : ℤ
  lastAliveNs : ℤ
  isAlive : Bool
  kind : UInt8
deriving DecidableEq, Repr

structure ReaderStatuses where
  enabled : Bool := false
  ledger : StatusLedger ReaderStatus ReaderCounter := {}
  incompatLastPolicy : ℤ := 0
  subMatchedLastHandle : HandleT := 0
  sampleRejectedLastReason : Option SampleRejectedKind := none
  sampleRejectedLastHandle : HandleT := 0
  livelinessLastHandle : HandleT := 0
  writerLiveliness : Table Guid WriterLivelinessEntry := ∅

namespace ReaderStatuses

variable (r : ReaderStatuses)

def withLedger (l : Option (StatusLedger ReaderStatus ReaderCounter)) : Option ReaderStatuses :=
  l.map fun l => { r with ledger := l }

def setLiveliness (guid : Guid) (entry : WriterLivelinessEntry) : ReaderStatuses :=
  { r with writerLiveliness := r.writerLiveliness.insert guid entry }

def notifyIncompatibleQos (policyId : ℤ) : Option ReaderStatuses :=
  { r with incompatLastPolicy := policyId }.withLedger
    (r.ledger.update .requestedIncompatibleQos [(.incompatTotal, 1)])

def subscriptionMatchedLocked (remoteHandle : HandleT) (added : Bool) : Option ReaderStatuses :=
  { r with subMatchedLastHandle := remoteHandle }.withLedger
    (r.ledger.update .subscriptionMatched
      (if added then [(.subMatchedTotal, 1), (.subMatchedCurrent, 1)]
      else [(.subMatchedCurrent, -1)]))

/-- The protocol reader reports only losses of one sample or more. -/
def notifySampleLost (count : ℕ) : Option ReaderStatuses :=
  if 0 < count then r.withLedger (r.ledger.update .sampleLost [(.sampleLostTotal, count)]) else none

/-- `onDataCb`, of a sample that RESOURCE_LIMITS reject. -/
def rejectSample (reason : SampleRejectedKind) (ih : HandleT) : Option ReaderStatuses :=
  { r with sampleRejectedLastReason := some reason, sampleRejectedLastHandle := ih }.withLedger
    (r.ledger.update .sampleRejected [(.sampleRejectedTotal, 1)])

def notifyDeadlineMissed : Option ReaderStatuses :=
  r.withLedger (r.ledger.update .requestedDeadlineMissed [(.deadlineMissedTotal, 1)])

/-- A change of LIVELINESS_CHANGED that a writer brings about. -/
def livelinessLocked (guid : Guid) (deltas : List (ReaderCounter × ℤ)) : Option ReaderStatuses :=
  { r with livelinessLastHandle := guidToHandle guid }.withLedger
    (r.ledger.update .livelinessChanged deltas)

/-- A writer whose lease had expired is alive again. -/
def revivedDeltas : List (ReaderCounter × ℤ) :=
  [(.livelinessAliveCount, 1), (.livelinessNotAliveCount, -1)]

/-- `onWriterMatchingCb`: LIVELINESS_CHANGED of a writer with a finite lease, and
SUBSCRIPTION_MATCHED. -/
def onWriterMatchingCb (guid : Guid) (leaseNs : ℤ) (kind : UInt8) (isNew : Bool) (now : ℤ) :
    Option ReaderStatuses :=
  let lively : Option ReaderStatuses :=
    if 0 < leaseNs then
      let prev := r.writerLiveliness.lookup guid
      let r := r.setLiveliness guid ⟨leaseNs, now, true, kind⟩
      match prev with
      | none => r.livelinessLocked guid [(.livelinessAliveCount, 1)]
      | some prev => if prev.isAlive then some r else r.livelinessLocked guid revivedDeltas
    else some r
  lively.bind fun r =>
    if isNew then r.subscriptionMatchedLocked (guidToHandle guid) true else some r

/-- `onWriterUnmatchingCb`: the matched status and LIVELINESS_CHANGED. -/
def onWriterUnmatchingCb (guid : Guid) : Option ReaderStatuses :=
  (r.subscriptionMatchedLocked (guidToHandle guid) false).bind fun r =>
    match r.writerLiveliness.lookup guid with
    | none => some r
    | some entry =>
        { r with writerLiveliness := r.writerLiveliness.erase guid }.livelinessLocked guid
          [(if entry.isAlive then .livelinessAliveCount else .livelinessNotAliveCount, -1)]

def refreshWriterAliveLocked (now : ℤ) (guid : Guid) (entry : WriterLivelinessEntry) :
    Option ReaderStatuses :=
  let r := r.setLiveliness guid { entry with lastAliveNs := now, isAlive := true }
  if entry.isAlive then some r else r.livelinessLocked guid revivedDeltas

/-- Go over the writers with a finite lease. -/
def forEachWriter (f : ReaderStatuses → Guid → WriterLivelinessEntry → Option ReaderStatuses) :
    ReaderStatuses → List Guid → Option ReaderStatuses
  | r, [] => some r
  | r, guid :: rest =>
      let r' := match r.writerLiveliness.lookup guid with
        | none => some r
        | some entry => f r guid entry
      r'.bind fun r => forEachWriter f r rest

def refreshAllByPrefixAndKindLocked (pfx : GuidPrefix) (kind : UInt8) (now : ℤ) :
    Option ReaderStatuses :=
  forEachWriter (fun r guid entry =>
      if guid.guidPrefix ≠ pfx then some r
      else if entry.kind ≠ kind then some r
      else r.refreshWriterAliveLocked now guid entry)
    r r.writerLiveliness.keys

def onWriterAliveCb (guid : Guid) (evidence : AliveEvidence) (now : ℤ) : Option ReaderStatuses :=
  match r.writerLiveliness.lookup guid with
  | none => some r
  | some entry =>
      -- routine heartbeats assert AUTOMATIC liveliness only
      if evidence = .heartbeat ∧ entry.kind ≠ LIVELINESS_AUTOMATIC then some r
      else if evidence = .manualHeartbeat ∧ entry.kind ≠ LIVELINESS_MANUAL_BY_TOPIC then some r
      else
        (r.refreshWriterAliveLocked now guid entry).bind fun r =>
          -- a participant asserts the liveliness of all its writers
          if entry.kind = LIVELINESS_MANUAL_BY_PARTICIPANT then
            r.refreshAllByPrefixAndKindLocked guid.guidPrefix LIVELINESS_MANUAL_BY_PARTICIPANT now
          else some r

def onParticipantAliveCb (pfx : GuidPrefix) (kind : UInt8) (now : ℤ) : Option ReaderStatuses :=
  r.refreshAllByPrefixAndKindLocked pfx kind now

/-- `checkTimersFn`: the leases that have expired. -/
def checkLeases (now : ℤ) : Option ReaderStatuses :=
  forEachWriter (fun r guid entry =>
      if !entry.isAlive then some r
      else if entry.leaseNs ≤ 0 then some r
      else if now - entry.lastAliveNs < entry.leaseNs then some r
      else (r.setLiveliness guid { entry with isAlive := false }).livelinessLocked guid
        [(.livelinessAliveCount, -1), (.livelinessNotAliveCount, 1)])
    r r.writerLiveliness.keys

end ReaderStatuses

/-- The critical sections of a reader's `mu` that touch its statuses. -/
inductive ReaderStatusAction where
  | enable
  | notifyIncompatibleQos (policyId : ℤ)
  | onWriterMatchingCb (guid : Guid) (leaseNs : ℤ) (kind : UInt8) (isNew : Bool) (now : ℤ)
  | onWriterUnmatchingCb (guid : Guid)
  | notifySampleLost (count : ℕ)
  | rejectSample (reason : SampleRejectedKind) (ih : HandleT)
  | notifyDeadlineMissed
  | onWriterAliveCb (guid : Guid) (evidence : AliveEvidence) (now : ℤ)
  | onParticipantAliveCb (pfx : GuidPrefix) (kind : UInt8) (now : ℤ)
  | checkLeases (now : ℤ)
  | dataAvailable
  /-- A read or take, or a listener's claim. -/
  | resetDataAvailable
  | get (k : ReaderStatus)
  | dispatch (k : ReaderStatus) (resolved : Bool)

namespace ReaderStatuses

/-- Record the updates of a critical section. -/
def noted (r : ReaderStatuses) (r' : Option ReaderStatuses) : Option ReaderStatuses :=
  r'.map fun r' => { r' with ledger := r.ledger.note r'.ledger }

/-- One critical section; none when a counter overflows or the reader is not enabled. -/
def step (r : ReaderStatuses) : ReaderStatusAction → Option ReaderStatuses
  | .enable => some { r with enabled := true }
  | .notifyIncompatibleQos policyId => r.noted (r.notifyIncompatibleQos policyId)
  | .onWriterMatchingCb guid leaseNs kind isNew now =>
      r.noted (r.onWriterMatchingCb guid leaseNs kind isNew now)
  | .onWriterUnmatchingCb guid => r.noted (r.onWriterUnmatchingCb guid)
  | .notifySampleLost count => r.noted (r.notifySampleLost count)
  | .rejectSample reason ih => r.noted (r.rejectSample reason ih)
  | .notifyDeadlineMissed => r.noted r.notifyDeadlineMissed
  | .onWriterAliveCb guid evidence now => r.noted (r.onWriterAliveCb guid evidence now)
  | .onParticipantAliveCb pfx kind now => r.noted (r.onParticipantAliveCb pfx kind now)
  | .checkLeases now => r.noted (r.checkLeases now)
  | .dataAvailable => some { r with ledger := r.ledger.setFlag DATA_AVAILABLE }
  | .resetDataAvailable => some { r with ledger := r.ledger.clearFlag DATA_AVAILABLE }
  | .get k => if r.enabled then some { r with ledger := r.ledger.report k .getter } else none
  | .dispatch k resolved => some { r with ledger := r.ledger.claim k resolved }

end ReaderStatuses

/-! ### The statuses of a writer -/

inductive WriterStatus where
  | offeredDeadlineMissed | offeredIncompatibleQos | livelinessLost | publicationMatched
deriving DecidableEq, Repr

inductive WriterCounter where
  | deadlineMissedTotal | incompatTotal | livelinessLostTotal | pubMatchedTotal | pubMatchedCurrent
deriving DecidableEq, Repr

instance writerCounterFintype : Fintype WriterCounter where
  elems := {.deadlineMissedTotal, .incompatTotal, .livelinessLostTotal, .pubMatchedTotal,
    .pubMatchedCurrent}
  complete := fun c => by cases c <;> decide

def WriterStatus.flag : WriterStatus → ℕ
  | offeredDeadlineMissed => 1
  | offeredIncompatibleQos => 5
  | livelinessLost => 11
  | publicationMatched => 13

def WriterCounter.status : WriterCounter → WriterStatus
  | deadlineMissedTotal => .offeredDeadlineMissed
  | incompatTotal => .offeredIncompatibleQos
  | livelinessLostTotal => .livelinessLost
  | pubMatchedTotal => .publicationMatched
  | pubMatchedCurrent => .publicationMatched

instance writerStatusTable : StatusTable WriterStatus WriterCounter where
  flag := WriterStatus.flag
  status := WriterCounter.status
  flag_lt := fun k => by cases k <;> decide
  flag_inj := fun k k' h => by cases k <;> cases k' <;> first | rfl | exact absurd h (by decide)

structure WriterStatuses where
  enabled : Bool := false
  ledger : StatusLedger WriterStatus WriterCounter := {}
  incompatLastPolicy : ℤ := 0
  pubMatchedLastHandle : HandleT := 0

namespace WriterStatuses

variable (w : WriterStatuses)

def withLedger (l : Option (StatusLedger WriterStatus WriterCounter)) : Option WriterStatuses :=
  l.map fun l => { w with ledger := l }

def publicationMatchedLocked (remoteHandle : HandleT) (added : Bool) : Option WriterStatuses :=
  { w with pubMatchedLastHandle := remoteHandle }.withLedger
    (w.ledger.update .publicationMatched
      (if added then [(.pubMatchedTotal, 1), (.pubMatchedCurrent, 1)]
      else [(.pubMatchedCurrent, -1)]))

/-- A refreshed match is not a new one. -/
def onReaderMatchingCb (guid : Guid) (isNew : Bool) : Option WriterStatuses :=
  if isNew then w.publicationMatchedLocked (guidToHandle guid) true else some w

def onReaderUnmatchingCb (guid : Guid) : Option WriterStatuses :=
  w.publicationMatchedLocked (guidToHandle guid) false

def notifyIncompatibleQos (policyId : ℤ) : Option WriterStatuses :=
  { w with incompatLastPolicy := policyId }.withLedger
    (w.ledger.update .offeredIncompatibleQos [(.incompatTotal, 1)])

def notifyDeadlineMissed : Option WriterStatuses :=
  w.withLedger (w.ledger.update .offeredDeadlineMissed [(.deadlineMissedTotal, 1)])

def notifyLivelinessLost : Option WriterStatuses :=
  w.withLedger (w.ledger.update .livelinessLost [(.livelinessLostTotal, 1)])

end WriterStatuses

inductive WriterStatusAction where
  | enable
  | onReaderMatchingCb (guid : Guid) (isNew : Bool)
  | onReaderUnmatchingCb (guid : Guid)
  | notifyIncompatibleQos (policyId : ℤ)
  | notifyDeadlineMissed
  | notifyLivelinessLost
  | get (k : WriterStatus)
  | dispatch (k : WriterStatus) (resolved : Bool)

namespace WriterStatuses

def noted (w : WriterStatuses) (w' : Option WriterStatuses) : Option WriterStatuses :=
  w'.map fun w' => { w' with ledger := w.ledger.note w'.ledger }

def step (w : WriterStatuses) : WriterStatusAction → Option WriterStatuses
  | .enable => some { w with enabled := true }
  | .onReaderMatchingCb guid isNew => w.noted (w.onReaderMatchingCb guid isNew)
  | .onReaderUnmatchingCb guid => w.noted (w.onReaderUnmatchingCb guid)
  | .notifyIncompatibleQos policyId => w.noted (w.notifyIncompatibleQos policyId)
  | .notifyDeadlineMissed => w.noted w.notifyDeadlineMissed
  | .notifyLivelinessLost => w.noted w.notifyLivelinessLost
  | .get k => if w.enabled then some { w with ledger := w.ledger.report k .getter } else none
  | .dispatch k resolved => some { w with ledger := w.ledger.claim k resolved }

end WriterStatuses

/-! ### What a reader's critical sections do to its statuses -/

namespace ReaderStatuses

open StatusLedger

/-- A writer joins or is alive again: the counters go up, but that of the writers not alive. -/
def joining (c : ReaderCounter) : ℤ := if c = .livelinessNotAliveCount then -1 else 1

/-- A writer leaves: the counters go down. -/
def leaving (_ : ReaderCounter) : ℤ := -1

/-- A lease expires: a writer alive becomes one that is not. -/
def expiring (c : ReaderCounter) : ℤ := if c = .livelinessAliveCount then -1 else 1

theorem joining_ne_zero (c : ReaderCounter) : joining c ≠ 0 := by cases c <;> decide

theorem leaving_ne_zero (c : ReaderCounter) : leaving c ≠ 0 := by cases c <;> decide

theorem expiring_ne_zero (c : ReaderCounter) : expiring c ≠ 0 := by cases c <;> decide

variable {r r' : ReaderStatuses} {dir : ReaderCounter → ℤ}

/-- The critical section is a stretch of updates. -/
def Goes (dir : ReaderCounter → ℤ) (r r' : ReaderStatuses) : Prop := Stretch dir r.ledger r'.ledger

/-- One update. -/
theorem goes_update {k : ReaderStatus} {deltas : List (ReaderCounter × ℤ)} {r₀ : ReaderStatuses}
    (h : r₀.withLedger (r.ledger.update k deltas) = some r') (hs : ∀ d ∈ deltas, d.1.status = k)
    (hdir : ∀ c, 0 ≤ dir c * ((deltas.filter (fun d => d.1 = c)).map Prod.snd).sum)
    (hmoves : ∃ c, ((deltas.filter (fun d => d.1 = c)).map Prod.snd).sum ≠ 0) : Goes dir r r' := by
  obtain ⟨l, hl, rfl⟩ := Option.map_eq_some_iff.mp h
  exact Stretch.update hl hs hdir hmoves

theorem goes_revived {guid : Guid} (h : r.livelinessLocked guid revivedDeltas = some r') :
    Goes joining r r' := by
  refine goes_update h ?_ ?_ ⟨.livelinessAliveCount, ?_⟩ <;> decide

theorem goes_subscriptionMatchedLocked {handle : HandleT}
    (h : r.subscriptionMatchedLocked handle true = some r') : Goes joining r r' := by
  refine goes_update h ?_ ?_ ⟨.subMatchedTotal, ?_⟩ <;> decide

theorem goes_onWriterMatchingCb {guid : Guid} {leaseNs : ℤ} {kind : UInt8} {isNew : Bool} {now : ℤ}
    (h : r.onWriterMatchingCb guid leaseNs kind isNew now = some r') : Goes joining r r' := by
  obtain ⟨r₁, h₁, h₂⟩ := Option.bind_eq_some_iff.mp h
  have hlively : Goes joining r r₁ := by
    split at h₁
    next =>
      dsimp only at h₁
      split at h₁
      next =>
        refine goes_update (r := r) h₁ ?_ ?_ ⟨.livelinessAliveCount, ?_⟩ <;> decide
      next =>
        split at h₁
        next =>
          cases h₁
          exact .refl _
        next =>
          have hrevived : Goes joining (r.setLiveliness guid ⟨leaseNs, now, true, kind⟩) r₁ :=
            goes_revived h₁
          exact hrevived
    next =>
      cases h₁
      exact .refl _
  split at h₂
  next => exact hlively.trans joining_ne_zero (goes_subscriptionMatchedLocked h₂)
  next =>
    cases h₂
    exact hlively

theorem goes_onWriterUnmatchingCb {guid : Guid} (h : r.onWriterUnmatchingCb guid = some r') :
    Goes leaving r r' := by
  obtain ⟨r₁, h₁, h₂⟩ := Option.bind_eq_some_iff.mp h
  have hmatched : Goes leaving r r₁ := by
    refine goes_update h₁ ?_ ?_ ⟨.subMatchedCurrent, ?_⟩ <;> decide
  split at h₂
  next =>
    cases h₂
    exact hmatched
  next entry _ =>
    have hlively : Goes leaving r₁ r' := by
      cases hal : entry.isAlive <;> rw [hal] at h₂
      · refine goes_update h₂ ?_ ?_ ⟨.livelinessNotAliveCount, ?_⟩ <;> decide
      · refine goes_update h₂ ?_ ?_ ⟨.livelinessAliveCount, ?_⟩ <;> decide
    exact hmatched.trans leaving_ne_zero hlively

theorem goes_refreshWriterAliveLocked {now : ℤ} {guid : Guid} {entry : WriterLivelinessEntry}
    (h : r.refreshWriterAliveLocked now guid entry = some r') : Goes joining r r' := by
  unfold refreshWriterAliveLocked at h
  dsimp only at h
  split at h
  next =>
    cases h
    exact .refl _
  next =>
    have hrevived : Goes joining
        (r.setLiveliness guid { entry with lastAliveNs := now, isAlive := true }) r' :=
      goes_revived h
    exact hrevived

/-- Going over the writers is a stretch if each of them makes one. -/
theorem goes_forEachWriter (hdir : ∀ c, dir c ≠ 0)
    {f : ReaderStatuses → Guid → WriterLivelinessEntry → Option ReaderStatuses}
    (hf : ∀ r guid entry r', f r guid entry = some r' → Goes dir r r') :
    ∀ {guids : List Guid} {r r' : ReaderStatuses}, forEachWriter f r guids = some r' →
      Goes dir r r' := by
  intro guids
  induction guids with
  | nil =>
    intro r r' h
    cases h
    exact .refl _
  | cons guid rest ih =>
    intro r r' h
    obtain ⟨r₁, h₁, h₂⟩ := Option.bind_eq_some_iff.mp h
    have hone : Goes dir r r₁ := by
      split at h₁
      next =>
        cases h₁
        exact .refl _
      next entry _ => exact hf r guid entry r₁ h₁
    exact hone.trans hdir (ih h₂)

theorem goes_refreshAllByPrefixAndKindLocked {pfx : GuidPrefix} {kind : UInt8} {now : ℤ}
    (h : r.refreshAllByPrefixAndKindLocked pfx kind now = some r') : Goes joining r r' := by
  refine goes_forEachWriter joining_ne_zero ?_ h
  intro r guid entry r' h
  split at h
  next =>
    cases h
    exact .refl _
  next =>
    split at h
    next =>
      cases h
      exact .refl _
    next => exact goes_refreshWriterAliveLocked h

theorem goes_onWriterAliveCb {guid : Guid} {evidence : AliveEvidence} {now : ℤ}
    (h : r.onWriterAliveCb guid evidence now = some r') : Goes joining r r' := by
  unfold onWriterAliveCb at h
  split at h
  next =>
    cases h
    exact .refl _
  next entry _ =>
    split at h
    next =>
      cases h
      exact .refl _
    next =>
      split at h
      next =>
        cases h
        exact .refl _
      next =>
        obtain ⟨r₁, h₁, h₂⟩ := Option.bind_eq_some_iff.mp h
        have hone := goes_refreshWriterAliveLocked h₁
        split at h₂
        next => exact hone.trans joining_ne_zero (goes_refreshAllByPrefixAndKindLocked h₂)
        next =>
          cases h₂
          exact hone

theorem goes_checkLeases {now : ℤ} (h : r.checkLeases now = some r') : Goes expiring r r' := by
  refine goes_forEachWriter expiring_ne_zero ?_ h
  intro r guid entry r' h
  split at h
  next =>
    cases h
    exact .refl _
  next =>
    split at h
    next =>
      cases h
      exact .refl _
    next =>
      split at h
      next =>
        cases h
        exact .refl _
      next =>
        refine goes_update (r := r) h ?_ ?_ ⟨.livelinessAliveCount, ?_⟩ <;> decide

theorem goes_notifySampleLost {count : ℕ} (h : r.notifySampleLost count = some r') :
    Goes joining r r' := by
  unfold notifySampleLost at h
  split at h
  next hpos =>
    refine goes_update h (by simp [ReaderCounter.status]) ?_ ⟨.sampleLostTotal, ?_⟩
    · intro c
      cases c <;> simp [joining]
    · simp
      omega
  next => cases h

/-- A recorded stretch keeps the statuses exact. -/
theorem exact_noted {o : Option ReaderStatuses} (he : r.ledger.Exact)
    (ho : ∀ r₁, o = some r₁ → ∃ dir, Goes dir r r₁) (h : r.noted o = some r') :
    r'.ledger.Exact := by
  obtain ⟨r₁, h₁, rfl⟩ := Option.map_eq_some_iff.mp h
  obtain ⟨dir, hgoes⟩ := ho r₁ h₁
  exact he.note hgoes

theorem exact_step {a : ReaderStatusAction} (he : r.ledger.Exact) (h : r.step a = some r') :
    r'.ledger.Exact := by
  cases a with
  | enable =>
    cases h
    exact he
  | notifyIncompatibleQos policyId =>
    refine exact_noted he (fun r₁ h₁ => ⟨joining, ?_⟩) h
    refine goes_update h₁ ?_ ?_ ⟨.incompatTotal, ?_⟩ <;> decide
  | onWriterMatchingCb guid leaseNs kind isNew now =>
    exact exact_noted he (fun _ h₁ => ⟨_, goes_onWriterMatchingCb h₁⟩) h
  | onWriterUnmatchingCb guid =>
    exact exact_noted he (fun _ h₁ => ⟨_, goes_onWriterUnmatchingCb h₁⟩) h
  | notifySampleLost count =>
    exact exact_noted he (fun _ h₁ => ⟨_, goes_notifySampleLost h₁⟩) h
  | rejectSample reason ih =>
    refine exact_noted he (fun r₁ h₁ => ⟨joining, ?_⟩) h
    refine goes_update h₁ ?_ ?_ ⟨.sampleRejectedTotal, ?_⟩ <;> decide
  | notifyDeadlineMissed =>
    refine exact_noted he (fun r₁ h₁ => ⟨joining, ?_⟩) h
    refine goes_update h₁ ?_ ?_ ⟨.deadlineMissedTotal, ?_⟩ <;> decide
  | onWriterAliveCb guid evidence now =>
    exact exact_noted he (fun _ h₁ => ⟨_, goes_onWriterAliveCb h₁⟩) h
  | onParticipantAliveCb pfx kind now =>
    exact exact_noted he (fun _ h₁ => ⟨_, goes_refreshAllByPrefixAndKindLocked h₁⟩) h
  | checkLeases now => exact exact_noted he (fun _ h₁ => ⟨_, goes_checkLeases h₁⟩) h
  | dataAvailable =>
    cases h
    refine he.otherFlag fun k => ?_
    rw [Flags.has_set _ (by decide) (StatusTable.flag_lt k)]
    cases k <;> rfl
  | resetDataAvailable =>
    cases h
    refine he.otherFlag fun k => ?_
    rw [Flags.has_clear _ (by decide) (StatusTable.flag_lt k)]
    cases k <;> rfl
  | get k =>
    rw [step] at h
    split at h
    next =>
      cases h
      exact he.report fun h => nomatch h
    next => cases h
  | dispatch k resolved =>
    cases h
    exact he.claim k resolved

end ReaderStatuses

/-! ### What a writer's critical sections do to its statuses -/

namespace WriterStatuses

open StatusLedger

variable {w w' : WriterStatuses}

/-- One recorded update keeps the statuses exact. -/
theorem exact_update {k : WriterStatus} {deltas : List (WriterCounter × ℤ)} {w₀ : WriterStatuses}
    (dir : WriterCounter → ℤ) (he : w.ledger.Exact)
    (h : w.noted (w₀.withLedger (w.ledger.update k deltas)) = some w')
    (hs : ∀ d ∈ deltas, d.1.status = k)
    (hdir : ∀ c, 0 ≤ dir c * ((deltas.filter (fun d => d.1 = c)).map Prod.snd).sum)
    (hmoves : ∃ c, ((deltas.filter (fun d => d.1 = c)).map Prod.snd).sum ≠ 0) :
    w'.ledger.Exact := by
  obtain ⟨w₁, h₁, rfl⟩ := Option.map_eq_some_iff.mp h
  obtain ⟨l, hl, rfl⟩ := Option.map_eq_some_iff.mp h₁
  have hstretch : Stretch dir w.ledger l := Stretch.update hl hs hdir hmoves
  exact he.note hstretch

theorem exact_publicationMatchedLocked {handle : HandleT} {added : Bool} (he : w.ledger.Exact)
    (h : w.noted (w.publicationMatchedLocked handle added) = some w') : w'.ledger.Exact := by
  cases added with
  | true =>
    refine exact_update (fun _ => 1) he h ?_ ?_ ⟨.pubMatchedTotal, ?_⟩ <;> decide
  | false =>
    refine exact_update (fun _ => -1) he h ?_ ?_ ⟨.pubMatchedCurrent, ?_⟩ <;> decide

theorem exact_step {a : WriterStatusAction} (he : w.ledger.Exact) (h : w.step a = some w') :
    w'.ledger.Exact := by
  cases a with
  | enable =>
    cases h
    exact he
  | onReaderMatchingCb guid isNew =>
    cases isNew with
    | true => exact exact_publicationMatchedLocked he h
    | false =>
      cases h
      have hstretch : Stretch (fun _ => 1) w.ledger w.ledger := .refl _
      exact he.note hstretch
  | onReaderUnmatchingCb guid => exact exact_publicationMatchedLocked he h
  | notifyIncompatibleQos policyId =>
    refine exact_update (fun _ => 1) he h ?_ ?_ ⟨.incompatTotal, ?_⟩ <;> decide
  | notifyDeadlineMissed =>
    refine exact_update (fun _ => 1) he h ?_ ?_ ⟨.deadlineMissedTotal, ?_⟩ <;> decide
  | notifyLivelinessLost =>
    refine exact_update (fun _ => 1) he h ?_ ?_ ⟨.livelinessLostTotal, ?_⟩ <;> decide
  | get k =>
    rw [step] at h
    split at h
    next =>
      cases h
      exact he.report fun h => nomatch h
    next => cases h
  | dispatch k resolved =>
    cases h
    exact he.claim k resolved

end WriterStatuses

/-- Every change of a counter status of a reader or a writer is reported exactly once, to a getter
or to a listener, and a listener is invoked only for a status that has changed. -/
theorem statuses_reported_once :
    (∀ (acts : List ReaderStatusAction) (r : ReaderStatuses),
      Run ReaderStatuses.step (fun _ _ => True) {} acts r → r.ledger.Exact) ∧
    (∀ (acts : List WriterStatusAction) (w : WriterStatuses),
      Run WriterStatuses.step (fun _ _ => True) {} acts w → w.ledger.Exact) :=
  ⟨fun _ _ h => h.inv StatusLedger.exact_empty fun _ _ _ he _ hs => ReaderStatuses.exact_step he hs,
    fun _ _ h => h.inv StatusLedger.exact_empty fun _ _ _ he _ hs => WriterStatuses.exact_step he hs⟩

/-- A writer comes, its lease expires, and it goes; two samples are lost. -/
def livelyActs : List ReaderStatusAction :=
  [.enable, .onWriterMatchingCb (smallGuid 1) 5 LIVELINESS_AUTOMATIC true 0, .notifySampleLost 2,
    .dispatch .sampleLost true, .checkLeases 5, .get .livelinessChanged,
    .onWriterUnmatchingCb (smallGuid 1), .dispatch .livelinessChanged true,
    .dispatch .livelinessChanged true]

theorem statuses_reported_once_lively : ∃ r,
    Run ReaderStatuses.step (fun _ _ => True) {} livelyActs r ∧
    r.ledger.reports.map (fun x => (x.status, x.recipient, x.pending)) =
      [(.sampleLost, .listener, 1), (.livelinessChanged, .getter, 2),
        (.livelinessChanged, .listener, 1)] ∧
    r.ledger.reports.map (fun x => x.changes .livelinessNotAliveCount) = [0, 1, -1] ∧
    r.ledger.Exact := by
  obtain ⟨r, hrun, hreports, hchanges⟩ := exists_run_of_exec ReaderStatuses.step
    (fun _ _ => True) {} livelyActs
    (p := fun r => r.ledger.reports.map (fun x => (x.status, x.recipient, x.pending)) =
        [(.sampleLost, .listener, 1), (.livelinessChanged, .getter, 2),
          (.livelinessChanged, .listener, 1)] ∧
      r.ledger.reports.map (fun x => x.changes .livelinessNotAliveCount) = [0, 1, -1])
    ⟨_, rfl, rfl, rfl⟩
  exact ⟨r, hrun, hreports, hchanges, statuses_reported_once.1 livelyActs r hrun⟩

end Zzdds.Dcps
