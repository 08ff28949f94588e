import Zzdds.Rtps.Writer.Send

/-! # The writer as a machine

Some operations of `writer_sm.zig` release `mu` while they send and take it again after: the
live send of a sample, a batch of a replay or of a resume, the first HEARTBEAT of a match, and
the combined send of end markers.  Such a call is a `Task`: what it still has to send from its
snapshots, and where it goes on once it has the lock again.  A `Machine` is the writer with the
calls under way; one of its actions is either a new call, which runs up to the first release of
the lock, or one send or one locked stretch of a task.  So a run of the machine is any
interleaving of the threads that use the writer.

`endCoherentSet`, the combined send that follows it and `beginCoherentSet` all run under the
publisher's lock, so none of them starts while another is under way. -/

namespace Zzdds.Rtps

/-! ### Tasks -/

/-- The HEARTBEAT that follows a live sample. -/
structure HbSnapshot where
  lastSn : ℤ
  cacheFirst : ℤ
  count : ℕ

/-- A reader of a live send. -/
structure ProxySnapshot where
  readerMatch : ReaderMatch
  startSn : ℤ
  locs : List Locator
  hb : Option HbSnapshot
  blocked : Bool := false

/-- The arguments of `endCoherentSet`, and its locals once the set is known. -/
structure EndSet where
  mode : CoherentFlushMode
  resuspend : Bool
  publisherGsn : Option ℤ := none
  group : Option GroupCoherentSet := none
  deferEoc : Bool := false
  coherentSns : List ℤ := []

/-- The set is one of a group of writers, which each of them ends. -/
def EndSet.endsGroupSet (e : EndSet) : Bool := decide (e.mode = .full) && e.group.isSome

/-- Where a live send returns to. -/
inductive SendReturn where
  | write
  /-- `endCoherentSet`, with samples from before the window still to send. -/
  | preWindow (rest : List ℤ) (e : EndSet)
  /-- `endCoherentSet`, with samples of the window still to send. -/
  | window (rest : List ℤ) (e : EndSet)

/-- The send is that of a `write`. -/
def SendReturn.atOnce : SendReturn → Bool
  | write => true
  | preWindow _ _ => false
  | window _ _ => false

/-- What a batch sent. -/
structure Batch where
  through : ℤ
  blocked : Bool := false
  count : ℕ := 0
  nextFrag : ℕ := 1

/-- Where a batch returns to. -/
inductive BatchReturn where
  /-- The replay of a match. -/
  | replay (historyThrough : ℤ) (catchUpRounds : ℕ)
  /-- A resume, at the `i`-th proxy, held from `held`. -/
  | resume (i : ℕ) (held : ℤ) (budget : ℕ)

/-- A reader, at one locator, of a combined send of end markers. -/
structure EOCProxyInfo where
  locator : Locator
  readerGuid : Guid
  readerMatchId : ℕ
  eocSn : ℤ
  group : Option GroupCoherentSet
  blocked : Bool := false

/-- The marker to send; where its set starts and ends is not part of it. -/
def EOCProxyInfo.marker (i : EOCProxyInfo) : EndMarker := ⟨i.eocSn, 0, 0, i.group⟩

/-- The marker goes out in the datagram to `dest`. -/
def EOCProxyInfo.goesTo (dest : Locator × GuidPrefix) (i : EOCProxyInfo) : Bool :=
  decide (i.locator = dest.1 ∧ i.readerGuid.guidPrefix = dest.2)

/-- A call that has released the writer's lock. -/
inductive Task where
  /-- Sending `ch` to `todo`; `owed` has been sent it and is to get its HEARTBEAT. -/
  | sendChange (ch : CacheChange) (todo : List ProxySnapshot)
      (owed : Option (ProxySnapshot × HbSnapshot)) (done : List ProxySnapshot) (ret : SendReturn)
  /-- Sending the items `todo` to one reader. -/
  | batch (reader : ReaderMatch) (locs : List Locator) (todo : List BatchItem) (sent : Batch)
      (ret : BatchReturn)
  | initialHeartbeat (reader : Guid) (startSn : ℤ) (locs : List Locator) (hb : HbSnapshot)
  /-- About to collect the readers of the pending end marker. -/
  | takeEOC
  | sendEOC (infos : List EOCProxyInfo)
  | flushEOC (infos : List EOCProxyInfo)

namespace StatefulWriter

/-! ### The live send -/

/-- The fragmented branch of `sendChangeToAllLocked`, for one proxy. -/
def sendFragmentedTo (ch : CacheChange) (hbCount : ℕ) (w : StatefulWriter) (rp : ReaderProxy) :
    StatefulWriter :=
  if rp.suppressLiveData || rp.unsentFromSn.isSome then w
  -- a send to it is under way: `ch` waits for that one
  else if rp.sendingSn.isSome then w.setProxy (rp.markUnsent ch.sequenceNumber)
  else if rp.selectedLocators.isEmpty then w
  else if rp.reliable then
    match w.sendFrag1ToProxyLocked rp ch hbCount with
    | (w, true) => w
    | (w, false) => w.holdUnsentLocked rp ch.sequenceNumber
  else
    match w.sendFragsToProxyLocked rp ch hbCount 1 with
    | (w, none) => w
    | (w, some frag) =>
        w.setProxy { rp.markUnsent ch.sequenceNumber with unsentFrag := frag }

def flushedThrough (w : StatefulWriter) (sn : ℤ) : StatefulWriter :=
  { w with lastFlushedSn := max w.lastFlushedSn sn }

/-- `sendChangeToAllLocked` of a fragmented sample, all of it under the lock. -/
def sendFragmented (w : StatefulWriter) (ch : CacheChange) : StatefulWriter :=
  (w.readerProxies.foldl (sendFragmentedTo ch w.bumpHb.hbCount) w.bumpHb).flushedThrough
    ch.sequenceNumber

/-- Take the snapshot of one proxy for the live send of `ch`. -/
def snapshotProxy (ch : CacheChange) (trailingHb : Bool) (cacheLast cacheFirst : ℤ)
    (acc : StatefulWriter × List ProxySnapshot) (rp : ReaderProxy) :
    StatefulWriter × List ProxySnapshot :=
  let (w, snaps) := acc
  if rp.suppressLiveData || rp.unsentFromSn.isSome then (w, snaps)
  else if rp.sendingSn.isSome then (w.setProxy (rp.markUnsent ch.sequenceNumber), snaps)
  else if rp.selectedLocators.isEmpty then (w, snaps)
  else
    let heartbeats := rp.reliable && trailingHb
    let w := if heartbeats then w.bumpHb else w
    let w := if w.config.resumeHeld then
      w.setProxy { rp with sendingSn := some ch.sequenceNumber } else w
    (w, snaps ++ [{
      readerMatch := rp.readerMatch
      startSn := rp.startSn
      locs := rp.selectedLocators.take 8
      hb := if heartbeats then some ⟨cacheLast, cacheFirst, w.hbCount⟩ else none }])

/-- `sendChangeToAllLocked` of a sample sent whole: the snapshots, for the sends to come. -/
def snapshotProxies (w : StatefulWriter) (ch : CacheChange) (trailingHb : Bool) :
    StatefulWriter × List ProxySnapshot :=
  w.readerProxies.foldl
    (snapshotProxy ch trailingHb w.lastAvailableSnLocked w.firstAvailableSnLocked) (w, [])

/-- End the live send of `sn` to one proxy. -/
def endSendLocked (sn : ℤ) (w : StatefulWriter) (s : ProxySnapshot) : StatefulWriter :=
  w.modifyMatch s.readerMatch (fun rp =>
    let rp := { rp with sendingSn := none }
    if s.blocked then rp.markUnsent sn else rp)

/-- Back under the lock after a live send. -/
def endSends (w : StatefulWriter) (sn : ℤ) (done : List ProxySnapshot) : StatefulWriter :=
  let w := w.flushedThrough sn
  if w.config.resumeHeld then done.foldl (endSendLocked sn) w else w

/-! ### The end of a coherent set -/

/-- The inline QoS that puts a sample of a closed set into it. -/
def tagChange (e : EndSet) (baseGsn : ℤ) (ch : CacheChange) : CacheChange :=
  if ch.sequenceNumber ∈ e.coherentSns then
    let ch := if e.mode = .full ∨ e.mode = .coherentOnly then
      { ch with coherentSetSn := e.coherentSns.head? } else ch
    if e.mode = .full ∨ e.mode = .groupSeqOnly then
      let ch := { ch with groupSeqNum := some (baseGsn + (e.coherentSns.idxOf ch.sequenceNumber + 1)) }
      match e.group with
      | some g => { ch with
          groupCoherentSn := some g.firstGsn
          writerGroupInfo := some g.writerGroupInfo }
      | none => ch
    else ch
  else ch

/-- A standalone GROUP writer's set is its own samples. -/
def ownGroup (w : StatefulWriter) (e : EndSet) (baseGsn : ℤ) : EndSet :=
  if e.mode = .full ∧ e.group = none then
    { e with group := some ⟨baseGsn + 1, baseGsn + e.coherentSns.length + 1, w.config.ownDigest⟩ }
  else e

/-- Tag the samples of the window. -/
def tagSet (w : StatefulWriter) (e : EndSet) : StatefulWriter × EndSet :=
  if e.mode = .none ∨ e.coherentSns = [] then (w, e)
  else
    let baseGsn := e.publisherGsn.getD w.groupSeqNumCounter
    let e := w.ownGroup e baseGsn
    let advance : ℤ :=
      if (e.mode = .full ∨ e.mode = .groupSeqOnly) ∧ e.publisherGsn = none then
        e.coherentSns.length + (if e.group.isSome then 1 else 0)
      else 0
    ({ w with
        cache := { w.cache with changes := w.cache.changes.map (tagChange e baseGsn) }
        groupSeqNumCounter := w.groupSeqNumCounter + advance }.emit
      (.coherentSet e.mode e.coherentSns e.group), e)

/-- The marker of a live set, for one proxy. -/
def sendLiveMarker (m : EndMarker) (w : StatefulWriter) (rp : ReaderProxy) : StatefulWriter :=
  if rp.suppressLiveData || rp.unsentFromSn.isSome then w
  else if rp.sendingSn.isSome then w.setProxy (rp.markUnsent m.sn)
  else if rp.selectedLocators.isEmpty then w
  else
    match w.sendEndMarkerToProxyLocked rp m with
    | (w, true) => w
    | (w, false) => w.holdUnsentLocked rp m.sn

/-- A HEARTBEAT to every reliable reader, up to all the writer has. -/
def heartbeatAll (w : StatefulWriter) (firstSnOverride : Option ℤ) : StatefulWriter :=
  w.readerProxies.foldl (fun w' rp =>
    if rp.reliable then w'.sendHeartbeatToProxyLockedWithLastSnAndFirstSn rp false
      w.lastAvailableSnLocked firstSnOverride
    else w') w

/-- The marker of a set. -/
def newMarker (e : EndSet) (eocSn : ℤ) : EndMarker where
  sn := eocSn
  firstSn := e.coherentSns.head?.getD eocSn
  lastSn := e.coherentSns.getLast?.getD (eocSn - 1)
  group := if e.mode = .full then e.group else none

/-- Take a number for the marker and keep it. -/
def addMarker (w : StatefulWriter) (m : EndMarker) (deferEoc : Bool) : StatefulWriter :=
  { w with
    cache := w.cache.allocSn.2
    endMarkers := w.endMarkers ++ [m]
    pendingEocSn := if deferEoc then some m.sn else w.pendingEocSn }.retireEndMarkersLocked

/-- End the set once its samples are out. -/
def sendSetEnd (w : StatefulWriter) (e : EndSet) : StatefulWriter :=
  if e.mode ≠ .coherentOnly ∧ e.mode ≠ .full then w.heartbeatAll none
  else
    let m := newMarker e w.cache.nextSn
    let w := w.addMarker m e.deferEoc
    if e.deferEoc then w
    else
      ((w.readerProxies.foldl (sendLiveMarker m) w).flushedThrough m.sn).heartbeatAll none

/-- The end of `endCoherentSet`. -/
def finishSet (w : StatefulWriter) (e : EndSet) : StatefulWriter × Option Task :=
  ({ w with
      coherentPendingSns := []
      coherentActive := w.coherentActive || e.resuspend }.trimAckedLocked,
    if e.deferEoc then some .takeEOC else none)

/-- The sample goes out to all readers: at once if it is fragmented, else as a task. -/
def sendChangeToAllLocked (w : StatefulWriter) (ch : CacheChange) (trailingHb : Bool)
    (ret : SendReturn) : StatefulWriter × Option Task :=
  let w := w.emit (.offer ch.sequenceNumber ret.atOnce)
  if w.config.isFragmented ch then (w.sendFragmented ch, none)
  else
    let (w, snaps) := w.snapshotProxies ch trailingHb
    (w, some (.sendChange ch snaps none [] ret))

/-- Send the samples of the window, from `rest` on. -/
def flushWindow (w : StatefulWriter) (e : EndSet) : List ℤ → StatefulWriter × Option Task
  | [] => (w.sendSetEnd e).finishSet e
  | sn :: rest =>
      match w.cache.getChange sn with
      | none => w.flushWindow e rest
      | some ch =>
          match w.sendChangeToAllLocked ch false (.window rest e) with
          | (w, some task) => (w, some task)
          | (w, none) => w.flushWindow e rest

/-- Close the window, once what precedes it is out. -/
def closeSet (w : StatefulWriter) (e : EndSet) : StatefulWriter × Option Task :=
  if e.coherentSns = [] ∧ !e.endsGroupSet then w.finishSet e
  else
    let r := w.tagSet e
    r.1.flushWindow r.2 r.2.coherentSns

/-- Send the samples from before the window, from `rest` on. -/
def flushPreWindow (w : StatefulWriter) (e : EndSet) : List ℤ → StatefulWriter × Option Task
  | [] => w.closeSet e
  | sn :: rest =>
      match w.cache.getChange sn with
      | none => w.flushPreWindow e rest
      | some ch =>
          match w.sendChangeToAllLocked ch true (.preWindow rest e) with
          | (w, some task) => (w, some task)
          | (w, none) => w.flushPreWindow e rest

def endCoherentSet (w : StatefulWriter) (e : EndSet) : StatefulWriter × Option Task :=
  let allSns := w.coherentPendingSns
  let e := { e with coherentSns := allSns.drop w.coherentWindowStart }
  let preWindow := allSns.take w.coherentWindowStart
  let w := { w with coherentActive := false, coherentWindowStart := 0 }
  if allSns = [] ∧ !e.endsGroupSet then w.finishSet e
  else w.flushPreWindow e preWindow

def beginCoherentSet (w : StatefulWriter) (isCoherentWindow : Bool) : StatefulWriter :=
  if isCoherentWindow && w.coherentActive then
    { w with coherentWindowStart := w.coherentPendingSns.length }
  else { w with coherentActive := true }

/-! ### The combined send of end markers -/

/-- `takeEOCProxyInfos`, for one proxy. -/
def takeEOCProxy (eocSn : ℤ) (group : Option GroupCoherentSet)
    (acc : StatefulWriter × List EOCProxyInfo) (rp : ReaderProxy) :
    StatefulWriter × List EOCProxyInfo :=
  let (w, infos) := acc
  if rp.suppressLiveData || rp.unsentFromSn.isSome then (w, infos)
  else if rp.sendingSn.isSome then (w.setProxy (rp.markUnsent eocSn), infos)
  else (w, infos ++ rp.selectedLocators.map (fun loc => {
    locator := loc
    readerGuid := rp.guid
    readerMatchId := rp.matchId
    eocSn := eocSn
    group := group }))

def takeEOCProxyInfos (w : StatefulWriter) : StatefulWriter × List EOCProxyInfo :=
  match w.pendingEocSn with
  | none => (w, [])
  | some eocSn =>
      w.readerProxies.foldl
        (takeEOCProxy eocSn ((w.findEndMarkerLocked eocSn).bind (·.group))) (w, [])

def sendEOCMarker (w : StatefulWriter) (i : EOCProxyInfo) : StatefulWriter :=
  w.send i.readerGuid [i.locator] (.endMarker i.marker)

/-- One datagram of `sendCombinedEOCData`: the markers for the readers behind one locator. -/
def sendCombinedTo (acc : StatefulWriter × List EOCProxyInfo) (dest : Locator × GuidPrefix) :
    StatefulWriter × List EOCProxyInfo :=
  let (w, infos) := acc
  if w.blocks w.attempts then
    (w.countAttempt, infos.map (fun i => if i.goesTo dest then { i with blocked := true } else i))
  else ((infos.filter (·.goesTo dest)).foldl sendEOCMarker w.countAttempt, infos)

def sendCombinedEOCData (w : StatefulWriter) (infos : List EOCProxyInfo) :
    StatefulWriter × List EOCProxyInfo :=
  ((infos.map (fun i => (i.locator, i.readerGuid.guidPrefix))).eraseDups).foldl sendCombinedTo
    (w, infos)

/-- The matches that none of their entries reached. -/
def unsentReaders (infos : List EOCProxyInfo) : List ReaderMatch :=
  ((infos.map (fun i => (⟨i.readerGuid, i.readerMatchId⟩ : ReaderMatch))).eraseDups).filter
    (fun m => infos.all (fun i => i.readerGuid != m.guid || i.blocked))

def flushGroupEOCHBOnly (w : StatefulWriter) (unsent : List ReaderMatch) : StatefulWriter :=
  match w.pendingEocSn with
  | none => w
  | some eocSn =>
      let w := { w with pendingEocSn := none }
      let w := if w.config.resumeHeld then
        unsent.foldl (fun w m => w.modifyMatch m (·.markUnsent eocSn)) w else w
      let w := w.flushedThrough eocSn
      let firstAvailable := w.firstAvailableSnLocked
      w.heartbeatAll (some (if 0 < firstAvailable then firstAvailable else 1))

/-! ### Replay and resume -/

/-- What `replayBatchUnlocked` does before it releases the lock. -/
inductive BatchStart where
  | nothing
  /-- A fragmented sample, sent under the lock. -/
  | sent (w : StatefulWriter) (batch : Batch)
  /-- Samples and markers to send with the lock released. -/
  | release (w : StatefulWriter) (items : List BatchItem)

/-- What a batch after `after` may send. -/
def batchItems (w : StatefulWriter) (after : ℤ) : List BatchItem :=
  let through := w.lastSentSnLocked
  mergeMarkers
    ((w.endMarkers.dropWhile (fun m => decide (m.sn ≤ after))).takeWhile
      (fun m => decide (m.sn ≤ through)))
    ((w.cache.changes.filter (fun ch => decide (after < ch.sequenceNumber))).takeWhile
      (fun ch => decide (ch.sequenceNumber ≤ through)))

/-- The item goes out in a datagram of its own. -/
def isWhole (cfg : WriterConfig) : BatchItem → Bool
  | .sample ch => !cfg.isFragmented ch
  | .marker _ => true

/-- A fragmented sample at the head of a batch. -/
def sendBatchFragmented (w : StatefulWriter) (rp : ReaderProxy) (ch : CacheChange) (after : ℤ) :
    StatefulWriter × Batch :=
  let hbCount := w.bumpHb.hbCount
  if rp.reliable then
    match w.bumpHb.sendFrag1ToProxyLocked rp ch hbCount with
    | (w, true) => (w, { through := ch.sequenceNumber, count := 1 })
    | (w, false) => (w, { through := after, blocked := true })
  else
    let firstFrag := if rp.unsentFromSn = some ch.sequenceNumber then rp.unsentFrag else 1
    match w.bumpHb.sendFragsToProxyLocked rp ch hbCount firstFrag with
    | (w, some frag) => (w, { through := after, blocked := true, nextFrag := frag })
    | (w, none) => (w, { through := ch.sequenceNumber, count := 1 })

def replayBatchUnlocked (w : StatefulWriter) (rp : ReaderProxy) (after : ℤ) (maxChanges : ℕ) :
    BatchStart :=
  if rp.selectedLocators.isEmpty then .nothing
  else
    match w.batchItems after with
    | [] => .nothing
    | .sample ch :: rest =>
        if w.config.isFragmented ch then
          let (w, batch) := w.sendBatchFragmented rp ch after
          .sent w batch
        else
          .release (if w.config.resumeHeld then
              w.setProxy { rp with sendingSn := some ch.sequenceNumber } else w)
            ((.sample ch :: rest.takeWhile (isWhole w.config)).take maxChanges)
    | .marker m :: rest =>
        .release (if w.config.resumeHeld then
            w.setProxy { rp with sendingSn := some m.sn } else w)
          ((.marker m :: rest.takeWhile (isWhole w.config)).take maxChanges)

/-- The batch of `items`, as a task. -/
def batchTask (rp : ReaderProxy) (after : ℤ) (items : List BatchItem) (ret : BatchReturn) : Task :=
  .batch rp.readerMatch (rp.selectedLocators.take 8) items { through := after } ret

def MAX_BEST_EFFORT_REPLAY_ROUNDS : ℕ := 16

/-- Hold the rest of a replay that would block. -/
def holdReplay (w : StatefulWriter) (m : ReaderMatch) (sent : Batch) : StatefulWriter :=
  w.modifyMatch m (fun rp =>
    let rp := { rp with suppressLiveData := false }.markUnsent (sent.through + 1)
    if rp.unsentFromSn = some (sent.through + 1) then { rp with unsentFrag := sent.nextFrag } else rp)

/-- The loop of `replayHistoryToProxyUnlocked`, to the first release of the lock.  Each round
under the lock sends a fragmented sample of its own, so the cache bounds the rounds. -/
def replayLoop (m : ReaderMatch) (historyThrough : ℤ) :
    ℕ → StatefulWriter → ℤ → ℕ → StatefulWriter × Option Task
  | 0, w, _, _ => (w, none)
  | fuel + 1, w, sentThrough, catchUpRounds =>
      match w.findMatchLocked m with
      | none => (w.reportReady m.guid true, none)
      | some rp =>
          let live := { rp with suppressLiveData := false }
          if historyThrough ≤ sentThrough ∧ catchUpRounds = MAX_BEST_EFFORT_REPLAY_ROUNDS then
            ((w.setProxy live).reportReady m.guid true, none)
          else
            let catchUpRounds :=
              if historyThrough ≤ sentThrough then catchUpRounds + 1 else catchUpRounds
            match w.replayBatchUnlocked rp sentThrough (2 ^ 64 - 1) with
            | .nothing => ((w.setProxy live).reportReady m.guid true, none)
            | .sent w sent =>
                if sent.blocked then ((w.holdReplay m sent).reportReady m.guid true, none)
                else replayLoop m historyThrough fuel w sent.through catchUpRounds
            | .release w items =>
                (w, some (batchTask rp sentThrough items (.replay historyThrough catchUpRounds)))

def replayFuel (w : StatefulWriter) : ℕ :=
  w.cache.changes.length + MAX_BEST_EFFORT_REPLAY_ROUNDS + 2

/-- Back under the lock after a batch of a replay. -/
def afterReplayBatch (w : StatefulWriter) (m : ReaderMatch) (sent : Batch) (historyThrough : ℤ)
    (catchUpRounds : ℕ) : StatefulWriter × Option Task :=
  if sent.blocked then ((w.holdReplay m sent).reportReady m.guid true, none)
  else replayLoop m historyThrough w.replayFuel w sent.through catchUpRounds

/-- The replay of a new match. -/
def replayHistoryToProxyUnlocked (w : StatefulWriter) (rp : ReaderProxy) :
    StatefulWriter × Option Task :=
  if rp.selectedLocators.isEmpty then
    (if rp.reliable then w else w.reportReady rp.guid true, none)
  else if rp.reliable then
    ((w.sendHeartbeatToProxyLockedWithLastSn rp false w.lastSentSnLocked).primeFragmented rp, none)
  else
    -- live data waits until the history is out
    replayLoop rp.readerMatch w.lastSentSnLocked w.replayFuel
      (w.setProxy { rp with suppressLiveData := true }) 0 0

end StatefulWriter

/-- After a batch of a resume held from `held`: go on behind what it sent, unless the start was
lowered meanwhile. -/
def ReaderProxy.resumeAt (rp : ReaderProxy) (held through : ℤ) (nextFrag : ℕ) : ReaderProxy :=
  if rp.unsentFromSn = some held then
    { rp with unsentFromSn := some (through + 1), unsentFrag := nextFrag }
  else rp

namespace StatefulWriter

def RESUME_BUDGET : ℕ := 64

/-- `resumeHeldLocked` at the proxy of `m`, the `i`-th, to the first release of the lock.  A round
under the lock spends budget or goes on to the next proxy. -/
def resumeLoop : ℕ → StatefulWriter → ℕ → ReaderMatch → ℕ → StatefulWriter × Option Task
  | 0, w, _, _, _ => (w.trimAckedLocked, none)
  | fuel + 1, w, i, m, budget =>
      let next := fun (w : StatefulWriter) (budget : ℕ) =>
        match w.readerProxies[i + 1]? with
        | none => (w.trimAckedLocked, none)
        | some rp => resumeLoop fuel w (i + 1) rp.readerMatch budget
      match w.findMatchLocked m with
      | none => next w budget
      | some rp =>
          match rp.unsentFromSn with
          | none => next w budget
          | some held =>
              if rp.sendingSn.isSome then next w budget
              else if budget = 0 then (w.trimAckedLocked, none)
              else
                match w.replayBatchUnlocked rp (held - 1) budget with
                | .nothing => next (w.setProxy { rp with unsentFromSn := none }) budget
                | .sent w sent =>
                    let w := w.modifyMatch m (·.resumeAt held sent.through sent.nextFrag)
                    if sent.blocked then next w (budget - max 1 sent.count)
                    else resumeLoop fuel w i m (budget - max 1 sent.count)
                | .release w items =>
                    (w, some (batchTask rp (held - 1) items (.resume i held budget)))

/-- A resume goes on behind the `i`-th proxy. -/
def resumeNext (fuel : ℕ) (w : StatefulWriter) (i budget : ℕ) : StatefulWriter × Option Task :=
  match w.readerProxies[i + 1]? with
  | none => (w.trimAckedLocked, none)
  | some rp => resumeLoop fuel w (i + 1) rp.readerMatch budget

def resumeFuel (w : StatefulWriter) (budget : ℕ) : ℕ := w.readerProxies.length + budget + 1

/-- `resumeHeldLocked`, from the `i`-th proxy on. -/
def resumeFrom (w : StatefulWriter) (i budget : ℕ) : StatefulWriter × Option Task :=
  match w.readerProxies[i]? with
  | none => (w.trimAckedLocked, none)
  | some rp => resumeLoop (w.resumeFuel budget) w i rp.readerMatch budget

def resumeHeldLocked (w : StatefulWriter) : StatefulWriter × Option Task :=
  w.resumeFrom 0 RESUME_BUDGET

/-- Back under the lock after a batch of a resume. -/
def afterResumeBatch (w : StatefulWriter) (m : ReaderMatch) (sent : Batch) (i : ℕ) (held : ℤ)
    (budget : ℕ) : StatefulWriter × Option Task :=
  match w.findMatchLocked m with
  | none => w.resumeFrom (i + 1) budget
  | some p =>
      let budget := budget - max 1 sent.count
      let w := w.setProxy (p.resumeAt held sent.through sent.nextFrag)
      if sent.blocked then w.resumeFrom (i + 1) budget
      else resumeLoop (w.resumeFuel budget) w i m budget

end StatefulWriter

/-! ### Matching a reader -/

/-- What discovery says of a reader. -/
structure MatchedReader where
  guid : Guid
  selectedLocators : List Locator
  reliable : Bool
  wantsReplay : Bool := true
  needsPidCoherentSetMarker : Bool := false
  isLocal : Bool := false

namespace StatefulWriter

/-- The proxy of a new match. -/
def newProxy (w : StatefulWriter) (m : MatchedReader) (gens : Locator → UInt32) : ReaderProxy :=
  let shouldReplay := w.config.replayOnMatch && m.wantsReplay
  let startSn := if shouldReplay then 1 else w.firstUnsentSnLocked
  -- an open coherent set is not history: the floor stops below it
  let historyLast := w.lastSentSnLocked
  let cacheFirst := w.cache.minSn
  let suppress := m.reliable && shouldReplay && decide (0 < cacheFirst) &&
    decide (cacheFirst ≤ historyLast)
  { guid := m.guid
    selectedLocators := m.selectedLocators
    reliable := m.reliable
    startSn := startSn
    suppressLiveData := suppress
    historyFloorSn := if suppress then historyLast else 0
    firstSentHbFirstSn := some (hbFirstSn w.firstAvailableSnLocked historyLast startSn none)
    protocolReady := !m.reliable
    wantsReplay := m.wantsReplay
    needsPidCoherentSetMarker := m.needsPidCoherentSetMarker
    isLocal := m.isLocal
    lastSeenConnectionGeneration :=
      m.selectedLocators.foldl (fun sum loc => sum + gens loc) 0
    matchId := w.lastMatchId + 1
    historyFloor_nonneg := by
      split
      next h =>
        simp only [suppress, Bool.and_eq_true, decide_eq_true_eq] at h
        omega
      next => exact le_rfl }

/-- The first HEARTBEAT of a match without replay, as a task. -/
def sendInitialHeartbeatUnlocked (w : StatefulWriter) (rp : ReaderProxy) :
    StatefulWriter × Option Task :=
  if rp.selectedLocators.isEmpty then (w, none)
  else (w.bumpHb, some (.initialHeartbeat rp.guid rp.startSn (rp.selectedLocators.take 8)
    ⟨w.lastSentSnLocked, w.firstAvailableSnLocked, w.bumpHb.hbCount⟩))

/-- A lease refresh: the locators and what the reader asks for are new, its progress stays. -/
def refreshMatch (w : StatefulWriter) (rp : ReaderProxy) (m : MatchedReader)
    (gens : Locator → UInt32) : StatefulWriter :=
  let rp := { rp with
    selectedLocators := m.selectedLocators
    reliable := m.reliable
    wantsReplay := m.wantsReplay
    isLocal := m.isLocal }
  resyncIfGenerationChangedLocked gens (w.setProxy rp) rp

/-- What follows the new proxy of a match. -/
def greet (w : StatefulWriter) (rp : ReaderProxy) : StatefulWriter × Option Task :=
  if w.config.replayOnMatch && rp.wantsReplay then w.replayHistoryToProxyUnlocked rp
  else if rp.reliable then w.sendInitialHeartbeatUnlocked rp
  else (w.reportReady rp.guid true, none)

def addOrRefreshMatchedReaderWith (w : StatefulWriter) (m : MatchedReader)
    (gens : Locator → UInt32) (isCurrent : Bool) : StatefulWriter × Option Task :=
  if !isCurrent then (w, none)
  else
    match h : w.findReaderProxyLocked m.guid with
    | some rp => (w.refreshMatch rp m gens, none)
    | none =>
        let rp := w.newProxy m gens
        { w.appendProxy rp h with lastMatchId := w.lastMatchId + 1 }.greet rp

/-! ### Writing -/

/-- A sample to write. -/
structure Sample where
  kind : ChangeKind
  sourceTimestamp : RtpsTimestamp
  instanceHandle : InstanceHandle
  keyHash : KeyHash
  data : List UInt8

/-- Add a sample to the history. -/
def addSample (w : StatefulWriter) (s : Sample) : StatefulWriter :=
  { w with cache := (w.cache.addWriterChange s.kind w.config.guid s.sourceTimestamp
      s.instanceHandle s.keyHash s.data).2 }

/-- `write`; `suspended` is for the log only. -/
def write (w : StatefulWriter) (s : Sample) (suspended : Bool) : StatefulWriter × Option Task :=
  let sn := w.cache.nextSn
  let w := (w.addSample s).emit (.wrote sn suspended)
  if w.coherentActive then ({ w with coherentPendingSns := w.coherentPendingSns ++ [sn] }, none)
  else
    match w.cache.getChange sn with
    | none => (w, none)
    | some ch =>
        match w.sendChangeToAllLocked ch true .write with
        | (w, none) => (w.trimAckedLocked, none)
        | (w, some task) => (w, some task)

/-! ### Tasks take a step -/

/-- Back under the lock, where the send was called from. -/
def returnFromSend (w : StatefulWriter) : SendReturn → StatefulWriter × Option Task
  | .write => (w.trimAckedLocked, none)
  | .preWindow rest e => w.flushPreWindow e rest
  | .window rest e => w.flushWindow e rest

/-- Back under the lock after a batch. -/
def returnFromBatch (w : StatefulWriter) (m : ReaderMatch) (sent : Batch) (ret : BatchReturn) :
    StatefulWriter × Option Task :=
  let w := if w.config.resumeHeld then w.modifyMatch m (fun rp => { rp with sendingSn := none })
    else w
  match ret with
  | .replay historyThrough catchUpRounds => w.afterReplayBatch m sent historyThrough catchUpRounds
  | .resume i held budget => w.afterResumeBatch m sent i held budget

/-- One send of a task with the lock released, or its next stretch under the lock. -/
def runTask (w : StatefulWriter) : Task → StatefulWriter × Option Task
  | .sendChange ch todo (some (s, hb)) done ret =>
      (w.sendHeartbeatUnlocked s.readerMatch.guid s.startSn s.locs false hb.lastSn hb.count
        hb.cacheFirst, some (.sendChange ch todo none done ret))
  | .sendChange ch (s :: todo) none done ret =>
      match w.sendData s.readerMatch.guid s.locs (.data ch) with
      | (w, true) =>
          (w, some (.sendChange ch todo (s.hb.map (fun hb => (s, hb))) (done ++ [s]) ret))
      | (w, false) =>
          (w, some (.sendChange ch todo none (done ++ [{ s with blocked := true }]) ret))
  | .sendChange ch [] none done ret => (w.endSends ch.sequenceNumber done).returnFromSend ret
  | .batch m locs (item :: todo) sent ret =>
      match w.sendData m.guid locs item.message with
      | (w, true) =>
          (w, some (.batch m locs todo { sent with through := item.sn, count := sent.count + 1 } ret))
      | (w, false) => (w, some (.batch m locs [] { sent with blocked := true } ret))
  | .batch m _ [] sent ret => w.returnFromBatch m sent ret
  | .initialHeartbeat reader startSn locs hb =>
      (w.sendHeartbeatUnlocked reader startSn locs false hb.lastSn hb.count hb.cacheFirst, none)
  | .takeEOC =>
      let (w, infos) := w.takeEOCProxyInfos
      (w, some (.sendEOC infos))
  | .sendEOC infos =>
      let (w, infos) := w.sendCombinedEOCData infos
      (w, some (.flushEOC infos))
  | .flushEOC infos => (w.flushGroupEOCHBOnly (unsentReaders infos), none)

end StatefulWriter

/-! ### The machine -/

/-- The task holds the publisher's lock. -/
def Task.holdsPublisher : Task → Bool
  | sendChange _ _ _ _ .write => false
  | sendChange _ _ _ _ (.preWindow _ _) => true
  | sendChange _ _ _ _ (.window _ _) => true
  | batch _ _ _ _ _ => false
  | initialHeartbeat _ _ _ _ => false
  | takeEOC => true
  | sendEOC _ => true
  | flushEOC _ => true

/-- The task is an `endCoherentSet` that leaves publications suspended. -/
def Task.resuspends : Task → Bool
  | sendChange _ _ _ _ (.preWindow _ e) => e.resuspend
  | sendChange _ _ _ _ (.window _ e) => e.resuspend
  | _ => false

/-- The writer, and the calls under way with its lock released. -/
structure Machine where
  writer : StatefulWriter
  tasks : List Task := []

inductive WriterAction where
  | write (s : StatefulWriter.Sample)
  | sendHeartbeat (final liveliness : Bool)
  | handleAckNack (reader : Guid) (highestSn : ℤ) (nackSet : SequenceNumberSet) (count : Int32)
      (isFinal : Bool)
  | handleNackFrag (reader : Guid) (writerSn : ℤ) (fragSet : FragmentNumberSet) (count : Int32)
  | addOrRefreshMatchedReader (m : MatchedReader) (gens : Locator → UInt32) (isCurrent : Bool)
  | removeMatchedReader (guid : Guid)
  | checkConnectionGenerations (gens : Locator → UInt32)
  | resumeHeld
  | beginCoherentSet (isCoherentWindow : Bool)
  | endCoherentSet (e : EndSet)
  /-- The `i`-th task takes a step. -/
  | task (i : ℕ)

namespace Machine

/-- A coherent set or a suspension is open, or is to stay open behind a flush under way. -/
def suspended (c : Machine) : Bool :=
  c.writer.coherentActive || c.tasks.any (·.resuspends)

/-- The publisher's lock is free. -/
def publisherFree (c : Machine) : Bool := c.tasks.all (fun t => !t.holdsPublisher)

/-- The writer after a call, and the task the call leaves. -/
def start (c : Machine) (r : StatefulWriter × Option Task) : Machine :=
  ⟨r.1, c.tasks ++ r.2.toList⟩

/-- One action; `none` when it cannot be taken. -/
def step (c : Machine) : WriterAction → Option Machine
  | .write s => some (c.start (c.writer.write s c.suspended))
  | .sendHeartbeat final liveliness => some { c with writer := c.writer.sendHeartbeat final liveliness }
  | .handleAckNack reader highestSn nackSet count isFinal =>
      some { c with writer := c.writer.handleAckNack reader highestSn nackSet count isFinal }
  | .handleNackFrag reader writerSn fragSet count =>
      (c.writer.handleNackFrag reader writerSn fragSet count).map (fun w => { c with writer := w })
  | .addOrRefreshMatchedReader m gens isCurrent =>
      some (c.start (c.writer.addOrRefreshMatchedReaderWith m gens isCurrent))
  | .removeMatchedReader guid => some { c with writer := c.writer.removeMatchedReader guid }
  | .checkConnectionGenerations gens =>
      some { c with writer := c.writer.checkConnectionGenerations gens }
  | .resumeHeld => some (c.start c.writer.resumeHeldLocked)
  | .beginCoherentSet isCoherentWindow =>
      if c.publisherFree then some { c with writer := c.writer.beginCoherentSet isCoherentWindow }
      else none
  | .endCoherentSet e =>
      if c.publisherFree then some (c.start (c.writer.endCoherentSet e)) else none
  | .task i =>
      match c.tasks[i]? with
      | none => none
      | some t =>
          let r := c.writer.runTask t
          some ⟨r.1, c.tasks.take i ++ r.2.toList ++ c.tasks.drop (i + 1)⟩

/-- A run: `none` once an action cannot be taken. -/
def run (c : Machine) : List WriterAction → Option Machine
  | [] => some c
  | a :: as => (c.step a).bind (·.run as)

end Machine

end Zzdds.Rtps
