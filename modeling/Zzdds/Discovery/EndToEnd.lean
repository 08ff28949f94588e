import Zzdds.Discovery.Converge
import Zzdds.Rtps.Writer.LiveSend

/-! # An announcement and its discovery

What a built-in writer sends a matched peer for an announcement, and what the peer's `onReceive`
makes of it.  The writer sends a payload beyond `DEFAULT_FRAG_SIZE` in fragments, and `onReceive`
passes over DATA_FRAG and HEARTBEAT_FRAG, so that such an announcement is never discovered; a
smaller one is discovered once (`announcement_discovered_iff`). -/

namespace Zzdds.Discovery

open Zzdds.Lib Zzdds.Rtps SedpEndpoints

/-! ### Announcements -/

inductive Announcement where
  | writer (ann : WriterAnnouncement)
  | reader (ann : ReaderAnnouncement)
deriving DecidableEq, Repr

namespace Announcement

def isWriter : Announcement → Bool
  | writer _ => true
  | reader _ => false

def guid : Announcement → Guid
  | writer ann => ann.guid
  | reader ann => ann.guid

def partitionNames : Announcement → List (List UInt8)
  | writer ann => ann.partitionNames
  | reader ann => ann.partitionNames

/-- The type information, which only a writer announces. -/
def typeInfo : Announcement → List UInt8
  | writer ann => ann.typeInfoCdr
  | reader _ => []

def encode (cfg : SedpConfig) (xtypes : Bool) : Announcement → Outcome CodecError (List UInt8)
  | writer ann => encodeWriterData xtypes cfg.writerCodec ann
  | reader ann => encodeReaderData xtypes cfg.readerCodec ann

/-- The endpoint discovered has the GUID, the names, the partition names and the type information
announced. -/
def Faithful : Announcement → EndpointData → Prop
  | writer ann, .writer data => data.guid = ann.guid ∧ data.topicName = ann.topicName ∧
      data.typeName = ann.typeName ∧ data.partitionNames = ann.partitionNames ∧
      data.typeObject = ann.typeInfoCdr
  | reader ann, .reader data => data.guid = ann.guid ∧ data.topicName = ann.topicName ∧
      data.typeName = ann.typeName ∧ data.partitionNames = ann.partitionNames
  | _, _ => False

/-- Nothing of the announcement is lost on its way through the payload. -/
def Plain (xtypes : Bool) (ann : Announcement) : Prop :=
  (∀ n ∈ ann.partitionNames, (0 : UInt8) ∉ n) ∧ (xtypes = true ∨ ann.typeInfo = [])

end Announcement

variable {cfg : SedpConfig} {xtypes : Bool} {b : List UInt8} {ann : Announcement}

theorem map_span_eq_iff {names : List (List UInt8)} :
    names.map (fun n => (span n).bytes) = names ↔ ∀ n ∈ names, (0 : UInt8) ∉ n := by
  have hid : names.map (fun n => (span n).bytes) = names.map id ↔
      ∀ n ∈ names, (span n).bytes = id n := List.map_inj_left
  rw [List.map_id] at hid
  rw [hid]
  constructor
  · intro h n hn
    have hnul := (span n).noNul
    rwa [h n hn] at hnul
  · intro h n hn
    exact congrArg CString.bytes (span_bytes ⟨n, h n hn⟩)

theorem typeObject_eq_iff {ti : List UInt8} :
    (if xtypes then ti else []) = ti ↔ xtypes = true ∨ ti = [] := by
  cases xtypes <;> simp [eq_comm]

theorem length_of_encode (hw : cfg.writerCodec.RoundTrips) (hr : cfg.readerCodec.RoundTrips)
    (h : ann.encode cfg xtypes = .ok b) : 4 ≤ b.length := by
  cases ann with
  | writer ann =>
    obtain ⟨out, -, hs⟩ := Outcome.bind_eq_ok.mp h
    exact hw.header out b (PlCdr.emitPlCdr_eq_ok.mp hs)
  | reader ann =>
    obtain ⟨out, -, hs⟩ := Outcome.bind_eq_ok.mp h
    exact hr.header out b (PlCdr.emitPlCdr_eq_ok.mp hs)

/-- What the payload of an announcement is read as. -/
theorem endpointData_of_encode (hw : cfg.writerCodec.RoundTrips) (hr : cfg.readerCodec.RoundTrips)
    (h : ann.encode cfg xtypes = .ok b) :
    ∃ ep, (ann.Faithful ep ↔ ann.Plain xtypes) ∧ cfg.endpointData ann.isWriter b =
      if cfg.Reaches ann.guid.guidPrefix then some ep else none := by
  cases ann with
  | writer ann =>
    obtain ⟨data, hdata, hg, ht, hy, hp, ho⟩ : ∃ data : WriterData,
        cfg.writerData b = (if cfg.Reaches ann.guid.guidPrefix then some data else none) ∧
          data.guid = ann.guid ∧ data.topicName = ann.topicName ∧ data.typeName = ann.typeName ∧
          data.partitionNames = ann.partitionNames.map (fun n => (span n).bytes) ∧
          data.typeObject = if xtypes then ann.typeInfoCdr else [] := by
      obtain ⟨out, -, hdata⟩ := writerData_of_encode hw h
      exact ⟨_, hdata, rfl, rfl, rfl, rfl, rfl⟩
    refine ⟨.writer data, ?_, ?_⟩
    · simp only [Announcement.Faithful, Announcement.Plain, Announcement.partitionNames,
        Announcement.typeInfo, hg, ht, hy, hp, ho, map_span_eq_iff, typeObject_eq_iff, true_and]
    · rw [Announcement.isWriter, SedpConfig.endpointData, if_pos rfl, hdata, Announcement.guid]
      split <;> rfl
  | reader ann =>
    obtain ⟨data, hdata, hg, ht, hy, hp⟩ : ∃ data : ReaderData,
        cfg.readerData b = (if cfg.Reaches ann.guid.guidPrefix then some data else none) ∧
          data.guid = ann.guid ∧ data.topicName = ann.topicName ∧ data.typeName = ann.typeName ∧
          data.partitionNames = ann.partitionNames.map (fun n => (span n).bytes) := by
      obtain ⟨out, -, hdata⟩ := readerData_of_encode hr h
      exact ⟨_, hdata, rfl, rfl, rfl, rfl⟩
    refine ⟨.reader data, ?_, ?_⟩
    · simp only [Announcement.Faithful, Announcement.Plain, Announcement.partitionNames,
        Announcement.typeInfo, hg, ht, hy, hp, map_span_eq_iff, true_and, or_true, and_true]
    · rw [Announcement.isWriter, SedpConfig.endpointData, if_neg Bool.false_ne_true, hdata,
        Announcement.guid]
      split <;> rfl

/-! ### The peer -/

def DiscoveryEvent.discovered? : DiscoveryEvent → Option EndpointData
  | discovered data => some data
  | _ => none

/-- The endpoints discovered, one for each callback. -/
def SedpEndpoints.discovered (s : SedpEndpoints) : List EndpointData :=
  s.events.filterMap DiscoveryEvent.discovered?

/-- A built-in reader that has all of a peer's writer below `sn`, and nothing from there on. -/
structure SedpEndpoints.CaughtUp (s : SedpEndpoints) (isWriter : Bool) (srcPrefix : GuidPrefix)
    (sn : ℤ) : Prop where
  reads : ReadsAll (s.reader isWriter).core
  proxy : ∃ wp, (s.reader isWriter).find (peer srcPrefix isWriter) = some wp ∧
    (∀ n, n ∈ wp.received ↔ 1 ≤ n ∧ n < sn) ∧ wp.pendingChanges = []
  cached : ∀ ch ∈ (s.reader isWriter).core.cache.changes,
    ch.writerGuid = peer srcPrefix isWriter → ch.sequenceNumber < sn

/-- `s'` is `s` after something that told nothing. -/
structure SedpEndpoints.Quiet (isWriter : Bool) (srcPrefix : GuidPrefix) (sn : ℤ)
    (s s' : SedpEndpoints) : Prop where
  config : s'.config = s.config
  discovered : s'.discovered = s.discovered
  caughtUp : s'.CaughtUp isWriter srcPrefix sn

variable {s s' s'' : SedpEndpoints} {isWriter : Bool} {srcPrefix : GuidPrefix} {now : RtpsTimestamp}
  {sn : ℤ} {wp : WriterProxy} {core : ReaderCore} {r : StatefulReader}

namespace SedpEndpoints.Quiet

theorem refl (h : s.CaughtUp isWriter srcPrefix sn) : Quiet isWriter srcPrefix sn s s :=
  ⟨rfl, rfl, h⟩

theorem trans (h : Quiet isWriter srcPrefix sn s s') (h' : Quiet isWriter srcPrefix sn s' s'') :
    Quiet isWriter srcPrefix sn s s'' :=
  ⟨h'.config.trans h.config, h'.discovered.trans h.discovered, h'.caughtUp⟩

end SedpEndpoints.Quiet

/-- A peer just matched, of which the reader has nothing. -/
theorem caughtUp_matchRemote (locs : List Locator) (hr : ReadsAll (s.reader isWriter).core)
    (hnew : (s.reader isWriter).find (peer srcPrefix isWriter) = none)
    (hc : ∀ ch ∈ (s.reader isWriter).core.cache.changes, ch.writerGuid ≠ peer srcPrefix isWriter) :
    (s.matchRemote isWriter srcPrefix locs).CaughtUp isWriter srcPrefix 1 := by
  obtain ⟨hreads, ⟨wp, hw, hrecv, hpend⟩, hcache⟩ := matchRemote_new locs hr hnew
  refine ⟨hreads, ⟨wp, hw, fun n => ?_, hpend⟩, ?_⟩
  · rw [hrecv]
    constructor
    · intro hn
      exact absurd hn (ReceivedSet.not_mem_empty n)
    · rintro ⟨h1, hlt⟩
      omega
  · rw [hcache]
    exact fun ch hm hw => absurd hw (hc ch hm)

/-! ### What trails a sample -/

/-- Numbers received before are not counted as lost. -/
theorem markGone_received : ∀ {sns : List ℤ} {received : ReceivedSet},
    (∀ n ∈ sns, n ∈ received) → markGone received sns = (received, 0)
  | [], _, _ => rfl
  | n :: sns, received, h => by
      have hn : received.contains n = true := h n List.mem_cons_self
      have hins : received.insert n = received := by
        unfold ReceivedSet.insert
        rw [dif_pos (.inr hn)]
      have hrest := markGone_received fun m hm => h m (List.mem_cons_of_mem n hm)
      unfold markGone at hrest ⊢
      rw [List.foldl_cons, hins, if_pos hn]
      exact hrest

theorem advancePast_received {sns : List ℤ} (h : ∀ n ∈ sns, n ∈ wp.received) :
    advancePast core wp sns = some (core, wp, 0) := by
  have hdel : deliverPendingLocked core wp wp.received.cumulativeAck = (core, wp) := by
    rw [deliverPendingLocked, Int.sub_self]
    rfl
  have hfits : lostFits 0 = some () := rfl
  simp only [advancePast, markGone_received h, hfits, Option.bind_eq_bind, Option.bind_some, hdel]
  split <;> rfl

/-- A GAP of numbers received before does nothing. -/
theorem handleGap_received {gapStart : ℤ} {gapList : SequenceNumberSet}
    (hfit : gapList.base + gapList.numBits < 2 ^ 63)
    (h : ∀ n ∈ gapSns gapStart gapList, n ∈ wp.received) :
    handleGapLocked core wp gapStart gapList = some (core, wp) := by
  have hlost : core.reportLost 0 = core := by simp [ReaderCore.reportLost]
  simp only [handleGapLocked, not_le.mpr hfit, if_false, advancePast_received h,
    Option.bind_eq_bind, Option.bind_some, hlost]
  rfl

/-- A HEARTBEAT of a history received before only acknowledges. -/
theorem handleHeartbeat_received {readerId : EntityId} {firstSn lastSn : ℤ} {count : Int32}
    {final : Bool} (h : firstSn ≤ wp.received.cumulativeAck + 1) :
    ∃ out, handleHeartbeatLocked core wp readerId firstSn lastSn count final = some out ∧
      Still core out.1 ∧ out.2.guid = wp.guid ∧ out.2.received = wp.received ∧
      out.2.pendingChanges = wp.pendingChanges := by
  have hgone : ∀ n ∈ heartbeatGone core (acceptHeartbeat core wp readerId lastSn count) firstSn,
      n ∈ (acceptHeartbeat core wp readerId lastSn count).received := by
    intro n hn
    unfold heartbeatGone at hn
    split at hn
    · have hn := Int.mem_range_iff.mp hn
      have hack : (acceptHeartbeat core wp readerId lastSn count).received.cumulativeAck =
          wp.received.cumulativeAck := rfl
      omega
    · cases hn
  have hadv : advancePast core (acceptHeartbeat core wp readerId lastSn count)
      (heartbeatGone core (acceptHeartbeat core wp readerId lastSn count) firstSn) =
        some (core, acceptHeartbeat core wp readerId lastSn count, 0) := advancePast_received hgone
  have hsome : ∃ out, handleHeartbeatLocked core wp readerId firstSn lastSn count final = some out := by
    unfold handleHeartbeatLocked
    split
    · exact ⟨_, rfl⟩
    · simp only [hadv, Option.bind_eq_bind, Option.bind_some]
      exact ⟨_, rfl⟩
  obtain ⟨out, hout⟩ := hsome
  refine ⟨out, hout, ?_⟩
  rcases handleHeartbeatLocked_cases hout with rfl | ⟨adv, hadv', h₂, hstill⟩
  · exact ⟨.refl core, rfl, rfl, rfl⟩
  · rw [hadv] at hadv'
    cases hadv'
    rw [h₂]
    exact ⟨hstill, rfl, rfl, rfl⟩

/-! ### The peer's operations -/

/-- Who has all below `sn` acknowledges up to there. -/
theorem cumulativeAck_of_mem {rs : ReceivedSet} (hpos : 0 < sn)
    (h : ∀ n, n ∈ rs ↔ 1 ≤ n ∧ n < sn) : rs.cumulativeAck + 1 = sn := by
  have hle : sn - 1 ≤ rs.cumulativeAck :=
    ReceivedSet.le_cumulativeAck_iff.mpr fun m h1 hm => (h m).mpr ⟨h1, by omega⟩
  have hlt : rs.cumulativeAck < sn := by
    by_contra hge
    have hm : sn ∈ rs := ReceivedSet.mem_of_le_cumulativeAck hpos (by omega)
    have := (h sn).mp hm
    omega
  omega

/-- A submessage that brings the reader nothing new tells nothing. -/
theorem caughtUp_still {sm : SubMessage} {op : ReaderOp} (h : s.CaughtUp isWriter srcPrefix sn)
    (hid : senderId sm = some (writerEntityId isWriter))
    (hop : readerOp srcPrefix isWriter now sm = some op) (hp : hasPayload sm = true)
    (hstep : ∀ wp, (s.reader isWriter).find (peer srcPrefix isWriter) = some wp →
      (∀ n, n ∈ wp.received ↔ 1 ≤ n ∧ n < sn) →
      ∃ r' wp', (s.reader isWriter).step op = some r' ∧ Still (s.reader isWriter).core r'.core ∧
        r'.find (peer srcPrefix isWriter) = some wp' ∧ wp'.received = wp.received ∧
        wp'.pendingChanges = wp.pendingChanges) :
    ∃ s', s.route sm srcPrefix now false = some s' ∧ Quiet isWriter srcPrefix sn s s' := by
  obtain ⟨wp, hw, hrecv, hpend⟩ := h.proxy
  obtain ⟨r', wp', hr, hstill, hw', hrecv', hpend'⟩ := hstep wp hw hrecv
  obtain ⟨s', hs', htold⟩ : ∃ s', s.route sm srcPrefix now false = some s' ∧
      Told isWriter s s' r' [] := route_told hid hop hp hr
  obtain ⟨evs, hlog, hnone⟩ := processed_of_still s.config isWriter hstill
  refine ⟨s', hs', htold.config, ?_, ?_, ?_, ?_⟩
  · have hevents := htold.events
    rw [hlog, List.drop_left, hnone, List.append_nil, List.append_nil] at hevents
    rw [SedpEndpoints.discovered, hevents]
    rfl
  · rw [htold.reader]
    exact h.reads.still hstill
  · rw [htold.reader]
    exact ⟨wp', hw', by rw [hrecv']; exact hrecv, hpend'.trans hpend⟩
  · rw [htold.reader, hstill.cache]
    exact h.cached

theorem caughtUp_gap {gap : GapSubmessage} (h : s.CaughtUp isWriter srcPrefix (sn + 1))
    (hid : gap.writerEntityId = writerEntityId isWriter) (hstart : 0 < gap.gapStart)
    (hbase : gap.gapList.base ≤ sn + 1) (hbits : gap.gapList.numBits = 0) (hsn : sn + 1 < 2 ^ 63) :
    ∃ s', s.onSubMessage srcPrefix now (.gap gap) = some s' ∧
      Quiet isWriter srcPrefix (sn + 1) s s' := by
  refine caughtUp_still h (congrArg some hid) rfl rfl fun wp hw hrecv => ?_
  have hsns : ∀ n ∈ gapSns gap.gapStart gap.gapList, n ∈ wp.received := by
    intro n hn
    rw [gapSns, hbits] at hn
    rcases List.mem_append.mp hn with hn | hn
    · have := Int.mem_range_iff.mp hn
      exact (hrecv n).mpr ⟨by omega, by omega⟩
    · have := Int.mem_range_iff.mp (List.mem_of_mem_filter hn)
      push_cast at this
      omega
  have hout : handleGapLocked (s.reader isWriter).core wp gap.gapStart gap.gapList =
      some ((s.reader isWriter).core, wp) := handleGap_received (by rw [hbits]; push_cast; omega) hsns
  have hguid : wp.guid = peer srcPrefix isWriter := StatefulReader.find_guid hw
  have hset : ((s.reader isWriter).setProxy (s.reader isWriter).core wp).find wp.guid = some wp :=
    StatefulReader.find_setProxy (by simp [hguid, hw])
  refine ⟨(s.reader isWriter).setProxy (s.reader isWriter).core wp, wp, ?_, .refl _, ?_, rfl, rfl⟩
  · simp only [StatefulReader.step, StatefulReader.onProxy, hw, hout, Option.map_some]
  · rw [← hguid]
    exact hset

theorem caughtUp_heartbeat {hb : HeartbeatSubmessage} (h : s.CaughtUp isWriter srcPrefix (sn + 1))
    (hpos : 0 < sn) (hid : hb.writerEntityId = writerEntityId isWriter)
    (hfirst : hb.firstSn ≤ sn + 1) :
    ∃ s', s.onSubMessage srcPrefix now (.heartbeat hb) = some s' ∧
      Quiet isWriter srcPrefix (sn + 1) s s' := by
  refine caughtUp_still h (congrArg some hid) rfl rfl fun wp hw hrecv => ?_
  simp only [StatefulReader.step]
  split
  · exact ⟨_, wp, rfl, .refl _, hw, rfl, rfl⟩
  · have hack := cumulativeAck_of_mem (by omega) hrecv
    obtain ⟨out, hout, hstill, hguid, hrecv', hpend'⟩ : ∃ out,
        handleHeartbeatLocked (s.reader isWriter).core wp hb.readerEntityId hb.firstSn hb.lastSn
          hb.count hb.isFinal = some out ∧ Still (s.reader isWriter).core out.1 ∧
        out.2.guid = wp.guid ∧ out.2.received = wp.received ∧
        out.2.pendingChanges = wp.pendingChanges :=
      handleHeartbeat_received (hack.symm ▸ hfirst)
    have hguid' : out.2.guid = peer srcPrefix isWriter :=
      hguid.trans (StatefulReader.find_guid hw)
    have hset : ((s.reader isWriter).setProxy out.1 out.2).find out.2.guid = some out.2 :=
      StatefulReader.find_setProxy (by simp [hguid', hw])
    refine ⟨(s.reader isWriter).setProxy out.1 out.2, out.2, ?_, hstill, ?_, hrecv', hpend'⟩
    · simp only [StatefulReader.onProxy, hw, hout, Option.map_some]
    · rw [← hguid']
      exact hset

/-- A change that the cache does not have is handed over as it is. -/
theorem handOver_new {ch : CacheChange} {writer : Guid} (hr : ReadsAll core) (hd : ch.data ≠ [])
    (hnew : ∀ ch' ∈ core.cache.changes, ch'.writerGuid = ch.writerGuid →
      ch'.sequenceNumber ≠ ch.sequenceNumber) :
    core.handOver writer ch = { core with
      cache := core.cache.addReaderChange ch
      log := core.log ++ [.onData writer ch] } := by
  have hmark : isEndMarker ch = false := by
    have hne : ch.data.isEmpty = false := by simpa using hd
    simp [isEndMarker, hne]
  obtain ⟨cached, hget, hsn, hw⟩ := core.cache.getChangeForWriter_addReaderChange ch
  have hcached : cached = ch := by
    have hmem := List.mem_of_find?_eq_some hget
    unfold HistoryCache.addReaderChange at hmem
    split at hmem
    · exact absurd hsn (hnew cached hmem hw)
    · rcases List.mem_append.mp hmem with hmem | hmem
      · exact absurd hsn (hnew cached ((HistoryCache.trimForKeepLast_sublist _ _).subset hmem) hw)
      · exact List.mem_singleton.mp hmem
  rw [hcached] at hget
  unfold ReaderCore.handOver
  simp only [hmark, Bool.false_eq_true, if_false, hr.callback, if_true, hget, ReaderCore.emit]

/-- The next sample of a writer is handed over, and nothing else. -/
theorem handleData_next {ch : CacheChange} (hr : ReadsAll core) (hpos : 0 < sn)
    (hrecv : ∀ n, n ∈ wp.received ↔ 1 ≤ n ∧ n < sn) (hpend : wp.pendingChanges = [])
    (hsn : ch.sequenceNumber = sn) (hd : ch.data ≠ [])
    (hnew : ∀ ch' ∈ core.cache.changes, ch'.writerGuid = ch.writerGuid → ch'.sequenceNumber < sn) :
    ∃ wp', handleDataLocked core wp ch = ({ core with
        cache := core.cache.addReaderChange ch
        log := core.log ++ [.onData wp.guid ch] }, wp') ∧ wp'.guid = wp.guid ∧
      (∀ n, n ∈ wp'.received ↔ 1 ≤ n ∧ n < sn + 1) ∧ wp'.pendingChanges = [] := by
  have hfree : ¬ wp.received.contains ch.sequenceNumber = true := by
    rw [hsn]
    intro hc
    have := (hrecv sn).mp hc
    omega
  have hmem : ∀ n, n ∈ wp.received.insert sn ↔ 1 ≤ n ∧ n < sn + 1 := by
    intro n
    rw [ReceivedSet.mem_insert, hrecv]
    omega
  have hack : (wp.received.insert sn).cumulativeAck + 1 = sn + 1 :=
    cumulativeAck_of_mem (by omega) hmem
  refine ⟨{ wp with received := wp.received.insert sn }, ?_, rfl, hmem, hpend⟩
  have hnext : sn = wp.received.cumulativeAck + 1 := (cumulativeAck_of_mem hpos hrecv).symm
  have hother : ∀ ch' ∈ core.cache.changes, ch'.writerGuid = ch.writerGuid →
      ch'.sequenceNumber ≠ ch.sequenceNumber := by
    intro ch' hm hw
    have := hnew ch' hm hw
    omega
  rw [handleDataLocked, if_neg hfree, deliverChangeLocked, SedpStream.Converges.process_eq hr]
  dsimp only
  rw [if_pos hr.reliable, if_pos (hsn.trans hnext), handOver_new hr hd hother, hsn]
  have hdel : (wp.received.insert sn).cumulativeAck - sn = 0 := by omega
  rw [deliverPendingLocked, hdel]
  rfl

/-- The DATA of the next sample is told, once. -/
theorem caughtUp_data {d : DataSubmessage} (h : s.CaughtUp isWriter srcPrefix sn) (hpos : 0 < sn)
    (hid : d.writerEntityId = writerEntityId isWriter) (hsn : d.writerSn = sn)
    (hp : d.serializedPayload ≠ []) (hdis : isDisposal d = false) :
    ∃ s', s.onSubMessage srcPrefix now (.data d) = some s' ∧ s'.config = s.config ∧
      s'.discovered = s.discovered ++
        (s.config.endpointData isWriter d.serializedPayload).toList ∧
      s'.CaughtUp isWriter srcPrefix (sn + 1) := by
  obtain ⟨wp, hw, hrecv, hpend⟩ := h.proxy
  have hguid : wp.guid = peer srcPrefix isWriter := StatefulReader.find_guid hw
  let ch := makeAliveCacheChange (peer srcPrefix isWriter) d.writerSn d.serializedPayload now
  have hnext : ch.sequenceNumber = sn := hsn
  obtain ⟨wp', hdata, hguid', hrecv', hpend'⟩ := handleData_next h.reads hpos hrecv hpend hnext hp
    h.cached
  have hsender : senderId (.data d) = some (writerEntityId isWriter) := congrArg some hid
  have hpay : hasPayload (.data d) = true := by simpa [hasPayload] using hp
  have hstep : (s.reader isWriter).step (.data (peer srcPrefix isWriter) ch) = some
      ((s.reader isWriter).setProxy { (s.reader isWriter).core with
        cache := (s.reader isWriter).core.cache.addReaderChange ch
        log := (s.reader isWriter).core.log ++ [.onData wp.guid ch] } wp') := by
    simp only [StatefulReader.step, StatefulReader.onProxy, hw, hdata, Option.map_some]
  obtain ⟨s', hs', htold⟩ : ∃ s', s.route (.data d) srcPrefix now true = some s' ∧
      Told isWriter s s' _ (if true then [.sedpSeen srcPrefix] else []) :=
    route_told hsender rfl hpay hstep
  have hroute : s.onSubMessage srcPrefix now (.data d) = s.route (.data d) srcPrefix now true := by
    have hspdp : ¬ d.writerEntityId = EntityIds.spdpBuiltinParticipantWriter := by
      rw [hid]
      exact writerEntityId_ne_spdp isWriter
    have hne : d.serializedPayload.isEmpty = false := by simpa using hp
    simp only [SedpEndpoints.onSubMessage, hdis, hne, hspdp, Bool.false_eq_true, if_false]
  have hset : ((s.reader isWriter).setProxy { (s.reader isWriter).core with
        cache := (s.reader isWriter).core.cache.addReaderChange ch
        log := (s.reader isWriter).core.log ++ [.onData wp.guid ch] } wp').find wp'.guid =
      some wp' := StatefulReader.find_setProxy (by simp [hguid', hguid, hw])
  refine ⟨s', hroute.trans hs', htold.config, ?_, ?_, ?_, ?_⟩
  · have hevents := htold.events
    have hlog : ((s.reader isWriter).setProxy { (s.reader isWriter).core with
        cache := (s.reader isWriter).core.cache.addReaderChange ch
        log := (s.reader isWriter).core.log ++ [.onData wp.guid ch] } wp').core.log =
          (s.reader isWriter).core.log ++ [.onData wp.guid ch] := rfl
    rw [hlog, List.drop_left, processed_onData rfl] at hevents
    have hdata : ch.data = d.serializedPayload := rfl
    have hseen : [DiscoveryEvent.sedpSeen srcPrefix].filterMap DiscoveryEvent.discovered? = [] := rfl
    rw [SedpEndpoints.discovered, hevents, if_pos rfl, List.filterMap_append, List.filterMap_append,
      hseen, List.append_nil, hdata]
    cases s.config.endpointData isWriter d.serializedPayload <;> rfl
  · rw [htold.reader]
    exact ⟨h.reads.callback, h.reads.reliable, h.reads.sampleProcessor⟩
  · rw [htold.reader]
    refine ⟨wp', ?_, hrecv', hpend'⟩
    rw [← hguid, ← hguid']
    exact hset
  · rw [htold.reader]
    intro ch' hm hw'
    have hm' : ch' ∈ ((s.reader isWriter).core.cache.addReaderChange ch).changes := hm
    unfold HistoryCache.addReaderChange at hm'
    split at hm'
    · have := h.cached ch' hm' hw'
      omega
    · rcases List.mem_append.mp hm' with hm' | hm'
      · have := h.cached ch' ((HistoryCache.trimForKeepLast_sublist _ _).subset hm') hw'
        omega
      · rw [List.mem_singleton.mp hm']
        show d.writerSn < sn + 1
        omega

/-! ### The messages of a writer -/

/-- What a message to a reader is read back as. -/
def WriterMessage.submessages (cfg : WriterConfig) (rp : ReaderProxy) (m : WriterMessage) :
    List SubMessage :=
  (m.calls cfg rp.guid rp.needsPidCoherentSetMarker).map BuilderCall.submessage

/-- The peer receives the messages of a writer in order, and all of them. -/
def SedpEndpoints.deliver (s : SedpEndpoints) (cfg : WriterConfig) (rp : ReaderProxy)
    (now : RtpsTimestamp) (ms : List WriterMessage) : Option SedpEndpoints :=
  ms.foldlM (fun s m => s.onReceive cfg.guid.guidPrefix now (WriterMessage.submessages cfg rp m)) s

variable {wcfg : WriterConfig} {rp : ReaderProxy} {ch : CacheChange}

theorem deliver_cons {m : WriterMessage} {ms : List WriterMessage} : s.deliver wcfg rp now (m :: ms) =
    (s.onReceive wcfg.guid.guidPrefix now (WriterMessage.submessages wcfg rp m)).bind
      (fun s => s.deliver wcfg rp now ms) :=
  List.foldlM_cons

theorem onReceive_cons {sm : SubMessage} {sms : List SubMessage} :
    s.onReceive srcPrefix now (sm :: sms) =
      (s.onSubMessage srcPrefix now sm).bind (fun s => s.onReceive srcPrefix now sms) :=
  List.foldlM_cons

theorem onReceive_nil : s.onReceive srcPrefix now [] = some s := rfl

/-- Fragments are passed over. -/
theorem deliver_frag {fragNum numFrags count : ℕ} {withTs : Bool} :
    s.deliver wcfg rp now [.dataFrag ch fragNum withTs, .heartbeatFrag sn numFrags count] = some s := by
  cases withTs <;> rfl

/-- A sample that is alive does not dispose of its endpoint. -/
theorem isDisposal_alive {d : DataSubmessage} {q : QosParams} (hq : d.inlineQos = q.inlineQos)
    (h : q.statusInfo = none) : isDisposal d = false := by
  have hpid : ∀ e ∈ q.entries, e.1 ≠ .statusInfo := by
    intro e he
    simp only [QosParams.entries, QosParams.entry, h, Option.map_none, Option.toList_none,
      List.append_nil, List.mem_append, Option.mem_toList, Option.map_eq_some_iff] at he
    rcases he with ((((⟨_, _, rfl⟩ | ⟨_, _, rfl⟩) | ⟨_, _, rfl⟩) | ⟨_, _, rfl⟩) | ⟨_, _, rfl⟩) |
      ⟨_, _, rfl⟩ <;> (dsimp only; decide)
  have hget : (q.inlineQos).bind (·.get .statusInfo) = none := by
    unfold QosParams.inlineQos
    split
    · rw [Option.bind_some, InlineQos.get, Option.map_eq_none_iff, List.find?_eq_none]
      intro p hp
      obtain ⟨e, he, rfl⟩ := List.mem_map.mp hp
      simpa using hpid e he
    · rfl
  rw [isDisposal, hq, hget]

/-- A whole sample, alive, is told. -/
theorem caughtUp_message (now : RtpsTimestamp) (rp : ReaderProxy) (ch : CacheChange)
    (h : s.CaughtUp isWriter wcfg.guid.guidPrefix sn)
    (hpos : 0 < sn) (hid : wcfg.guid.entityId = writerEntityId isWriter)
    (hsn : ch.sequenceNumber = sn) (hk : ch.kind = .alive) (hb : ch.data ≠ []) :
    ∃ s', s.onReceive wcfg.guid.guidPrefix now (WriterMessage.submessages wcfg rp (.data ch)) =
        some s' ∧ s'.config = s.config ∧
      s'.discovered = s.discovered ++ (s.config.endpointData isWriter ch.data).toList ∧
      s'.CaughtUp isWriter wcfg.guid.guidPrefix (sn + 1) := by
  have hstatus : (wcfg.qosParams ch).statusInfo = none := by
    rw [WriterConfig.qosParams, hk]
    rfl
  let params : DataParams := { wcfg.qosParams ch with
    readerEntityId := rp.guid.entityId
    writerEntityId := wcfg.guid.entityId
    writerSn := ch.sequenceNumber
    isKey := decide (ch.kind ≠ .alive) }
  let d : DataSubmessage := {
    flags := params.flags
    readerEntityId := rp.guid.entityId
    writerEntityId := wcfg.guid.entityId
    writerSn := ch.sequenceNumber
    inlineQos := params.inlineQos
    serializedPayload := ch.data }
  have hdis : isDisposal d = false := isDisposal_alive (q := wcfg.qosParams ch) rfl hstatus
  obtain ⟨s', hs', hrest⟩ : ∃ s', s.onSubMessage wcfg.guid.guidPrefix now (.data d) = some s' ∧
      s'.config = s.config ∧ s'.discovered = s.discovered ++
        (s.config.endpointData isWriter d.serializedPayload).toList ∧
      s'.CaughtUp isWriter wcfg.guid.guidPrefix (sn + 1) :=
    caughtUp_data h hpos hid hsn hb hdis
  have hone : s.onReceive wcfg.guid.guidPrefix now (WriterMessage.submessages wcfg rp (.data ch)) =
      (s.onSubMessage wcfg.guid.guidPrefix now (.data d)).bind some := rfl
  exact ⟨s', by rw [hone, hs', Option.bind_some], hrest⟩

/-- GAPs of what was received tell nothing. -/
theorem quiet_gaps (hid : wcfg.guid.entityId = writerEntityId isWriter) (hsn : sn + 1 < 2 ^ 63)
    (rest : List SubMessage) : ∀ {gaps : List (ℤ × ℤ)} {s : SedpEndpoints},
    s.CaughtUp isWriter srcPrefix (sn + 1) → (∀ gap ∈ gaps, 0 < gap.1 ∧ gap.2 ≤ sn + 1) →
    ∃ s', s.onReceive srcPrefix now (gaps.map (fun g => BuilderCall.submessage
        (.gap rp.guid.entityId wcfg.guid.entityId g.1 (emptySnSet g.2))) ++ rest) =
      s'.onReceive srcPrefix now rest ∧ Quiet isWriter srcPrefix (sn + 1) s s'
  | [], s, h, _ => ⟨s, rfl, .refl h⟩
  | g :: gaps, s, h, hg => by
      obtain ⟨hlo, hhi⟩ := hg g List.mem_cons_self
      let gap : GapSubmessage := ⟨FLAG_ENDIANNESS, rp.guid.entityId, wcfg.guid.entityId, g.1,
        { emptySnSet g.2 with bitmap := BuilderCall.wireBitmap Bitmap.zeroes 0 }⟩
      obtain ⟨s₁, hs₁, hq₁⟩ : ∃ s', s.onSubMessage srcPrefix now (.gap gap) = some s' ∧
          Quiet isWriter srcPrefix (sn + 1) s s' := caughtUp_gap h hid hlo hhi rfl hsn
      obtain ⟨s₂, hs₂, hq₂⟩ := quiet_gaps hid hsn rest hq₁.caughtUp
        fun g' hg' => hg g' (List.mem_cons_of_mem g hg')
      have hone : BuilderCall.submessage
          (.gap rp.guid.entityId wcfg.guid.entityId g.1 (emptySnSet g.2)) = .gap gap := rfl
      refine ⟨s₂, ?_, hq₁.trans hq₂⟩
      rw [List.map_cons, List.cons_append, onReceive_cons, hone, hs₁, Option.bind_some]
      exact hs₂

/-- What trails a sample that was received tells nothing. -/
theorem quiet_trails (now : RtpsTimestamp) (rp : ReaderProxy)
    (hid : wcfg.guid.entityId = writerEntityId isWriter) (hpos : 0 < sn)
    (hsn : sn + 1 < 2 ^ 63) : ∀ {ms : List WriterMessage} {s : SedpEndpoints},
    s.CaughtUp isWriter wcfg.guid.guidPrefix (sn + 1) → (∀ m ∈ ms, StatefulWriter.Trails sn m) →
    ∃ s', s.deliver wcfg rp now ms = some s' ∧
      Quiet isWriter wcfg.guid.guidPrefix (sn + 1) s s'
  | [], s, h, _ => ⟨s, rfl, .refl h⟩
  | m :: ms, s, h, hm => by
      have htrails := hm m List.mem_cons_self
      cases m with
      | heartbeat startSn gaps firstSn lastSn count final liveliness =>
        obtain ⟨hfirst, hgaps⟩ := htrails
        let hb : HeartbeatSubmessage := ⟨heartbeatFlags final liveliness, rp.guid.entityId,
          wcfg.guid.entityId, firstSn, lastSn, Int32.ofNat count⟩
        obtain ⟨s₁, hs₁, hq₁⟩ : ∃ s', s.onReceive wcfg.guid.guidPrefix now (gaps.map (fun g =>
              BuilderCall.submessage (.gap rp.guid.entityId wcfg.guid.entityId g.1
                (emptySnSet g.2))) ++ [.heartbeat hb]) =
            s'.onReceive wcfg.guid.guidPrefix now [.heartbeat hb] ∧
          Quiet isWriter wcfg.guid.guidPrefix (sn + 1) s s' := quiet_gaps hid hsn _ h hgaps
        obtain ⟨s₂, hs₂, hq₂⟩ : ∃ s',
            s₁.onSubMessage wcfg.guid.guidPrefix now (.heartbeat hb) = some s' ∧
            Quiet isWriter wcfg.guid.guidPrefix (sn + 1) s₁ s' :=
          caughtUp_heartbeat hq₁.caughtUp hpos hid hfirst
        obtain ⟨s₃, hs₃, hq₃⟩ := quiet_trails now rp hid hpos hsn hq₂.caughtUp
          fun m' hm' => hm m' (List.mem_cons_of_mem _ hm')
        have hsub : WriterMessage.submessages wcfg rp
            (.heartbeat startSn gaps firstSn lastSn count final liveliness) =
            .infoDst ⟨rp.guid.guidPrefix⟩ :: (gaps.map (fun g => BuilderCall.submessage
              (.gap rp.guid.entityId wcfg.guid.entityId g.1 (emptySnSet g.2))) ++
                [.heartbeat hb]) := by
          simp [WriterMessage.submessages, WriterMessage.calls, hb, BuilderCall.submessage]
        have hdst : s.onSubMessage wcfg.guid.guidPrefix now (.infoDst ⟨rp.guid.guidPrefix⟩) =
          some s := rfl
        refine ⟨s₃, ?_, (hq₁.trans hq₂).trans hq₃⟩
        rw [deliver_cons, hsub, onReceive_cons, hdst, Option.bind_some, hs₁, onReceive_cons, hs₂,
          Option.bind_some, onReceive_nil, Option.bind_some, hs₃]
      | _ => exact htrails.elim

/-! ### From the write to the peer -/

variable {gp : GuidPrefix} {resumeHeld : Bool} {blocks : ℕ → Bool} {as : List WriterAction}
  {c : Machine}

/-- A built-in writer keeps its configuration, and its numbers in order. -/
theorem builtinWriter_run (hrun : (Machine.init (builtinWriter gp resumeHeld isWriter).config
      .keepLast 1 blocks).run as = some c) :
    c.writer.Ordered ∧ c.writer.config = (builtinWriter gp resumeHeld isWriter).config := by
  constructor
  · have hsound : c.view.Sound := Machine.run_inv' (fun _ _ _ hm hs => hm.sound hs) as
      (Machine.init_wellPhased _ _ _ _) (Machine.init_sound _ _ _ _) hrun
    exact hsound.toOrdered
  · have hinit : (Machine.init (builtinWriter gp resumeHeld isWriter).config .keepLast 1
        blocks).view.writer.config = (builtinWriter gp resumeHeld isWriter).config := rfl
    exact Machine.run_inv' (I := fun v =>
      v.writer.config = (builtinWriter gp resumeHeld isWriter).config)
      (fun _ _ _ hm hc => hm.config.trans hc) as (Machine.init_wellPhased _ _ _ _) hinit hrun

/-- A sample written to a live reader, and delivered. -/
theorem delivered_of_write (hrun : (Machine.init (builtinWriter gp resumeHeld isWriter).config
      .keepLast 1 blocks).run as = some c) (hl : c.writer.Live rp)
    (hp : s.CaughtUp isWriter gp c.writer.cache.nextSn) (hsn : c.writer.cache.nextSn + 1 < 2 ^ 63)
    (now : RtpsTimestamp) (sample : StatefulWriter.Sample) (hk : sample.kind = .alive)
    (hb : sample.data ≠ []) :
    ∃ w' ms s', StatefulWriter.Completes (c.writer.write sample c.suspended) w' ∧
      w'.messagesTo rp.guid = c.writer.messagesTo rp.guid ++ ms ∧
      s.deliver c.writer.config rp now ms = some s' ∧
      if sample.data.length ≤ DEFAULT_FRAG_SIZE then
        s'.discovered = s.discovered ++ (s.config.endpointData isWriter sample.data).toList ∧
          s'.CaughtUp isWriter gp (c.writer.cache.nextSn + 1)
      else s' = s := by
  obtain ⟨ho, hcfg⟩ := builtinWriter_run hrun
  have hgp : c.writer.config.guid.guidPrefix = gp := by rw [hcfg]; rfl
  have hid : c.writer.config.guid.entityId = writerEntityId isWriter := by rw [hcfg]; rfl
  have hfrag : c.writer.config.isFragmented (c.writer.written sample) =
      decide (DEFAULT_FRAG_SIZE < sample.data.length) := by rw [hcfg]; rfl
  obtain ⟨w', hw'⟩ := StatefulWriter.completes_write c.writer sample c.suspended
  have hsends := StatefulWriter.sendsTo_write ho hl hw'
  by_cases hlen : sample.data.length ≤ DEFAULT_FRAG_SIZE
  · rw [hfrag, if_neg (by simpa using hlen)] at hsends
    obtain ⟨hbs, htrails, hsends⟩ := hsends
    subst hgp
    obtain ⟨s₁, hs₁, -, hd₁, h₁⟩ := caughtUp_message now rp (c.writer.written sample) hp ho.next_pos
      hid rfl hk hb
    obtain ⟨s₂, hs₂, hq₂⟩ := quiet_trails now rp hid ho.next_pos hsn h₁ htrails
    refine ⟨w', _, s₂, hw', hsends.messages, ?_, ?_⟩
    · rw [deliver_cons, hs₁, Option.bind_some, hs₂]
    · rw [if_pos hlen]
      exact ⟨hq₂.discovered.trans hd₁, hq₂.caughtUp⟩
  · rw [hfrag, if_pos (by simpa using hlen)] at hsends
    refine ⟨w', _, s, hw', hsends.messages, deliver_frag, ?_⟩
    rw [if_neg hlen]

/-- The sample an announcement is written as. -/
def Announcement.sample (ann : Announcement) (sourceTimestamp : RtpsTimestamp)
    (payload : List UInt8) : StatefulWriter.Sample where
  kind := .alive
  sourceTimestamp := sourceTimestamp
  instanceHandle := guidBytes ann.guid
  keyHash := guidBytes ann.guid
  data := payload

/-- **An announcement is discovered, once and faithfully, exactly when it is small enough to go out
whole**, nothing of it is lost in the payload, and its endpoint can be reached. -/
theorem announcement_discovered_iff (hw : cfg.writerCodec.RoundTrips)
    (hr : cfg.readerCodec.RoundTrips) (h : ann.encode cfg xtypes = .ok b)
    (hrun : (Machine.init (builtinWriter gp resumeHeld ann.isWriter).config .keepLast 1 blocks).run
      as = some c) (hl : c.writer.Live rp) (hcfg : s.config = cfg)
    (hp : s.CaughtUp ann.isWriter gp c.writer.cache.nextSn)
    (hsn : c.writer.cache.nextSn + 1 < 2 ^ 63) (ts : RtpsTimestamp) :
    ∃ w' ms s',
      StatefulWriter.Completes (c.writer.write (ann.sample ts b) c.suspended) w' ∧
      w'.messagesTo rp.guid = c.writer.messagesTo rp.guid ++ ms ∧
      s.deliver c.writer.config rp now ms = some s' ∧
      ((∃ ep, s'.discovered = s.discovered ++ [ep] ∧ ann.Faithful ep) ↔
        b.length ≤ DEFAULT_FRAG_SIZE ∧ ann.Plain xtypes ∧ cfg.Reaches ann.guid.guidPrefix) := by
  have hb : b ≠ [] := by
    have hlen := length_of_encode hw hr h
    rintro rfl
    simp at hlen
  obtain ⟨w', ms, s', hw', hms, hs', hd⟩ :=
    delivered_of_write hrun hl hp hsn now (ann.sample ts b) rfl hb
  refine ⟨w', ms, s', hw', hms, hs', ?_⟩
  obtain ⟨ep, hep, hdata⟩ := endpointData_of_encode hw hr h
  have hdata' : s.config.endpointData ann.isWriter (ann.sample ts b).data =
      if cfg.Reaches ann.guid.guidPrefix then some ep else none := by rw [hcfg]; exact hdata
  have hlen : (ann.sample ts b).data.length = b.length := rfl
  rw [hdata', hlen] at hd
  have hnone : ∀ ep', ¬ s.discovered = s.discovered ++ [ep'] := by
    intro ep' he
    simpa using congrArg List.length he
  by_cases hsmall : b.length ≤ DEFAULT_FRAG_SIZE
  · rw [if_pos hsmall] at hd
    by_cases hreach : cfg.Reaches ann.guid.guidPrefix
    · rw [if_pos hreach] at hd
      constructor
      · rintro ⟨ep', he, hf⟩
        have hee : ep = ep' := by simpa [hd.1] using he
        subst hee
        exact ⟨hsmall, hep.mp hf, hreach⟩
      · rintro ⟨-, hplain, -⟩
        exact ⟨ep, hd.1, hep.mpr hplain⟩
    · rw [if_neg hreach] at hd
      constructor
      · rintro ⟨ep', he, -⟩
        refine absurd ?_ (hnone ep')
        rw [← he, hd.1]
        simp
      · rintro ⟨-, -, hreach'⟩
        exact absurd hreach' hreach
  · rw [if_neg hsmall] at hd
    subst hd
    constructor
    · rintro ⟨ep', he, -⟩
      exact absurd he (hnone ep')
    · rintro ⟨hsmall', -, -⟩
      exact absurd hsmall' hsmall

/-! ### The golden writer, to its peer -/

/-- The peer's reader, as the publications writer matches it. -/
def helloMatch : MatchedReader where
  guid := ⟨(testGuid 0xc3 0x07).guidPrefix, readerEntityId true⟩
  selectedLocators := [.udpV4 (Bytes.zeroes 4) 7410]
  reliable := true

/-- The publications writer has matched the peer's reader, and written nothing yet. -/
theorem helloMatch_live : ∃ c rp, (Machine.init (builtinWriter helloPrefix false true).config
      .keepLast 1 (fun _ => false)).run
        [.addOrRefreshMatchedReader helloMatch (fun _ => 0) true] = some c ∧
    c.writer.Live rp ∧ c.writer.cache.nextSn = 1 :=
  ⟨_, _, rfl, {
    mem := List.mem_singleton_self _
    reliable := rfl
    selectedLocators := List.cons_ne_nil _ _
    suppressLiveData := rfl
    unsentFromSn := rfl
    sendingSn := rfl
    coherentActive := rfl
    blocks := fun _ => rfl }, rfl⟩

/-- The peer, just matched. -/
def helloPeer (cfg : SedpConfig) : SedpEndpoints :=
  (SedpEndpoints.start cfg (testGuid 0xc3 0x07).guidPrefix false).matchRemote true helloPrefix
    [.udpV4 (Bytes.zeroes 4) 7410]

theorem helloPeer_caughtUp (cfg : SedpConfig) : (helloPeer cfg).CaughtUp true helloPrefix 1 :=
  caughtUp_matchRemote _ ⟨rfl, rfl, rfl⟩ rfl (fun ch hm => by cases hm)

/-- The golden writer, with user data. -/
def helloAnnouncement (userData : List UInt8) : Announcement := .writer {
  guid := testGuid 0xa1 0x02
  topicName := helloTopic
  typeName := helloType
  qos := { helloWriterQos with userData := userData } }

/-- The golden writer is discovered. -/
theorem announcement_discovered_hello : ∃ c rp w' ms s',
    (Machine.init (builtinWriter helloPrefix false true).config .keepLast 1 (fun _ => false)).run
      [.addOrRefreshMatchedReader helloMatch (fun _ => 0) true] = some c ∧
    StatefulWriter.Completes (c.writer.write ((helloAnnouncement []).sample ⟨0, 0⟩ helloWriterBytes)
      c.suspended) w' ∧
    w'.messagesTo rp.guid = c.writer.messagesTo rp.guid ++ ms ∧
    (helloPeer helloConfig).deliver c.writer.config rp ⟨0, 0⟩ ms = some s' ∧
    ∃ ep, s'.discovered = (helloPeer helloConfig).discovered ++ [ep] ∧
      (helloAnnouncement []).Faithful ep := by
  obtain ⟨c, rp, hrun, hlive, hsn⟩ := helloMatch_live
  have hp : (helloPeer helloConfig).CaughtUp true helloPrefix c.writer.cache.nextSn :=
    hsn ▸ helloPeer_caughtUp helloConfig
  obtain ⟨w', ms, s', hw', hms, hs', hiff⟩ : ∃ w' ms s',
      StatefulWriter.Completes (c.writer.write ((helloAnnouncement []).sample ⟨0, 0⟩
        helloWriterBytes) c.suspended) w' ∧
      w'.messagesTo rp.guid = c.writer.messagesTo rp.guid ++ ms ∧
      (helloPeer helloConfig).deliver c.writer.config rp ⟨0, 0⟩ ms = some s' ∧
      ((∃ ep, s'.discovered = (helloPeer helloConfig).discovered ++ [ep] ∧
          (helloAnnouncement []).Faithful ep) ↔
        helloWriterBytes.length ≤ DEFAULT_FRAG_SIZE ∧ (helloAnnouncement []).Plain true ∧
          helloConfig.Reaches (helloAnnouncement []).guid.guidPrefix) :=
    announcement_discovered_iff helloConfig_roundTrips.1 helloConfig_roundTrips.2 rfl hrun hlive rfl
      hp (by rw [hsn]; decide) ⟨0, 0⟩
  refine ⟨c, rp, w', ms, s', hrun, hw', hms, hs', hiff.mpr ⟨?_, ⟨?_, .inl rfl⟩, rfl⟩⟩
  · have hlen : helloWriterBytes.length = 136 := rfl
    rw [hlen]
    decide
  · intro n hn
    cases hn

/-- What the golden writer is encoded to, with user data behind its names.  The length of the user
data is a multiple of four. -/
def userDataBytes (userData : List UInt8) : List UInt8 :=
  helloWriterBytes.take 68 ++ ([0x2c, 0x00] ++ leBytes 2 (userData.length + 4) ++
    leBytes 4 userData.length ++ userData) ++ helloWriterBytes.drop 68

def userDataWire (userData : List UInt8) : DiscoveredWriterData :=
  { helloWriterWire with userData := some userData }

/-- A participant that knows this announcement of the golden writer. -/
def userDataConfig (userData : List UInt8) : SedpConfig :=
  { helloConfig with writerCodec := .only (userDataWire userData) (userDataBytes userData) }

theorem length_userDataBytes (userData : List UInt8) :
    userData.length + 136 ≤ (userDataBytes userData).length := by
  have hlen : helloWriterBytes.length = 136 := rfl
  simp only [userDataBytes, List.length_append, List.length_take, List.length_drop, hlen]
  omega

theorem userDataConfig_roundTrips (userData : List UInt8) :
    (userDataConfig userData).writerCodec.RoundTrips ∧
      (userDataConfig userData).readerCodec.RoundTrips := by
  have hlen := length_userDataBytes userData
  exact ⟨PlCdr.only_roundTrips (by omega), helloConfig_roundTrips.2⟩

theorem helloAnnouncement_encode {userData : List UInt8} (h : userData ≠ []) :
    (helloAnnouncement userData).encode (userDataConfig userData) true =
      .ok (userDataBytes userData) := by
  have hser : (userDataConfig userData).writerCodec.serialize (userDataWire userData) =
      some (userDataBytes userData) := if_pos rfl
  rw [helloAnnouncement, Announcement.encode, encodeWriterData]
  refine Outcome.bind_eq_ok.mpr ⟨userDataWire userData, ?_, PlCdr.emitPlCdr_eq_ok.mpr hser⟩
  have hud : octetSeq userData = some userData := by
    have hne : userData.isEmpty = false := by simpa using h
    rw [octetSeq, hne]
    rfl
  have hw : userDataWire userData = { helloWriterWire with userData := octetSeq userData } := by
    rw [hud]
    rfl
  rw [hw]
  rfl

/-- Beyond `DEFAULT_FRAG_SIZE`, the golden writer is not discovered. -/
theorem long_announcement_not_discovered {userData : List UInt8}
    (h : DEFAULT_FRAG_SIZE ≤ userData.length) : ∃ c rp w' ms,
    (Machine.init (builtinWriter helloPrefix false true).config .keepLast 1 (fun _ => false)).run
      [.addOrRefreshMatchedReader helloMatch (fun _ => 0) true] = some c ∧
    StatefulWriter.Completes (c.writer.write
      ((helloAnnouncement userData).sample ⟨0, 0⟩ (userDataBytes userData)) c.suspended) w' ∧
    w'.messagesTo rp.guid = c.writer.messagesTo rp.guid ++ ms ∧
    (helloPeer (userDataConfig userData)).deliver c.writer.config rp ⟨0, 0⟩ ms =
      some (helloPeer (userDataConfig userData)) := by
  obtain ⟨c, rp, hrun, hlive, hsn⟩ := helloMatch_live
  have hp : (helloPeer (userDataConfig userData)).CaughtUp true helloPrefix c.writer.cache.nextSn :=
    hsn ▸ helloPeer_caughtUp _
  have hlen : userData.length + 136 ≤ ((helloAnnouncement userData).sample ⟨0, 0⟩
      (userDataBytes userData)).data.length := length_userDataBytes userData
  have hne : ((helloAnnouncement userData).sample ⟨0, 0⟩ (userDataBytes userData)).data ≠ [] := by
    intro hnil
    rw [hnil] at hlen
    simp at hlen
  obtain ⟨w', ms, s', hw', hms, hs', hd⟩ := delivered_of_write hrun hlive hp
    (by rw [hsn]; decide) ⟨0, 0⟩ _ rfl hne
  rw [if_neg (by omega)] at hd
  exact ⟨c, rp, w', ms, hrun, hw', hms, hd ▸ hs'⟩

/-- So it is with 16384 octets of user data. -/
theorem announcement_lost_of_user_data : ∃ userData : List UInt8, userData.length = 16384 ∧
    (userDataConfig userData).writerCodec.RoundTrips ∧
    (userDataConfig userData).readerCodec.RoundTrips ∧
    (helloAnnouncement userData).encode (userDataConfig userData) true =
      .ok (userDataBytes userData) ∧
    (helloPeer (userDataConfig userData)).discovered = [] ∧ ∃ c rp w' ms,
      (Machine.init (builtinWriter helloPrefix false true).config .keepLast 1 (fun _ => false)).run
        [.addOrRefreshMatchedReader helloMatch (fun _ => 0) true] = some c ∧
      StatefulWriter.Completes (c.writer.write
        ((helloAnnouncement userData).sample ⟨0, 0⟩ (userDataBytes userData)) c.suspended) w' ∧
      w'.messagesTo rp.guid = c.writer.messagesTo rp.guid ++ ms ∧
      (helloPeer (userDataConfig userData)).deliver c.writer.config rp ⟨0, 0⟩ ms =
        some (helloPeer (userDataConfig userData)) := by
  have hlen : (List.replicate 16384 (0 : UInt8)).length = 16384 := List.length_replicate
  have hne : List.replicate 16384 (0 : UInt8) ≠ [] := by
    intro hnil
    rw [hnil] at hlen
    cases hlen
  exact ⟨List.replicate 16384 0, hlen, (userDataConfig_roundTrips _).1,
    (userDataConfig_roundTrips _).2, helloAnnouncement_encode hne, rfl,
    long_announcement_not_discovered hlen.ge⟩

end Zzdds.Discovery
