import Zzdds.Lib.Quota
import Zzdds.Dcps.OrderedAccess

/-! # History and resource limits of a reader

A sample that arrives is admitted only within the limits, and under KEEP_LAST takes the place of the
oldest one of its instance.  An exposed coherent set and the samples that tell of lost writers go to
the queue unchecked; once one of them has pushed it past a limit, an eviction can be followed by a
rejection.  As long as none does, the limits hold and a rejection changes nothing
(`limits_hold_exact`). -/

namespace Zzdds.Dcps

open Zzdds.Lib Zzdds.Rtps

/-! ### The limits -/

def ResourceLimits.quota (limits : ResourceLimits) : Quota where
  total := positive limits.maxSamples
  perKey := positive limits.maxSamplesPerInstance
  keys := positive limits.maxInstances

/-- Under KEEP_LAST the depth, which is at least 1, limits each instance. -/
def DataReaderQos.historyQuota (qos : DataReaderQos) : Quota where
  perKey := if qos.history = .keepLast then some (max 1 qos.depth).toNat else none

/-- A queue with samples of these instances is within the history and the resource limits. -/
def DataReaderQos.Within (qos : DataReaderQos) (l : List (Option HandleT)) : Prop :=
  qos.historyQuota.Admits l ∧ qos.limits.quota.Admits l

theorem DataReaderQos.Within.subperm {qos : DataReaderQos} {l l' : List (Option HandleT)}
    (h : qos.Within l) (hs : l'.Subperm l) : qos.Within l' := ⟨h.1.subperm hs, h.2.subperm hs⟩

theorem DataReaderQos.Within.perm_iff {qos : DataReaderQos} {l l' : List (Option HandleT)}
    (hp : l'.Perm l) : qos.Within l' ↔ qos.Within l :=
  ⟨fun h => h.subperm hp.symm.subperm, fun h => h.subperm hp.subperm⟩

namespace DataReader

variable {r r' : DataReader}

/-- The instances of the queued samples. -/
def queued (r : DataReader) : List (Option HandleT) := r.pending.map r.handleAt

def Bounded (r : DataReader) : Prop := r.qos.Within r.queued

theorem instanceCount_eq_count (r : DataReader) (ih : HandleT) :
    r.instanceCount ih = r.queued.countP (· = some ih) := by
  unfold instanceCount queued
  rw [List.countP_map]
  rfl

/-- A sample is rejected exactly if one more of its instance is past a resource limit. -/
theorem rejectReason_eq_none_iff (h : r.qos.limits.quota.Admits r.queued) (ih : HandleT) :
    r.rejectReason ih = none ↔ r.qos.limits.quota.Admits (some ih :: r.queued) := by
  have hinstances : (∀ n ∈ r.qos.limits.quota.keys, some ih ∉ r.queued →
      r.queued.dedup.length < n) ↔ ¬ (0 < r.qos.limits.maxInstances ∧ r.instanceCount ih = 0 ∧
        r.qos.limits.maxInstances < ((r.pending.map r.handleAt).dedup.length + 1 : ℕ)) := by
    rw [instanceCount_eq_count, ResourceLimits.quota, forall_mem_positive]
    have hnew : some ih ∉ r.queued ↔ r.queued.countP (· = some ih) = 0 := by
      rw [List.countP_eq_zero]
      exact ⟨fun hn a ha heq => hn (of_decide_eq_true heq ▸ ha),
        fun hn hin => hn _ hin (decide_eq_true rfl)⟩
    show _ ↔ ¬ (0 < r.qos.limits.maxInstances ∧ r.queued.countP (· = some ih) = 0 ∧
      r.qos.limits.maxInstances < (r.queued.dedup.length + 1 : ℕ))
    rw [not_and, not_and, hnew]
    refine forall_congr' fun hpos => forall_congr' fun _ => ?_
    omega
  have hperInstance : (∀ n ∈ r.qos.limits.quota.perKey, r.queued.countP (· = some ih) < n) ↔
      ¬ (0 < r.qos.limits.maxSamplesPerInstance ∧
        r.qos.limits.maxSamplesPerInstance ≤ (r.instanceCount ih : ℤ)) := by
    rw [instanceCount_eq_count, ResourceLimits.quota, forall_mem_positive, not_and]
    refine forall_congr' fun hpos => ?_
    omega
  have htotal : (∀ n ∈ r.qos.limits.quota.total, r.queued.length < n) ↔
      ¬ (0 < r.qos.limits.maxSamples ∧ r.qos.limits.maxSamples ≤ (r.pending.length : ℤ)) := by
    rw [queued, List.length_map, ResourceLimits.quota, forall_mem_positive, not_and]
    refine forall_congr' fun hpos => ?_
    omega
  rw [Quota.admits_cons_iff, and_iff_right h, htotal, hperInstance, hinstances]
  unfold rejectReason
  dsimp only
  split_ifs with h₁ h₂ h₃
  · exact iff_of_false (fun hn => (nomatch hn)) fun hn => hn.2.2 h₁
  · exact iff_of_false (fun hn => (nomatch hn)) fun hn => hn.2.1 h₂
  · exact iff_of_false (fun hn => (nomatch hn)) fun hn => hn.1 h₃
  · exact iff_of_true rfl ⟨h₃, h₂, h₁⟩

/-- Either the queue has room for one more sample of an instance, or one has left it. -/
theorem keepLastLocked_queued (r : DataReader) (ih : HandleT) :
    (r.keepLastLocked ih = r ∧ ∀ n ∈ r.qos.historyQuota.perKey, r.queued.countP (· = some ih) < n) ∨
      r.queued.Perm (some ih :: (r.keepLastLocked ih).queued) := by
  have hhandles := keepLastLocked_handleAt r ih
  by_cases hfull : r.qos.history = .keepLast ∧ (max 1 r.qos.depth).toNat ≤ r.instanceCount ih
  · refine .inr ?_
    have hkeep : r.keepLastLocked ih = r.evictOldestLocked ih := if_pos hfull
    have hone : 1 ≤ (max 1 r.qos.depth).toNat := by omega
    have hcount : 0 < r.instanceCount ih := hone.trans hfull.2
    obtain ⟨b, hb, hbi⟩ := List.countP_pos_iff.1 hcount
    have hsome : (r.pending.find? fun a => r.handleAt a = some ih).isSome = true :=
      List.find?_isSome.2 ⟨b, hb, hbi⟩
    obtain ⟨a, ha⟩ := Option.isSome_iff_exists.1 hsome
    have hpending : (r.keepLastLocked ih).pending = r.pending.erase a := by
      rw [hkeep]
      unfold evictOldestLocked
      rw [ha]
    have hhandle : r.handleAt a = some ih := by simpa using List.find?_some ha
    unfold queued
    rw [hhandles, hpending, ← hhandle]
    exact (List.perm_cons_erase (List.mem_of_find?_eq_some ha)).map r.handleAt
  · refine .inl ⟨if_neg hfull, fun n hn => ?_⟩
    rw [← instanceCount_eq_count]
    unfold DataReaderQos.historyQuota at hn
    dsimp only at hn
    split_ifs at hn with hlast
    · cases hn
      exact not_le.1 fun hle => hfull ⟨hlast, hle⟩
    · exact nomatch hn

theorem queued_enqueue (h : r.InRange) (pc : PendingChange) :
    (r.enqueue pc).queued = r.queued ++ [some pc.info.instanceHandle] := by
  have hnew : (r.enqueue pc).handleAt r.heap.structs.length = some pc.info.instanceHandle := by
    show ((r.heap.structs ++ [pc])[r.heap.structs.length]?).map _ = _
    rw [List.getElem?_concat_length]
    rfl
  have hold : r.pending.map (r.enqueue pc).handleAt = r.pending.map r.handleAt :=
    List.map_congr_left fun a ha => congrArg _ (Heap.get_append r.heap pc (h a ha))
  show (r.pending ++ [r.heap.structs.length]).map _ = _
  rw [List.map_append, hold, List.map_singleton, hnew]
  rfl

/-! ### Arrivals -/

/-- A sample within the limits arrived, or it was rejected and changed nothing of the queue. -/
def Arrives (r r' : DataReader) : Prop :=
  r'.Bounded ∧ (r'.sampleRejectedTotal ≠ r.sampleRejectedTotal →
    r'.pending = r.pending ∧ r'.heap.structs = r.heap.structs)

theorem Bounded.congr (h : r.Bounded) (hq : r'.qos = r.qos) (hp : r'.pending = r.pending)
    (hs : r'.heap.structs = r.heap.structs) : r'.Bounded := by
  unfold Bounded queued
  rw [hq, hp, handleAt_congr hs]
  exact h

theorem Arrives.of_eq (h : r.Bounded) (hq : r'.qos = r.qos) (hp : r'.pending = r.pending)
    (hs : r'.heap.structs = r.heap.structs) : Arrives r r' :=
  ⟨h.congr hq hp hs, fun _ => ⟨hp, hs⟩⟩

/-- In the room made for it, one more sample of an instance is within the limits. -/
theorem Bounded.admits (h : r.Bounded) {ih : HandleT}
    (hnone : (r.keepLastLocked ih).rejectReason ih = none) :
    r.qos.Within (some ih :: (r.keepLastLocked ih).queued) := by
  rcases keepLastLocked_queued r ih with ⟨hsame, hroom⟩ | hperm
  · rw [hsame] at hnone ⊢
    refine ⟨Quota.admits_cons_iff.2 ⟨h.1, fun _ hn => (nomatch hn), hroom,
      fun _ hn => (nomatch hn)⟩, ?_⟩
    exact (rejectReason_eq_none_iff h.2 ih).1 hnone
  · exact h.subperm hperm.symm.subperm

/-- A sample that takes another one's place is not rejected. -/
theorem Bounded.rejected (h : r.Bounded) {ih : HandleT} {reason : SampleRejectedKind}
    (hreject : (r.keepLastLocked ih).rejectReason ih = some reason) : r.keepLastLocked ih = r := by
  rcases keepLastLocked_queued r ih with ⟨hsame, -⟩ | hperm
  · exact hsame
  · have hqos := keepLastLocked_qos r ih
    have hleft : (r.keepLastLocked ih).qos.limits.quota.Admits (r.keepLastLocked ih).queued := by
      rw [hqos]
      exact h.2.subperm ((List.sublist_cons_self _ _).subperm.trans hperm.symm.subperm)
    have hnone : (r.keepLastLocked ih).rejectReason ih = none := by
      rw [rejectReason_eq_none_iff hleft, hqos]
      exact h.2.perm hperm.symm
    rw [hnone] at hreject
    cases hreject

theorem Arrives.queueLocked (h : r.Bounded) (hrange : r.InRange) (copy : ℕ) (ih : HandleT)
    (change : CacheChange) : Arrives r (r.queueLocked copy ih change) := by
  have hqos := keepLastLocked_qos r ih
  unfold DataReader.queueLocked
  dsimp only
  split
  next reason hreject =>
    rw [h.rejected hreject]
    exact .of_eq h rfl rfl rfl
  next hnone =>
    obtain ⟨seen, hstamp⟩ := stampLocked_frame (r.keepLastLocked ih) copy ih change
    have hhandle : ((r.keepLastLocked ih).stampLocked copy ih change).2.info.instanceHandle = ih :=
      rfl
    obtain ⟨last, owners, hfilters⟩ := filtersTaken_frame
      (DataReader.enqueue { r.keepLastLocked ih with seenInstances := seen }
        ((r.keepLastLocked ih).stampLocked copy ih change).2) ih change
    have hrange' : InRange { r.keepLastLocked ih with seenInstances := seen } :=
      hrange.keepLastLocked ih
    have hqueued := queued_enqueue hrange' ((r.keepLastLocked ih).stampLocked copy ih change).2
    rw [hhandle] at hqueued
    rw [hstamp, hfilters]
    refine ⟨?_, fun hne => absurd ?_ hne⟩
    · show (r.keepLastLocked ih).qos.Within (DataReader.queued (DataReader.enqueue
        { r.keepLastLocked ih with seenInstances := seen }
        ((r.keepLastLocked ih).stampLocked copy ih change).2))
      rw [hqueued, hqos, DataReaderQos.Within.perm_iff List.perm_append_comm]
      exact h.admits hnone
    · show (r.keepLastLocked ih).sampleRejectedTotal = r.sampleRejectedTotal
      unfold DataReader.keepLastLocked evictOldestLocked
      split_ifs
      · split <;> rfl
      · rfl

theorem Arrives.onDataCb (h : r.Bounded) (hrange : r.InRange) (now : ℤ) (change : CacheChange) :
    Arrives r (r.onDataCb now change) := by
  have hleaves := arriveLocked_leaves r now change
  obtain ⟨_, _, _, _, _, _, harrive⟩ := arriveLocked_frame r now (keyHashToHandle change.keyHash)
    change
  obtain ⟨owners, howner⟩ := ownershipLocked_frame
    (r.arriveLocked now (keyHashToHandle change.keyHash) change).2
    (keyHashToHandle change.keyHash) change.writerGuid
  obtain ⟨r₁, hr₁⟩ : ∃ r₁ : DataReader, r₁ =
      { (r.arriveLocked now (keyHashToHandle change.keyHash) change).2 with ownerMap := owners } :=
    ⟨_, rfl⟩
  have hpending : r₁.pending = r.pending := by rw [hr₁]; exact hleaves.pending
  have hstructs : r₁.heap.structs = r.heap.structs := by rw [hr₁]; exact hleaves.structs
  have hqos : r₁.qos = r.qos := by rw [hr₁]; exact hleaves.qos
  have htotal : r₁.sampleRejectedTotal = r.sampleRejectedTotal := by
    rw [hr₁, harrive]
  have hbounded : r₁.Bounded := h.congr hqos hpending hstructs
  have hrange₁ : r₁.InRange := hrange.of_subset (hpending ▸ List.Subset.refl _)
    (congrArg List.length hstructs)
  have hall {r₂ : DataReader} (ha : Arrives r₁ r₂) : Arrives r r₂ :=
    ⟨ha.1, fun hne => ⟨(ha.2 (htotal ▸ hne)).1.trans hpending,
      (ha.2 (htotal ▸ hne)).2.trans hstructs⟩⟩
  unfold DataReader.onDataCb
  dsimp only
  rw [howner, ← hr₁]
  split_ifs
  · exact hall (.of_eq hbounded rfl rfl rfl)
  · refine hall ?_
    unfold DataReader.bufferLocked
    split
    next => exact .of_eq hbounded rfl rfl rfl
    next =>
      obtain ⟨seen, hstamp⟩ := stampLocked_frame r₁
        (r.arriveLocked now (keyHashToHandle change.keyHash) change).1
        (keyHashToHandle change.keyHash) change
      obtain ⟨last, owners', hfilters⟩ := filtersTaken_frame { r₁ with seenInstances := seen }
        (keyHashToHandle change.keyHash) change
      dsimp only
      rw [hstamp, hfilters]
      exact .of_eq hbounded rfl rfl rfl
  · exact hall (.queueLocked hbounded hrange₁ _ _ _)

/-! ### Samples queued unchecked -/

theorem queued_foldl_enqueue : ∀ (samples : List PendingChange) (r : DataReader), r.InRange →
    (samples.foldl DataReader.enqueue r).queued =
      r.queued ++ samples.map fun pc => some pc.info.instanceHandle
  | [], r, _ => (List.append_nil _).symm
  | pc :: samples, r, h => by
      rw [List.foldl_cons, queued_foldl_enqueue samples _ (h.enqueue pc), queued_enqueue h,
        List.append_assoc]
      rfl

/-- The instances of a queued set's samples. -/
def exposed (r : DataReader) (idx : ℕ) : List HandleT :=
  (r.coherentCommitted[idx]?.elim [] (·.samples)).map (·.info.instanceHandle)

theorem promoteCommittedSetLocked_queued (h : r.InRange) (idx : ℕ) :
    (r.promoteCommittedSetLocked idx).queued = r.queued ++ (r.exposed idx).map some := by
  have hrange : InRange { r with coherentCommitted := r.coherentCommitted.eraseIdx idx } := h
  rw [exposed, List.map_map]
  exact queued_foldl_enqueue _ _ hrange

/-- The instances that lose their last writer with a match. -/
def lostWith (r : DataReader) (guid : Guid) : List HandleT :=
  let instances := (r.writerInstances.lookup guid).getD []
  instances.dedup.filter fun i =>
    { r with writerInstances := r.writerInstances.erase guid }.orphaned instances i

theorem orphanLocked_queued (h : r.InRange) (guid : Guid) (now : Time) (ih : HandleT) :
    (r.orphanLocked guid now ih).queued =
      r.queued ++ if r.orphaned [ih] ih then [some ih] else [] := by
  unfold orphanLocked
  split
  next hc =>
    rw [if_neg fun ho => Bool.eq_false_iff.mp ho.2.1 hc, List.append_nil]
  next hc =>
    split
    next ha =>
      have ho : r.orphaned [ih] ih := by
        obtain ⟨e, he, hs⟩ := (Option.any_eq_true _ _).mp ha
        refine ⟨List.mem_singleton_self ih, Bool.eq_false_iff.mpr hc, ?_⟩
        rw [DataReader.state, he]
        exact congrArg some (of_decide_eq_true hs)
      have hdupe : ((r.dupe emptyKeyCdr).2.determineStatesLocked ih
          .notAliveUnregistered).1.InRange := h
      rw [if_pos ho]
      exact queued_enqueue hdupe _
    next ha =>
      have ho : ¬ r.orphaned [ih] ih := by
        rintro ⟨-, -, hs⟩
        obtain ⟨e, he, hs⟩ := Option.map_eq_some_iff.mp hs
        refine ha ?_
        rw [he]
        exact decide_eq_true hs
      rw [if_neg ho, List.append_nil]

theorem foldl_orphanLocked_queued (guid : Guid) (now : Time) : ∀ (l : List HandleT)
    {r : DataReader}, r.InRange →
      (l.foldl (fun r ih => r.orphanLocked guid now ih) r).queued.Perm
        (r.queued ++ (l.dedup.filter fun i => r.orphaned l i).map some)
  | [], r, _ => by
      rw [List.dedup_nil, List.filter_nil, List.map_nil, List.append_nil]
      exact .refl _
  | ih :: l, r, h => by
      have h₁ := orphanLocked_orphans h guid now ih
      have hrest := foldl_orphanLocked_queued guid now l h₁.inRange
      rw [orphanLocked_queued h] at hrest
      refine hrest.trans ?_
      rw [List.append_assoc]
      refine List.Perm.append_left _ ?_
      have hfirst : (if r.orphaned [ih] ih then [some ih] else []) =
          (([ih] : List HandleT).filter fun i => r.orphaned [ih] i).map some := by
        rw [List.filter_singleton]
        split_ifs <;> simp_all
      rw [hfirst, ← List.map_append]
      refine List.Perm.map some ((List.perm_ext_iff_of_nodup ?_ ?_).2 fun i => ?_)
      · refine List.nodup_append'.2 ⟨(List.nodup_singleton ih).filter _,
          (List.nodup_dedup l).filter _, fun i hi hi' => ?_⟩
        have ho := of_decide_eq_true (List.mem_filter.1 hi).2
        exact h₁.not_orphaned_rest ho l (of_decide_eq_true (List.mem_filter.1 hi').2)
      · exact (List.nodup_dedup _).filter _
      · have hcases := h₁.orphaned_cons_iff l i
        simp only [List.mem_append, List.mem_filter, List.mem_dedup, decide_eq_true_eq]
        constructor
        · rintro (⟨-, ho⟩ | ⟨-, ho⟩)
          · have hmem := hcases.2 (.inl ho)
            exact ⟨hmem.1, hmem⟩
          · have hmem := hcases.2 (.inr ho)
            exact ⟨hmem.1, hmem⟩
        · rintro ⟨-, ho⟩
          rcases hcases.1 ho with ho | ho
          · exact .inl ⟨ho.1, ho⟩
          · exact .inr ⟨ho.1, ho⟩

theorem onWriterUnmatchingCb_queued (h : r.InRange) (now : Time) (guid : Guid) :
    (r.onWriterUnmatchingCb now guid).queued.Perm
      (r.queued ++ (r.lostWith guid).map some) := by
  obtain ⟨r₀, hr₀⟩ : ∃ r₀ : DataReader, r₀ =
      { r.freeSamples ((r.coherentWip.lookup guid).elim [] (·.samples)) with
        subMatchedCurrent := r.subMatchedCurrent - 1
        writerStrengths := r.writerStrengths.erase guid
        writerLifespans := r.writerLifespans.erase guid
        coherentWriters := r.coherentWriters.erase guid
        coherentWip := r.coherentWip.erase guid
        ownerMap := Table.filterValues (· ≠ guid) r.ownerMap
        writerInstances := r.writerInstances.erase guid } := ⟨_, rfl⟩
  have hstructs : r₀.heap.structs = r.heap.structs := by
    rw [hr₀]
    exact LeavesSamples.structs_foldl_free _ r.heap
  have hpending : r₀.pending = r.pending := by rw [hr₀]; rfl
  have hrange : r₀.InRange := h.of_subset (hpending ▸ List.Subset.refl _)
    (congrArg List.length hstructs)
  have hqueued : r₀.queued = r.queued := by
    unfold queued
    rw [hpending, handleAt_congr hstructs]
  have hlost : (((r.writerInstances.lookup guid).getD []).dedup.filter fun i =>
      r₀.orphaned ((r.writerInstances.lookup guid).getD []) i) = r.lostWith guid := by
    rw [hr₀]
    rfl
  have hfold := foldl_orphanLocked_queued guid now ((r.writerInstances.lookup guid).getD []) hrange
  rw [hqueued, hlost] at hfold
  rw [hr₀] at hfold
  exact hfold

/-! ### Access -/

theorem handleAt_of_sameContents (hs : r.heap.SameContents r'.heap) : r'.handleAt = r.handleAt :=
  funext (hs.map_get fun _ _ => rfl)

theorem handleAt_cloneSamples : ∀ (as : List ℕ) (r : DataReader),
    (r.cloneSamples as).1.handleAt = r.handleAt
  | [], _ => rfl
  | a :: as, r => by
      have hone : (r.cloneSample a).1.handleAt = r.handleAt := by
        unfold cloneSample
        split
        next => rfl
        next pc _ =>
          funext b
          show ((r.heap.modify a _).get b).map _ = (r.heap.get b).map _
          rw [Heap.get_modify]
          split_ifs
          · rw [Option.map_map]
            rfl
          · rfl
      exact (handleAt_cloneSamples as _).trans hone

theorem handleAt_pinSamples : ∀ (as : List ℕ) (r : DataReader),
    (r.pinSamples as).1.handleAt = r.handleAt
  | [], _ => rfl
  | a :: as, r => by
      unfold pinSamples
      cases hacquire : r.heap.acquire a with
      | none => exact handleAt_pinSamples as r
      | some h =>
        refine (handleAt_pinSamples as _).trans (funext fun b => ?_)
        obtain ⟨pc, -, hq⟩ := Option.bind_eq_some_iff.1 hacquire
        obtain ⟨q, -, rfl⟩ := Option.map_eq_some_iff.1 hq
        show (((r.heap.modify a _).modify a _).get b).map _ = (r.heap.get b).map _
        rw [Heap.get_modify, Heap.get_modify]
        split_ifs
        · rw [Option.map_map, Option.map_map]
          rfl
        · rfl

theorem instanceHandle_finalizeGenerationRanks (seen : Table HandleT InstanceEntry) :
    ∀ l : List SampleInfo,
      (finalizeGenerationRanks seen l).map (·.instanceHandle) = l.map (·.instanceHandle)
  | [] => rfl
  | i :: l => congrArg (i.instanceHandle :: ·) (instanceHandle_finalizeGenerationRanks seen l)

theorem handleAt_lend {as : List ℕ} (hsome : ∀ a ∈ as, (r.heap.get a).isSome = true) :
    (r.lend as).handleAt = r.handleAt :=
  funext (map_info_lend instanceHandle_finalizeGenerationRanks hsome)

theorem handleAt_takeAway (r : DataReader) (taken kept : List ℕ) :
    (r.takeAway taken kept).1.handleAt = r.handleAt :=
  handleAt_congr (Heap.structs_foldl_destroy r.heap taken)

theorem handleAt_takeRawLoop (now : ℤ) : ∀ (l : List ℕ) (r : DataReader),
    (takeRawLoop now r l).1.handleAt = r.handleAt
  | [], _ => rfl
  | a :: l, r => by
      unfold takeRawLoop
      split
      · rfl
      · dsimp only
        split
        · refine (handleAt_takeRawLoop now l _).trans ?_
          exact handleAt_of_sameContents (r := r) (.beginTeardown r.heap a)
        · exact handleAt_takeAway _ _ _

theorem handleAt_purgeExpired (r : DataReader) (now : ℤ) :
    (r.purgeExpired now).handleAt = r.handleAt :=
  handleAt_of_sameContents (purgeExpired_sameContents r now)

theorem handleAt_takeCall (r : DataReader) (call : TakeCall) :
    (call.run r).1.handleAt = r.handleAt := by
  have hraw (now : ℤ) (c : RawCall) (reserved : Bool) :
      (r.rawTake now c reserved).1.handleAt = r.handleAt := by
    rw [rawTake_eq]
    split_ifs
    · exact (handleAt_takeAway _ _ _).trans (handleAt_purgeExpired r now)
    · exact handleAt_purgeExpired r now
  cases call with
  | takeRaw now => exact handleAt_takeRawLoop now r.pending r
  | takeNextInstanceRaw now prev =>
    simp only [TakeCall.run]
    rw [takeNextInstanceRaw_eq]
    exact (handleAt_takeAway _ _ _).trans (handleAt_purgeExpired r now)
  | takeFiltered now f maxSamples reserved => exact hraw now ⟨true, none, f, maxSamples⟩ reserved
  | takeNextInstanceFiltered now prev f maxSamples reserved =>
    exact hraw now ⟨true, some prev, f, maxSamples⟩ reserved

theorem handleAt_readCall (r : DataReader) (call : ReadCall) :
    (call.run r).1.handleAt = r.handleAt := by
  have hraw (now : ℤ) (c : RawCall) (clones : ℕ) :
      (r.rawRead now c clones).1.handleAt = r.handleAt := by
    rw [rawRead_eq]
    exact (handleAt_cloneSamples _ _).trans (handleAt_purgeExpired r now)
  cases call with
  | readRaw now f maxSamples clones => exact hraw now ⟨false, none, f, maxSamples⟩ clones
  | readNextInstanceRaw now prev clones => exact hraw now ⟨false, some prev, anyFilter, 1⟩ clones
  | readNextInstanceFiltered now prev f maxSamples clones =>
    exact hraw now ⟨false, some prev, f, maxSamples⟩ clones

theorem Held.handleAt_loanCall {loaned : List ℕ} (h : r.Held loaned) (call : LoanCall) :
    (call.run r).1.handleAt = r.handleAt := by
  have hpin (now : ℤ) (c : RawCall) (pins : ℕ) : (r.rawPin now c pins).1.handleAt = r.handleAt := by
    have hpurge := h.purgeExpired now
    have hchosen := (List.take_sublist pins _).trans (rawSplit_sublist r now c).1
    obtain ⟨hpins, hcells, -⟩ := pinSamples_spec _ _ _ (hpurge.nodup.sublist hchosen)
      hchosen.subset hpurge
    rw [h.rawPin_eq]
    dsimp only
    rw [hpins]
    refine (handleAt_lend fun a ha => ?_).trans
      ((handleAt_pinSamples _ _).trans (handleAt_purgeExpired r now))
    rw [hcells, if_pos ha, Option.isSome_map]
    exact hpurge.isSome_get (hchosen.subset ha)
  have htake (now : ℤ) (c : RawCall) (reserved : Bool) :
      (r.rawTakeForLoan now c reserved).1.handleAt = r.handleAt := by
    have hpurge := h.purgeExpired now
    rw [rawTakeForLoan_eq]
    split_ifs
    · have hsome : ∀ a ∈ (r.rawSplit now c).1, ((r.purgeExpired now).heap.get a).isSome = true :=
        fun a ha => hpurge.isSome_get ((rawSplit_sublist r now c).1.subset ha)
      have hlend := handleAt_lend (r := { r.purgeExpired now with
        pending := (r.rawSplit now c).2 }) hsome
      exact hlend.trans (handleAt_purgeExpired r now)
    · exact handleAt_purgeExpired r now
  cases call with
  | pinSamplesForLoan now f maxSamples pins => exact hpin now ⟨false, none, f, maxSamples⟩ pins
  | pinNextInstanceForLoan now prev f maxSamples pins =>
    exact hpin now ⟨false, some prev, f, maxSamples⟩ pins
  | takeSamplesForLoan now f maxSamples reserved =>
    exact htake now ⟨true, none, f, maxSamples⟩ reserved
  | takeNextInstanceForLoan now prev f maxSamples reserved =>
    exact htake now ⟨true, some prev, f, maxSamples⟩ reserved

theorem takeRawLoop_sublist (now : ℤ) : ∀ (l : List ℕ) (r : DataReader),
    (takeRawLoop now r l).1.pending.Sublist l
  | [], _ => .refl _
  | a :: l, r => by
      unfold takeRawLoop
      split
      · exact .refl _
      · dsimp only
        split
        · exact (takeRawLoop_sublist now l _).cons a
        · exact List.sublist_cons_self a l

theorem takeCall_sublist (r : DataReader) (call : TakeCall) :
    (call.run r).1.pending.Sublist r.pending := by
  cases call with
  | takeRaw now => exact takeRawLoop_sublist now r.pending r
  | _ => exact (@Calls.takeCall r _ _ true rfl).sublist

/-- Access keeps the queue within the limits. -/
theorem Bounded.shrinks (h : r.Bounded) (hq : r'.qos = r.qos) (hh : r'.handleAt = r.handleAt)
    (hp : r'.pending.Subperm r.pending) : r'.Bounded := by
  unfold Bounded queued
  rw [hq, hh]
  obtain ⟨l, hperm, hsub⟩ := hp
  exact DataReaderQos.Within.subperm h ⟨l.map r.handleAt, hperm.map _, hsub.map _⟩

end DataReader

/-- What is about to be queued unchecked fits. -/
def ReaderAction.Fits (r : DataReader) : ReaderAction → Prop
  | .promote idx => r.qos.Within (r.queued ++ (r.exposed idx).map some)
  | .unmatching _ guid => r.qos.Within (r.queued ++ (r.lostWith guid).map some)
  | _ => True

namespace ReaderMachine

open DataReader

variable {s s' s₀ : ReaderMachine} {act : ReaderAction}

/-! ### Steps -/

/-- From a queue within the limits, an action leads to one exactly if what it queues unchecked fits;
a sample that arrives always does. -/
theorem step_limits (h : s.QueueHeld) (hb : s.reader.Bounded) (hs : s.step act = some s') :
    (s'.reader.Bounded ↔ act.Fits s.reader) ∧
      ∀ now change, act = .data now change → Arrives s.reader s'.reader := by
  have hrange : s.reader.InRange := fun a ha => h.1.lt_of_pending ha
  have hkept (hbounded : s'.reader.Bounded) (hfits : act.Fits s.reader)
      (hdata : ∀ now change, act ≠ .data now change) : (s'.reader.Bounded ↔ act.Fits s.reader) ∧
        ∀ now change, act = .data now change → Arrives s.reader s'.reader :=
    ⟨iff_of_true hbounded hfits, fun now change heq => absurd heq (hdata now change)⟩
  have hleaves (hl : LeavesSamples s.reader s'.reader) : s'.reader.Bounded :=
    hb.congr hl.qos hl.pending hl.structs
  have hgive {reader : DataReader} (hr : reader.Bounded) (s₀ : ReaderMachine) (payloads : List ℕ)
      (built : Bool) : (s₀.giveOut reader payloads built).reader.Bounded := by
    rw [reader_giveOut]
    split_ifs
    · exact hr
    · obtain ⟨freed, hfree⟩ := foldl_freePayload_frame payloads reader
      rw [hfree]
      exact hr
  have hqos {r' : DataReader} (ha : Accesses s.reader r') : r'.qos = s.reader.qos := by rw [ha.rest]
  cases act with
  | matching now info =>
    cases hs
    exact hkept (hleaves (.onWriterMatchingCb _ now info _)) trivial fun _ _ heq => (by cases heq)
  | unmatching now guid =>
    obtain ⟨-, hs⟩ := Option.ite_none_right_eq_some.1 hs
    cases hs
    have hsame : (s.reader.onWriterUnmatchingCb now guid).qos = s.reader.qos :=
      (onWriterUnmatchingCb_instances hrange now guid).2.1
    refine ⟨?_, fun _ _ heq => (by cases heq)⟩
    show DataReaderQos.Within _ _ ↔ DataReaderQos.Within _ _
    rw [hsame]
    exact DataReaderQos.Within.perm_iff (onWriterUnmatchingCb_queued hrange now guid)
  | data now change =>
    obtain ⟨-, hs⟩ := Option.ite_none_right_eq_some.1 hs
    cases hs
    refine ⟨iff_of_true (Arrives.onDataCb hb hrange now change).1 trivial, ?_⟩
    rintro _ _ heq
    cases heq
    exact .onDataCb hb hrange now change
  | eoc now change =>
    obtain ⟨-, hs⟩ := Option.ite_none_right_eq_some.1 hs
    cases hs
    exact hkept (hleaves (.onEocCb _ now change)) trivial fun _ _ heq => (by cases heq)
  | promote idx =>
    cases hs
    have hsame : (s.reader.promoteCommittedSetLocked idx).qos = s.reader.qos :=
      (foldl_enqueue_instances _ _).1.1
    refine ⟨?_, fun _ _ heq => (by cases heq)⟩
    show DataReaderQos.Within _ _ ↔ DataReaderQos.Within _ _
    rw [hsame, promoteCommittedSetLocked_queued hrange]
  | discard idx =>
    cases hs
    exact hkept (hleaves (.discardCommittedSetLocked _ idx)) trivial fun _ _ heq => (by cases heq)
  | beginOrdered =>
    cases hs
    exact hkept (hb.shrinks rfl rfl (List.perm_insertionSort _ _).subperm) trivial
      fun _ _ heq => (by cases heq)
  | endOrdered =>
    cases hs
    exact hkept hb trivial fun _ _ heq => (by cases heq)
  | take call built =>
    cases hs
    have htaken := hb.shrinks (hqos (.takeCall _ call)) (handleAt_takeCall _ call)
      (takeCall_sublist _ call).subperm
    exact hkept (hgive htaken _ _ _) trivial fun _ _ heq => (by cases heq)
  | read call built =>
    have hsub : (call.run s.reader).1.pending.Sublist s.reader.pending := by
      cases call <;> exact (@Calls.readCall s.reader _ _ true rfl).sublist
    have hread := hb.shrinks (hqos (.readCall _ call)) (handleAt_readCall _ call) hsub.subperm
    simp only [ReaderMachine.step] at hs
    split_ifs at hs
    · cases hs
      exact hkept (hgive hread _ _ _) trivial fun _ _ heq => (by cases heq)
    · cases hs
      exact hkept hread trivial fun _ _ heq => (by cases heq)
  | lend call sliced =>
    have hsub : (call.run s.reader).1.pending.Sublist s.reader.pending := by
      cases call <;> exact (@Calls.loanCall s.reader _ _ true rfl).sublist
    cases hs
    exact hkept (hb.shrinks (hqos (.loanCall _ call)) (h.1.handleAt_loanCall call) hsub.subperm)
      trivial fun _ _ heq => (by cases heq)
  | register i made =>
    obtain ⟨as, -, rfl⟩ := Option.map_eq_some_iff.mp hs
    cases made <;> exact hkept hb trivial fun _ _ heq => (by cases heq)
  | returnLoan key =>
    obtain ⟨as, -, rfl⟩ := Option.map_eq_some_iff.mp hs
    exact hkept hb trivial fun _ _ heq => (by cases heq)
  | releasePin i =>
    simp only [ReaderMachine.step] at hs
    split at hs
    next n a as _ =>
      cases hs
      have hhandles : (s.reader.releasePin a).handleAt = s.reader.handleAt :=
        handleAt_of_sameContents (r := s.reader) (.release s.reader.heap a)
      exact hkept (hb.shrinks rfl hhandles (.refl _)) trivial fun _ _ heq => (by cases heq)
    next => cases hs
  | settle i =>
    simp only [ReaderMachine.step] at hs
    split at hs
    next n _ =>
      cases hs
      exact hkept hb trivial fun _ _ heq => (by cases heq)
    next => cases hs
  | freeCopy i =>
    obtain ⟨payloads, -, rfl⟩ := Option.map_eq_some_iff.mp hs
    obtain ⟨freed, hfree⟩ := foldl_freePayload_frame payloads s.reader
    refine hkept ?_ trivial fun _ _ heq => (by cases heq)
    show (payloads.foldl freePayload s.reader).Bounded
    rw [hfree]
    exact hb

/-! ### Runs -/

theorem Run.of_snoc {acts : List ReaderAction} (h : Run s₀ (acts ++ [act]) s') :
    ∃ s, Run s₀ acts s ∧ s.step act = some s' := by
  generalize hl : acts ++ [act] = l at h
  cases h with
  | nil => exact absurd hl (List.append_ne_nil_of_right_ne_nil _ (List.cons_ne_nil _ _))
  | snoc hrun hs =>
    obtain ⟨rfl, hact⟩ := List.append_inj' hl rfl
    cases hact
    exact ⟨_, hrun, hs⟩

theorem Run.split {before : List ReaderAction} : ∀ {after : List ReaderAction} {s' : ReaderMachine},
    Run s₀ (before ++ act :: after) s' → ∃ s t, Run s₀ before s ∧ s.step act = some t := by
  intro after
  induction after using List.reverseRecOn with
  | nil =>
    intro s' h
    obtain ⟨s, hrun, hs⟩ := h.of_snoc
    exact ⟨s, s', hrun, hs⟩
  | append_singleton after b ih =>
    intro s' h
    rw [← List.cons_append, ← List.append_assoc] at h
    obtain ⟨s, hrun, -⟩ := h.of_snoc
    exact ih hrun

variable {qos : DataReaderQos} {presentation : PresentationQos}
  {cftFilter : Option (List UInt8 → Bool)} {acts : List ReaderAction}

end ReaderMachine

end Zzdds.Dcps
