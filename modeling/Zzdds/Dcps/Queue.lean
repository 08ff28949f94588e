import Zzdds.Dcps.Conditions

/-! # The queue holds its samples

In every state of a reader, whatever its application does, the samples of the queue are distinct,
none is being torn down, and each is referred to by the queue and by all loans of it. -/

namespace Zzdds.Dcps

open Zzdds.Lib Zzdds.Rtps

namespace DataReader

variable {r r' : DataReader} {P : PendingChange → Prop}

/-! ### Samples of coherent sets -/

/-- Every sample of a coherent set meets a condition. -/
structure Staged (P : PendingChange → Prop) (r : DataReader) : Prop where
  wip : ∀ w e, r.coherentWip.lookup w = some e → ∀ pc ∈ e.samples, P pc
  committed : ∀ set ∈ r.coherentCommitted, ∀ pc ∈ set.samples, P pc

namespace Staged

theorem congr (h : r.Staged P) (hw : r'.coherentWip = r.coherentWip)
    (hc : r'.coherentCommitted = r.coherentCommitted) : r'.Staged P :=
  ⟨hw ▸ h.wip, hc ▸ h.committed⟩

theorem mono (h : r.Staged P) {Q : PendingChange → Prop} (hPQ : ∀ pc, P pc → Q pc) : r.Staged Q :=
  ⟨fun w e hw pc hpc => hPQ pc (h.wip w e hw pc hpc),
    fun set hset pc hpc => hPQ pc (h.committed set hset pc hpc)⟩

theorem eraseWip (h : r.Staged P) (writer : Guid) :
    Staged P { r with coherentWip := r.coherentWip.erase writer } := by
  refine ⟨fun w e hw => ?_, h.committed⟩
  have hw : (r.coherentWip.erase writer).lookup w = some e := hw
  rw [Table.lookup_erase_eq] at hw
  split_ifs at hw
  exact h.wip w e hw

theorem insertWip (h : r.Staged P) (writer : Guid) {e : CoherentWipEntry}
    (he : ∀ pc ∈ e.samples, P pc) :
    Staged P { r with coherentWip := r.coherentWip.insert writer e } := by
  refine ⟨fun w e' hw => ?_, h.committed⟩
  have hw : (r.coherentWip.insert writer e).lookup w = some e' := hw
  rw [Table.lookup_insert_eq] at hw
  split_ifs at hw
  · cases hw
    exact he
  · exact h.wip w e' hw

theorem updateWip (h : r.Staged P) (writer : Guid) {f : CoherentWipEntry → CoherentWipEntry}
    (hf : ∀ e, (∀ pc ∈ e.samples, P pc) → ∀ pc ∈ (f e).samples, P pc) :
    Staged P { r with coherentWip := Table.update writer f r.coherentWip } := by
  refine ⟨fun w e hw => ?_, h.committed⟩
  have hw : (Table.update writer f r.coherentWip).lookup w = some e := hw
  rw [Table.lookup_update_eq] at hw
  split_ifs at hw
  · obtain ⟨e', he', rfl⟩ := Option.map_eq_some_iff.1 hw
    exact hf e' (h.wip writer e' he')
  · exact h.wip w e hw

theorem endCoherentWipLocked (h : r.Staged P) (now : ℤ) (writer : Guid) (cw : CoherentWriter)
    (clean : Bool) : (r.endCoherentWipLocked now writer cw clean).1.Staged P := by
  unfold DataReader.endCoherentWipLocked
  split
  next => exact h
  next wip hw =>
    have herase := h.eraseWip writer
    have hqueue (samples : List PendingChange) (hs : ∀ pc ∈ samples, P pc) (publisher : Guid)
        (complete : Bool) : ∀ set ∈ r.coherentCommitted ++
          [(⟨samples, writer, publisher, wip.groupCs, complete⟩ : CommittedSet)],
          ∀ pc ∈ set.samples, P pc := by
      intro set hset
      rcases List.mem_append.1 hset with hset | hset
      · exact h.committed set hset
      · cases List.mem_singleton.1 hset
        exact hs
    dsimp only
    split_ifs
    · exact ⟨herase.wip, hqueue _ (h.wip writer wip hw) _ _⟩
    · exact ⟨herase.wip, hqueue [] (fun _ hpc => nomatch hpc) _ _⟩
    · exact herase.congr rfl rfl

theorem trackCoherentLocked (h : r.Staged P) (now : ℤ) (change : CacheChange) (isMarker : Bool) :
    (r.trackCoherentLocked now change isMarker).1.Staged P := by
  have hend : ∀ (b clean : Bool) (cw cw' : CoherentWriter),
      (if b then r.endCoherentWipLocked now change.writerGuid cw clean
        else (r, cw', false)).1.Staged P := by
    intro b clean cw cw'
    cases b with
    | false => exact h
    | true => exact h.endCoherentWipLocked now _ cw clean
  unfold DataReader.trackCoherentLocked
  dsimp only
  split
  · split
    · refine (h.updateWip change.writerGuid ?_).congr rfl rfl
      exact fun _ he => he
    · refine ((hend _ _ _ _).insertWip change.writerGuid ?_).congr rfl rfl
      exact fun _ hpc => nomatch hpc
  · exact (hend _ _ _ _).congr rfl rfl

theorem onEocCb (h : r.Staged P) (now : ℤ) (change : CacheChange) :
    (r.onEocCb now change).Staged P := by
  unfold DataReader.onEocCb
  split_ifs
  · exact h.trackCoherentLocked now change true
  · exact h

theorem arriveLocked (h : r.Staged P) (now : ℤ) (ih : HandleT) (change : CacheChange) :
    (r.arriveLocked now ih change).2.Staged P := by
  have htrack : (if change.kind = .alive then
      (r.dupe change.data).2.trackWriterInstanceLocked change.writerGuid ih
      else (r.dupe change.data).2).Staged P := by
    split_ifs <;> exact h.congr rfl rfl
  have hif (b : Bool) {r : DataReader} (h : r.Staged P) :
      (if b = true then (r.trackCoherentLocked now change false).1 else r).Staged P := by
    split_ifs
    · exact h.trackCoherentLocked now change false
    · exact h
  exact hif _ htrack

theorem ownershipLocked (h : r.Staged P) (ih : HandleT) (writer : Guid) :
    (r.ownershipLocked ih writer).1.Staged P := by
  refine h.congr ?_ ?_ <;>
  · unfold DataReader.ownershipLocked
    split_ifs
    · split
      · split_ifs <;> rfl
      · rfl
    · rfl

theorem stampLocked (h : r.Staged P) (copy : ℕ) (ih : HandleT) (change : CacheChange) :
    (r.stampLocked copy ih change).1.Staged P := by
  unfold DataReader.stampLocked
  dsimp only
  split_ifs <;> exact h.congr rfl rfl

theorem filtersTaken (h : r.Staged P) (ih : HandleT) (change : CacheChange) :
    (r.filtersTaken ih change).Staged P := by
  unfold DataReader.filtersTaken
  dsimp only
  split_ifs <;> exact h.congr rfl rfl

theorem bufferLocked (h : r.Staged P) (copy : ℕ) (ih : HandleT) (change : CacheChange)
    (hpc : P (r.stampLocked copy ih change).2) : (r.bufferLocked copy ih change).Staged P := by
  unfold DataReader.bufferLocked
  split
  next => exact h.congr rfl rfl
  next =>
    refine (((h.stampLocked copy ih change).filtersTaken ih change).updateWip change.writerGuid
      fun e he pc hmem => ?_).congr rfl rfl
    rcases List.mem_append.1 hmem with hmem | hmem
    · exact he pc hmem
    · cases List.mem_singleton.1 hmem
      exact hpc

theorem onWriterMatchingCb (h : r.Staged P) (now : ℤ) (info : MatchedWriterInfo) (isNew : Bool) :
    (r.onWriterMatchingCb now info isNew).Staged P := by
  unfold DataReader.onWriterMatchingCb
  dsimp only
  split
  · refine ⟨h.wip, fun set hset => ?_⟩
    obtain ⟨part, hpart, rfl⟩ := List.mem_map.1 hset
    have hcommitted := h.committed part hpart
    split_ifs <;> exact hcommitted
  · exact h.congr rfl rfl

theorem eraseCommitted (h : r.Staged P) (idx : ℕ) :
    Staged P { r with coherentCommitted := r.coherentCommitted.eraseIdx idx } :=
  ⟨h.wip, fun set hset => h.committed set (List.mem_of_mem_eraseIdx hset)⟩

theorem discardCommittedSetLocked (h : r.Staged P) (idx : ℕ) :
    (r.discardCommittedSetLocked idx).Staged P := (h.eraseCommitted idx).congr rfl rfl

end Staged

/-! ### The queue -/

/-- A sample that was not referred to yet, and whose payload is among the first `n`. -/
def Fresh (n : ℕ) (pc : PendingChange) : Prop := pc.quiesce = {} ∧ pc.data < n

/-- The samples of the queue are held: each is there once, has its payload, is not being torn down,
and is referred to by the queue and all of `loaned`; and no sample was referred to before it came to
the queue. -/
structure Held (r : DataReader) (loaned : List ℕ) : Prop where
  nodup : r.pending.Nodup
  holds : ∀ a ∈ r.pending, ∃ pc, r.heap.get a = some pc ∧ pc.quiesce.tearingDown = false ∧
    loaned.count a < pc.quiesce.count ∧ pc.data < r.heap.payloads.length
  lent : ∀ a ∈ loaned, a < r.heap.structs.length
  fresh : r.Staged (Fresh r.heap.payloads.length)

namespace Held

variable {loaned loaned' : List ℕ}

theorem lt_of_pending (h : r.Held loaned) {a : ℕ} (ha : a ∈ r.pending) :
    a < r.heap.structs.length := by
  obtain ⟨pc, hpc, -⟩ := h.holds a ha
  exact (List.getElem?_eq_some_iff.mp hpc).1

/-- Samples leave the queue, and the others are left alone. -/
theorem subset (h : r.Held loaned) (hnodup : r'.pending.Nodup) (hsub : r'.pending ⊆ r.pending)
    (hget : ∀ a ∈ r'.pending, (r'.heap.get a).map (fun pc => (pc.quiesce, pc.data)) =
      (r.heap.get a).map fun pc => (pc.quiesce, pc.data))
    (hlen : r.heap.structs.length ≤ r'.heap.structs.length)
    (hfresh : r'.Staged (Fresh r.heap.payloads.length))
    (hpayloads : r.heap.payloads.length ≤ r'.heap.payloads.length) :
    r'.Held loaned := by
  refine ⟨hnodup, fun a ha => ?_, fun a ha => (h.lent a ha).trans_le hlen,
    hfresh.mono fun pc hpc => hpc.imp_right fun hlt => hlt.trans_le hpayloads⟩
  obtain ⟨pc, hpc, hopen, hcount, hdata⟩ := h.holds a (hsub ha)
  have hq := hget a ha
  rw [hpc, Option.map_some] at hq
  obtain ⟨pc', hpc', hq⟩ := Option.map_eq_some_iff.1 hq
  obtain ⟨hquiesce, hdata'⟩ := Prod.mk.inj hq
  rw [← hquiesce] at hopen hcount
  exact ⟨pc', hpc', hopen, hcount, (hdata' ▸ hdata).trans_le hpayloads⟩

/-- The queue stays, and what is allocated. -/
theorem congr (h : r.Held loaned) (hpending : r'.pending = r.pending)
    (hstructs : r'.heap.structs = r.heap.structs)
    (hfresh : r'.Staged (Fresh r.heap.payloads.length))
    (hpayloads : r.heap.payloads.length ≤ r'.heap.payloads.length) :
    r'.Held loaned := by
  refine h.subset (hpending ▸ h.nodup) (hpending ▸ List.Subset.refl _) (fun a _ => ?_)
    (hstructs ▸ le_rfl) hfresh hpayloads
  unfold Heap.get
  rw [hstructs]

theorem loans (h : r.Held loaned) (hcount : ∀ a, loaned'.count a ≤ loaned.count a) :
    r.Held loaned' := by
  refine ⟨h.nodup, fun a ha => ?_, fun a ha => h.lent a ?_, h.fresh⟩
  · obtain ⟨pc, hpc, hopen, hlt, hdata⟩ := h.holds a ha
    exact ⟨pc, hpc, hopen, (hcount a).trans_lt hlt, hdata⟩
  · exact List.count_pos_iff.1 ((List.count_pos_iff.2 ha).trans_le (hcount a))

theorem enqueue (h : r.Held loaned) {pc : PendingChange} (hpc : Fresh r.heap.payloads.length pc) :
    (r.enqueue pc).Held loaned := by
  have hnew : r.heap.structs.length ∉ r.pending := fun hmem => (h.lt_of_pending hmem).ne rfl
  have hlent : r.heap.structs.length ∉ loaned := fun hmem => (h.lent _ hmem).ne rfl
  have hlen : (r.enqueue pc).heap.structs.length = r.heap.structs.length + 1 := List.length_append
  refine ⟨?_, fun a ha => ?_, fun a ha => ?_, h.fresh.congr rfl rfl⟩
  · rw [show (r.enqueue pc).pending = r.pending.concat r.heap.structs.length from
      List.concat_eq_append.symm]
    exact h.nodup.concat hnew
  · rcases List.mem_append.1 ha with ha | ha
    · obtain ⟨pc', hpc', hheld⟩ := h.holds a ha
      exact ⟨pc', (Heap.get_append r.heap pc (h.lt_of_pending ha)).trans hpc', hheld⟩
    · cases List.mem_singleton.1 ha
      refine ⟨pc, List.getElem?_concat_length, by rw [hpc.1], ?_, hpc.2⟩
      rw [show loaned.count (r.heap.create pc).1 = 0 from List.count_eq_zero_of_not_mem hlent,
        hpc.1]
      exact Nat.one_pos
  · rw [hlen]
    exact (h.lent a ha).trans (Nat.lt_succ_self _)

theorem enqueues : ∀ (samples : List PendingChange) {r : DataReader},
    (∀ pc ∈ samples, Fresh r.heap.payloads.length pc) → r.Held loaned →
      (samples.foldl DataReader.enqueue r).Held loaned
  | [], _, _, h => h
  | pc :: samples, _, hs, h =>
      enqueues samples (fun pc' hpc' => hs pc' (List.mem_cons_of_mem pc hpc'))
        (h.enqueue (hs pc List.mem_cons_self))

end Held

end DataReader

/-! ### Retired samples -/

namespace Heap

theorem length_modify (h : Heap) (a : ℕ) (f : PendingChange → PendingChange) :
    (h.modify a f).structs.length = h.structs.length := List.length_modify ..

theorem get_release_of_ne (h : Heap) {a b : ℕ} (hne : b ≠ a) : (h.release a).get b = h.get b := by
  have hmodify (f : PendingChange → PendingChange) : (h.modify a f).get b = h.get b := by
    rw [get_modify, if_neg hne]
  unfold release
  split
  next => rfl
  next pc _ =>
    dsimp only
    split
    · unfold reallyFree
      split
      · exact hmodify _
      · exact hmodify _
    · exact hmodify _

theorem get_beginTeardown_of_ne (h : Heap) {a b : ℕ} (hne : b ≠ a) :
    (h.beginTeardown a).get b = h.get b := by
  unfold beginTeardown
  rw [get_release_of_ne _ hne, get_modify, if_neg hne]

theorem get_foldl_beginTeardown : ∀ (as : List ℕ) (h : Heap) {b : ℕ}, b ∉ as →
    (as.foldl beginTeardown h).get b = h.get b
  | [], _, _, _ => rfl
  | a :: as, h, b, hb => by
      rw [List.mem_cons, not_or] at hb
      obtain ⟨hne, hb⟩ := hb
      exact (get_foldl_beginTeardown as _ hb).trans (get_beginTeardown_of_ne h hne)

end Heap

namespace DataReader.Held

variable {r r' : DataReader} {loaned : List ℕ}

theorem purgeExpired (h : r.Held loaned) (now : ℤ) : (r.purgeExpired now).Held loaned := by
  refine h.subset (h.nodup.filter _) (List.filter_subset_self _) (fun a ha => ?_) ?_
    (h.fresh.congr rfl rfl) ?_
  · have hnot : a ∉ r.pending.filter (r.expiredAt now) := by
      intro hmem
      have hexp := (List.mem_filter.1 ha).2
      rw [(List.mem_filter.1 hmem).2] at hexp
      cases hexp
    exact congrArg _ (Heap.get_foldl_beginTeardown _ r.heap hnot)
  · exact (Heap.length_foldl_beginTeardown _ _).ge
  · exact (congrArg List.length (purgeExpired_sameContents r now).payloads).ge

theorem evictOldestLocked (h : r.Held loaned) (ih : HandleT) :
    (r.evictOldestLocked ih).Held loaned := by
  unfold DataReader.evictOldestLocked
  split
  next => exact h
  next b _ =>
    refine h.subset (h.nodup.erase b) List.erase_subset (fun a ha => ?_) ?_ (h.fresh.congr rfl rfl)
      (congrArg List.length (Heap.SameContents.beginTeardown r.heap b).payloads).ge
    · have hne : a ≠ b := ((h.nodup.mem_erase_iff).1 ha).1
      exact congrArg _ (Heap.get_beginTeardown_of_ne r.heap hne)
    · exact (Heap.length_beginTeardown r.heap b).ge

theorem keepLastLocked (h : r.Held loaned) (ih : HandleT) : (r.keepLastLocked ih).Held loaned := by
  unfold DataReader.keepLastLocked
  split_ifs
  · exact h.evictOldestLocked ih
  · exact h

/-! ### Samples -/

theorem heap_stampLocked (r : DataReader) (copy : ℕ) (ih : HandleT) (change : CacheChange) :
    (r.stampLocked copy ih change).1.heap = r.heap := by
  unfold DataReader.stampLocked
  dsimp only
  split_ifs <;> rfl

theorem pending_stampLocked (r : DataReader) (copy : ℕ) (ih : HandleT) (change : CacheChange) :
    (r.stampLocked copy ih change).1.pending = r.pending := by
  unfold DataReader.stampLocked
  dsimp only
  split_ifs <;> rfl

theorem heap_filtersTaken (r : DataReader) (ih : HandleT) (change : CacheChange) :
    (r.filtersTaken ih change).heap = r.heap := by
  unfold DataReader.filtersTaken
  dsimp only
  split_ifs <;> rfl

theorem pending_filtersTaken (r : DataReader) (ih : HandleT) (change : CacheChange) :
    (r.filtersTaken ih change).pending = r.pending := by
  unfold DataReader.filtersTaken
  dsimp only
  split_ifs <;> rfl

theorem payloads_keepLastLocked (r : DataReader) (ih : HandleT) :
    (r.keepLastLocked ih).heap.payloads = r.heap.payloads := by
  unfold DataReader.keepLastLocked DataReader.evictOldestLocked
  split_ifs
  · split
    · rfl
    · exact (Heap.SameContents.beginTeardown r.heap _).payloads
  · rfl

theorem stampLocked (h : r.Held loaned) (copy : ℕ) (ih : HandleT) (change : CacheChange) :
    (r.stampLocked copy ih change).1.Held loaned := by
  have hheap := heap_stampLocked r copy ih change
  exact h.congr (pending_stampLocked r copy ih change) (congrArg Heap.structs hheap)
    (h.fresh.stampLocked copy ih change) (hheap ▸ le_rfl)

theorem filtersTaken (h : r.Held loaned) (ih : HandleT) (change : CacheChange) :
    (r.filtersTaken ih change).Held loaned := by
  have hheap := heap_filtersTaken r ih change
  exact h.congr (pending_filtersTaken r ih change) (congrArg Heap.structs hheap)
    (h.fresh.filtersTaken ih change) (hheap ▸ le_rfl)

theorem queueLocked (h : r.Held loaned) {copy : ℕ} (hcopy : copy < r.heap.payloads.length)
    (ih : HandleT) (change : CacheChange) : (r.queueLocked copy ih change).Held loaned := by
  have hkeep := h.keepLastLocked ih
  unfold DataReader.queueLocked
  dsimp only
  split
  · exact hkeep.congr rfl rfl (hkeep.fresh.congr rfl rfl) le_rfl
  · have hstamp := hkeep.stampLocked copy ih change
    refine (hstamp.enqueue ⟨rfl, ?_⟩).filtersTaken ih change
    rw [heap_stampLocked, payloads_keepLastLocked]
    exact hcopy

theorem bufferLocked (h : r.Held loaned) {copy : ℕ} (hcopy : copy < r.heap.payloads.length)
    (ih : HandleT) (change : CacheChange) : (r.bufferLocked copy ih change).Held loaned := by
  have hfresh := h.fresh.bufferLocked copy ih change ⟨rfl, hcopy⟩
  unfold DataReader.bufferLocked at hfresh ⊢
  split at hfresh
  next hnone => exact h.congr rfl rfl hfresh le_rfl
  next hsome =>
    have hheap : ((r.stampLocked copy ih change).1.filtersTaken ih change).heap = r.heap :=
      (heap_filtersTaken _ ih change).trans (heap_stampLocked r copy ih change)
    refine h.congr ?_ (congrArg Heap.structs hheap) hfresh (hheap ▸ le_rfl)
    exact (pending_filtersTaken _ ih change).trans (pending_stampLocked r copy ih change)

theorem payloads_freeSamples (r : DataReader) (samples : List PendingChange) :
    (r.freeSamples samples).heap.payloads = r.heap.payloads := by
  have hfold : ∀ (samples : List PendingChange) (h : Heap),
      (samples.foldl (fun h pc => h.free pc.data) h).payloads = h.payloads := by
    intro samples
    induction samples with
    | nil => exact fun h => rfl
    | cons pc samples ih => exact fun h => ih _
  exact hfold samples r.heap

theorem payloads_endCoherentWipLocked (r : DataReader) (now : ℤ) (writer : Guid)
    (cw : CoherentWriter) (clean : Bool) :
    (r.endCoherentWipLocked now writer cw clean).1.heap.payloads = r.heap.payloads := by
  unfold DataReader.endCoherentWipLocked
  split
  next => rfl
  next wip _ =>
    dsimp only
    split_ifs
    · rfl
    · exact payloads_freeSamples _ wip.samples
    · exact payloads_freeSamples _ wip.samples

theorem payloads_trackCoherentLocked (r : DataReader) (now : ℤ) (change : CacheChange)
    (isMarker : Bool) :
    (r.trackCoherentLocked now change isMarker).1.heap.payloads = r.heap.payloads := by
  have hend : ∀ (b clean : Bool) (cw cw' : CoherentWriter),
      (if b then r.endCoherentWipLocked now change.writerGuid cw clean
        else (r, cw', false)).1.heap.payloads = r.heap.payloads := by
    intro b clean cw cw'
    cases b with
    | false => rfl
    | true => exact payloads_endCoherentWipLocked r now _ cw clean
  unfold DataReader.trackCoherentLocked
  dsimp only
  split
  · split
    · rfl
    · exact hend _ _ _ _
  · exact hend _ _ _ _

/-- The payload of a change is copied. -/
theorem payloads_arriveLocked (r : DataReader) (now : ℤ) (ih : HandleT) (change : CacheChange) :
    (r.arriveLocked now ih change).2.heap.payloads = r.heap.payloads ++ [change.data] := by
  have htrack : (if change.kind = .alive then
      (r.dupe change.data).2.trackWriterInstanceLocked change.writerGuid ih
      else (r.dupe change.data).2).heap.payloads = r.heap.payloads ++ [change.data] := by
    split_ifs <;> rfl
  have hif (b : Bool) {r₁ : DataReader} (h : r₁.heap.payloads = r.heap.payloads ++ [change.data]) :
      (if b = true then (r₁.trackCoherentLocked now change false).1 else r₁).heap.payloads =
        r.heap.payloads ++ [change.data] := by
    split_ifs
    · exact (payloads_trackCoherentLocked _ now change false).trans h
    · exact h
  exact hif _ htrack

theorem heap_ownershipLocked (r : DataReader) (ih : HandleT) (writer : Guid) :
    (r.ownershipLocked ih writer).1.heap = r.heap := by
  unfold DataReader.ownershipLocked
  split_ifs
  · split
    · split_ifs <;> rfl
    · rfl
  · rfl

theorem onDataCb (h : r.Held loaned) (now : ℤ) (change : CacheChange) :
    (r.onDataCb now change).Held loaned := by
  have hpayloads := payloads_arriveLocked r now (keyHashToHandle change.keyHash) change
  have harrive : (r.arriveLocked now (keyHashToHandle change.keyHash) change).2.Held loaned := by
    have hl := arriveLocked_leaves r now change
    refine h.congr hl.pending hl.structs (h.fresh.arriveLocked now _ change) ?_
    rw [hpayloads, List.length_append]
    exact Nat.le_add_right _ _
  have hheap := heap_ownershipLocked
    (r.arriveLocked now (keyHashToHandle change.keyHash) change).2 (keyHashToHandle change.keyHash)
    change.writerGuid
  have howned : ((r.arriveLocked now (keyHashToHandle change.keyHash) change).2.ownershipLocked
      (keyHashToHandle change.keyHash) change.writerGuid).1.Held loaned := by
    refine harrive.congr ?_ (congrArg Heap.structs hheap) (harrive.fresh.ownershipLocked _ _)
      (hheap ▸ le_rfl)
    unfold DataReader.ownershipLocked
    split_ifs
    · split
      · split_ifs <;> rfl
      · rfl
    · rfl
  have hcopy : (r.arriveLocked now (keyHashToHandle change.keyHash) change).1 <
      ((r.arriveLocked now (keyHashToHandle change.keyHash) change).2.ownershipLocked
        (keyHashToHandle change.keyHash) change.writerGuid).1.heap.payloads.length := by
    rw [hheap, hpayloads, List.length_append]
    exact Nat.lt_succ_self _
  unfold DataReader.onDataCb
  dsimp only
  split_ifs
  · exact howned.congr rfl rfl (howned.fresh.congr rfl rfl) le_rfl
  · exact howned.bufferLocked hcopy _ _
  · exact howned.queueLocked hcopy _ _

/-! ### Matches and sets -/

theorem orphans (guid : Guid) (now : Time) : ∀ (l : List HandleT) {r : DataReader},
    r.Held loaned → (l.foldl (fun r ih => r.orphanLocked guid now ih) r).Held loaned
  | [], _, h => h
  | ih :: l, r, h => by
      have hone : (r.orphanLocked guid now ih).Held loaned := by
        unfold DataReader.orphanLocked
        split_ifs
        · exact h
        · have hlen : (r.heap.payloads ++ [emptyKeyCdr]).length = r.heap.payloads.length + 1 :=
            List.length_append
          have hstates : ((r.dupe emptyKeyCdr).2.determineStatesLocked ih
              .notAliveUnregistered).1.Held loaned :=
            h.congr rfl rfl (h.fresh.congr rfl rfl) (hlen ▸ Nat.le_succ _)
          exact hstates.enqueue ⟨rfl, hlen ▸ Nat.lt_succ_self _⟩
        · exact h
      exact orphans guid now l hone

theorem onWriterUnmatchingCb (h : r.Held loaned) (now : Time) (guid : Guid) :
    (r.onWriterUnmatchingCb now guid).Held loaned := by
  unfold DataReader.onWriterUnmatchingCb
  refine orphans guid now _ (h.congr rfl ?_ ((h.fresh.eraseWip guid).congr rfl rfl) ?_)
  · exact LeavesSamples.structs_foldl_free _ r.heap
  · exact (congrArg List.length (payloads_freeSamples r _)).ge

theorem onWriterMatchingCb (h : r.Held loaned) (now : ℤ) (info : MatchedWriterInfo)
    (isNew : Bool) : (r.onWriterMatchingCb now info isNew).Held loaned :=
  have hl := LeavesSamples.onWriterMatchingCb r now info isNew
  have hpayloads : (r.onWriterMatchingCb now info isNew).heap = r.heap := by
    unfold DataReader.onWriterMatchingCb
    dsimp only
    split <;> rfl
  h.congr hl.pending hl.structs (h.fresh.onWriterMatchingCb now info isNew) (hpayloads ▸ le_rfl)

theorem onEocCb (h : r.Held loaned) (now : ℤ) (change : CacheChange) :
    (r.onEocCb now change).Held loaned :=
  have hl := LeavesSamples.onEocCb r now change
  have hpayloads : (r.onEocCb now change).heap.payloads = r.heap.payloads := by
    unfold DataReader.onEocCb
    split_ifs
    · exact payloads_trackCoherentLocked r now change true
    · rfl
  h.congr hl.pending hl.structs (h.fresh.onEocCb now change) (hpayloads ▸ le_rfl)

theorem promoteCommittedSetLocked (h : r.Held loaned) (idx : ℕ) :
    (r.promoteCommittedSetLocked idx).Held loaned := by
  refine enqueues _ (fun pc hpc => ?_) (h.congr rfl rfl (h.fresh.eraseCommitted idx) le_rfl)
  cases hset : r.coherentCommitted[idx]? with
  | none =>
    rw [hset] at hpc
    cases hpc
  | some set =>
    rw [hset] at hpc
    exact h.fresh.committed set (List.mem_of_getElem? hset) pc hpc

theorem discardCommittedSetLocked (h : r.Held loaned) (idx : ℕ) :
    (r.discardCommittedSetLocked idx).Held loaned :=
  have hl := LeavesSamples.discardCommittedSetLocked r idx
  h.congr hl.pending hl.structs (h.fresh.discardCommittedSetLocked idx)
    (congrArg List.length (payloads_freeSamples _ _)).ge

/-! ### Access -/

theorem payloads_foldl_destroy (as : List ℕ) (h : Heap) :
    (as.foldl Heap.destroy h).payloads = h.payloads := by
  induction as generalizing h with
  | nil => rfl
  | cons a as ih => exact ih _

theorem takeAway (h : r.Held loaned) {taken kept : List ℕ} (hkept : kept.Nodup)
    (hsub : kept ⊆ r.pending) : (r.takeAway taken kept).1.Held loaned := by
  refine h.subset hkept hsub (fun a _ => ?_) ?_ (h.fresh.congr rfl rfl)
    (congrArg List.length (payloads_foldl_destroy taken r.heap)).ge
  · show ((taken.foldl Heap.destroy r.heap).structs[a]?).map _ = _
    rw [Heap.structs_foldl_destroy]
    rfl
  · exact (congrArg List.length (Heap.structs_foldl_destroy r.heap taken)).ge

theorem splitMatching_sublist {p : ℕ → Bool} : ∀ (l : List ℕ) (n : ℕ),
    ((splitMatching p l n).1.Sublist l) ∧ (splitMatching p l n).2.Sublist l
  | [], _ => by
      unfold splitMatching
      exact ⟨.slnil, .slnil⟩
  | a :: l, 0 => ⟨List.nil_sublist _, .refl _⟩
  | a :: l, n + 1 => by
      unfold splitMatching
      split_ifs
      · exact ⟨(splitMatching_sublist l n).1.cons_cons a, (splitMatching_sublist l n).2.cons a⟩
      · have hrest := splitMatching_sublist (p := p) l (n + 1)
        exact ⟨hrest.1.cons a, hrest.2.cons_cons a⟩

theorem takeSplit (h : r.Held loaned) (p : ℕ → Bool) (n : ℕ) :
    (r.takeAway (splitMatching p r.pending n).1 (splitMatching p r.pending n).2).1.Held loaned :=
  h.takeAway (h.nodup.sublist (splitMatching_sublist _ _).2) (splitMatching_sublist _ _).2.subset

theorem takeRawLoop (now : ℤ) : ∀ (l : List ℕ) {r : DataReader},
    Held { r with pending := l } loaned → (DataReader.takeRawLoop now r l).1.Held loaned
  | [], _, h => h
  | a :: l, r, h => by
      have htail {w : Option ℕ} :
          Held { r with pending := l, orderedAccessWatermark := w } loaned :=
        h.subset h.nodup.of_cons (List.subset_cons_self a l) (fun _ _ => rfl) le_rfl
          (h.fresh.congr rfl rfl) le_rfl
      unfold DataReader.takeRawLoop
      split
      · exact h
      · dsimp only
        split
        · refine takeRawLoop now l ((htail (w := none)).subset h.nodup.of_cons (List.Subset.refl _)
            (fun b hb => ?_) (Heap.length_beginTeardown r.heap a).ge (h.fresh.congr rfl rfl)
            (congrArg List.length (Heap.SameContents.beginTeardown r.heap a).payloads).ge)
          have hne : b ≠ a := fun hba => (List.nodup_cons.1 h.nodup).1 (hba ▸ hb)
          exact congrArg _ (Heap.get_beginTeardown_of_ne r.heap hne)
        · exact htail.takeAway h.nodup.of_cons (List.Subset.refl _)

theorem takeCall (h : r.Held loaned) (call : TakeCall) : (call.run r).1.Held loaned := by
  cases call with
  | takeRaw now => exact takeRawLoop now r.pending h
  | takeNextInstanceRaw now prev =>
    simp only [TakeCall.run, DataReader.takeNextInstanceRaw]
    split
    · exact h.purgeExpired now
    · exact (h.purgeExpired now).takeSplit _ _
  | takeFiltered now f maxSamples reserved =>
    simp only [TakeCall.run, DataReader.takeFiltered]
    split
    · exact (h.purgeExpired now).takeSplit _ _
    · exact h.purgeExpired now
  | takeNextInstanceFiltered now prev f maxSamples reserved =>
    simp only [TakeCall.run, DataReader.takeNextInstanceFiltered]
    split
    · exact h.purgeExpired now
    · split
      · exact (h.purgeExpired now).takeSplit _ _
      · exact h.purgeExpired now

theorem cloneSample (h : r.Held loaned) (a : ℕ) : (r.cloneSample a).1.Held loaned := by
  unfold DataReader.cloneSample
  split
  · exact h
  · refine h.subset h.nodup (List.Subset.refl _) (fun b _ => ?_) (List.length_modify ..).ge
      (h.fresh.congr rfl rfl) (List.length_append.symm ▸ Nat.le_add_right _ _)
    show ((r.heap.modify a _).get b).map _ = _
    rw [Heap.get_modify]
    split_ifs
    · rw [Option.map_map]
      rfl
    · rfl

theorem cloneSamples : ∀ (as : List ℕ) {r : DataReader}, r.Held loaned →
    (r.cloneSamples as).1.Held loaned
  | [], _, h => h
  | a :: as, _, h => cloneSamples as (h.cloneSample a)

theorem readNextInstanceFiltered (h : r.Held loaned) (now : ℤ) (prev : HandleT) (f : RawFilter)
    (maxSamples : ℤ) (clones : ℕ) :
    (r.readNextInstanceFiltered now prev f maxSamples clones).1.Held loaned := by
  unfold DataReader.readNextInstanceFiltered
  dsimp only
  split
  · exact h.purgeExpired now
  · exact cloneSamples _ (h.purgeExpired now)

theorem readCall (h : r.Held loaned) (call : ReadCall) : (call.run r).1.Held loaned := by
  cases call with
  | readRaw now f maxSamples clones => exact cloneSamples _ (h.purgeExpired now)
  | readNextInstanceRaw now prev clones => exact h.readNextInstanceFiltered now prev _ _ _
  | readNextInstanceFiltered now prev f maxSamples clones =>
    exact h.readNextInstanceFiltered now prev f _ _

/-! ### Loans -/

theorem acquire_eq_some (h : r.Held loaned) {a : ℕ} (ha : a ∈ r.pending) :
    ∃ pc, r.heap.get a = some pc ∧ r.heap.acquire a = some (r.heap.modify a fun pc' =>
      { pc' with quiesce := { pc.quiesce with count := pc.quiesce.count + 1 } }) := by
  obtain ⟨pc, hpc, hopen, hcount⟩ := h.holds a ha
  have hacquire : pc.quiesce.acquire =
      some { pc.quiesce with count := pc.quiesce.count + 1 } := by
    unfold EntityQuiesce.acquire
    refine if_neg ?_
    rw [hopen, Bool.false_or, decide_eq_true_eq]
    omega
  refine ⟨pc, hpc, ?_⟩
  unfold Heap.acquire
  rw [hpc, Option.bind_some, hacquire]
  rfl

/-- One sample of the queue is pinned. -/
theorem pin (h : r.Held loaned) {a : ℕ} (ha : a ∈ r.pending) {heap : Heap}
    (hacquire : r.heap.acquire a = some heap) :
    Held { r with heap := heap.modify a fun pc => { pc with info.sampleState := .read } }
      (a :: loaned) := by
  obtain ⟨pc, hpc, hsome⟩ := h.acquire_eq_some ha
  cases Option.some.inj (hacquire.symm.trans hsome)
  refine ⟨h.nodup, fun b hb => ?_, fun b hb => ?_, h.fresh.congr rfl rfl⟩
  · obtain ⟨pb, hpb, hopen, hcount⟩ := h.holds b hb
    by_cases hba : b = a
    · subst hba
      cases Option.some.inj (hpc.symm.trans hpb)
      refine ⟨{ pc with
        quiesce := { pc.quiesce with count := pc.quiesce.count + 1 }
        info.sampleState := .read }, ?_, hopen, ?_, hcount.2⟩
      · dsimp only
        rw [Heap.get_modify, if_pos rfl, Heap.get_modify, if_pos rfl, hpc]
        rfl
      · rw [List.count_cons_self]
        exact Nat.succ_lt_succ hcount.1
    · refine ⟨pb, ?_, hopen, ?_⟩
      · dsimp only
        rw [Heap.get_modify, if_neg hba, Heap.get_modify, if_neg hba, hpb]
      · rw [List.count_cons_of_ne (Ne.symm hba)]
        exact hcount
  · dsimp only
    rw [Heap.length_modify, Heap.length_modify]
    rcases List.mem_cons.1 hb with rfl | hb
    · exact h.lt_of_pending ha
    · exact h.lent b hb

theorem pinSamples : ∀ (as : List ℕ) {r : DataReader} {loaned : List ℕ}, as ⊆ r.pending →
    r.Held loaned → (r.pinSamples as).1.Held ((r.pinSamples as).2 ++ loaned)
  | [], _, _, _, h => h
  | a :: as, r, loaned, hsub, h => by
      obtain ⟨ha, hsub⟩ := List.cons_subset.1 hsub
      obtain ⟨pc, -, hsome⟩ := h.acquire_eq_some ha
      have hpins {heap : Heap} (hheap : Held { r with heap := heap } (a :: loaned)) :
          (DataReader.pinSamples { r with heap := heap } as).1.Held
            ((DataReader.pinSamples { r with heap := heap } as).2 ++ a :: loaned) :=
        pinSamples as hsub hheap
      unfold DataReader.pinSamples
      rw [hsome]
      refine (hpins (h.pin ha hsome)).loans fun b => (List.Perm.count_eq ?_ b).le
      exact List.perm_middle.symm

theorem payloads_foldl_modify (l : List (ℕ × SampleInfo)) (h : Heap) :
    (l.foldl (fun h p => h.modify p.1 fun pc => { pc with info := p.2 }) h).payloads =
      h.payloads := by
  induction l generalizing h with
  | nil => rfl
  | cons p l ih => exact ih _

theorem rankPinned (h : r.Held loaned) (as : List ℕ) : (r.rankPinned as).Held loaned := by
  have hget : ∀ (l : List (ℕ × SampleInfo)) (heap : Heap) (b : ℕ),
      ((l.foldl (fun h p => h.modify p.1 fun pc => { pc with info := p.2 }) heap).get b).map
        (fun pc => (pc.quiesce, pc.data)) = (heap.get b).map fun pc => (pc.quiesce, pc.data) := by
    intro l
    induction l with
    | nil => exact fun heap b => rfl
    | cons p l ih =>
      intro heap b
      rw [List.foldl_cons, ih, Heap.get_modify]
      split_ifs
      · rw [Option.map_map]
        rfl
      · rfl
  exact h.subset h.nodup (List.Subset.refl _) (fun a _ => hget _ _ a)
    (Accesses.length_foldl_modify _ _).ge (h.fresh.congr rfl rfl)
    (congrArg List.length (payloads_foldl_modify _ r.heap)).ge

theorem lend (h : r.Held loaned) (as : List ℕ) : (r.lend as).Held loaned :=
  (h.rankPinned as).congr rfl rfl ((h.rankPinned as).fresh.congr rfl rfl) le_rfl

theorem takeOut (h : r.Held loaned) (p : ℕ → Bool) (n : ℕ) :
    Held { r with pending := (splitMatching p r.pending n).2 }
      ((splitMatching p r.pending n).1 ++ loaned) := by
  have hperm := Accesses.splitMatching_perm p r.pending n
  have hdisjoint := List.disjoint_of_nodup_append (hperm.nodup_iff.2 h.nodup)
  have hsub := (splitMatching_sublist (p := p) r.pending n).2.subset
  refine ⟨h.nodup.sublist (splitMatching_sublist _ _).2, fun a ha => ?_, fun a ha => ?_,
    h.fresh.congr rfl rfl⟩
  · obtain ⟨pc, hpc, hopen, hcount⟩ := h.holds a (hsub ha)
    refine ⟨pc, hpc, hopen, ?_⟩
    rw [List.count_append, List.count_eq_zero_of_not_mem fun hmem => hdisjoint hmem ha, zero_add]
    exact hcount
  · rcases List.mem_append.1 ha with ha | ha
    · exact h.lt_of_pending ((splitMatching_sublist _ _).1.subset ha)
    · exact h.lent a ha

theorem pinChosen (h : r.Held loaned) (p : ℕ → Bool) (limit pins : ℕ) :
    ((r.pinSamples ((splitMatching p r.pending limit).1.take pins)).1.lend
      (r.pinSamples ((splitMatching p r.pending limit).1.take pins)).2).Held
        ((r.pinSamples ((splitMatching p r.pending limit).1.take pins)).2 ++ loaned) :=
  (pinSamples _ (List.Subset.trans (List.take_subset _ _) (splitMatching_sublist _ _).1.subset)
    h).lend _

theorem loanCall (h : r.Held loaned) (call : LoanCall) :
    (call.run r).1.Held ((call.run r).2 ++ loaned) := by
  cases call with
  | pinSamplesForLoan now f maxSamples pins => exact (h.purgeExpired now).pinChosen _ _ _
  | pinNextInstanceForLoan now prev f maxSamples pins =>
    simp only [LoanCall.run, DataReader.pinNextInstanceForLoan]
    split
    · exact h.purgeExpired now
    · exact (h.purgeExpired now).pinChosen _ _ _
  | takeSamplesForLoan now f maxSamples reserved =>
    simp only [LoanCall.run, DataReader.takeSamplesForLoan]
    split
    · exact ((h.purgeExpired now).takeOut _ _).lend _
    · exact h.purgeExpired now
  | takeNextInstanceForLoan now prev f maxSamples reserved =>
    simp only [LoanCall.run, DataReader.takeNextInstanceForLoan]
    split
    · exact h.purgeExpired now
    · split
      · exact ((h.purgeExpired now).takeOut _ _).lend _
      · exact h.purgeExpired now

theorem releasePin {a : ℕ} (h : r.Held (a :: loaned)) : (r.releasePin a).Held loaned := by
  have hpayloads : (r.releasePin a).heap.payloads = r.heap.payloads :=
    (Heap.SameContents.release r.heap a).payloads
  refine ⟨h.nodup, fun b hb => ?_, fun b hb => ?_, hpayloads ▸ h.fresh.congr rfl rfl⟩
  · obtain ⟨pb, hpb, hopen, hcount, hdata⟩ := h.holds b hb
    rw [hpayloads]
    by_cases hba : b = a
    · subst hba
      rw [List.count_cons_self] at hcount
      have hnot : pb.quiesce.release.2 = false := decide_eq_false (by omega)
      refine ⟨{ pb with quiesce := pb.quiesce.release.1 }, ?_, hopen, ?_, hdata⟩
      · unfold DataReader.releasePin Heap.release
        rw [hpb]
        dsimp only
        rw [hnot, if_neg Bool.false_ne_true, Heap.get_modify, if_pos rfl, hpb]
        rfl
      · show loaned.count b < pb.quiesce.count - 1
        omega
    · rw [List.count_cons_of_ne (Ne.symm hba)] at hcount
      exact ⟨pb, (Heap.get_release_of_ne r.heap hba).trans hpb, hopen, hcount, hdata⟩
  · show b < (r.heap.release a).structs.length
    rw [Heap.length_release]
    exact h.lent b (List.mem_cons_of_mem a hb)

theorem beginOrdered (h : r.Held loaned) : r.beginOrdered.Held loaned :=
  h.subset ((List.perm_insertionSort _ _).nodup_iff.2 h.nodup)
    (List.perm_insertionSort _ _).subset (fun _ _ => rfl) le_rfl (h.fresh.congr rfl rfl) le_rfl

theorem freePayloads (payloads : List ℕ) : ∀ {r : DataReader}, r.Held loaned →
    (payloads.foldl DataReader.freePayload r).Held loaned := by
  induction payloads with
  | nil => exact fun h => h
  | cons p payloads ih => exact fun h => ih (h.congr rfl rfl (h.fresh.congr rfl rfl) le_rfl)

end DataReader.Held

namespace ReaderMachine

variable {s s' : ReaderMachine}

theorem count_loaned_added (as : List ℕ) (a : ℕ) :
    (loaned { s with building := s.building ++ [as] }).count a = (as ++ s.loaned).count a := by
  simp only [loaned, List.flatten_append, List.flatten_singleton, List.count_append]
  omega

theorem held_giveOut {reader : DataReader} (h : reader.Held s.loaned) (payloads : List ℕ)
    (built : Bool) : (s.giveOut reader payloads built).reader.Held s.loaned := by
  unfold giveOut
  split_ifs
  · exact h
  · exact h.freePayloads payloads

theorem loaned_giveOut (reader : DataReader) (payloads : List ℕ) (built : Bool) :
    (s.giveOut reader payloads built).loaned = s.loaned := by
  unfold giveOut
  split_ifs <;> rfl

/-- The queue is held by what refers to it, and no loan is registered twice. -/
def QueueHeld (s : ReaderMachine) : Prop :=
  s.reader.Held s.loaned ∧ ∀ k as, s.loanTable.lookup k = some as → k < s.nextKey

theorem QueueHeld.step (h : s.QueueHeld) {a : ReaderAction} (hs : s.step a = some s') :
    s'.QueueHeld := by
  obtain ⟨hheld, hkeys⟩ := h
  cases a with
  | matching now info =>
    cases hs
    exact ⟨hheld.onWriterMatchingCb now info _, hkeys⟩
  | unmatching now guid =>
    obtain ⟨-, hs⟩ := Option.ite_none_right_eq_some.1 hs
    cases hs
    exact ⟨hheld.onWriterUnmatchingCb now guid, hkeys⟩
  | data now change =>
    obtain ⟨-, hs⟩ := Option.ite_none_right_eq_some.1 hs
    cases hs
    exact ⟨hheld.onDataCb now change, hkeys⟩
  | eoc now change =>
    obtain ⟨-, hs⟩ := Option.ite_none_right_eq_some.1 hs
    cases hs
    exact ⟨hheld.onEocCb now change, hkeys⟩
  | promote idx =>
    cases hs
    exact ⟨hheld.promoteCommittedSetLocked idx, hkeys⟩
  | discard idx =>
    cases hs
    exact ⟨hheld.discardCommittedSetLocked idx, hkeys⟩
  | beginOrdered =>
    cases hs
    exact ⟨hheld.beginOrdered, hkeys⟩
  | endOrdered =>
    cases hs
    exact ⟨hheld.congr rfl rfl (hheld.fresh.congr rfl rfl) le_rfl, hkeys⟩
  | take call built =>
    cases hs
    refine ⟨?_, ?_⟩
    · rw [loaned_giveOut]
      exact held_giveOut (s := { s with
        handed := s.handed ++ (call.run s.reader).2.map (·.data) }) (hheld.takeCall call) _ _
    · unfold giveOut
      split_ifs <;> exact hkeys
  | read call built =>
    have hcall := hheld.readCall call
    simp only [ReaderMachine.step] at hs
    split_ifs at hs
    · cases hs
      refine ⟨?_, ?_⟩
      · rw [loaned_giveOut]
        exact held_giveOut hcall _ _
      · unfold giveOut
        split_ifs <;> exact hkeys
    · cases hs
      exact ⟨hcall, hkeys⟩
  | lend call sliced =>
    cases hs
    have hcall := hheld.loanCall call
    refine ⟨hcall.loans fun a => ?_, hkeys⟩
    cases sliced with
    | false =>
      rw [List.count_append]
      exact Nat.le_add_left _ _
    | true => exact (count_loaned_added (s := { s with reader := (call.run s.reader).1 }) _ a).le
  | register i made =>
    obtain ⟨as, hi, rfl⟩ := Option.map_eq_some_iff.mp hs
    obtain ⟨hl, -⟩ := Accounted.loaned_perm_of_building hi
    cases made with
    | false =>
      obtain ⟨hl', -⟩ := @Accounted.loaned_perm_of_added
        { s with building := s.building.eraseIdx i } as
      exact ⟨hheld.loans fun a => ((hl'.trans hl.symm).count_eq a).le, hkeys⟩
    | true =>
      have hnew : s.loanTable.lookup s.nextKey = none := by
        cases hk : s.loanTable.lookup s.nextKey with
        | none => rfl
        | some bs => exact absurd (hkeys _ bs hk) (lt_irrefl _)
      obtain ⟨hl', -⟩ := @Accounted.loaned_perm_of_loanTable { s with
        building := s.building.eraseIdx i
        loanTable := s.loanTable.insert s.nextKey as } as s.nextKey (AList.lookup_insert _)
      rw [Table.erase_insert, Table.erase_of_lookup_none hnew] at hl'
      refine ⟨hheld.loans fun a => ((hl'.trans hl.symm).count_eq a).le, fun k bs hk => ?_⟩
      have hk : (s.loanTable.insert s.nextKey as).lookup k = some bs := hk
      show k < s.nextKey + 1
      rw [Table.lookup_insert_eq] at hk
      split_ifs at hk
      · omega
      · exact Nat.lt_succ_of_lt (hkeys k bs hk)
  | returnLoan key =>
    obtain ⟨as, hkey, rfl⟩ := Option.map_eq_some_iff.mp hs
    obtain ⟨hl, -⟩ := Accounted.loaned_perm_of_loanTable hkey
    obtain ⟨hl', -⟩ := @Accounted.loaned_perm_of_added
      { s with loanTable := s.loanTable.erase key } as
    refine ⟨hheld.loans fun a => ((hl'.trans hl.symm).count_eq a).le, fun k bs hk => ?_⟩
    have hk : (s.loanTable.erase key).lookup k = some bs := hk
    rw [Table.lookup_erase_eq] at hk
    split_ifs at hk
    exact hkeys k bs hk
  | releasePin i =>
    simp only [ReaderMachine.step] at hs
    split at hs
    next n a as hi =>
      cases hs
      obtain ⟨hl, -⟩ := Accounted.loaned_perm_of_returning hi
      obtain ⟨hl', -⟩ := @Accounted.loaned_perm_of_returning { s with
        returning := s.returning.set i (n, as) } n as i
        (List.getElem?_set_self (List.getElem?_eq_some_iff.mp hi).1)
      simp only [List.eraseIdx_set_eq] at hl'
      have hperm := (hl.trans (hl'.symm.cons a))
      exact ⟨(hheld.loans fun b => (hperm.symm.count_eq b).le).releasePin, hkeys⟩
    next => cases hs
  | settle i =>
    simp only [ReaderMachine.step] at hs
    split at hs
    next n hi =>
      cases hs
      obtain ⟨hl, -⟩ := Accounted.loaned_perm_of_returning hi
      have hloans := hheld.loans fun a => (hl.symm.count_eq a).le
      exact ⟨hloans.congr rfl rfl (hheld.fresh.congr rfl rfl) le_rfl, hkeys⟩
    next => cases hs
  | freeCopy i =>
    obtain ⟨payloads, -, rfl⟩ := Option.map_eq_some_iff.mp hs
    exact ⟨hheld.freePayloads payloads, hkeys⟩

theorem queueHeld_of_run {qos : DataReaderQos} {presentation : PresentationQos}
    {cftFilter : Option (List UInt8 → Bool)} {acts : List ReaderAction}
    (h : Run (init qos presentation cftFilter) acts s) : s.QueueHeld := by
  induction h with
  | nil =>
    refine ⟨⟨List.nodup_nil, fun _ ha => (nomatch ha), fun _ ha => (nomatch ha), ?_⟩,
      fun _ _ hk => (nomatch hk)⟩
    exact ⟨fun _ _ hw => (nomatch hw), fun _ hset => (nomatch hset)⟩
  | snoc _ hs ih => exact ih.step hs

end ReaderMachine

end Zzdds.Dcps
