import Zzdds.Dcps.Ledger
import Zzdds.Dcps.Instances

/-! # A loaned sample outlives its loan

The ledger of a reader through everything that can happen to it.  Samples of coherent sets are not in
the queue yet: their payloads are staged with the set. -/

namespace Zzdds.Dcps

open Zzdds.Lib Zzdds.Rtps

namespace DataReader

/-- The samples of coherent sets, in progress and queued. -/
def stagedSamples (r : DataReader) : List PendingChange :=
  r.coherentWip.values.flatMap (·.samples) ++ r.coherentCommitted.flatMap (·.samples)

/-- The ledger of a reader, with the references of loans, the payloads of the application, and those
in the hands of the call that runs. -/
def ledger (r : DataReader) (loaned copies rest handed : List ℕ) : Ledger :=
  ⟨r.heap, r.pending, loaned, copies, r.stagedSamples.map (·.data) ++ rest, handed⟩

/-- The reader's memory is accounted for, `n` samples are lent, and no staged sample has been referred
to yet. -/
structure Accounted (r : DataReader) (n : ℕ) (loaned copies rest handed : List ℕ) : Prop where
  loans : r.outstandingLoans = n
  fresh : ∀ pc ∈ r.stagedSamples, pc.quiesce = {}
  sound : (r.ledger loaned copies rest handed).Sound

namespace Accounted

variable {r r' : DataReader} {n : ℕ} {loaned copies rest rest' handed : List ℕ}

/-- Staged samples and the payloads in hand may change places. -/
theorem restage (h : r.Accounted n loaned copies rest handed) (hl : r'.outstandingLoans = r.outstandingLoans)
    (hheap : r'.heap = r.heap) (hpending : r'.pending = r.pending)
    (hf : ∀ pc ∈ r'.stagedSamples, pc.quiesce = {})
    (hp : (r'.stagedSamples.map (·.data) ++ rest').Perm (r.stagedSamples.map (·.data) ++ rest)) :
    r'.Accounted n loaned copies rest' handed := by
  refine ⟨hl.trans h.loans, hf, h.sound.like ?_ (fun a => ?_) ?_ ?_ (fun _ => rfl) (fun p => hp.count_eq p)
    (List.Subset.refl _)⟩
  · show r.heap.Like r'.heap
    rw [hheap]
    exact .refl _
  · show r'.pending.count a + loaned.count a = r.pending.count a + loaned.count a
    rw [hpending]
  · show r'.pending.Nodup
    rw [hpending]
    exact h.sound.nodup
  · show ∀ a ∈ r'.pending, ∀ pc, r'.heap.get a = some pc → _
    rw [hheap, hpending]
    exact h.sound.open_

/-- What the ledger does not read may change. -/
theorem congr (h : r.Accounted n loaned copies rest handed)
    (hl : r'.outstandingLoans = r.outstandingLoans) (hheap : r'.heap = r.heap)
    (hpending : r'.pending = r.pending) (hstaged : r'.stagedSamples.Perm r.stagedSamples) :
    r'.Accounted n loaned copies rest handed :=
  h.restage hl hheap hpending (fun pc hpc => h.fresh pc (hstaged.mem_iff.mp hpc))
    ((hstaged.map _).append_right rest)

/-! ### Payloads -/

theorem erase_middle_perm (l m : List ℕ) (p : ℕ) : ((l ++ p :: m).erase p).Perm (l ++ m) := by
  have hp : p ∈ l ++ p :: m := List.mem_append_right _ List.mem_cons_self
  exact ((List.perm_cons_erase hp).symm.trans List.perm_middle).cons_inv

theorem dupe (h : r.Accounted n loaned copies rest handed) (octets : List UInt8) :
    (r.dupe octets).2.Accounted n loaned copies ((r.dupe octets).1 :: rest) handed := by
  refine ⟨h.loans, h.fresh, (h.sound.dupe octets).like (.refl _) (fun _ => rfl) h.sound.nodup h.sound.open_
    (fun _ => rfl) (fun p => ?_) (List.Subset.refl _)⟩
  exact List.perm_middle.count_eq p

theorem freePayload {p : ℕ} (h : r.Accounted n loaned copies (p :: rest) handed) :
    (r.freePayload p).Accounted n loaned copies rest handed := by
  have hp : p ∈ r.stagedSamples.map (·.data) ++ p :: rest :=
    List.mem_append_right _ List.mem_cons_self
  refine ⟨h.loans, h.fresh, (h.sound.free hp).like (.refl _) (fun _ => rfl) h.sound.nodup h.sound.open_
    (fun _ => rfl) (fun q => ?_) (List.Subset.refl _)⟩
  exact ((erase_middle_perm _ _ p).count_eq q).symm

theorem freeSamples {samples : List PendingChange} :
    ∀ {r : DataReader}, r.Accounted n loaned copies (samples.map (·.data) ++ rest) handed →
      (r.freeSamples samples).Accounted n loaned copies rest handed := by
  induction samples with
  | nil => exact fun h => h
  | cons pc samples ih =>
    intro r h
    have h₁ : (r.freePayload pc.data).Accounted n loaned copies (samples.map (·.data) ++ rest)
        handed := freePayload h
    exact ih h₁

/-! ### The queue -/

theorem enqueue {pc : PendingChange} (h : r.Accounted n loaned copies (pc.data :: rest) handed)
    (hq : pc.quiesce = {}) : (r.enqueue pc).Accounted n loaned copies rest handed := by
  have hp : pc.data ∈ r.stagedSamples.map (·.data) ++ pc.data :: rest :=
    List.mem_append_right _ List.mem_cons_self
  have h₁ := h.sound.enqueue hp hq
  refine ⟨h.loans, h.fresh, h₁.like (.refl _) (fun _ => rfl) h₁.nodup h₁.open_ (fun _ => rfl) (fun q => ?_)
    (List.Subset.refl _)⟩
  exact ((erase_middle_perm _ _ pc.data).count_eq q).symm

theorem enqueues {samples : List PendingChange} (hq : ∀ pc ∈ samples, pc.quiesce = {}) :
    ∀ {r : DataReader}, r.Accounted n loaned copies (samples.map (·.data) ++ rest) handed →
      (samples.foldl DataReader.enqueue r).Accounted n loaned copies rest handed := by
  induction samples with
  | nil => exact fun h => h
  | cons pc samples ih =>
    intro r h
    have h₁ : (r.enqueue pc).Accounted n loaned copies (samples.map (·.data) ++ rest) handed :=
      enqueue h (hq pc List.mem_cons_self)
    exact ih (fun pc' hpc' => hq pc' (List.mem_cons_of_mem pc hpc')) h₁

theorem evictOldestLocked (h : r.Accounted n loaned copies rest handed) (ih : HandleT) :
    (r.evictOldestLocked ih).Accounted n loaned copies rest handed := by
  unfold DataReader.evictOldestLocked
  split
  next => exact h
  next a ha =>
    have hp : r.pending.Perm (a :: r.pending.erase a) :=
      List.perm_cons_erase (List.mem_of_find?_eq_some ha)
    exact ⟨h.loans, h.fresh, h.sound.beginTeardown hp⟩

theorem keepLastLocked (h : r.Accounted n loaned copies rest handed) (ih : HandleT) :
    (r.keepLastLocked ih).Accounted n loaned copies rest handed := by
  unfold DataReader.keepLastLocked
  split
  · exact h.evictOldestLocked ih
  · exact h

/-! ### Coherent sets -/

theorem stagedSamples_perm_of_wip {writer : Guid} {wip : CoherentWipEntry}
    (hw : r.coherentWip.lookup writer = some wip) :
    r.stagedSamples.Perm (wip.samples ++
      { r with coherentWip := r.coherentWip.erase writer }.stagedSamples) := by
  have hv := (Table.values_perm_erase hw).flatMap_right (·.samples)
  rw [List.flatMap_cons] at hv
  unfold stagedSamples
  refine (hv.append_right _).trans ?_
  rw [List.append_assoc]

/-- A writer's set in progress is dropped from the sets, and its samples are in hand. -/
theorem unstage (h : r.Accounted n loaned copies rest handed) {writer : Guid}
    {wip : CoherentWipEntry} (hw : r.coherentWip.lookup writer = some wip) :
    { r with coherentWip := r.coherentWip.erase writer }.Accounted n loaned copies
      (wip.samples.map PendingChange.data ++ rest) handed := by
  have hp := stagedSamples_perm_of_wip hw
  refine h.restage rfl rfl rfl (fun pc hpc => h.fresh pc (hp.mem_iff.mpr (List.mem_append_right _ hpc))) ?_
  refine List.Perm.trans ?_ ((hp.map _).append_right rest).symm
  rw [List.map_append, List.append_assoc]
  exact List.perm_append_comm_assoc _ _ _

theorem endCoherentWipLocked (h : r.Accounted n loaned copies rest handed) (now : ℤ) (writer : Guid)
    (cw : CoherentWriter) (clean : Bool) :
    (r.endCoherentWipLocked now writer cw clean).1.Accounted n loaned copies rest handed := by
  unfold DataReader.endCoherentWipLocked
  split
  next => exact h
  next wip hw =>
    have hp := stagedSamples_perm_of_wip hw
    have hout := h.unstage hw
    dsimp only
    split
    · -- the set moves from the sets in progress to the queued ones
      refine h.congr rfl rfl rfl (List.Perm.trans ?_ hp.symm)
      unfold stagedSamples
      simp only [List.flatMap_append, List.flatMap_cons, List.flatMap_nil, List.append_nil]
      rw [← List.append_assoc]
      exact List.perm_append_comm
    · split
      · refine hout.freeSamples.congr rfl rfl rfl (List.Perm.of_eq ?_)
        unfold stagedSamples
        simp only [List.flatMap_append, List.flatMap_cons, List.flatMap_nil, List.append_nil]
      · exact hout.freeSamples

theorem lookup_wip_endCoherentWipLocked (r : DataReader) (now : ℤ) (writer : Guid)
    (cw : CoherentWriter) (clean : Bool) :
    (r.endCoherentWipLocked now writer cw clean).1.coherentWip.lookup writer = none := by
  unfold DataReader.endCoherentWipLocked
  split
  next h => exact h
  next =>
    dsimp only
    split
    · exact AList.lookup_erase _ _
    · split <;> exact AList.lookup_erase _ _

theorem trackCoherentLocked (h : r.Accounted n loaned copies rest handed) (now : ℤ)
    (change : CacheChange) (isMarker : Bool) :
    (r.trackCoherentLocked now change isMarker).1.Accounted n loaned copies rest handed := by
  -- after the set in progress is ended, where there is one, the writer has none
  have hend : ∀ (b clean : Bool) (cw cw' : CoherentWriter),
      (if b then r.endCoherentWipLocked now change.writerGuid cw clean
        else (r, cw', false)).1.Accounted n loaned copies rest handed := by
    intro b clean cw cw'
    cases b with
    | false => exact h
    | true => exact h.endCoherentWipLocked now _ cw clean
  have hnone : ∀ (clean : Bool) (cw cw' : CoherentWriter),
      (if (r.coherentWip.lookup change.writerGuid).isSome then
          r.endCoherentWipLocked now change.writerGuid cw clean
        else (r, cw', false)).1.coherentWip.lookup change.writerGuid = none := by
    intro clean cw cw'
    split
    next => exact lookup_wip_endCoherentWipLocked r now _ cw clean
    next hn => exact Option.not_isSome_iff_eq_none.mp hn
  unfold DataReader.trackCoherentLocked
  dsimp only
  split
  next cs _ =>
    split
    next hc =>
      obtain ⟨w, hw, -⟩ := (Option.any_eq_true _ _).mp hc
      refine h.congr rfl rfl rfl ?_
      unfold stagedSamples Table.update
      simp only [hw]
      refine List.Perm.append_right _ ?_
      rw [Table.values_insert]
      exact ((Table.values_perm_erase hw).flatMap_right (·.samples)).symm
    next =>
      refine (hend _ _ _ _).congr rfl rfl rfl (List.Perm.of_eq ?_)
      unfold stagedSamples
      dsimp only
      rw [Table.values_insert, Table.erase_of_lookup_none (hnone _ _ _)]
      rfl
  next => exact (hend _ _ _ _).congr rfl rfl rfl (List.Perm.refl _)

theorem onEocCb (h : r.Accounted n loaned copies rest handed) (now : ℤ) (change : CacheChange) :
    (r.onEocCb now change).Accounted n loaned copies rest handed := by
  unfold DataReader.onEocCb
  split
  · exact h.trackCoherentLocked now change true
  · exact h

/-! ### Samples -/

theorem stampLocked (h : r.Accounted n loaned copies rest handed) (copy : ℕ) (ih : HandleT)
    (change : CacheChange) :
    (r.stampLocked copy ih change).1.Accounted n loaned copies rest handed ∧
      (r.stampLocked copy ih change).2.data = copy ∧
      (r.stampLocked copy ih change).2.quiesce = {} ∧
      (r.stampLocked copy ih change).1.coherentWip = r.coherentWip := by
  unfold DataReader.stampLocked
  dsimp only
  split
  · exact ⟨h.congr rfl rfl rfl (List.Perm.refl _), rfl, rfl, rfl⟩
  · exact ⟨h.congr rfl rfl rfl (List.Perm.refl _), rfl, rfl, rfl⟩

theorem filtersTaken (h : r.Accounted n loaned copies rest handed) (ih : HandleT)
    (change : CacheChange) :
    (r.filtersTaken ih change).Accounted n loaned copies rest handed ∧
      (r.filtersTaken ih change).coherentWip = r.coherentWip := by
  unfold DataReader.filtersTaken
  dsimp only
  split <;> split <;> exact ⟨h.congr rfl rfl rfl (List.Perm.refl _), rfl⟩

theorem bufferLocked {copy : ℕ} (h : r.Accounted n loaned copies (copy :: rest) handed)
    (ih : HandleT) (change : CacheChange) :
    (r.bufferLocked copy ih change).Accounted n loaned copies rest handed := by
  unfold DataReader.bufferLocked
  split
  next => exact freePayload h
  next wip hw =>
    obtain ⟨h₁, hdata, hq, hwip₁⟩ := h.stampLocked copy ih change
    obtain ⟨h₂, hwip₂⟩ := h₁.filtersTaken ih change
    dsimp only
    generalize (r.stampLocked copy ih change).1.filtersTaken ih change = r₂ at h₂ hwip₂ ⊢
    generalize (r.stampLocked copy ih change).2 = pc at hdata hq ⊢
    have hw₂ : r₂.coherentWip.lookup change.writerGuid = some wip := by
      rw [hwip₂, hwip₁]
      exact hw
    have hp := stagedSamples_perm_of_wip hw₂
    -- the sample joins the samples of its writer's set
    have hp' : DataReader.stagedSamples { r₂ with
        coherentWip := Table.update change.writerGuid
          (fun w => { w with samples := w.samples ++ [pc] }) r₂.coherentWip } |>.Perm
        (pc :: r₂.stagedSamples) := by
      unfold stagedSamples Table.update
      simp only [hw₂, Table.values_insert, List.flatMap_cons, List.append_assoc]
      refine List.Perm.trans List.perm_middle (List.Perm.cons pc ?_)
      exact hp.symm
    refine h₂.restage rfl rfl rfl (fun pc' hpc' => ?_) ?_
    · rcases List.mem_cons.mp (hp'.mem_iff.mp hpc') with rfl | hpc'
      · exact hq
      · exact h₂.fresh pc' hpc'
    · refine ((hp'.map _).append_right rest).trans ?_
      rw [List.map_cons, hdata]
      exact List.perm_middle.symm

theorem queueLocked {copy : ℕ} (h : r.Accounted n loaned copies (copy :: rest) handed)
    (ih : HandleT) (change : CacheChange) :
    (r.queueLocked copy ih change).Accounted n loaned copies rest handed := by
  have hk := h.keepLastLocked ih
  unfold DataReader.queueLocked
  dsimp only
  split
  · exact (freePayload hk).congr rfl rfl rfl (List.Perm.refl _)
  · obtain ⟨h₁, hdata, hq, -⟩ := hk.stampLocked copy ih change
    exact (enqueue (hdata.symm ▸ h₁) hq).filtersTaken ih change |>.1

theorem arriveLocked (h : r.Accounted n loaned copies rest handed) (now : ℤ) (ih : HandleT)
    (change : CacheChange) :
    (r.arriveLocked now ih change).2.Accounted n loaned copies
      ((r.arriveLocked now ih change).1 :: rest) handed := by
  have h₁ := h.dupe change.data
  have h₂ : (if change.kind = .alive then
      (r.dupe change.data).2.trackWriterInstanceLocked change.writerGuid ih
      else (r.dupe change.data).2).Accounted n loaned copies ((r.dupe change.data).1 :: rest)
        handed := by
    split
    · exact h₁.congr rfl rfl rfl (List.Perm.refl _)
    · exact h₁
  have h₃ : ∀ (b : Bool) (r : DataReader) {rest : List ℕ}, r.Accounted n loaned copies rest handed →
      (if b = true then (r.trackCoherentLocked now change false).1 else r).Accounted n loaned copies
        rest handed := by
    intro b r rest h
    split
    · exact h.trackCoherentLocked now change false
    · exact h
  exact h₃ _ _ h₂

theorem ownershipLocked (h : r.Accounted n loaned copies rest handed) (ih : HandleT)
    (writer : Guid) : (r.ownershipLocked ih writer).1.Accounted n loaned copies rest handed := by
  have hmap : ∀ owners, { r with ownerMap := owners }.Accounted n loaned copies rest handed :=
    fun _ => h.congr rfl rfl rfl (List.Perm.refl _)
  unfold DataReader.ownershipLocked
  split
  · split
    · split
      · exact h
      · split
        · exact hmap _
        · exact h
    · exact hmap _
  · exact h

theorem onDataCb (h : r.Accounted n loaned copies rest handed) (now : ℤ) (change : CacheChange) :
    (r.onDataCb now change).Accounted n loaned copies rest handed := by
  have h₁ := h.arriveLocked now (keyHashToHandle change.keyHash) change
  have h₂ := h₁.ownershipLocked (keyHashToHandle change.keyHash) change.writerGuid
  unfold DataReader.onDataCb
  dsimp only
  split
  · exact freePayload h₂
  · split
    · exact bufferLocked h₂ _ _
    · exact queueLocked h₂ _ _

/-! ### Matches -/

theorem onWriterMatchingCb (h : r.Accounted n loaned copies rest handed) (now : ℤ)
    (info : MatchedWriterInfo) (isNew : Bool) :
    (r.onWriterMatchingCb now info isNew).Accounted n loaned copies rest handed := by
  unfold DataReader.onWriterMatchingCb
  dsimp only
  split
  · refine h.congr rfl rfl rfl (List.Perm.of_eq ?_)
    unfold stagedSamples
    dsimp only
    rw [List.flatMap_map]
    congr 1
    refine List.flatMap_congr fun part _ => ?_
    split <;> rfl
  · exact h.congr rfl rfl rfl (List.Perm.refl _)

theorem orphanLocked (h : r.Accounted n loaned copies rest handed) (guid : Guid) (now : Time)
    (ih : HandleT) : (r.orphanLocked guid now ih).Accounted n loaned copies rest handed := by
  unfold DataReader.orphanLocked
  split
  · exact h
  · split
    · have h₁ : ((r.dupe emptyKeyCdr).2.determineStatesLocked ih .notAliveUnregistered).1.Accounted
          n loaned copies ((r.dupe emptyKeyCdr).1 :: rest) handed :=
        (h.dupe emptyKeyCdr).congr rfl rfl rfl (List.Perm.refl _)
      unfold synthesizeNoWriters
      exact enqueue h₁ rfl
    · exact h

theorem onWriterUnmatchingCb (h : r.Accounted n loaned copies rest handed) (now : Time)
    (guid : Guid) : (r.onWriterUnmatchingCb now guid).Accounted n loaned copies rest handed := by
  have hfold : ∀ (l : List HandleT) (r : DataReader), r.Accounted n loaned copies rest handed →
      (l.foldl (fun r ih => r.orphanLocked guid now ih) r).Accounted n loaned copies rest handed := by
    intro l
    induction l with
    | nil => exact fun _ h => h
    | cons ih l hl => exact fun _ h => hl _ (h.orphanLocked guid now ih)
  refine hfold _ _ ?_
  cases hw : r.coherentWip.lookup guid with
  | none =>
    refine h.congr rfl rfl rfl (List.Perm.of_eq ?_)
    unfold stagedSamples
    dsimp only
    rw [Table.erase_of_lookup_none hw]
    rfl
  | some wip => exact (h.unstage hw).freeSamples.congr rfl rfl rfl (List.Perm.refl _)

/-! ### Access -/

theorem eraseCommitted (h : r.Accounted n loaned copies rest handed) (idx : ℕ) :
    { r with coherentCommitted := r.coherentCommitted.eraseIdx idx }.Accounted n loaned copies
        ((r.coherentCommitted[idx]?.elim [] (·.samples)).map PendingChange.data ++ rest) handed ∧
      ∀ pc ∈ r.coherentCommitted[idx]?.elim [] (·.samples), pc.quiesce = {} := by
  have hp : r.stagedSamples.Perm (r.coherentCommitted[idx]?.elim [] (·.samples) ++
      DataReader.stagedSamples { r with
        coherentCommitted := r.coherentCommitted.eraseIdx idx }) := by
    unfold stagedSamples
    refine List.Perm.trans ?_ (List.perm_append_comm_assoc _ _ _).symm
    refine List.Perm.append_left _ ?_
    cases hs : r.coherentCommitted[idx]? with
    | none =>
      rw [List.eraseIdx_of_length_le (List.getElem?_eq_none_iff.mp hs)]
      exact List.Perm.refl _
    | some set =>
      obtain ⟨hlt, rfl⟩ := List.getElem?_eq_some_iff.mp hs
      have hcons := List.getElem_cons_eraseIdx_perm hlt
      exact (hcons.symm.flatMap_right _)
  constructor
  · refine h.restage rfl rfl rfl
      (fun pc hpc => h.fresh pc (hp.mem_iff.mpr (List.mem_append_right _ hpc))) ?_
    refine List.Perm.trans ?_ ((hp.map _).append_right rest).symm
    rw [List.map_append, List.append_assoc]
    exact List.perm_append_comm_assoc _ _ _
  · exact fun pc hpc => h.fresh pc (hp.mem_iff.mpr (List.mem_append_left _ hpc))

theorem promoteCommittedSetLocked (h : r.Accounted n loaned copies rest handed) (idx : ℕ) :
    (r.promoteCommittedSetLocked idx).Accounted n loaned copies rest handed :=
  enqueues (h.eraseCommitted idx).2 (h.eraseCommitted idx).1

theorem discardCommittedSetLocked (h : r.Accounted n loaned copies rest handed) (idx : ℕ) :
    (r.discardCommittedSetLocked idx).Accounted n loaned copies rest handed :=
  (h.eraseCommitted idx).1.freeSamples

theorem loaned_perm {loaned' : List ℕ} (h : r.Accounted n loaned copies rest handed)
    (hp : loaned'.Perm loaned) : r.Accounted n loaned' copies rest handed := by
  refine ⟨h.loans, h.fresh, h.sound.like (.refl _) (fun a => ?_) h.sound.nodup h.sound.open_
    (fun _ => rfl) (fun _ => rfl) (List.Subset.refl _)⟩
  show r.pending.count a + loaned'.count a = r.pending.count a + loaned.count a
  rw [hp.count_eq]

theorem copies_perm {copies' handed' : List ℕ} (h : r.Accounted n loaned copies rest handed)
    (hp : copies'.Perm copies) (hh : handed' ⊆ handed) :
    r.Accounted n loaned copies' rest handed' :=
  ⟨h.loans, h.fresh, h.sound.like (.refl _) (fun _ => rfl) h.sound.nodup h.sound.open_
    (fun p => hp.count_eq p) (fun _ => rfl) hh⟩

theorem rest_perm (h : r.Accounted n loaned copies rest handed) (hp : rest'.Perm rest) :
    r.Accounted n loaned copies rest' handed :=
  h.restage rfl rfl rfl h.fresh (hp.append_left _)

/-- Fields of a sample that the ledger does not read may change. -/
theorem modify (h : r.Accounted n loaned copies rest handed) (a : ℕ)
    {f : PendingChange → PendingChange}
    (hf : ∀ pc, (f pc).data = pc.data ∧ (f pc).quiesce = pc.quiesce) :
    { r with heap := r.heap.modify a f }.Accounted n loaned copies rest handed := by
  refine ⟨h.loans, h.fresh, h.sound.like ⟨fun b => ?_, List.length_modify .., rfl, rfl, rfl⟩
    (fun _ => rfl) h.sound.nodup (fun b hb pc hg => ?_) (fun _ => rfl) (fun _ => rfl)
    (List.Subset.refl _)⟩
  · show ((r.heap.modify a f).get b).map _ = (r.heap.get b).map _
    rw [Heap.get_modify]
    split
    · rw [Option.map_map]
      refine congrArg (fun g => (r.heap.get b).map g) (funext fun pc => ?_)
      simp only [Function.comp_apply, hf pc]
    · rfl
  · have hg : (r.heap.modify a f).get b = some pc := hg
    rw [Heap.get_modify] at hg
    split at hg
    · obtain ⟨pc', hpc', rfl⟩ := Option.map_eq_some_iff.mp hg
      rw [(hf pc').2]
      exact h.sound.open_ b hb pc' hpc'
    · exact h.sound.open_ b hb pc hg

theorem purgeExpired (h : r.Accounted n loaned copies rest handed) (now : ℤ) :
    (r.purgeExpired now).Accounted n loaned copies rest handed :=
  ⟨h.loans, h.fresh, h.sound.beginTeardowns (List.filter_append_perm _ _).symm⟩

/-! ### Copies -/

theorem length_finalizeGenerationRanks (seen : Table HandleT InstanceEntry) :
    ∀ l : List SampleInfo, (finalizeGenerationRanks seen l).length = l.length
  | [] => rfl
  | _ :: l => congrArg (· + 1) (length_finalizeGenerationRanks seen l)

theorem zipWith_data {α β : Type} (f : α → β → TakenSample) (g : α → ℕ)
    (hf : ∀ a b, (f a b).data = g a) : ∀ (l : List α) (m : List β), l.length = m.length →
      (List.zipWith f l m).map (·.data) = l.map g
  | [], [], _ => rfl
  | a :: l, b :: m, h => by
      rw [List.zipWith_cons_cons, List.map_cons, List.map_cons, hf,
        zipWith_data f g hf l m (Nat.succ.inj h)]

theorem takenSamples_data (r : DataReader) (as : List ℕ) :
    (r.takenSamples as).map (·.data) = (as.filterMap r.heap.get).map (·.data) := by
  refine zipWith_data _ PendingChange.data (fun _ _ => rfl) _ _ ?_
  rw [length_finalizeGenerationRanks, List.length_map]

theorem rankTaken_data (r : DataReader) (samples : List TakenSample) :
    (r.rankTaken samples).map (·.data) = samples.map (·.data) := by
  refine zipWith_data (fun (s : TakenSample) (info : SampleInfo) => { s with info := info })
    TakenSample.data (fun _ _ => rfl) _ _ ?_
  rw [length_finalizeGenerationRanks, List.length_map]

/-- What a take leaves: its payloads are the application's. -/
def Gives (n : ℕ) (loaned copies rest handed : List ℕ) (out : DataReader × List TakenSample) :
    Prop :=
  out.1.Accounted n loaned (out.2.map (·.data) ++ copies) rest (out.2.map (·.data) ++ handed)

theorem gives_nil (h : r.Accounted n loaned copies rest handed) :
    Gives n loaned copies rest handed (r, []) := h

theorem takeAway (h : r.Accounted n loaned copies rest handed) {taken kept : List ℕ}
    (hp : r.pending.Perm (taken ++ kept)) (hno : ∀ a ∈ taken, a ∉ loaned) :
    Gives n loaned copies rest handed (r.takeAway taken kept) := by
  unfold Gives
  have hdata : (r.takeAway taken kept).2.map (·.data) =
      (taken.filterMap r.heap.get).map (·.data) := takenSamples_data r taken
  rw [hdata]
  exact ⟨h.loans, h.fresh, h.sound.takeAway hp hno⟩

theorem Gives.map {out : DataReader × List TakenSample} (h : Gives n loaned copies rest handed out)
    {f : TakenSample → TakenSample} (hf : ∀ s, (f s).data = s.data) :
    Gives n loaned copies rest handed (out.1, out.2.map f) := by
  unfold Gives
  rw [List.map_map, show (fun s : TakenSample => s.data) ∘ f = (·.data) from funext hf]
  exact h

end Accounted

/-! ### What a take selects -/

/-- The sample a dequeue takes: the first of the window that has not expired. -/
def takeRawTarget (r : DataReader) (now : ℤ) : Option ℕ → List ℕ → List ℕ
  | _, [] => []
  | some 0, _ => []
  | w, a :: rest =>
      if r.expiredAt now a then takeRawTarget r now (w.map (· - 1)) rest else [a]

end DataReader

/-- The samples a copy-mode take removes. -/
def TakeCall.targets (r : DataReader) : TakeCall → List ℕ
  | takeRaw now => r.takeRawTarget now r.orderedAccessWatermark r.pending
  | takeNextInstanceRaw now prev =>
      let r := r.purgeExpired now
      (r.nextInstance prev DataReader.anyFilter).elim [] fun ih =>
        (DataReader.splitMatching (fun a => r.handleAt a = some ih) r.pending 1).1
  | takeFiltered now f maxSamples reserved =>
      let r := r.purgeExpired now
      if reserved then
        (DataReader.splitMatching (r.selects f) r.pending (DataReader.limit maxSamples)).1
      else []
  | takeNextInstanceFiltered now prev f maxSamples reserved =>
      let r := r.purgeExpired now
      if reserved then
        (r.nextInstance prev f).elim [] fun ih =>
          (DataReader.splitMatching (r.selects (DataReader.ofInstance f ih)) r.pending
            (DataReader.limit maxSamples)).1
      else []

namespace DataReader.Accounted

variable {r r' : DataReader} {n : ℕ} {loaned copies rest rest' handed : List ℕ}

theorem expired_beginTeardown (h : Heap) (now : ℤ) (a b : ℕ) :
    ((h.beginTeardown a).get b).any (·.expired now) = (h.get b).any (·.expired now) := by
  have hmap : ((h.beginTeardown a).get b).map PendingChange.expiryNs =
      (h.get b).map PendingChange.expiryNs := h.map_get_beginTeardown a b fun _ _ => rfl
  have hany : ∀ o : Option PendingChange, o.any (·.expired now) =
      (o.map PendingChange.expiryNs).any fun e => e.any fun exp => exp ≤ now := by
    intro o
    cases o <;> rfl
  rw [hany, hany, hmap]

/-- The dequeue, from any point of the queue. -/
theorem takeRawLoop (now : ℤ) (r₀ : DataReader) : ∀ (l : List ℕ) (r : DataReader),
    (∀ a, r.expiredAt now a = r₀.expiredAt now a) →
    { r with pending := l }.Accounted n loaned copies rest handed →
    (∀ a ∈ r₀.takeRawTarget now r.orderedAccessWatermark l, a ∉ loaned) →
    Gives n loaned copies rest handed (DataReader.takeRawLoop now r l)
  | [], r, _, h, _ => gives_nil h
  | a :: l, r, hexp, h, hno => by
      unfold DataReader.takeRawLoop
      split
      next => exact gives_nil h
      next hw =>
        have htarget : r₀.takeRawTarget now r.orderedAccessWatermark (a :: l) =
            if r₀.expiredAt now a then
              r₀.takeRawTarget now (r.orderedAccessWatermark.map (· - 1)) l else [a] := by
          cases hwm : r.orderedAccessWatermark with
          | none => rfl
          | some w =>
            cases w with
            | zero => exact absurd hwm hw
            | succ w => rfl
        rw [htarget] at hno
        have hwindow : { r with
            pending := a :: l
            orderedAccessWatermark := r.orderedAccessWatermark.map (· - 1) }.Accounted n loaned copies
              rest handed := h.congr rfl rfl rfl (List.Perm.refl _)
        dsimp only
        split
        next he =>
          rw [if_pos ((hexp a).symm.trans he)] at hno
          refine takeRawLoop now r₀ l _ (fun b => ?_) ?_ hno
          · exact (expired_beginTeardown r.heap now a b).trans (hexp b)
          · exact ⟨hwindow.loans, hwindow.fresh, hwindow.sound.beginTeardown (List.Perm.refl _)⟩
        next he =>
          rw [if_neg fun e => he ((hexp a).trans e)] at hno
          have htake := @takeAway _ _ _ _ _ _ hwindow [a] l (List.Perm.refl _) hno
          exact htake.map fun _ => rfl

theorem takeCall (h : r.Accounted n loaned copies rest handed) (call : TakeCall)
    (hno : ∀ a ∈ call.targets r, a ∉ loaned) :
    Gives n loaned copies rest handed (call.run r) := by
  cases call with
  | takeRaw now => exact takeRawLoop now r r.pending r (fun _ => rfl) h hno
  | takeNextInstanceRaw now prev =>
    have hp := h.purgeExpired now
    simp only [TakeCall.run, DataReader.takeNextInstanceRaw, TakeCall.targets] at hno ⊢
    split
    next he => exact gives_nil hp
    next ih he =>
      rw [he] at hno
      exact (hp.takeAway (Accesses.splitMatching_perm _ _ _).symm hno).map fun _ => rfl
  | takeFiltered now f maxSamples reserved =>
    have hp := h.purgeExpired now
    simp only [TakeCall.run, DataReader.takeFiltered, TakeCall.targets] at hno ⊢
    split
    next he =>
      rw [if_pos he] at hno
      exact hp.takeAway (Accesses.splitMatching_perm _ _ _).symm hno
    next he => exact gives_nil hp
  | takeNextInstanceFiltered now prev f maxSamples reserved =>
    have hp := h.purgeExpired now
    simp only [TakeCall.run, DataReader.takeNextInstanceFiltered, TakeCall.targets] at hno ⊢
    split
    next he => exact gives_nil hp
    next ih he =>
      split
      next hr =>
        rw [if_pos hr, he] at hno
        exact hp.takeAway (Accesses.splitMatching_perm _ _ _).symm hno
      next => exact gives_nil hp

/-! ### Payloads of the application -/

theorem give {payloads : List ℕ} : ∀ {copies : List ℕ},
    r.Accounted n loaned copies (payloads ++ rest) handed →
      r.Accounted n loaned (payloads ++ copies) rest handed := by
  induction payloads with
  | nil => exact fun h => h
  | cons p payloads ih =>
    intro copies h
    have hp : p ∈ r.stagedSamples.map (·.data) ++ p :: (payloads ++ rest) :=
      List.mem_append_right _ List.mem_cons_self
    have h₁ : r.Accounted n loaned (p :: copies) (payloads ++ rest) handed := by
      refine ⟨h.loans, h.fresh, (h.sound.give hp).like (.refl _) (fun _ => rfl) h.sound.nodup
        h.sound.open_ (fun _ => rfl) (fun q => ?_) (List.Subset.refl _)⟩
      exact ((erase_middle_perm _ _ p).count_eq q).symm
    exact (ih h₁).copies_perm List.perm_middle.symm (List.Subset.refl _)

theorem freeCopies {payloads : List ℕ} : ∀ {r : DataReader},
    r.Accounted n loaned (payloads ++ copies) rest handed →
      (payloads.foldl DataReader.freePayload r).Accounted n loaned copies rest handed := by
  induction payloads with
  | nil => exact fun h => h
  | cons p payloads ih =>
    intro r h
    have h₁ := h.sound.freeCopy List.mem_cons_self
    have h₂ : (r.freePayload p).Accounted n loaned (payloads ++ copies) rest handed := by
      refine ⟨h.loans, h.fresh, h₁.like (.refl _) (fun _ => rfl) h₁.nodup h₁.open_ (fun q => ?_)
        (fun _ => rfl) (List.Subset.refl _)⟩
      show (payloads ++ copies).count q = ((p :: (payloads ++ copies)).erase p).count q
      rw [List.erase_cons_head]
    exact ih h₂

/-! ### Reads -/

theorem cloneSample (h : r.Accounted n loaned copies rest handed) (a : ℕ) :
    (r.cloneSample a).1.Accounted n loaned copies
      ((r.cloneSample a).2.toList.map TakenSample.data ++ rest) handed := by
  unfold DataReader.cloneSample
  split
  next => exact h
  next pc _ => exact (h.dupe (r.heap.payload pc.data)).modify a fun _ => ⟨rfl, rfl⟩

theorem cloneSamples : ∀ (as : List ℕ) {r : DataReader} {rest : List ℕ},
    r.Accounted n loaned copies rest handed →
      (r.cloneSamples as).1.Accounted n loaned copies
        ((r.cloneSamples as).2.map TakenSample.data ++ rest) handed
  | [], _, _, h => h
  | a :: as, r, rest, h => by
      have h₁ := cloneSamples as (h.cloneSample a)
      refine h₁.rest_perm ?_
      show (((r.cloneSample a).2.toList ++ ((r.cloneSample a).1.cloneSamples as).2).map
        TakenSample.data ++ rest).Perm _
      rw [List.map_append, List.append_assoc]
      exact List.perm_append_comm_assoc _ _ _

/-- The payloads a read clones are in its hands. -/
def Clones (n : ℕ) (loaned copies rest handed : List ℕ) (out : DataReader × List TakenSample × Bool) :
    Prop :=
  out.1.Accounted n loaned copies (out.2.1.map (·.data) ++ rest) handed

theorem cloned (h : r.Accounted n loaned copies rest handed) (as : List ℕ) (made : Bool) :
    Clones n loaned copies rest handed ((r.cloneSamples as).1,
      (r.cloneSamples as).1.rankTaken (r.cloneSamples as).2, made) := by
  unfold Clones
  rw [rankTaken_data]
  exact cloneSamples as h

theorem readNextInstanceFiltered (h : r.Accounted n loaned copies rest handed) (now : ℤ)
    (prev : HandleT) (f : RawFilter) (maxSamples : ℤ) (clones : ℕ) :
    Clones n loaned copies rest handed
      (r.readNextInstanceFiltered now prev f maxSamples clones) := by
  have hp := h.purgeExpired now
  unfold DataReader.readNextInstanceFiltered
  dsimp only
  split
  next => exact hp
  next => exact hp.cloned _ _

theorem readCall (h : r.Accounted n loaned copies rest handed) (call : ReadCall) :
    Clones n loaned copies rest handed (call.run r) := by
  cases call with
  | readRaw now f maxSamples clones => exact (h.purgeExpired now).cloned _ _
  | readNextInstanceFiltered now prev f maxSamples clones =>
    exact h.readNextInstanceFiltered now prev f maxSamples clones
  | readNextInstanceRaw now prev clones =>
    have h₁ := h.readNextInstanceFiltered now prev anyFilter 1 clones
    unfold Clones at h₁ ⊢
    simp only [ReadCall.run, DataReader.readNextInstanceRaw, List.map_map, Function.comp_def]
    exact h₁

/-! ### Loans -/

theorem rankPinned (h : r.Accounted n loaned copies rest handed) (as : List ℕ) :
    (r.rankPinned as).Accounted n loaned copies rest handed := by
  have hfold : ∀ (l : List (ℕ × SampleInfo)) (r : DataReader),
      r.Accounted n loaned copies rest handed →
      { r with
        heap := l.foldl (fun (h : Heap) (p : ℕ × SampleInfo) =>
          h.modify p.1 fun pc => { pc with info := p.2 }) r.heap
        }.Accounted n loaned copies rest handed := by
    intro l
    induction l with
    | nil => exact fun _ h => h
    | cons p l ih =>
      intro r h
      have h₁ : { r with heap := r.heap.modify p.1 fun pc => { pc with info := p.2 } }.Accounted n
          loaned copies rest handed := h.modify p.1 fun _ => ⟨rfl, rfl⟩
      exact ih _ h₁
  exact hfold _ r h

theorem lend {as : List ℕ} (h : r.Accounted n (as ++ loaned) copies rest handed) :
    (r.lend as).Accounted (n + as.length) (as ++ loaned) copies rest handed := by
  have h₁ := h.rankPinned as
  exact ⟨congrArg (· + as.length) h.loans, h₁.fresh, h₁.sound⟩

theorem pinSamples : ∀ (as : List ℕ) {r : DataReader} {loaned : List ℕ},
    r.Accounted n loaned copies rest handed → (∀ a ∈ as, a ∈ r.pending) →
      (r.pinSamples as).1.Accounted n ((r.pinSamples as).2 ++ loaned) copies rest handed
  | [], _, _, h, _ => h
  | a :: as, r, loaned, h, hin => by
      have hin' : ∀ b ∈ as, b ∈ r.pending := fun b hb => hin b (List.mem_cons_of_mem a hb)
      unfold DataReader.pinSamples
      split
      next => exact pinSamples as h hin'
      next heap he =>
        have h₁ : { r with heap := heap }.Accounted n (a :: loaned) copies rest handed :=
          ⟨h.loans, h.fresh, h.sound.acquire (hin a List.mem_cons_self) he⟩
        have h₂ : { r with heap := heap.modify a fun pc =>
            { pc with info.sampleState := .read } }.Accounted n (a :: loaned) copies rest handed :=
          h₁.modify a fun _ => ⟨rfl, rfl⟩
        exact (pinSamples as h₂ hin').loaned_perm List.perm_middle.symm

/-- The samples a call lends are referred to by its loan. -/
def Lends (n : ℕ) (loaned copies rest handed : List ℕ) (out : DataReader × List ℕ) : Prop :=
  out.1.Accounted (n + out.2.length) (out.2 ++ loaned) copies rest handed

theorem pinChosen (h : r.Accounted n loaned copies rest handed) (p : ℕ → Bool) (limit pins : ℕ) :
    Lends n loaned copies rest handed
      (((r.pinSamples ((splitMatching p r.pending limit).1.take pins)).1.lend
        (r.pinSamples ((splitMatching p r.pending limit).1.take pins)).2),
        (r.pinSamples ((splitMatching p r.pending limit).1.take pins)).2) := by
  refine lend (pinSamples _ h fun a ha => ?_)
  exact (Accesses.splitMatching_perm p r.pending limit).subset
    (List.mem_append_left _ (List.mem_of_mem_take ha))

theorem takeChosen (h : r.Accounted n loaned copies rest handed) (p : ℕ → Bool) (limit : ℕ) :
    Lends n loaned copies rest handed
      ({ r with pending := (splitMatching p r.pending limit).2 }.lend
        (splitMatching p r.pending limit).1, (splitMatching p r.pending limit).1) := by
  have h₁ := h.sound.takeOut (Accesses.splitMatching_perm p r.pending limit).symm
  exact lend ⟨h.loans, h.fresh, h₁⟩

theorem loanCall (h : r.Accounted n loaned copies rest handed) (call : LoanCall) :
    Lends n loaned copies rest handed (call.run r) := by
  cases call with
  | pinSamplesForLoan now f maxSamples pins => exact (h.purgeExpired now).pinChosen _ _ _
  | pinNextInstanceForLoan now prev f maxSamples pins =>
    have hp := h.purgeExpired now
    simp only [LoanCall.run, DataReader.pinNextInstanceForLoan]
    split
    next => exact hp
    next => exact hp.pinChosen _ _ _
  | takeSamplesForLoan now f maxSamples reserved =>
    have hp := h.purgeExpired now
    simp only [LoanCall.run, DataReader.takeSamplesForLoan]
    split
    next => exact hp.takeChosen _ _
    next => exact hp
  | takeNextInstanceForLoan now prev f maxSamples reserved =>
    have hp := h.purgeExpired now
    simp only [LoanCall.run, DataReader.takeNextInstanceForLoan]
    split
    next => exact hp
    next =>
      split
      next => exact hp.takeChosen _ _
      next => exact hp

theorem releasePin {a : ℕ} (h : r.Accounted n (a :: loaned) copies rest handed) :
    (r.releasePin a).Accounted n loaned copies rest handed := by
  have h₁ := h.sound.release List.mem_cons_self
  have he : (a :: loaned).erase a = loaned := List.erase_cons_head ..
  exact ⟨h.loans, h.fresh, he ▸ h₁⟩

theorem settleLoan (h : r.Accounted n loaned copies rest handed) (m : ℕ) :
    (r.settleLoan m).Accounted (n - m) loaned copies rest handed :=
  ⟨congrArg (· - m) h.loans, h.fresh, h.sound⟩

theorem beginOrdered (h : r.Accounted n loaned copies rest handed) :
    r.beginOrdered.Accounted n loaned copies rest handed :=
  ⟨h.loans, h.fresh, h.sound.pending_perm (List.perm_insertionSort _ _).symm⟩

end DataReader.Accounted

/-! ### Runs -/

namespace ReaderMachine

/-- What is lent and what each owner has, at a point of a run; no array is registered twice. -/
structure Accounted (s : ReaderMachine) : Prop where
  memory : s.reader.Accounted s.unreturned s.loaned s.copies.flatten s.leaked s.handed
  keys : ∀ k as, s.loanTable.lookup k = some as → k < s.nextKey

/-- A copy-mode take removes no sample that is lent, and the array of a new loan can be made. -/
def KeepsLoans (s : ReaderMachine) : ReaderAction → Prop
  | .take call _ => ∀ a ∈ call.targets s.reader, a ∉ s.loaned
  | .lend _ sliced => sliced = true
  | _ => True

/-- Perform actions in order, each keeping loans where it is performed. -/
inductive LendingRun (s₀ : ReaderMachine) : List ReaderAction → ReaderMachine → Prop
  | nil : LendingRun s₀ [] s₀
  | snoc {acts : List ReaderAction} {a : ReaderAction} {s s' : ReaderMachine}
      (h : LendingRun s₀ acts s) (hk : s.KeepsLoans a) (hs : s.step a = some s') :
      LendingRun s₀ (acts ++ [a]) s'

namespace Accounted

variable {s s' : ReaderMachine}

/-! #### Loans change hands -/

theorem cons_eraseIdx_perm {α : Type} {l : List α} {i : ℕ} {x : α} (h : l[i]? = some x) :
    l.Perm (x :: l.eraseIdx i) := by
  obtain ⟨hlt, rfl⟩ := List.getElem?_eq_some_iff.mp h
  exact (List.getElem_cons_eraseIdx_perm hlt).symm

/-- The references of one loan, and its size, wherever it is kept. -/
theorem loaned_perm_of_building {as : List ℕ} {i : ℕ} (h : s.building[i]? = some as) :
    s.loaned.Perm (as ++ loaned { s with building := s.building.eraseIdx i }) ∧
      s.unreturned = as.length + unreturned { s with building := s.building.eraseIdx i } := by
  have hp := cons_eraseIdx_perm h
  have hf : s.building.flatten.Perm (as ++ (s.building.eraseIdx i).flatten) := hp.flatten
  constructor
  · unfold loaned
    simp only [← List.append_assoc]
    exact (hf.append_right _).append_right _
  · have hsum := (hp.map List.length).sum_nat
    rw [List.map_cons, List.sum_cons] at hsum
    unfold unreturned
    dsimp only
    omega

theorem loaned_perm_of_loanTable {as : List ℕ} {k : ℕ} (h : s.loanTable.lookup k = some as) :
    s.loaned.Perm (as ++ loaned { s with loanTable := s.loanTable.erase k }) ∧
      s.unreturned = as.length + unreturned { s with loanTable := s.loanTable.erase k } := by
  have hp := Table.values_perm_erase h
  have hf : s.loanTable.values.flatten.Perm (as ++ (Table.values (s.loanTable.erase k)).flatten) :=
    hp.flatten
  constructor
  · refine List.perm_iff_count.mpr fun a => ?_
    have hc := hf.count_eq a
    simp only [loaned, List.count_append] at hc ⊢
    omega
  · have hsum := (hp.map List.length).sum_nat
    rw [List.map_cons, List.sum_cons] at hsum
    unfold unreturned
    dsimp only
    omega

/-- A loan on its way back is counted with its first size, and with the references it still has. -/
theorem loaned_perm_of_returning {n : ℕ} {as : List ℕ} {i : ℕ}
    (h : s.returning[i]? = some (n, as)) :
    s.loaned.Perm (as ++ loaned { s with returning := s.returning.eraseIdx i }) ∧
      s.unreturned = n + unreturned { s with returning := s.returning.eraseIdx i } := by
  have hp := cons_eraseIdx_perm h
  have hf : (s.returning.flatMap (·.2)).Perm (as ++ (s.returning.eraseIdx i).flatMap (·.2)) :=
    hp.flatMap_right _
  constructor
  · refine List.perm_iff_count.mpr fun a => ?_
    have hc := hf.count_eq a
    simp only [loaned, List.count_append] at hc ⊢
    omega
  · have hsum := (hp.map (·.1)).sum_nat
    rw [List.map_cons, List.sum_cons] at hsum
    unfold unreturned
    dsimp only
    omega

/-- A loan of which every reference is left to release. -/
theorem loaned_perm_of_added (as : List ℕ) :
    (loaned { s with returning := s.returning ++ [(as.length, as)] }).Perm (as ++ s.loaned) ∧
      unreturned { s with returning := s.returning ++ [(as.length, as)] } =
        as.length + s.unreturned := by
  constructor
  · refine List.perm_iff_count.mpr fun a => ?_
    simp only [loaned, List.flatMap_append, List.flatMap_singleton, List.count_append]
    omega
  · simp only [unreturned, List.map_append, List.map_singleton, List.sum_append, List.sum_singleton]
    omega

/-- A loan changes hands. -/
theorem relend (h : s.Accounted) (hr : s'.reader = s.reader) (hc : s'.copies = s.copies)
    (hleak : s'.leaked = s.leaked) (hh : s'.handed = s.handed) (hl : s'.loaned.Perm s.loaned)
    (hn : s'.unreturned = s.unreturned) (hk : ∀ k as, s'.loanTable.lookup k = some as →
      k < s'.nextKey) : s'.Accounted := by
  refine ⟨?_, hk⟩
  rw [hr, hc, hleak, hh, hn]
  exact h.memory.loaned_perm hl

/-- The payloads of a result have been given to the application. -/
theorem giveOut {reader : DataReader} {payloads handed : List ℕ}
    (hk : ∀ k as, s.loanTable.lookup k = some as → k < s.nextKey)
    (hr : reader.Accounted s.unreturned s.loaned (payloads ++ s.copies.flatten) s.leaked handed)
    (hh : s.handed ⊆ handed) (built : Bool) :
    (s.giveOut reader payloads built).Accounted := by
  unfold ReaderMachine.giveOut
  split
  · refine ⟨hr.copies_perm ?_ hh, hk⟩
    rw [List.flatten_append, List.flatten_singleton]
    exact List.perm_append_comm
  · exact ⟨hr.freeCopies.copies_perm (List.Perm.refl _) hh, hk⟩

theorem step (h : s.Accounted) {a : ReaderAction} (hk : s.KeepsLoans a)
    (hs : s.step a = some s') : s'.Accounted := by
  cases a with
  | matching now info =>
    cases hs
    exact ⟨h.memory.onWriterMatchingCb now info _, h.keys⟩
  | unmatching now guid =>
    simp only [ReaderMachine.step] at hs
    split at hs
    · cases hs
      exact ⟨h.memory.onWriterUnmatchingCb now guid, h.keys⟩
    · cases hs
  | data now change =>
    simp only [ReaderMachine.step] at hs
    split at hs
    · cases hs
      exact ⟨h.memory.onDataCb now change, h.keys⟩
    · cases hs
  | eoc now change =>
    simp only [ReaderMachine.step] at hs
    split at hs
    · cases hs
      exact ⟨h.memory.onEocCb now change, h.keys⟩
    · cases hs
  | promote idx =>
    cases hs
    exact ⟨h.memory.promoteCommittedSetLocked idx, h.keys⟩
  | discard idx =>
    cases hs
    exact ⟨h.memory.discardCommittedSetLocked idx, h.keys⟩
  | beginOrdered =>
    cases hs
    exact ⟨h.memory.beginOrdered, h.keys⟩
  | endOrdered =>
    cases hs
    exact ⟨h.memory.congr rfl rfl rfl (List.Perm.refl _), h.keys⟩
  | take call built =>
    cases hs
    exact giveOut (s := { s with
      handed := s.handed ++ (call.run s.reader).2.map TakenSample.data }) h.keys
      (h.memory.takeCall call hk) List.perm_append_comm.subset built
  | read call built =>
    have h₁ := h.memory.readCall call
    simp only [ReaderMachine.step] at hs
    split at hs
    · cases hs
      exact giveOut h.keys h₁.give (List.Subset.refl _) built
    · cases hs
      exact ⟨h₁.rest_perm List.perm_append_comm, h.keys⟩
  | lend call sliced =>
    obtain rfl : sliced = true := hk
    have hs : some { s with
        reader := (call.run s.reader).1
        building := s.building ++ [(call.run s.reader).2] } = some s' := hs
    cases hs
    have h₁ := h.memory.loanCall call
    refine ⟨?_, h.keys⟩
    have hn : unreturned { s with
        reader := (call.run s.reader).1
        building := s.building ++ [(call.run s.reader).2] } =
          s.unreturned + (call.run s.reader).2.length := by
      simp only [unreturned, List.map_append, List.map_singleton, List.sum_append, List.sum_singleton]
      omega
    refine hn ▸ h₁.loaned_perm (List.perm_iff_count.mpr fun a => ?_)
    simp only [loaned, List.flatten_append, List.flatten_singleton, List.count_append]
    omega
  | register i made =>
    obtain ⟨as, hi, rfl⟩ := Option.map_eq_some_iff.mp hs
    obtain ⟨hl, hn⟩ := loaned_perm_of_building hi
    cases made with
    | false =>
      obtain ⟨hl', hn'⟩ := @loaned_perm_of_added { s with building := s.building.eraseIdx i } as
      exact h.relend rfl rfl rfl rfl (hl'.trans hl.symm) (hn'.trans hn.symm) h.keys
    | true =>
      have hnew : s.loanTable.lookup s.nextKey = none := by
        cases hk : s.loanTable.lookup s.nextKey with
        | none => rfl
        | some bs => exact absurd (h.keys _ bs hk) (lt_irrefl _)
      obtain ⟨hl', hn'⟩ := @loaned_perm_of_loanTable { s with
        building := s.building.eraseIdx i
        loanTable := s.loanTable.insert s.nextKey as } as s.nextKey (AList.lookup_insert _)
      rw [Table.erase_insert, Table.erase_of_lookup_none hnew] at hl' hn'
      refine h.relend rfl rfl rfl rfl (hl'.trans hl.symm) (hn'.trans hn.symm) fun k bs hk => ?_
      have hk : (s.loanTable.insert s.nextKey as).lookup k = some bs := hk
      show k < s.nextKey + 1
      rw [Table.lookup_insert_eq] at hk
      split at hk
      · omega
      · exact Nat.lt_succ_of_lt (h.keys k bs hk)
  | returnLoan key =>
    obtain ⟨as, hkey, rfl⟩ := Option.map_eq_some_iff.mp hs
    obtain ⟨hl, hn⟩ := loaned_perm_of_loanTable hkey
    obtain ⟨hl', hn'⟩ := @loaned_perm_of_added { s with loanTable := s.loanTable.erase key } as
    refine h.relend rfl rfl rfl rfl (hl'.trans hl.symm) (hn'.trans hn.symm) fun k bs hk => ?_
    have hk : (s.loanTable.erase key).lookup k = some bs := hk
    rw [Table.lookup_erase_eq] at hk
    split at hk
    · cases hk
    · exact h.keys k bs hk
  | releasePin i =>
    simp only [ReaderMachine.step] at hs
    split at hs
    next n a as hi =>
      cases hs
      obtain ⟨hl, hn⟩ := loaned_perm_of_returning hi
      obtain ⟨hl', hn'⟩ := @loaned_perm_of_returning { s with
        returning := s.returning.set i (n, as) } n as i
        (List.getElem?_set_self (List.getElem?_eq_some_iff.mp hi).1)
      simp only [List.eraseIdx_set_eq] at hl' hn'
      have h₁ := (h.memory.loaned_perm (hl.trans (hl'.symm.cons a)).symm).releasePin
      rw [hn.trans hn'.symm] at h₁
      exact ⟨h₁, h.keys⟩
    next => cases hs
  | settle i =>
    simp only [ReaderMachine.step] at hs
    split at hs
    next n hi =>
      cases hs
      obtain ⟨hl, hn⟩ := loaned_perm_of_returning hi
      refine ⟨?_, h.keys⟩
      have h₁ := (h.memory.loaned_perm hl.symm).settleLoan n
      rw [hn, Nat.add_sub_cancel_left] at h₁
      exact h₁
    next => cases hs
  | freeCopy i =>
    obtain ⟨payloads, hi, rfl⟩ := Option.map_eq_some_iff.mp hs
    have hp : s.copies.flatten.Perm (payloads ++ (s.copies.eraseIdx i).flatten) :=
      (cons_eraseIdx_perm hi).flatten
    exact ⟨(h.memory.copies_perm hp.symm (List.Subset.refl _)).freeCopies, h.keys⟩

theorem init (qos : DataReaderQos) (presentation : PresentationQos)
    (cftFilter : Option (List UInt8 → Bool)) : (init qos presentation cftFilter).Accounted := by
  refine ⟨⟨rfl, fun _ hpc => (nomatch hpc), ?_⟩, fun _ _ hk => (nomatch hk)⟩
  refine ⟨fun _ ha => absurd rfl ha, List.nodup_nil, fun _ ha => (nomatch ha), fun a => ?_,
    fun _ _ hg => (nomatch hg), fun _ _ _ _ hg => (nomatch hg), fun p _ => ?_,
    fun _ _ hg => (nomatch hg), fun _ hp => (nomatch hp)⟩
  · exact (if_neg fun hlt => Nat.not_lt_zero a hlt.1).symm
  · exact (if_neg (Nat.not_lt_zero p)).symm

end Accounted

theorem LendingRun.accounted {s₀ s : ReaderMachine} {acts : List ReaderAction}
    (h₀ : s₀.Accounted) (hrun : LendingRun s₀ acts s) : s.Accounted := by
  induction hrun with
  | nil => exact h₀
  | snoc _ hk hs ih => exact ih.step hk hs

/-- What is lent is neither given back nor given away.  A sample that has left the queue and is not
lent any more has been given back once, and its payload has been given back or away once.  The
outstanding loans are the samples not returned. -/
structure LoansKept (s : ReaderMachine) : Prop where
  live : ∀ a ∈ s.loaned, a ∉ s.reader.heap.freedStructs ∧ ∃ pc, s.reader.heap.get a = some pc ∧
    pc.data ∉ s.reader.heap.freedPayloads ∧ pc.data ∉ s.handed
  once : ∀ a pc, s.reader.heap.get a = some pc →
    s.reader.heap.freedStructs.count a =
        (if a ∈ s.reader.pending ∨ a ∈ s.loaned then 0 else 1) ∧
      s.reader.heap.freedPayloads.count pc.data + s.copies.flatten.count pc.data =
        if a ∈ s.reader.pending ∨ a ∈ s.loaned then 0 else 1
  loans : s.reader.outstandingLoans = s.unreturned

theorem Accounted.loansKept {s : ReaderMachine} (h : s.Accounted) : s.LoansKept := by
  have hsound := h.memory.sound
  have hrefs : ∀ a, Ledger.refs (s.reader.ledger s.loaned s.copies.flatten s.leaked s.handed) a =
      s.reader.pending.count a + s.loaned.count a := fun _ => rfl
  have hlent : ∀ a, (a ∈ s.reader.pending ∨ a ∈ s.loaned) ↔
      Ledger.refs (s.reader.ledger s.loaned s.copies.flatten s.leaked s.handed) a ≠ 0 := by
    intro a
    rw [hrefs, ← List.count_pos_iff, ← List.count_pos_iff]
    omega
  have hspent : ∀ p, Ledger.spent (s.reader.ledger s.loaned s.copies.flatten s.leaked s.handed) p =
      s.reader.heap.freedPayloads.count p + s.copies.flatten.count p := fun _ => rfl
  refine ⟨fun a ha => ?_, fun a pc hg => ?_, h.memory.loans⟩
  · have hr := (hlent a).mp (.inr ha)
    obtain ⟨pc, hpc, -⟩ := hsound.counted a hr
    have hown := (hsound.own a pc hpc hr).2
    refine ⟨?_, pc, hpc, ?_, fun hin => ?_⟩
    · rw [← List.count_eq_zero]
      exact (hsound.freed a).trans (if_neg fun hc => hr hc.2)
    · rw [← List.count_eq_zero]
      rw [hspent] at hown
      omega
    · have hone := hsound.handed pc.data hin
      omega
  · have hlt : a < s.reader.heap.structs.length := (List.getElem?_eq_some_iff.mp hg).1
    have hfreed : s.reader.heap.freedStructs.count a = _ := hsound.freed a
    rw [hfreed, ← hspent]
    split
    next hc =>
      have hno : ¬ (a ∈ s.reader.pending ∨ a ∈ s.loaned) := by
        rw [hlent, hc.2]
        exact fun hr => hr rfl
      rw [if_neg hno]
      exact ⟨rfl, hsound.retired a pc hg hc.2⟩
    next hc =>
      have hr : Ledger.refs (s.reader.ledger s.loaned s.copies.flatten s.leaked s.handed) a ≠ 0 :=
        fun hr => hc ⟨hlt, hr⟩
      rw [if_pos ((hlent a).mpr hr)]
      have hown := (hsound.own a pc hg hr).2
      exact ⟨rfl, by omega⟩

/-- Every loan is safe in every run whose copy-mode takes leave lent samples alone. -/
theorem loans_kept (qos : DataReaderQos) (presentation : PresentationQos)
    (cftFilter : Option (List UInt8 → Bool)) (acts : List ReaderAction) (s : ReaderMachine)
    (hrun : LendingRun (init qos presentation cftFilter) acts s) : s.LoansKept :=
  (hrun.accounted (Accounted.init qos presentation cftFilter)).loansKept

/-! ### Two loans -/

/-- A sample is lent, and the loan registered. -/
def lendActions : List ReaderAction :=
  [.matching 0 { guid := someWriter 1, publisherGuid := someWriter 0 },
    .data 0 (someChange 1 1 .alive),
    .lend (.pinSamplesForLoan 0 DataReader.anyFilter 1 1) true,
    .register 0 true]

theorem loans_kept_registered : ∃ s, LendingRun (init keepAllQos {} none) lendActions s ∧
    s.loaned = [0] ∧ s.LoansKept := by
  obtain ⟨s, hrun, hl⟩ : ∃ s, LendingRun (init keepAllQos {} none) lendActions s ∧ s.loaned = [0] :=
    ⟨_, @LendingRun.snoc _ (lendActions.take 3) _ _ _ (@LendingRun.snoc _ (lendActions.take 2) _ _ _
      (@LendingRun.snoc _ (lendActions.take 1) _ _ _ (@LendingRun.snoc _ [] _ _ _ .nil trivial rfl)
      trivial rfl) rfl rfl) trivial rfl, rfl⟩
  exact ⟨s, hrun, hl, loans_kept keepAllQos {} none lendActions s hrun⟩

/-- A lent sample is taken by copy: the loan refers to memory given back. -/
theorem loaned_taken_by_copy :
    ∃ s, Run (init keepAllQos {} none) (lendActions ++ [.take (.takeRaw 0) true]) s ∧
      ¬ s.LoansKept := by
  obtain ⟨s, hrun, hl, hf⟩ : ∃ s,
      Run (init keepAllQos {} none) (lendActions ++ [.take (.takeRaw 0) true]) s ∧
      s.loaned = [0] ∧ s.reader.heap.freedStructs = [0] :=
    ⟨_, .snoc (@Run.snoc _ (lendActions.take 3) _ _ _ (@Run.snoc _ (lendActions.take 2) _ _ _
      (@Run.snoc _ (lendActions.take 1) _ _ _ (@Run.snoc _ [] _ _ _ .nil rfl) rfl) rfl) rfl) rfl,
      rfl, rfl⟩
  refine ⟨s, hrun, fun hkept => ?_⟩
  have h₀ := (hkept.live 0 (hl ▸ List.mem_singleton_self 0)).1
  exact h₀ (hf ▸ List.mem_singleton_self 0)

end ReaderMachine

end Zzdds.Dcps
