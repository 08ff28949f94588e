import Zzdds.Dcps.AccessFrame

/-! # Instances and their writers

Which writers keep an instance alive: a set for each writer that alive samples grow and only the
writer's loss drops, beside a state for each instance that every change taken sets. -/

namespace Zzdds.Dcps

open Zzdds.Lib Zzdds.Rtps

namespace DataReader

variable (r : DataReader)

/-! ### What a sample changes -/

/-- The state of an instance, where it has been received. -/
def state (i : HandleT) : Option InstanceStateKind :=
  (r.seenInstances.lookup i).map (·.instanceState)

/-- Whether a writer is on record as having published an instance. -/
def tracks (w : Guid) (i : HandleT) : Prop := i ∈ (r.writerInstances.lookup w).getD []

/-- One more sample of an instance, after KEEP_LAST made room, exceeds no limit. -/
def fits (ih : HandleT) : Bool := ((r.keepLastLocked ih).rejectReason ih).isNone

/-- A change passes the reader's filters, and its resource limits where it is not of a coherent
set. -/
def admits (change : CacheChange) : Bool :=
  !r.timeFiltered (keyHashToHandle change.keyHash) change && !r.contentFiltered change &&
    (r.presentation.coherentAccess && change.coherentSetSn.isSome ||
      r.fits (keyHashToHandle change.keyHash))

section

variable {r} {r' : DataReader} {i ih : HandleT}

theorem state_congr (h : r'.seenInstances = r.seenInstances) : r'.state i = r.state i := by
  rw [state, h, state]

theorem handleAt_congr (h : r'.heap.structs = r.heap.structs) : r'.handleAt = r.handleAt := by
  funext a
  rw [handleAt, handleAt, Heap.get, Heap.get, h]

theorem rejectReason_congr (hq : r'.qos = r.qos) (hp : r'.pending = r.pending)
    (hh : r'.handleAt = r.handleAt) : r'.rejectReason ih = r.rejectReason ih := by
  unfold rejectReason instanceCount
  rw [hq, hp, hh]

end

theorem keepLastLocked_handleAt (ih : HandleT) : (r.keepLastLocked ih).handleAt = r.handleAt := by
  funext b
  unfold keepLastLocked
  split
  · unfold evictOldestLocked
    split
    · rfl
    · exact Heap.map_get_beginTeardown _ _ b fun _ _ => rfl
  · rfl

theorem keepLastLocked_qos (ih : HandleT) : (r.keepLastLocked ih).qos = r.qos := by
  unfold keepLastLocked
  split
  · unfold evictOldestLocked
    split
    · rfl
    · rfl
  · rfl

theorem keepLastLocked_pending {r r' : DataReader} (ih : HandleT) (hq : r'.qos = r.qos)
    (hp : r'.pending = r.pending) (hh : r'.handleAt = r.handleAt) :
    (r'.keepLastLocked ih).pending = (r.keepLastLocked ih).pending := by
  unfold keepLastLocked
  have hcount : r'.instanceCount ih = r.instanceCount ih := by
    unfold instanceCount
    rw [hp, hh]
  rw [hq, hcount]
  split
  · unfold evictOldestLocked
    rw [hp, hh]
    split
    · exact hp
    · rfl
  · exact hp

theorem fits_congr {r r' : DataReader} (ih : HandleT) (hq : r'.qos = r.qos)
    (hp : r'.pending = r.pending) (hs : r'.heap.structs = r.heap.structs) :
    r'.fits ih = r.fits ih := by
  have hh := handleAt_congr hs
  unfold fits
  rw [rejectReason_congr ((keepLastLocked_qos r' ih).trans (hq.trans (keepLastLocked_qos r ih).symm))
    (keepLastLocked_pending ih hq hp hh)
    ((keepLastLocked_handleAt r' ih).trans (hh.trans (keepLastLocked_handleAt r ih).symm))]

theorem state_determineStatesLocked (ih i : HandleT) (kind : ChangeKind) :
    (r.determineStatesLocked ih kind).1.state i =
      if i = ih then some (stateOfKind kind) else r.state i := by
  unfold determineStatesLocked state
  dsimp only
  rw [Table.lookup_insert_eq]
  split
  · cases r.seenInstances.lookup ih with
    | none => rfl
    | some entry => rfl
  · rfl

theorem instanceState_determineStatesLocked (ih : HandleT) (kind : ChangeKind) :
    (r.determineStatesLocked ih kind).2.1.instanceState = stateOfKind kind := by
  unfold determineStatesLocked
  cases r.seenInstances.lookup ih with
  | none => rfl
  | some entry => rfl

theorem state_storeKeyIfNeededLocked (ih i : HandleT) (data : List UInt8) :
    (r.storeKeyIfNeededLocked ih data).state i = r.state i := by
  unfold storeKeyIfNeededLocked state
  dsimp only
  rw [Table.lookup_update_eq]
  split
  next h =>
    rw [h]
    cases r.seenInstances.lookup ih with
    | none => rfl
    | some entry => rfl
  next => rfl

/-- What becomes of the instances when a sample is stamped. -/
theorem state_stampLocked (copy : ℕ) (ih i : HandleT) (change : CacheChange) :
    (r.stampLocked copy ih change).1.state i =
      if i = ih then some (stateOfKind change.kind) else r.state i := by
  unfold stampLocked
  dsimp only
  split
  · rw [state_storeKeyIfNeededLocked, state_determineStatesLocked]
  · exact state_determineStatesLocked r ih i change.kind

theorem filtersTaken_seenInstances (ih : HandleT) (change : CacheChange) :
    (r.filtersTaken ih change).seenInstances = r.seenInstances := by
  unfold filtersTaken
  dsimp only
  split <;> split <;> rfl

theorem admits_congr {r r' : DataReader} (change : CacheChange) (h : LeavesSamples r r') :
    r'.admits change = r.admits change := by
  unfold admits timeFiltered contentFiltered tbfActive separationNs
  rw [h.qos, h.tbfMap, h.cftFilter, h.presentation, fits_congr _ h.qos h.pending h.structs]

/-- A sample of a set is tracked with the set. -/
theorem isSome_wip_trackCoherentLocked (now : ℤ) {change : CacheChange}
    (hc : change.coherentSetSn.isSome) :
    ((r.trackCoherentLocked now change false).1.coherentWip.lookup change.writerGuid).isSome := by
  obtain ⟨cs, hcs⟩ := Option.isSome_iff_exists.mp hc
  unfold trackCoherentLocked
  simp only [hcs, Bool.false_eq_true, if_false]
  split
  next h =>
    obtain ⟨w, hw, -⟩ := (Option.any_eq_true _ _).mp h
    rw [Table.lookup_update_eq, if_pos rfl, hw]
    rfl
  next =>
    rw [Table.lookup_insert_eq, if_pos rfl]
    rfl

/-- The instances on record for a writer once it has published one more. -/
def trackedWith (change : CacheChange) : Table Guid (List HandleT) :=
  if change.kind = .alive then
    (r.trackWriterInstanceLocked change.writerGuid (keyHashToHandle change.keyHash)).writerInstances
  else r.writerInstances

theorem arriveLocked_leaves (now : ℤ) (change : CacheChange) :
    LeavesSamples { r with writerInstances := r.trackedWith change }
      (r.arriveLocked now (keyHashToHandle change.keyHash) change).2 := by
  have htrack : LeavesSamples { r with writerInstances := r.trackedWith change }
      (if change.kind = .alive then
        (r.dupe change.data).2.trackWriterInstanceLocked change.writerGuid
          (keyHashToHandle change.keyHash)
      else (r.dupe change.data).2) := by
    unfold trackedWith
    split
    · exact ⟨rfl, rfl, rfl, rfl, rfl, rfl, rfl, rfl⟩
    · exact ⟨rfl, rfl, rfl, rfl, rfl, rfl, rfl, rfl⟩
  have hset : ∀ (b : Bool) (r : DataReader), LeavesSamples r
      (if b = true then (r.trackCoherentLocked now change false).1 else r) := by
    intro b r
    split
    · exact .trackCoherentLocked r now change false
    · exact .refl r
  exact htrack.trans (hset _ _)

theorem isSome_wip_arriveLocked (now : ℤ) {change : CacheChange}
    (hc : (r.presentation.coherentAccess && change.coherentSetSn.isSome) = true) :
    ((r.arriveLocked now (keyHashToHandle change.keyHash) change).2.coherentWip.lookup
      change.writerGuid).isSome := by
  obtain ⟨hc, hset⟩ := Bool.and_eq_true_iff.mp hc
  have htrack : ∀ r' : DataReader, r'.presentation = r.presentation →
      ((if r'.presentation.coherentAccess = true then (r'.trackCoherentLocked now change false).1
        else r').coherentWip.lookup change.writerGuid).isSome := by
    intro r' hp
    rw [hp, if_pos hc]
    exact isSome_wip_trackCoherentLocked r' now hset
  refine htrack _ ?_
  split
  · rfl
  · rfl

/-- The settings and the writers' instances are as they were. -/
def SameWriters (r r' : DataReader) : Prop :=
  r'.qos = r.qos ∧ r'.writerInstances = r.writerInstances

theorem SameWriters.trans {r r' r'' : DataReader} (h : SameWriters r r') (h' : SameWriters r' r'') :
    SameWriters r r'' := ⟨h'.1.trans h.1, h'.2.trans h.2⟩

theorem stampLocked_sameWriters (copy : ℕ) (ih : HandleT) (change : CacheChange) :
    SameWriters r (r.stampLocked copy ih change).1 := by
  unfold stampLocked
  dsimp only
  split
  · exact ⟨rfl, rfl⟩
  · exact ⟨rfl, rfl⟩

theorem filtersTaken_sameWriters (ih : HandleT) (change : CacheChange) :
    SameWriters r (r.filtersTaken ih change) := by
  unfold filtersTaken
  dsimp only
  split <;> split <;> exact ⟨rfl, rfl⟩

theorem keepLastLocked_sameInstances (ih : HandleT) :
    SameWriters r (r.keepLastLocked ih) ∧ (r.keepLastLocked ih).seenInstances = r.seenInstances := by
  unfold keepLastLocked
  split
  · unfold evictOldestLocked
    split
    · exact ⟨⟨rfl, rfl⟩, rfl⟩
    · exact ⟨⟨rfl, rfl⟩, rfl⟩
  · exact ⟨⟨rfl, rfl⟩, rfl⟩

theorem bufferLocked_state {copy : ℕ} {ih : HandleT} {change : CacheChange}
    (hw : (r.coherentWip.lookup change.writerGuid).isSome) (i : HandleT) :
    (r.bufferLocked copy ih change).state i =
        (if i = ih then some (stateOfKind change.kind) else r.state i) ∧
      SameWriters r (r.bufferLocked copy ih change) := by
  obtain ⟨wip, hwip⟩ := Option.isSome_iff_exists.mp hw
  unfold bufferLocked
  simp only [hwip]
  constructor
  · rw [← state_stampLocked r copy ih i change]
    exact state_congr (filtersTaken_seenInstances _ ih change)
  · exact (stampLocked_sameWriters r copy ih change).trans (filtersTaken_sameWriters _ ih change)

theorem queueLocked_state (copy : ℕ) (ih i : HandleT) (change : CacheChange) :
    (r.queueLocked copy ih change).state i =
        (if i = ih ∧ r.fits ih = true then some (stateOfKind change.kind) else r.state i) ∧
      SameWriters r (r.queueLocked copy ih change) := by
  obtain ⟨hsame, hseen⟩ := keepLastLocked_sameInstances r ih
  unfold queueLocked
  dsimp only
  split
  next reason hr =>
    have hfits : ¬ (i = ih ∧ r.fits ih = true) := by
      rintro ⟨-, hf⟩
      simp [fits, hr] at hf
    rw [if_neg hfits]
    exact ⟨state_congr hseen, hsame⟩
  next hr =>
    have hfits : r.fits ih = true := by simp [fits, hr]
    constructor
    · simp only [hfits, and_true]
      rw [state_congr (filtersTaken_seenInstances _ ih change)]
      refine (state_stampLocked (r.keepLastLocked ih) copy ih i change).trans ?_
      rw [state_congr hseen]
    · exact (hsame.trans (stampLocked_sameWriters _ copy ih change)).trans
        (filtersTaken_sameWriters _ ih change)

/-- A sample and the instances: the writer is on record before any filter, and the state of the
instance is the sample's where it is taken. -/
theorem onDataCb_instances (hs : r.qos.exclusiveOwnership = false) (now : ℤ) (change : CacheChange)
    (i : HandleT) :
    (r.onDataCb now change).state i =
        (if i = keyHashToHandle change.keyHash ∧ r.admits change = true then
          some (stateOfKind change.kind) else r.state i) ∧
      (r.onDataCb now change).qos = r.qos ∧
      (r.onDataCb now change).writerInstances = r.trackedWith change := by
  have harrive := arriveLocked_leaves r now change
  have hadmits : (r.arriveLocked now (keyHashToHandle change.keyHash) change).2.admits change =
      r.admits change := by
    have hfits : { r with writerInstances := r.trackedWith change }.fits
        (keyHashToHandle change.keyHash) = r.fits (keyHashToHandle change.keyHash) :=
      fits_congr _ rfl rfl rfl
    rw [admits_congr change harrive]
    unfold admits
    rw [hfits]
    rfl
  have hstate : (r.arriveLocked now (keyHashToHandle change.keyHash) change).2.state i =
      r.state i := state_congr harrive.seenInstances
  have hwip := @isSome_wip_arriveLocked r now change
  unfold onDataCb
  dsimp only
  revert harrive hadmits hstate hwip
  generalize r.arriveLocked now (keyHashToHandle change.keyHash) change = arrived
  obtain ⟨copy, r₁⟩ := arrived
  intro harrive hadmits hstate hwip
  have hown : r₁.ownershipLocked (keyHashToHandle change.keyHash) change.writerGuid = (r₁, true) := by
    unfold ownershipLocked
    rw [harrive.qos, hs]
    rfl
  rw [hown, ← hadmits, ← hstate]
  simp only [Bool.not_true, Bool.false_or]
  have hpres : r₁.presentation = r.presentation := harrive.presentation
  split
  next hf =>
    have hno : r₁.admits change = false := by
      simp only [Bool.or_eq_true] at hf
      rcases hf with hf | hf <;> simp [admits, hf]
    rw [hno, if_neg (by simp)]
    exact ⟨rfl, harrive.qos, harrive.writerInstances⟩
  next hf =>
    simp only [Bool.or_eq_true, not_or, Bool.not_eq_true] at hf
    split
    next hc =>
      have hyes : r₁.admits change = true := by simp [admits, hf, hc]
      obtain ⟨h₁, h₂⟩ := bufferLocked_state r₁ (hwip (hpres ▸ hc)) i
      rw [hyes]
      simp only [and_true]
      exact ⟨h₁, h₂.1.trans harrive.qos, h₂.2.trans harrive.writerInstances⟩
    next hc =>
      have hfits : r₁.admits change = r₁.fits (keyHashToHandle change.keyHash) := by
        simp only [Bool.not_eq_true] at hc
        simp [admits, hf, hc]
      obtain ⟨h₁, h₂⟩ := queueLocked_state r₁ copy (keyHashToHandle change.keyHash) i change
      rw [hfits]
      exact ⟨h₁, h₂.1.trans harrive.qos, h₂.2.trans harrive.writerInstances⟩

/-! ### What the loss of a writer changes -/

/-- The queue's addresses are those of samples. -/
def InRange : Prop := ∀ a ∈ r.pending, a < r.heap.structs.length

/-- The synthetic samples of an instance in the queue. -/
def synthetic (i : HandleT) : ℕ :=
  r.pending.countP fun a => (r.heap.get a).any fun pc =>
    pc.info.instanceHandle = i && pc.info.instanceState = .notAliveNoWriters && pc.sample.isNone

/-- Some writer is on record as having published an instance. -/
def covered (i : HandleT) : Bool := r.writerInstances.values.any (i ∈ ·)

theorem covered_iff (i : HandleT) : r.covered i = true ↔ ∃ w, r.tracks w i := by
  simp only [covered, List.any_eq_true, Table.mem_values, decide_eq_true_eq, tracks]
  constructor
  · rintro ⟨l, ⟨w, hw⟩, hi⟩
    refine ⟨w, ?_⟩
    rw [hw]
    exact hi
  · rintro ⟨w, hi⟩
    cases hw : r.writerInstances.lookup w with
    | none =>
      rw [hw] at hi
      cases hi
    | some l =>
      rw [hw] at hi
      exact ⟨l, ⟨w, hw⟩, hi⟩

variable {r}

theorem InRange.enqueue (h : r.InRange) (pc : PendingChange) : (r.enqueue pc).InRange := by
  have hlen : (r.enqueue pc).heap.structs.length = r.heap.structs.length + 1 :=
    List.length_append
  intro a ha
  rw [hlen]
  rcases List.mem_append.mp ha with ha | ha
  · exact Nat.lt_succ_of_lt (h a ha)
  · rw [List.mem_singleton.mp ha]
    exact Nat.lt_succ_self _

theorem synthetic_enqueue (h : r.InRange) (pc : PendingChange) (i : HandleT) :
    (r.enqueue pc).synthetic i = r.synthetic i +
      if (pc.info.instanceHandle = i && pc.info.instanceState = .notAliveNoWriters &&
        pc.sample.isNone) = true then 1 else 0 := by
  have hold : ∀ a ∈ r.pending, (r.enqueue pc).heap.get a = r.heap.get a :=
    fun a ha => r.heap.get_append pc (h a ha)
  have hnew : (r.enqueue pc).heap.get r.heap.structs.length = some pc := List.getElem?_concat_length
  unfold synthetic
  rw [show (r.enqueue pc).pending = r.pending ++ [r.heap.structs.length] from rfl,
    List.countP_append, List.countP_singleton]
  congr 1
  · refine List.countP_congr fun a ha => ?_
    rw [hold a ha]
  · rw [hnew, Option.any_some]

/-- An instance is orphaned by the loss of a writer that had published `instances`. -/
def orphaned (r : DataReader) (instances : List HandleT) (i : HandleT) : Prop :=
  i ∈ instances ∧ r.covered i = false ∧ r.state i = some .alive

instance (instances : List HandleT) (i : HandleT) : Decidable (r.orphaned instances i) :=
  inferInstanceAs (Decidable (_ ∧ _))

/-- What one instance of a lost writer changes. -/
structure Orphans (l : List HandleT) (r r' : DataReader) : Prop where
  inRange : r'.InRange
  same : SameWriters r r'
  state : ∀ i, r'.state i = if r.orphaned l i then some .notAliveNoWriters else r.state i
  queued : ∀ i, r'.synthetic i = r.synthetic i + if r.orphaned l i then 1 else 0

theorem orphanLocked_orphans (h : r.InRange) (guid : Guid) (now : Time) (ih : HandleT) :
    Orphans [ih] r (r.orphanLocked guid now ih) := by
  have hnot : ¬ r.orphaned [ih] ih → Orphans [ih] r r := by
    intro hno
    have hall : ∀ i, ¬ r.orphaned [ih] i := by
      rintro i ⟨hi, hrest⟩
      exact hno ⟨List.mem_singleton_self ih, List.mem_singleton.mp hi ▸ hrest⟩
    exact ⟨h, ⟨rfl, rfl⟩, fun i => (if_neg (hall i)).symm, fun i => by rw [if_neg (hall i)]; rfl⟩
  unfold orphanLocked
  split
  next hc =>
    refine hnot ?_
    rintro ⟨-, hn, -⟩
    exact absurd hc (Bool.eq_false_iff.mp hn)
  next hc =>
    split
    next ha =>
      have horphan : ∀ i, r.orphaned [ih] i ↔ i = ih := by
        intro i
        refine ⟨fun hi => List.mem_singleton.mp hi.1, ?_⟩
        rintro rfl
        obtain ⟨e, he, hs⟩ := (Option.any_eq_true _ _).mp ha
        refine ⟨List.mem_singleton_self i, Bool.eq_false_iff.mpr hc, ?_⟩
        rw [DataReader.state, he]
        exact congrArg some (of_decide_eq_true hs)
      have hdupe : ((r.dupe emptyKeyCdr).2.determineStatesLocked ih .notAliveUnregistered).1.InRange :=
        h
      unfold synthesizeNoWriters
      refine ⟨hdupe.enqueue _, ⟨rfl, rfl⟩, fun i => ?_, fun i => ?_⟩
      · refine (state_determineStatesLocked (r.dupe emptyKeyCdr).2 ih i _).trans ?_
        simp only [horphan i]
        rfl
      · have hsyn : ((r.dupe emptyKeyCdr).2.determineStatesLocked ih
            .notAliveUnregistered).1.synthetic i = r.synthetic i := rfl
        have he := instanceState_determineStatesLocked (r.dupe emptyKeyCdr).2 ih
          .notAliveUnregistered
        simp only [synthetic_enqueue hdupe, hsyn, horphan i, he, stateOfKind, Option.isNone_none,
          Bool.and_true, decide_true, decide_eq_true_eq, @eq_comm HandleT ih i]
    next ha =>
      refine hnot ?_
      rintro ⟨-, -, hs⟩
      refine absurd ?_ ha
      obtain ⟨e, he, hs⟩ := Option.map_eq_some_iff.mp hs
      rw [he]
      exact decide_eq_true hs

/-- An instance is orphaned at the first step or at the others. -/
theorem Orphans.orphaned_cons_iff {ih : HandleT} {r r₁ : DataReader} (h₁ : Orphans [ih] r r₁)
    (l : List HandleT) (i : HandleT) :
    r.orphaned (ih :: l) i ↔ r.orphaned [ih] i ∨ r₁.orphaned l i := by
  have hcov : r₁.covered i = r.covered i := by
    rw [covered, h₁.same.2, covered]
  unfold orphaned
  rw [hcov, h₁.state i, List.mem_cons, List.mem_singleton]
  by_cases ho : r.orphaned [ih] i
  · exact ⟨fun _ => .inl ⟨List.mem_singleton.mp ho.1, ho.2⟩,
      fun _ => ⟨.inl (List.mem_singleton.mp ho.1), ho.2⟩⟩
  · rw [if_neg ho]
    constructor
    · rintro ⟨rfl | hi, hrest⟩
      · exact .inl ⟨rfl, hrest⟩
      · exact .inr ⟨hi, hrest⟩
    · rintro (⟨hi, hrest⟩ | ⟨hi, hrest⟩)
      · exact ⟨.inl hi, hrest⟩
      · exact ⟨.inr hi, hrest⟩

/-- An instance the first step orphaned is not alive for the others. -/
theorem Orphans.not_orphaned_rest {ih i : HandleT} {r r₁ : DataReader} (h₁ : Orphans [ih] r r₁)
    (ho : r.orphaned [ih] i) (l : List HandleT) : ¬ r₁.orphaned l i := by
  rintro ⟨-, -, hs⟩
  rw [h₁.state i, if_pos ho] at hs
  cases hs

theorem Orphans.cons {l : List HandleT} {ih : HandleT} {r r₁ r₂ : DataReader}
    (h₁ : Orphans [ih] r r₁) (h₂ : Orphans l r₁ r₂) : Orphans (ih :: l) r r₂ := by
  have hcases := h₁.orphaned_cons_iff l
  refine ⟨h₂.inRange, h₁.same.trans h₂.same, fun i => ?_, fun i => ?_⟩
  · rw [h₂.state i, h₁.state i]
    by_cases ho : r.orphaned [ih] i
    · rw [if_neg (h₁.not_orphaned_rest ho l), if_pos ho, if_pos ((hcases i).mpr (.inl ho))]
    · by_cases ho' : r₁.orphaned l i
      · rw [if_pos ho', if_pos ((hcases i).mpr (.inr ho'))]
      · rw [if_neg ho', if_neg ho, if_neg fun h => ((hcases i).mp h).elim ho ho']
  · rw [h₂.queued i, h₁.queued i]
    by_cases ho : r.orphaned [ih] i
    · rw [if_neg (h₁.not_orphaned_rest ho l), if_pos ho, if_pos ((hcases i).mpr (.inl ho))]
    · by_cases ho' : r₁.orphaned l i
      · rw [if_pos ho', if_neg ho, if_pos ((hcases i).mpr (.inr ho'))]
      · rw [if_neg ho', if_neg ho, if_neg fun h => ((hcases i).mp h).elim ho ho']

theorem foldl_orphanLocked (guid : Guid) (now : Time) : ∀ (l : List HandleT) {r : DataReader},
    r.InRange → Orphans l r (l.foldl (fun r ih => r.orphanLocked guid now ih) r)
  | [], r, h => by
      have hno : ∀ i, ¬ r.orphaned [] i := fun i hi => nomatch hi.1
      exact ⟨h, ⟨rfl, rfl⟩, fun i => (if_neg (hno i)).symm, fun i => by rw [if_neg (hno i)]; rfl⟩
  | ih :: l, r, h => by
      have h₁ := orphanLocked_orphans h guid now ih
      exact h₁.cons (foldl_orphanLocked guid now l h₁.inRange)

/-- The loss of a writer leaves an instance with no writer on record. -/
def loses (r : DataReader) (guid : Guid) (i : HandleT) : Prop :=
  r.tracks guid i ∧ (∀ w, w ≠ guid → ¬ r.tracks w i) ∧ r.state i = some .alive

theorem onWriterUnmatchingCb_instances (h : r.InRange) (now : Time) (guid : Guid) :
    (r.onWriterUnmatchingCb now guid).InRange ∧ (r.onWriterUnmatchingCb now guid).qos = r.qos ∧
      (r.onWriterUnmatchingCb now guid).writerInstances = r.writerInstances.erase guid ∧
      ∀ i, (r.loses guid i → (r.onWriterUnmatchingCb now guid).state i = some .notAliveNoWriters ∧
          (r.onWriterUnmatchingCb now guid).synthetic i = r.synthetic i + 1) ∧
        (¬ r.loses guid i → (r.onWriterUnmatchingCb now guid).state i = r.state i ∧
          (r.onWriterUnmatchingCb now guid).synthetic i = r.synthetic i) := by
  obtain ⟨r₀, hr₀⟩ : ∃ r₀ : DataReader, r₀ =
      { r.freeSamples ((r.coherentWip.lookup guid).elim [] (·.samples)) with
        subMatchedCurrent := r.subMatchedCurrent - 1
        writerStrengths := r.writerStrengths.erase guid
        writerLifespans := r.writerLifespans.erase guid
        coherentWriters := r.coherentWriters.erase guid
        coherentWip := r.coherentWip.erase guid
        ownerMap := Table.filterValues (· ≠ guid) r.ownerMap
        writerInstances := r.writerInstances.erase guid } := ⟨_, rfl⟩
  have hstructs : r₀.heap.structs = r.heap.structs := by
    rw [hr₀]
    exact LeavesSamples.structs_foldl_free _ r.heap
  have hpending : r₀.pending = r.pending := by rw [hr₀]; rfl
  have hinst : r₀.writerInstances = r.writerInstances.erase guid := by rw [hr₀]
  have hseen : r₀.seenInstances = r.seenInstances := by rw [hr₀]; rfl
  have hrange : r₀.InRange := by
    intro a ha
    rw [hstructs]
    exact h a (hpending ▸ ha)
  have hfold := foldl_orphanLocked guid now ((r.writerInstances.lookup guid).getD []) hrange
  have hresult : r.onWriterUnmatchingCb now guid =
      ((r.writerInstances.lookup guid).getD []).foldl (fun r ih => r.orphanLocked guid now ih) r₀ := by
    rw [hr₀]
    rfl
  have htracks : ∀ w i, r₀.tracks w i ↔ w ≠ guid ∧ r.tracks w i := by
    intro w i
    unfold tracks
    rw [hinst, Table.lookup_erase_eq]
    split
    next e => exact ⟨fun hi => (nomatch hi), fun hi => absurd e hi.1⟩
    next e => exact ⟨fun hi => ⟨e, hi⟩, fun hi => hi.2⟩
  have hcovered : ∀ i, r₀.covered i = false ↔ ∀ w, w ≠ guid → ¬ r.tracks w i := by
    intro i
    rw [← Bool.not_eq_true, covered_iff, not_exists]
    exact forall_congr' fun w => by rw [htracks, not_and]
  have hstate : ∀ i, r₀.state i = r.state i := fun i => state_congr hseen
  have hsyn : ∀ i, r₀.synthetic i = r.synthetic i := by
    intro i
    unfold synthetic
    rw [hpending]
    refine List.countP_congr fun a _ => ?_
    unfold Heap.get
    rw [hstructs]
  have horph : ∀ i, r₀.orphaned ((r.writerInstances.lookup guid).getD []) i ↔ r.loses guid i := by
    intro i
    unfold orphaned loses
    rw [hcovered, hstate]
    rfl
  rw [hresult]
  refine ⟨hfold.inRange, ?_, hfold.same.2.trans hinst, fun i => ⟨fun hl => ?_, fun hl => ?_⟩⟩
  · rw [hfold.same.1, hr₀]
    rfl
  · rw [hfold.state i, hfold.queued i, if_pos ((horph i).mpr hl), if_pos ((horph i).mpr hl), hsyn]
    exact ⟨rfl, rfl⟩
  · rw [hfold.state i, hfold.queued i, if_neg (mt (horph i).mp hl), if_neg (mt (horph i).mp hl),
      hsyn, hstate]
    exact ⟨rfl, rfl⟩

/-! ### The queue's addresses -/

theorem InRange.of_subset {r' : DataReader} (h : r.InRange) (hp : r'.pending ⊆ r.pending)
    (hs : r'.heap.structs.length = r.heap.structs.length) : r'.InRange := fun a ha => by
  rw [hs]
  exact h a (hp ha)

theorem InRange.leaves {r' : DataReader} (h : r.InRange) (hl : LeavesSamples r r') : r'.InRange :=
  h.of_subset (hl.pending ▸ List.Subset.refl _) (congrArg List.length hl.structs)

theorem InRange.keepLastLocked (h : r.InRange) (ih : HandleT) : (r.keepLastLocked ih).InRange := by
  unfold DataReader.keepLastLocked
  split
  · unfold evictOldestLocked
    split
    · exact h
    · exact h.of_subset List.erase_subset (Heap.length_beginTeardown _ _)
  · exact h

theorem InRange.stampLocked (h : r.InRange) (copy : ℕ) (ih : HandleT) (change : CacheChange) :
    (r.stampLocked copy ih change).1.InRange := by
  unfold DataReader.stampLocked
  dsimp only
  split
  · exact h
  · exact h

theorem InRange.filtersTaken (h : r.InRange) (ih : HandleT) (change : CacheChange) :
    (r.filtersTaken ih change).InRange := by
  unfold DataReader.filtersTaken
  dsimp only
  split <;> split <;> exact h

theorem InRange.ownershipLocked (h : r.InRange) (ih : HandleT) (writer : Guid) :
    (r.ownershipLocked ih writer).1.InRange := by
  unfold DataReader.ownershipLocked
  split
  · split
    · split
      · exact h
      · split <;> exact h
    · exact h
  · exact h

theorem InRange.bufferLocked (h : r.InRange) (copy : ℕ) (ih : HandleT) (change : CacheChange) :
    (r.bufferLocked copy ih change).InRange := by
  unfold DataReader.bufferLocked
  split
  · exact h
  · exact (h.stampLocked copy ih change).filtersTaken ih change

theorem InRange.queueLocked (h : r.InRange) (copy : ℕ) (ih : HandleT) (change : CacheChange) :
    (r.queueLocked copy ih change).InRange := by
  have hk := h.keepLastLocked ih
  unfold DataReader.queueLocked
  dsimp only
  split
  · exact hk
  · have hs := hk.stampLocked copy ih change
    exact (hs.enqueue _).filtersTaken ih change

theorem InRange.onDataCb (h : r.InRange) (now : ℤ) (change : CacheChange) :
    (r.onDataCb now change).InRange := by
  have h₀ : { r with writerInstances := r.trackedWith change }.InRange := h
  have h₁ : (r.arriveLocked now (keyHashToHandle change.keyHash) change).2.InRange :=
    h₀.leaves (arriveLocked_leaves r now change)
  have h₂ := h₁.ownershipLocked (keyHashToHandle change.keyHash) change.writerGuid
  unfold DataReader.onDataCb
  dsimp only
  split
  · exact h₂
  · split
    · exact h₂.bufferLocked _ _ _
    · exact h₂.queueLocked _ _ _

theorem InRange.foldl_enqueue (samples : List PendingChange) : ∀ {r : DataReader}, r.InRange →
    (samples.foldl DataReader.enqueue r).InRange := by
  induction samples with
  | nil => exact fun h => h
  | cons pc samples ih => exact fun h => ih (h.enqueue pc)

theorem foldl_enqueue_instances (samples : List PendingChange) : ∀ r : DataReader,
    SameWriters r (samples.foldl DataReader.enqueue r) ∧
      (samples.foldl DataReader.enqueue r).seenInstances = r.seenInstances := by
  induction samples with
  | nil => exact fun r => ⟨⟨rfl, rfl⟩, rfl⟩
  | cons pc samples ih => exact fun r => ih (r.enqueue pc)

end DataReader

/-! ### Who keeps an instance alive -/

/-- The instances each writer has published and not unregistered since, in its present match. -/
def ReaderAction.registers (reg : List (Guid × HandleT)) : ReaderAction → List (Guid × HandleT)
  | .data _ change =>
      match change.kind with
      | .alive => (change.writerGuid, keyHashToHandle change.keyHash) :: reg
      | .notAliveUnregistered =>
          reg.filter (· ≠ (change.writerGuid, keyHashToHandle change.keyHash))
      | .notAliveDisposed => reg
  | .unmatching _ guid => reg.filter (·.1 ≠ guid)
  | _ => reg

def registered (acts : List ReaderAction) : List (Guid × HandleT) :=
  acts.foldl ReaderAction.registers []

/-- The instances disposed since their last alive sample. -/
def ReaderAction.disposes (dis : List HandleT) : ReaderAction → List HandleT
  | .data _ change =>
      match change.kind with
      | .alive => dis.filter (· ≠ keyHashToHandle change.keyHash)
      | .notAliveDisposed => keyHashToHandle change.keyHash :: dis
      | .notAliveUnregistered => dis
  | _ => dis

def disposed (acts : List ReaderAction) : List HandleT := acts.foldl ReaderAction.disposes []

theorem registered_concat (acts : List ReaderAction) (a : ReaderAction) :
    registered (acts ++ [a]) = a.registers (registered acts) := by
  rw [registered, List.foldl_append]
  rfl

theorem disposed_concat (acts : List ReaderAction) (a : ReaderAction) :
    disposed (acts ++ [a]) = a.disposes (disposed acts) := by
  rw [disposed, List.foldl_append]
  rfl

namespace ReaderMachine

/-- NOT_ALIVE_NO_WRITERS means no writers: of an instance received and not disposed, exactly when
no matched writer has it. -/
def NoWritersExact (s : ReaderMachine) (reg : List (Guid × HandleT)) (dis : List HandleT) : Prop :=
  ∀ i ∉ dis, s.reader.state i ≠ none →
    (s.reader.state i = some .notAliveNoWriters ↔ ∀ w ∈ s.matched, (w, i) ∉ reg)

/-- `guid` is the last writer that has an instance, received and not disposed. -/
def LastWriter (s : ReaderMachine) (reg : List (Guid × HandleT)) (dis : List HandleT) (guid : Guid)
    (i : HandleT) : Prop :=
  i ∉ dis ∧ s.reader.state i ≠ none ∧ (guid, i) ∈ reg ∧ ∀ w, w ≠ guid → (w, i) ∉ reg

/-- The steps that do not make the two records disagree: an alive sample the reader drops is of an
instance it has as alive, or not at all; an unregister the reader takes is of an instance no other
writer has, and one it drops is not of the last writer; and when the last writer of an instance is
lost, no other writer is still on record for it from before its unregister. -/
def KeepsWriters (s : ReaderMachine) (reg : List (Guid × HandleT)) (dis : List HandleT) :
    ReaderAction → Prop
  | .data _ change =>
      let i := keyHashToHandle change.keyHash
      match change.kind with
      | .alive => s.reader.admits change = true ∨ s.reader.state i = some .alive ∨
          s.reader.state i = none
      | .notAliveUnregistered =>
          if s.reader.admits change = true then
            i ∈ dis ∨ ∀ w, w ≠ change.writerGuid → (w, i) ∉ reg
          else ¬ s.LastWriter reg dis change.writerGuid i
      | .notAliveDisposed => True
  | .unmatching _ guid => ∀ i, s.LastWriter reg dis guid i →
      ∀ w, w ≠ guid → ¬ s.reader.tracks w i
  | _ => True

/-- A run all of whose steps do so. -/
inductive KeepingRun (s₀ : ReaderMachine) : List ReaderAction → ReaderMachine → Prop
  | nil : KeepingRun s₀ [] s₀
  | snoc {acts : List ReaderAction} {a : ReaderAction} {s s' : ReaderMachine}
      (h : KeepingRun s₀ acts s) (hk : s.KeepsWriters (registered acts) (disposed acts) a)
      (hs : s.step a = some s') : KeepingRun s₀ (acts ++ [a]) s'

/-- The two records agree. -/
structure WritersAgree (s : ReaderMachine) (reg : List (Guid × HandleT)) (dis : List HandleT) :
    Prop where
  shared : s.reader.qos.exclusiveOwnership = false
  inRange : s.reader.InRange
  onRecord : ∀ w i, (w, i) ∈ reg → w ∈ s.matched ∧ s.reader.tracks w i
  states : ∀ i ∉ dis, s.reader.state i = none ∨
    (s.reader.state i = some .notAliveNoWriters ∧ ∀ w, (w, i) ∉ reg) ∨
    (s.reader.state i = some .alive ∧ ∃ w, (w, i) ∈ reg)

namespace WritersAgree

variable {s s' : ReaderMachine} {reg : List (Guid × HandleT)} {dis : List HandleT}

theorem noWritersExact (h : s.WritersAgree reg dis) : s.NoWritersExact reg dis := by
  intro i hi hr
  rcases h.states i hi with hn | ⟨hs, hnone⟩ | ⟨hs, w, hw⟩
  · exact absurd hn hr
  · exact ⟨fun _ w _ => hnone w, fun _ => hs⟩
  · constructor
    · intro hno
      rw [hs] at hno
      cases hno
    · intro hno
      exact absurd hw (hno w (h.onRecord w i hw).1)

/-- A step that touches neither the instances nor their writers. -/
theorem frame (h : s.WritersAgree reg dis) (hsame : DataReader.SameWriters s.reader s'.reader)
    (hseen : s'.reader.seenInstances = s.reader.seenInstances) (hr : s'.reader.InRange)
    (hm : s.matched ⊆ s'.matched) : s'.WritersAgree reg dis := by
  refine ⟨(congrArg _ hsame.1).trans h.shared, hr, fun w i hw => ?_, fun i hi => ?_⟩
  · obtain ⟨h₁, h₂⟩ := h.onRecord w i hw
    refine ⟨hm h₁, ?_⟩
    rw [DataReader.tracks, hsame.2]
    exact h₂
  · rw [DataReader.state_congr hseen]
    exact h.states i hi

theorem leaves (h : s.WritersAgree reg dis) {reader : DataReader}
    (hl : LeavesSamples s.reader reader) : { s with reader := reader }.WritersAgree reg dis :=
  h.frame ⟨hl.qos, hl.writerInstances⟩ hl.seenInstances (h.inRange.leaves hl)
    (List.Subset.refl _)

theorem accesses (h : s.WritersAgree reg dis) (ha : Accesses s.reader s'.reader)
    (hm : s'.matched = s.matched) : s'.WritersAgree reg dis := by
  refine h.frame ⟨?_, ?_⟩ ?_ (h.inRange.of_subset ha.pending ha.structs) (hm ▸ List.Subset.refl _)
  all_goals rw [ha.rest]

theorem tracks_trackedWith (r : DataReader) (change : CacheChange)
    (w : Guid) (i : HandleT) :
    i ∈ ((r.trackedWith change).lookup w).getD [] ↔ r.tracks w i ∨
      (change.kind = .alive ∧ w = change.writerGuid ∧ i = keyHashToHandle change.keyHash) := by
  unfold DataReader.trackedWith DataReader.tracks
  split
  next hk =>
    unfold DataReader.trackWriterInstanceLocked
    dsimp only
    rw [Table.lookup_insert_eq]
    split
    next hw =>
      rw [hw, Option.getD_some, List.mem_insert_iff]
      simp only [hk, true_and]
      exact or_comm
    next hw => simp only [hw, false_and, and_false, or_false]
  next hk => simp only [hk, false_and, or_false]

theorem data (h : s.WritersAgree reg dis) {now : ℤ} {change : CacheChange}
    (hm : change.writerGuid ∈ s.matched)
    (hk : s.KeepsWriters reg dis (.data now change)) :
    { s with reader := s.reader.onDataCb now change }.WritersAgree
      ((ReaderAction.data now change).registers reg)
      ((ReaderAction.data now change).disposes dis) := by
  have hspec := fun i => s.reader.onDataCb_instances h.shared now change i
  have hstate : ∀ i, (s.reader.onDataCb now change).state i =
      if i = keyHashToHandle change.keyHash ∧ s.reader.admits change = true then
        some (DataReader.stateOfKind change.kind) else s.reader.state i := fun i => (hspec i).1
  have hother : ∀ i, i ≠ keyHashToHandle change.keyHash →
      (s.reader.onDataCb now change).state i = s.reader.state i := fun i hi => by
    rw [hstate, if_neg fun h => hi h.1]
  have htracks : ∀ w i, (s.reader.onDataCb now change).tracks w i ↔ s.reader.tracks w i ∨
      (change.kind = .alive ∧ w = change.writerGuid ∧ i = keyHashToHandle change.keyHash) := by
    intro w i
    rw [DataReader.tracks, (hspec i).2.2]
    exact tracks_trackedWith s.reader change w i
  have hshared : (s.reader.onDataCb now change).qos.exclusiveOwnership = false := by
    rw [(hspec 0).2.1]
    exact h.shared
  have hrange := h.inRange.onDataCb now change
  unfold KeepsWriters at hk
  unfold ReaderAction.registers ReaderAction.disposes
  dsimp only at hk ⊢
  cases hkind : change.kind with
  | alive =>
    simp only [hkind] at hk hstate htracks ⊢
    refine ⟨hshared, hrange, fun w i hw => ?_, fun i hi => ?_⟩
    · rcases List.mem_cons.mp hw with he | hw
      · obtain ⟨rfl, rfl⟩ := Prod.mk.injEq .. ▸ he
        exact ⟨hm, (htracks _ _).mpr (.inr ⟨trivial, rfl, rfl⟩)⟩
      · obtain ⟨h₁, h₂⟩ := h.onRecord w i hw
        exact ⟨h₁, (htracks w i).mpr (.inl h₂)⟩
    · by_cases hi₀ : i = keyHashToHandle change.keyHash
      · subst hi₀
        have hreg : ∃ w, (w, keyHashToHandle change.keyHash) ∈
            (change.writerGuid, keyHashToHandle change.keyHash) :: reg :=
          ⟨_, List.mem_cons_self⟩
        by_cases ha : s.reader.admits change = true
        · exact .inr (.inr ⟨by rw [hstate, if_pos ⟨rfl, ha⟩]; rfl, hreg⟩)
        · rw [hstate, if_neg fun h => ha h.2]
          rcases hk with hk | hk | hk
          · exact absurd hk ha
          · exact .inr (.inr ⟨hk, hreg⟩)
          · exact .inl hk
      · have hdis : i ∉ dis := fun hd => hi (List.mem_filter.mpr ⟨hd, decide_eq_true hi₀⟩)
        rw [hother i hi₀]
        rcases h.states i hdis with hn | ⟨hs, hnone⟩ | ⟨hs, w, hw⟩
        · exact .inl hn
        · refine .inr (.inl ⟨hs, fun w hw => ?_⟩)
          rcases List.mem_cons.mp hw with he | hw
          · exact hi₀ (Prod.mk.injEq .. ▸ he).2
          · exact hnone w hw
        · exact .inr (.inr ⟨hs, w, List.mem_cons_of_mem _ hw⟩)
  | notAliveDisposed =>
    simp only [hkind] at htracks ⊢
    refine ⟨hshared, hrange, fun w i hw => ?_, fun i hi => ?_⟩
    · obtain ⟨h₁, h₂⟩ := h.onRecord w i hw
      exact ⟨h₁, (htracks w i).mpr (.inl h₂)⟩
    · rw [hother i fun e => hi (e ▸ List.mem_cons_self)]
      exact h.states i fun hd => hi (List.mem_cons_of_mem _ hd)
  | notAliveUnregistered =>
    simp only [hkind] at hk hstate htracks ⊢
    refine ⟨hshared, hrange, fun w i hw => ?_, fun i hi => ?_⟩
    · obtain ⟨h₁, h₂⟩ := h.onRecord w i (List.mem_of_mem_filter hw)
      exact ⟨h₁, (htracks w i).mpr (.inl h₂)⟩
    · by_cases hi₀ : i = keyHashToHandle change.keyHash
      · subst hi₀
        by_cases ha : s.reader.admits change = true
        · rw [if_pos ha] at hk
          refine .inr (.inl ⟨by rw [hstate, if_pos ⟨rfl, ha⟩]; rfl, fun w hw => ?_⟩)
          obtain ⟨hw, hne⟩ := List.mem_filter.mp hw
          have hw₀ : w ≠ change.writerGuid := fun e => of_decide_eq_true hne (by rw [e])
          exact (hk.resolve_left hi) w hw₀ hw
        · rw [if_neg ha] at hk
          rw [hstate, if_neg fun h => ha h.2]
          rcases h.states _ hi with hn | ⟨hs, hnone⟩ | ⟨hs, w, hw⟩
          · exact .inl hn
          · exact .inr (.inl ⟨hs, fun w hw => hnone w (List.mem_of_mem_filter hw)⟩)
          · refine .inr (.inr ⟨hs, ?_⟩)
            -- some writer other than the one that unregistered has it
            by_cases hw₀ : w = change.writerGuid
            · subst hw₀
              have hothers : ∃ w', w' ≠ change.writerGuid ∧
                  (w', keyHashToHandle change.keyHash) ∈ reg := by
                by_contra hno
                refine hk ⟨hi, by rw [hs]; simp, hw, fun w' hw' hin => hno ⟨w', hw', hin⟩⟩
              obtain ⟨w', hne, hin⟩ := hothers
              exact ⟨w', List.mem_filter.mpr ⟨hin, decide_eq_true fun e => hne (congrArg Prod.fst e)⟩⟩
            · exact ⟨w, List.mem_filter.mpr ⟨hw, decide_eq_true fun e => hw₀ (congrArg Prod.fst e)⟩⟩
      · rw [hother i hi₀]
        rcases h.states i hi with hn | ⟨hs, hnone⟩ | ⟨hs, w, hw⟩
        · exact .inl hn
        · exact .inr (.inl ⟨hs, fun w hw => hnone w (List.mem_of_mem_filter hw)⟩)
        · exact .inr (.inr ⟨hs, w, List.mem_filter.mpr
            ⟨hw, decide_eq_true fun e => hi₀ (congrArg Prod.snd e)⟩⟩)

theorem loses_of_lastWriter (h : s.WritersAgree reg dis) {now : Time} {guid : Guid}
    (hk : s.KeepsWriters reg dis (.unmatching now guid)) {i : HandleT}
    (hl : s.LastWriter reg dis guid i) : s.reader.loses guid i := by
  refine ⟨(h.onRecord guid i hl.2.2.1).2, hk i hl, ?_⟩
  rcases h.states i hl.1 with hn | ⟨-, hnone⟩ | ⟨hs, -⟩
  · exact absurd hn hl.2.1
  · exact absurd hl.2.2.1 (hnone guid)
  · exact hs

theorem unmatching (h : s.WritersAgree reg dis) {now : Time} {guid : Guid}
    (hk : s.KeepsWriters reg dis (.unmatching now guid)) :
    { s with
      reader := s.reader.onWriterUnmatchingCb now guid
      matched := s.matched.filter (· ≠ guid) }.WritersAgree (reg.filter (·.1 ≠ guid)) dis := by
  obtain ⟨hrange, hqos, hinst, hspec⟩ :=
    DataReader.onWriterUnmatchingCb_instances h.inRange now guid
  refine ⟨(congrArg _ hqos).trans h.shared, hrange, fun w i hw => ?_, fun i hi => ?_⟩
  · obtain ⟨hw, hne⟩ := List.mem_filter.mp hw
    have hne : w ≠ guid := of_decide_eq_true hne
    obtain ⟨h₁, h₂⟩ := h.onRecord w i hw
    refine ⟨List.mem_filter.mpr ⟨h₁, decide_eq_true hne⟩, ?_⟩
    rw [DataReader.tracks, hinst, Table.lookup_erase_eq, if_neg hne]
    exact h₂
  · by_cases hl : s.reader.loses guid i
    · refine .inr (.inl ⟨((hspec i).1 hl).1, fun w hw => ?_⟩)
      obtain ⟨hw, hne⟩ := List.mem_filter.mp hw
      exact hl.2.1 w (of_decide_eq_true hne) (h.onRecord w i hw).2
    · dsimp only
      rw [((hspec i).2 hl).1]
      rcases h.states i hi with hn | ⟨hs, hnone⟩ | ⟨hs, w, hw⟩
      · exact .inl hn
      · exact .inr (.inl ⟨hs, fun w hw => hnone w (List.mem_of_mem_filter hw)⟩)
      · refine .inr (.inr ⟨hs, ?_⟩)
        by_contra hno
        -- then the lost writer was the last one
        have hothers : ∀ w, w ≠ guid → (w, i) ∉ reg := fun w hne hin =>
          hno ⟨w, List.mem_filter.mpr ⟨hin, decide_eq_true hne⟩⟩
        have hguid : w = guid := by
          by_contra hne
          exact hothers w hne hw
        subst hguid
        exact hl (h.loses_of_lastWriter hk ⟨hi, by rw [hs]; simp, hw, hothers⟩)

theorem step (h : s.WritersAgree reg dis) {a : ReaderAction} (hk : s.KeepsWriters reg dis a)
    (hs : s.step a = some s') : s'.WritersAgree (a.registers reg) (a.disposes dis) := by
  have hgive : ∀ (s₁ : ReaderMachine) (reader : DataReader) (payloads : List ℕ) (built : Bool),
      s₁.matched = s.matched → Accesses s.reader reader →
      (s₁.giveOut reader payloads built).WritersAgree reg dis := by
    intro s₁ reader payloads built hm ha
    unfold giveOut
    split
    · exact h.accesses ha hm
    · exact h.accesses (ha.trans (.freePayloads payloads _)) hm
  cases a with
  | matching now info =>
    cases hs
    exact h.frame ⟨(LeavesSamples.onWriterMatchingCb _ now info _).qos,
      (LeavesSamples.onWriterMatchingCb _ now info _).writerInstances⟩
      (LeavesSamples.onWriterMatchingCb _ now info _).seenInstances
      (h.inRange.leaves (.onWriterMatchingCb _ now info _)) fun _ => List.mem_insert_of_mem
  | unmatching now guid =>
    simp only [ReaderMachine.step] at hs
    split at hs
    · cases hs
      exact h.unmatching hk
    · cases hs
  | data now change =>
    simp only [ReaderMachine.step] at hs
    split at hs
    next hm =>
      cases hs
      exact h.data hm hk
    next => cases hs
  | eoc now change =>
    simp only [ReaderMachine.step] at hs
    split at hs
    · cases hs
      exact h.leaves (.onEocCb _ now change)
    · cases hs
  | promote idx =>
    cases hs
    obtain ⟨hsame, hseen⟩ := DataReader.foldl_enqueue_instances
      (s.reader.coherentCommitted[idx]?.elim [] (·.samples))
      { s.reader with coherentCommitted := s.reader.coherentCommitted.eraseIdx idx }
    have hrange : { s.reader with
        coherentCommitted := s.reader.coherentCommitted.eraseIdx idx }.InRange := h.inRange
    exact h.frame hsame hseen (DataReader.InRange.foldl_enqueue _ hrange) (List.Subset.refl _)
  | discard idx =>
    cases hs
    exact h.leaves (.discardCommittedSetLocked _ idx)
  | beginOrdered =>
    cases hs
    exact h.accesses (.beginOrdered _) rfl
  | endOrdered =>
    cases hs
    exact h.accesses ⟨rfl, List.Subset.refl _, rfl⟩ rfl
  | take call built =>
    cases hs
    exact hgive { s with handed := _ } _ _ _ rfl (.takeCall s.reader call)
  | read call built =>
    simp only [ReaderMachine.step] at hs
    split at hs
    · cases hs
      exact hgive s _ _ _ rfl (.readCall s.reader call)
    · cases hs
      exact h.accesses (.readCall s.reader call) rfl
  | lend call sliced =>
    cases hs
    exact h.accesses (.loanCall s.reader call) rfl
  | register i made =>
    obtain ⟨as, -, rfl⟩ := Option.map_eq_some_iff.mp hs
    split
    · exact h.accesses (.refl _) rfl
    · exact h.accesses (.refl _) rfl
  | returnLoan key =>
    obtain ⟨as, -, rfl⟩ := Option.map_eq_some_iff.mp hs
    exact h.accesses (.refl _) rfl
  | releasePin i =>
    simp only [ReaderMachine.step] at hs
    split at hs
    · cases hs
      exact h.accesses (.releasePin _ _) rfl
    · cases hs
  | settle i =>
    simp only [ReaderMachine.step] at hs
    split at hs
    · cases hs
      exact h.accesses ⟨rfl, List.Subset.refl _, rfl⟩ rfl
    · cases hs
  | freeCopy i =>
    obtain ⟨payloads, -, rfl⟩ := Option.map_eq_some_iff.mp hs
    exact h.accesses (.freePayloads payloads _) rfl

end WritersAgree

theorem KeepingRun.writersAgree {s₀ s : ReaderMachine} {acts : List ReaderAction}
    (h₀ : s₀.WritersAgree [] []) (hrun : KeepingRun s₀ acts s) :
    s.WritersAgree (registered acts) (disposed acts) := by
  induction hrun with
  | nil => exact h₀
  | snoc _ hk hs ih =>
    rw [registered_concat, disposed_concat]
    exact ih.step hk hs

theorem writersAgree_init {qos : DataReaderQos} (hs : qos.exclusiveOwnership = false)
    (presentation : PresentationQos) (cftFilter : Option (List UInt8 → Bool)) :
    (init qos presentation cftFilter).WritersAgree [] [] :=
  ⟨hs, fun _ ha => (nomatch ha), fun _ _ hw => (nomatch hw), fun _ _ => .inl rfl⟩

/-- After every step of such a run an instance received and not disposed is NOT_ALIVE_NO_WRITERS
exactly when no matched writer has it; and the loss of the last writer that has it makes it so and
queues one synthetic sample. -/
theorem no_writers_exact (qos : DataReaderQos) (hshared : qos.exclusiveOwnership = false)
    (presentation : PresentationQos) (cftFilter : Option (List UInt8 → Bool))
    (acts : List ReaderAction) (s : ReaderMachine)
    (hrun : KeepingRun (init qos presentation cftFilter) acts s) :
    s.NoWritersExact (registered acts) (disposed acts) ∧
      ∀ now guid s', s.KeepsWriters (registered acts) (disposed acts) (.unmatching now guid) →
        s.step (.unmatching now guid) = some s' →
        ∀ i, s.LastWriter (registered acts) (disposed acts) guid i →
          s'.reader.state i = some .notAliveNoWriters ∧
            s'.reader.synthetic i = s.reader.synthetic i + 1 := by
  have h := hrun.writersAgree (writersAgree_init hshared presentation cftFilter)
  refine ⟨h.noWritersExact, ?_⟩
  intro now guid s' hk hs i hl
  simp only [ReaderMachine.step] at hs
  split at hs
  · cases hs
    obtain ⟨-, -, -, hspec⟩ := DataReader.onWriterUnmatchingCb_instances h.inRange now guid
    exact (hspec i).1 (h.loses_of_lastWriter hk hl)
  · cases hs

/-! ### Two runs -/

theorem length_someKey (n : UInt8) : [0, 0, n].length = 3 := rfl

def someWriter (n : UInt8) : Guid := ⟨Bytes.zeroes 12, ⟨⟨[0, 0, n], length_someKey n⟩, 0x02⟩⟩

def someChange (n : UInt8) (sn : ℤ) (kind : ChangeKind) : CacheChange where
  kind := kind
  writerGuid := someWriter n
  sequenceNumber := sn
  sourceTimestamp := ⟨0, 0⟩
  instanceHandle := INSTANCE_HANDLE_NIL
  keyHash := Bytes.zeroes 16
  data := [n]

def keepAllQos : DataReaderQos := { history := .keepAll }

def aliveActions : List ReaderAction :=
  [.matching 0 { guid := someWriter 1, publisherGuid := someWriter 0 },
    .data 0 (someChange 1 1 .alive)]

theorem no_writers_exact_alive : ∃ s, KeepingRun (init keepAllQos {} none) aliveActions s ∧
    s.NoWritersExact (registered aliveActions) (disposed aliveActions) ∧
    ∃ s', s.step (.unmatching ⟨0, 0⟩ (someWriter 1)) = some s' ∧
      s'.reader.state (keyHashToHandle (Bytes.zeroes 16)) = some .notAliveNoWriters ∧
      s'.reader.synthetic (keyHashToHandle (Bytes.zeroes 16)) =
        s.reader.synthetic (keyHashToHandle (Bytes.zeroes 16)) + 1 := by
  obtain ⟨s, hrun, hm, hinst, hstate⟩ : ∃ s,
      KeepingRun (init keepAllQos {} none) aliveActions s ∧ s.matched = [someWriter 1] ∧
      s.reader.writerInstances =
        AList.insert (someWriter 1) [keyHashToHandle (Bytes.zeroes 16)] ∅ ∧
      s.reader.state (keyHashToHandle (Bytes.zeroes 16)) = some .alive :=
    ⟨_, @KeepingRun.snoc _ (aliveActions.take 1) _ _ _
      (@KeepingRun.snoc _ [] _ _ _ .nil trivial rfl) (.inr (.inr rfl)) rfl, rfl, rfl, rfl⟩
  have hexact := no_writers_exact keepAllQos rfl {} none aliveActions s hrun
  have hk : s.KeepsWriters (registered aliveActions) (disposed aliveActions)
      (.unmatching ⟨0, 0⟩ (someWriter 1)) := by
    intro i _ w hw ht
    rw [DataReader.tracks, hinst, AList.lookup_insert_ne hw] at ht
    cases ht
  refine ⟨s, hrun, hexact.1, _, if_pos (hm ▸ List.mem_singleton_self _), ?_⟩
  refine hexact.2 _ _ _ hk (if_pos (hm ▸ List.mem_singleton_self _)) _ ⟨nofun, ?_, ?_, ?_⟩
  · rw [hstate]
    nofun
  · exact List.mem_singleton_self _
  · intro w hw hin
    exact hw (congrArg Prod.fst (List.mem_singleton.mp hin))

def unregisterActions : List ReaderAction :=
  [.matching 0 { guid := someWriter 1, publisherGuid := someWriter 0 },
    .matching 0 { guid := someWriter 2, publisherGuid := someWriter 0 },
    .data 0 (someChange 1 1 .alive), .data 0 (someChange 2 1 .alive),
    .data 0 (someChange 1 2 .notAliveUnregistered)]

/-- One of two live writers unregisters the instance. -/
theorem no_writers_with_writer : ∃ s, Run (init keepAllQos {} none) unregisterActions s ∧
    ¬ s.NoWritersExact (registered unregisterActions) (disposed unregisterActions) := by
  obtain ⟨s, hrun, hm, hstate⟩ : ∃ s, Run (init keepAllQos {} none) unregisterActions s ∧
      someWriter 2 ∈ s.matched ∧
      s.reader.state (keyHashToHandle (Bytes.zeroes 16)) = some .notAliveNoWriters :=
    ⟨_, @Run.snoc _ (unregisterActions.take 4) _ _ _ (@Run.snoc _ (unregisterActions.take 3) _ _ _
      (@Run.snoc _ (unregisterActions.take 2) _ _ _ (@Run.snoc _ (unregisterActions.take 1) _ _ _
      (@Run.snoc _ [] _ _ _ .nil rfl) rfl) rfl) rfl) rfl,
      List.mem_of_getElem? (i := 0) rfl, rfl⟩
  refine ⟨s, hrun, fun hexact => ?_⟩
  have hno := (hexact (keyHashToHandle (Bytes.zeroes 16)) nofun (by rw [hstate]; nofun)).mp hstate
  exact hno (someWriter 2) hm (List.mem_of_getElem? (i := 0) rfl)

end ReaderMachine

end Zzdds.Dcps
