import Zzdds.Dcps.ReaderMachine

/-! # What access leaves alone

Reading, taking and lending change the memory, the queue, its window and the count of loans; they
add nothing to the queue and allocate no sample.  A change that arrives, an end of a set and a match
leave alone what samples there are, but for the ones they add. -/

namespace Zzdds.Dcps

open Zzdds.Lib Zzdds.Rtps

/-! ### Memory -/

namespace Heap

variable (h : Heap) (a : ℕ)

theorem length_release : (h.release a).structs.length = h.structs.length := by
  unfold release
  split
  next => rfl
  next pc hpc =>
    dsimp only
    split
    · unfold reallyFree
      split
      · exact List.length_modify ..
      · exact List.length_modify ..
    · exact List.length_modify ..

theorem length_beginTeardown : (h.beginTeardown a).structs.length = h.structs.length := by
  unfold beginTeardown
  rw [length_release]
  exact List.length_modify ..

theorem length_foldl_beginTeardown (as : List ℕ) :
    (as.foldl beginTeardown h).structs.length = h.structs.length := by
  induction as generalizing h with
  | nil => rfl
  | cons a as ih => rw [List.foldl_cons, ih, length_beginTeardown]

theorem structs_foldl_destroy (as : List ℕ) : (as.foldl destroy h).structs = h.structs := by
  induction as generalizing h with
  | nil => rfl
  | cons a as ih => exact ih _

theorem length_acquire {h h' : Heap} {a : ℕ} (he : h.acquire a = some h') :
    h'.structs.length = h.structs.length := by
  unfold acquire at he
  simp only [Option.bind_eq_some_iff, Option.map_eq_some_iff] at he
  obtain ⟨pc, -, q, -, rfl⟩ := he
  exact List.length_modify ..

/-- What does not depend on the reference count is the same through a change of it. -/
theorem map_get_modify {α : Type} {g : PendingChange → α} (b : ℕ)
    (hg : ∀ pc q, g { pc with quiesce := q } = g pc) (q : PendingChange → EntityQuiesce) :
    ((h.modify a fun pc => { pc with quiesce := q pc }).get b).map g = (h.get b).map g := by
  unfold modify get
  rw [List.getElem?_modify]
  split
  · cases h.structs[b]? with
    | none => rfl
    | some pc => exact congrArg some (hg pc _)
  · cases h.structs[b]? with
    | none => rfl
    | some pc => rfl

theorem map_get_beginTeardown {α : Type} {g : PendingChange → α} (b : ℕ)
    (hg : ∀ pc q, g { pc with quiesce := q } = g pc) :
    ((h.beginTeardown a).get b).map g = (h.get b).map g := by
  refine Eq.trans ?_ (map_get_modify h a b hg fun pc => pc.quiesce.close)
  unfold beginTeardown release
  split
  next => rfl
  next pc _ =>
    dsimp only
    have hm := map_get_modify (h.modify a fun pc => { pc with quiesce := pc.quiesce.close }) a b hg
      fun pc => pc.quiesce.release.1
    split
    · unfold reallyFree
      split
      · exact hm
      · exact hm
    · exact hm

theorem get_append (h : Heap) (pc : PendingChange) {a : ℕ} (ha : a < h.structs.length) :
    (h.create pc).2.get a = h.get a :=
  List.getElem?_append_left ha

end Heap

/-! ### Access -/

/-- Only the memory, the queue, its window and the count of loans differ; nothing was queued. -/
structure Accesses (r r' : DataReader) : Prop where
  rest : r' = { r with
    heap := r'.heap
    pending := r'.pending
    orderedAccessWatermark := r'.orderedAccessWatermark
    outstandingLoans := r'.outstandingLoans }
  pending : r'.pending ⊆ r.pending
  structs : r'.heap.structs.length = r.heap.structs.length

namespace Accesses

theorem refl (r : DataReader) : Accesses r r := ⟨rfl, List.Subset.refl _, rfl⟩

theorem trans {r r' r'' : DataReader} (h : Accesses r r') (h' : Accesses r' r'') :
    Accesses r r'' := by
  refine ⟨?_, List.Subset.trans h'.pending h.pending, h'.structs.trans h.structs⟩
  conv_lhs => rw [h'.rest, h.rest]

variable (r : DataReader)

theorem purgeExpired (now : ℤ) : Accesses r (r.purgeExpired now) :=
  ⟨rfl, List.filter_subset_self _, Heap.length_foldl_beginTeardown _ _⟩

theorem splitMatching_perm (p : ℕ → Bool) : ∀ (l : List ℕ) (n : ℕ),
    ((DataReader.splitMatching p l n).1 ++ (DataReader.splitMatching p l n).2).Perm l
  | [], _ => List.Perm.refl _
  | a :: l, 0 => List.Perm.refl _
  | a :: l, n + 1 => by
      unfold DataReader.splitMatching
      split
      · exact (splitMatching_perm p l n).cons a
      · exact List.perm_middle.trans ((splitMatching_perm p l (n + 1)).cons a)

theorem splitMatching_kept (p : ℕ → Bool) (l : List ℕ) (n : ℕ) :
    (DataReader.splitMatching p l n).2 ⊆ l := fun _ ha =>
  (splitMatching_perm p l n).subset (List.mem_append_right _ ha)

theorem takeAway (taken : List ℕ) {kept : List ℕ} (hk : kept ⊆ r.pending) :
    Accesses r (r.takeAway taken kept).1 :=
  ⟨rfl, hk, congrArg List.length (Heap.structs_foldl_destroy r.heap taken)⟩

theorem takeRawLoop (now : ℤ) : ∀ (l : List ℕ) (r : DataReader), l ⊆ r.pending →
    Accesses r (DataReader.takeRawLoop now r l).1
  | [], r, hl => ⟨rfl, hl, rfl⟩
  | a :: rest, r, hl => by
      unfold DataReader.takeRawLoop
      have hrest : rest ⊆ r.pending := fun b hb => hl (List.mem_cons_of_mem a hb)
      split
      · exact ⟨rfl, hl, rfl⟩
      · dsimp only
        split
        · refine trans ?_ (takeRawLoop now rest _ hrest)
          exact ⟨rfl, List.Subset.refl _, Heap.length_beginTeardown _ _⟩
        · refine trans ?_ (takeAway _ [a] hrest)
          exact ⟨rfl, List.Subset.refl _, rfl⟩

theorem takeCall (call : TakeCall) : Accesses r (call.run r).1 := by
  cases call with
  | takeRaw now => exact takeRawLoop now r.pending r (List.Subset.refl _)
  | takeNextInstanceRaw now prev =>
    simp only [TakeCall.run, DataReader.takeNextInstanceRaw]
    split
    · exact purgeExpired r now
    · exact (purgeExpired r now).trans (takeAway _ _ (splitMatching_kept _ _ _))
  | takeFiltered now f maxSamples reserved =>
    simp only [TakeCall.run, DataReader.takeFiltered]
    split
    · exact (purgeExpired r now).trans (takeAway _ _ (splitMatching_kept _ _ _))
    · exact purgeExpired r now
  | takeNextInstanceFiltered now prev f maxSamples reserved =>
    simp only [TakeCall.run, DataReader.takeNextInstanceFiltered]
    split
    · exact purgeExpired r now
    · split
      · exact (purgeExpired r now).trans (takeAway _ _ (splitMatching_kept _ _ _))
      · exact purgeExpired r now

theorem cloneSample (a : ℕ) : Accesses r (r.cloneSample a).1 := by
  unfold DataReader.cloneSample
  split
  · exact refl r
  · exact ⟨rfl, List.Subset.refl _, List.length_modify ..⟩

theorem cloneSamples : ∀ (as : List ℕ) (r : DataReader), Accesses r (r.cloneSamples as).1
  | [], r => refl r
  | a :: as, r => (cloneSample r a).trans (cloneSamples as _)

theorem readCall (call : ReadCall) : Accesses r (call.run r).1 := by
  have hnext : ∀ now prev f maxSamples clones,
      Accesses r (r.readNextInstanceFiltered now prev f maxSamples clones).1 := by
    intro now prev f maxSamples clones
    simp only [DataReader.readNextInstanceFiltered]
    split
    · exact purgeExpired r now
    · exact (purgeExpired r now).trans (cloneSamples _ _)
  cases call with
  | readRaw now f maxSamples clones => exact (purgeExpired r now).trans (cloneSamples _ _)
  | readNextInstanceRaw now prev clones => exact hnext now prev _ _ _
  | readNextInstanceFiltered now prev f maxSamples clones => exact hnext now prev f _ _

theorem pinSamples : ∀ (as : List ℕ) (r : DataReader), Accesses r (r.pinSamples as).1
  | [], r => refl r
  | a :: as, r => by
      unfold DataReader.pinSamples
      split
      · exact pinSamples as r
      next h he =>
        refine trans ?_ (pinSamples as _)
        exact ⟨rfl, List.Subset.refl _, (List.length_modify ..).trans (Heap.length_acquire he)⟩

theorem length_foldl_modify (l : List (ℕ × SampleInfo)) (h : Heap) :
    (l.foldl (fun h p => h.modify p.1 fun pc => { pc with info := p.2 }) h).structs.length =
      h.structs.length := by
  induction l generalizing h with
  | nil => rfl
  | cons p l ih => exact (ih _).trans (List.length_modify ..)

theorem lend (as : List ℕ) : Accesses r (r.lend as) :=
  ⟨rfl, List.Subset.refl _, length_foldl_modify _ _⟩

theorem loanCall (call : LoanCall) : Accesses r (call.run r).1 := by
  have hpin : ∀ (r : DataReader) (as : List ℕ), Accesses r ((r.pinSamples as).1.lend
      (r.pinSamples as).2) := fun r as => (pinSamples as r).trans (lend _ _)
  have htake : ∀ (r : DataReader) (p : ℕ → Bool) (n : ℕ), Accesses r
      ({ r with pending := (DataReader.splitMatching p r.pending n).2 }.lend
        (DataReader.splitMatching p r.pending n).1) := by
    intro r p n
    have hkept : Accesses r { r with pending := (DataReader.splitMatching p r.pending n).2 } :=
      ⟨rfl, splitMatching_kept _ _ _, rfl⟩
    exact hkept.trans (lend _ _)
  cases call with
  | pinSamplesForLoan now f maxSamples pins => exact (purgeExpired r now).trans (hpin _ _)
  | pinNextInstanceForLoan now prev f maxSamples pins =>
    simp only [LoanCall.run, DataReader.pinNextInstanceForLoan]
    split
    · exact purgeExpired r now
    · exact (purgeExpired r now).trans (hpin _ _)
  | takeSamplesForLoan now f maxSamples reserved =>
    simp only [LoanCall.run, DataReader.takeSamplesForLoan]
    split
    · exact (purgeExpired r now).trans (htake _ _ _)
    · exact purgeExpired r now
  | takeNextInstanceForLoan now prev f maxSamples reserved =>
    simp only [LoanCall.run, DataReader.takeNextInstanceForLoan]
    split
    · exact purgeExpired r now
    · split
      · exact (purgeExpired r now).trans (htake _ _ _)
      · exact purgeExpired r now

theorem freePayloads (payloads : List ℕ) : ∀ r : DataReader,
    Accesses r (payloads.foldl DataReader.freePayload r) := by
  induction payloads with
  | nil => exact refl
  | cons p payloads ih =>
    intro r
    have hp : Accesses r (r.freePayload p) := ⟨rfl, List.Subset.refl _, rfl⟩
    exact hp.trans (ih _)

theorem beginOrdered : Accesses r r.beginOrdered :=
  ⟨rfl, (List.perm_insertionSort _ _).subset, rfl⟩

theorem releasePin (a : ℕ) : Accesses r (r.releasePin a) :=
  ⟨rfl, List.Subset.refl _, Heap.length_release _ _⟩

end Accesses

/-! ### Tracking -/

/-- Neither the samples of the queue nor the instances differ, nor what decides whether a sample is
taken. -/
structure LeavesSamples (r r' : DataReader) : Prop where
  qos : r'.qos = r.qos
  presentation : r'.presentation = r.presentation
  cftFilter : r'.cftFilter = r.cftFilter
  pending : r'.pending = r.pending
  structs : r'.heap.structs = r.heap.structs
  seenInstances : r'.seenInstances = r.seenInstances
  writerInstances : r'.writerInstances = r.writerInstances
  tbfMap : r'.tbfMap = r.tbfMap

namespace LeavesSamples

theorem refl (r : DataReader) : LeavesSamples r r := ⟨rfl, rfl, rfl, rfl, rfl, rfl, rfl, rfl⟩

theorem trans {r r' r'' : DataReader} (h : LeavesSamples r r') (h' : LeavesSamples r' r'') :
    LeavesSamples r r'' :=
  ⟨h'.qos.trans h.qos, h'.presentation.trans h.presentation, h'.cftFilter.trans h.cftFilter,
    h'.pending.trans h.pending, h'.structs.trans h.structs,
    h'.seenInstances.trans h.seenInstances, h'.writerInstances.trans h.writerInstances,
    h'.tbfMap.trans h.tbfMap⟩

theorem structs_foldl_free (samples : List PendingChange) (h : Heap) :
    (samples.foldl (fun h pc => h.free pc.data) h).structs = h.structs := by
  induction samples generalizing h with
  | nil => rfl
  | cons pc samples ih => exact ih _

variable (r : DataReader)

theorem freeSamples (samples : List PendingChange) : LeavesSamples r (r.freeSamples samples) :=
  ⟨rfl, rfl, rfl, rfl, structs_foldl_free samples r.heap, rfl, rfl, rfl⟩

theorem endCoherentWipLocked (now : ℤ) (writer : Guid) (cw : CoherentWriter) (clean : Bool) :
    LeavesSamples r (r.endCoherentWipLocked now writer cw clean).1 := by
  unfold DataReader.endCoherentWipLocked
  split
  next => exact refl r
  next wip _ =>
    dsimp only
    have herase : LeavesSamples r { r with coherentWip := r.coherentWip.erase writer } :=
      ⟨rfl, rfl, rfl, rfl, rfl, rfl, rfl, rfl⟩
    split
    · exact ⟨rfl, rfl, rfl, rfl, rfl, rfl, rfl, rfl⟩
    · split
      · refine herase.trans ((freeSamples _ wip.samples).trans ?_)
        exact ⟨rfl, rfl, rfl, rfl, rfl, rfl, rfl, rfl⟩
      · exact herase.trans (freeSamples _ wip.samples)

theorem trackCoherentLocked (now : ℤ) (change : CacheChange) (isMarker : Bool) :
    LeavesSamples r (r.trackCoherentLocked now change isMarker).1 := by
  -- the set in progress is ended, where there is one
  have hend : ∀ (b clean : Bool) (cw cw' : CoherentWriter),
      LeavesSamples r (if b then r.endCoherentWipLocked now change.writerGuid cw clean
        else (r, cw', false)).1 := by
    intro b clean cw cw'
    cases b with
    | false => exact refl r
    | true => exact endCoherentWipLocked r now _ cw clean
  unfold DataReader.trackCoherentLocked
  dsimp only
  split
  · split
    · exact ⟨rfl, rfl, rfl, rfl, rfl, rfl, rfl, rfl⟩
    · exact (hend _ _ _ _).trans ⟨rfl, rfl, rfl, rfl, rfl, rfl, rfl, rfl⟩
  · exact (hend _ _ _ _).trans ⟨rfl, rfl, rfl, rfl, rfl, rfl, rfl, rfl⟩

theorem onEocCb (now : ℤ) (change : CacheChange) : LeavesSamples r (r.onEocCb now change) := by
  unfold DataReader.onEocCb
  split
  · exact trackCoherentLocked r now change true
  · exact refl r

theorem onWriterMatchingCb (now : ℤ) (info : MatchedWriterInfo) (isNew : Bool) :
    LeavesSamples r (r.onWriterMatchingCb now info isNew) := by
  unfold DataReader.onWriterMatchingCb
  dsimp only
  split
  · exact ⟨rfl, rfl, rfl, rfl, rfl, rfl, rfl, rfl⟩
  · exact ⟨rfl, rfl, rfl, rfl, rfl, rfl, rfl, rfl⟩

theorem discardCommittedSetLocked (idx : ℕ) : LeavesSamples r (r.discardCommittedSetLocked idx) :=
  ⟨rfl, rfl, rfl, rfl, structs_foldl_free _ r.heap, rfl, rfl, rfl⟩

end LeavesSamples

end Zzdds.Dcps
