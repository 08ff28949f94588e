import Zzdds.Dcps.Loans

/-! # What conditions announce

`ReadConditionImpl` and `QueryConditionImpl` of `waitset.zig`, and `get_datareaders` of
`subscriber.zig`, beside what a read with the same masks returns.  A condition is triggered by
anything in the queue, whatever its masks; `get_datareaders` takes everything in a queue for a new
sample that was not read, of an instance that is alive. -/

namespace Zzdds.Dcps

open Zzdds.Lib Zzdds.Rtps

namespace DataReader

variable (r : DataReader)

/-- `coherent_committed_ready`: a complete set waits for `begin_access`. -/
def coherentCommittedReady : Bool := r.coherentCommitted.any (·.complete)

def hasPendingDataFn : Bool := !r.pending.isEmpty || r.coherentCommittedReady

def hasPendingData : Bool := !r.pending.isEmpty

end DataReader

/-- A condition with its masks and, if it is a `QueryCondition`, its query. -/
structure ReadCondition where
  filter : RawFilter

/-- The trigger of a condition on a reader. -/
def ReadCondition.getTriggerValue (_ : ReadCondition) (r : DataReader) : Bool := r.hasPendingDataFn

/-- `get_datareaders` of an enabled subscriber. -/
def getDataReaders (readers : List DataReader) (sampleStates viewStates instanceStates : UInt32) :
    List DataReader :=
  let wantNotRead : Bool := sampleStates &&& SampleStateKind.notRead.bit ≠ 0
  let wantNew : Bool := viewStates &&& ViewStateKind.new.bit ≠ 0
  let wantAlive : Bool := instanceStates &&& InstanceStateKind.alive.bit ≠ 0
  readers.filter fun r => wantNotRead && wantNew && wantAlive && r.hasPendingData

/-! ### Contents -/

/-- The memories hold the same samples and payloads, but for who refers to them. -/
structure Heap.SameContents (h h' : Heap) : Prop where
  cells : ∀ b, (h'.get b).map (fun pc => { pc with quiesce := {} }) =
    (h.get b).map fun pc => { pc with quiesce := {} }
  payloads : h'.payloads = h.payloads

namespace Heap.SameContents

variable {h h' h'' : Heap}

theorem refl (h : Heap) : h.SameContents h := ⟨fun _ => rfl, rfl⟩

theorem trans (h₁ : h.SameContents h') (h₂ : h'.SameContents h'') : h.SameContents h'' :=
  ⟨fun b => (h₂.cells b).trans (h₁.cells b), h₂.payloads.trans h₁.payloads⟩

theorem map_get (hs : h.SameContents h') {α : Type} {g : PendingChange → α}
    (hg : ∀ pc q, g { pc with quiesce := q } = g pc) (b : ℕ) :
    (h'.get b).map g = (h.get b).map g := by
  have hmap (o : Option PendingChange) :
      o.map g = (o.map fun pc => { pc with quiesce := {} }).map g := by
    rw [Option.map_map]
    exact Option.map_congr fun pc _ => (hg pc {}).symm
  rw [hmap, hs.cells, ← hmap]

theorem release (h : Heap) (a : ℕ) : h.SameContents (h.release a) := by
  have hmodify : h.SameContents
      (h.modify a fun pc => { pc with quiesce := pc.quiesce.release.1 }) :=
    ⟨fun b => Heap.map_get_modify h a b (fun _ _ => rfl) _, rfl⟩
  unfold Heap.release
  split
  next => exact refl h
  next pc _ =>
    dsimp only
    split
    · unfold Heap.reallyFree
      split
      · exact hmodify
      · exact hmodify.trans ⟨fun _ => rfl, rfl⟩
    · exact hmodify

theorem beginTeardown (h : Heap) (a : ℕ) : h.SameContents (h.beginTeardown a) :=
  trans ⟨fun b => Heap.map_get_modify h a b (fun _ _ => rfl) _, rfl⟩ (release _ a)

theorem beginTeardowns : ∀ (as : List ℕ) (h : Heap),
    h.SameContents (as.foldl Heap.beginTeardown h)
  | [], h => refl h
  | a :: as, h => (beginTeardown h a).trans (beginTeardowns as _)

end Heap.SameContents

namespace DataReader

variable {r r' : DataReader}

theorem selects_congr (hs : r.heap.SameContents r'.heap) (f : RawFilter) (a : ℕ) :
    r'.selects f a = r.selects f a := by
  have hpayload : r'.heap.payload = r.heap.payload := by
    unfold Heap.payload
    rw [hs.payloads]
  have hget := hs.map_get (g := fun pc => matchesSample pc f &&
    f.query.all fun q => q (r.heap.payload pc.data)) (fun _ _ => rfl) a
  have hany (o : Option PendingChange) (g : PendingChange → Bool) :
      o.any g = (o.map g).getD false := by cases o <;> rfl
  unfold selects
  rw [hpayload, hany, hany, hget]

theorem purgeExpired_sameContents (r : DataReader) (now : ℤ) :
    r.heap.SameContents (r.purgeExpired now).heap := .beginTeardowns _ _

@[simp] theorem pending_purgeExpired (r : DataReader) (now : ℤ) :
    (r.purgeExpired now).pending = r.pending.filter fun a => !r.expiredAt now a := rfl

/-! ### What a read returns -/

/-- A sample of the queue that has not expired passes the masks and the query. -/
def Readable (r : DataReader) (now : ℤ) (f : RawFilter) : Prop :=
  ∃ a ∈ r.pending, r.expiredAt now a = false ∧ r.selects f a = true

/-- A read of whatever passes a filter, when memory is given. -/
def readAll (r : DataReader) (now : ℤ) (f : RawFilter) : List TakenSample :=
  (r.readRaw now f (-1) r.pending.length).2.1

theorem cloneSamples_eq_nil {as : List ℕ} (has : ∀ a ∈ as, (r.heap.get a).isSome = true) :
    (r.cloneSamples as).2 = [] ↔ as = [] := by
  cases as with
  | nil => exact iff_of_true rfl rfl
  | cons a as =>
    obtain ⟨pc, hpc⟩ := Option.isSome_iff_exists.1 (has a List.mem_cons_self)
    have hclone : (r.cloneSample a).2 = some ⟨(r.dupe (r.heap.payload pc.data)).1, pc.info,
        pc.keyHash⟩ := by
      unfold cloneSample
      rw [hpc]
    refine iff_of_false (fun hnil => ?_) (List.cons_ne_nil _ _)
    have hnil : (r.cloneSample a).2.toList ++ ((r.cloneSample a).1.cloneSamples as).2 = [] := hnil
    rw [hclone] at hnil
    cases hnil

theorem length_rankTaken (samples : List TakenSample) :
    (r.rankTaken samples).length = samples.length := by
  simpa only [List.length_map] using congrArg List.length (Accounted.rankTaken_data r samples)

theorem rankTaken_eq_nil (samples : List TakenSample) :
    r.rankTaken samples = [] ↔ samples = [] := by
  rw [← List.length_eq_zero_iff, ← List.length_eq_zero_iff, length_rankTaken]

theorem splitMatching_eq_nil {p : ℕ → Bool} {n : ℕ} (hn : 0 < n) : ∀ {l : List ℕ},
    (splitMatching p l n).1 = [] ↔ ∀ a ∈ l, p a = false
  | [] => by
    unfold splitMatching
    simp
  | a :: l => by
    obtain ⟨n, rfl⟩ := Nat.exists_eq_succ_of_ne_zero hn.ne'
    unfold splitMatching
    rw [List.forall_mem_cons]
    by_cases ha : p a = true
    · rw [if_pos ha]
      refine iff_of_false (List.cons_ne_nil _ _) fun hall => ?_
      rw [ha] at hall
      cases hall.1
    · rw [if_neg ha, and_iff_right (eq_false_of_ne_true ha)]
      exact splitMatching_eq_nil hn

theorem isSome_get_of_selects {f : RawFilter} {a : ℕ} (h : r.selects f a = true) :
    (r.heap.get a).isSome = true := by
  obtain ⟨pc, hpc, -⟩ := (Option.any_eq_true _ _).1 h
  rw [hpc]
  rfl

theorem splitMatching_subset {p : ℕ → Bool} : ∀ {l : List ℕ} {n : ℕ},
    ∀ a ∈ (splitMatching p l n).1, a ∈ l ∧ p a = true
  | [], n, a, ha => by
    unfold splitMatching at ha
    cases ha
  | b :: l, 0, a, ha => nomatch ha
  | b :: l, n + 1, a, ha => by
    unfold splitMatching at ha
    by_cases hb : p b = true
    · rw [if_pos hb] at ha
      rcases List.mem_cons.1 ha with rfl | ha
      · exact ⟨List.mem_cons_self, hb⟩
      · exact (splitMatching_subset a ha).imp_left (List.mem_cons_of_mem b)
    · rw [if_neg hb] at ha
      exact (splitMatching_subset a ha).imp_left (List.mem_cons_of_mem b)

/-- A read returns something exactly if something is readable. -/
theorem readAll_ne_nil {now : ℤ} {f : RawFilter} : r.readAll now f ≠ [] ↔ r.Readable now f := by
  have hlimit : 0 < limit (-1) := by decide
  unfold readAll readRaw
  dsimp only
  rw [ne_eq, rankTaken_eq_nil, cloneSamples_eq_nil, List.take_eq_nil_iff,
    splitMatching_eq_nil hlimit]
  · simp only [pending_purgeExpired, List.mem_filter, Bool.not_eq_true', and_imp,
      selects_congr (purgeExpired_sameContents r now), List.length_eq_zero_iff]
    constructor
    · intro h
      by_contra hnone
      refine h (.inr fun a ha hexp => eq_false_of_ne_true fun hsel => hnone ⟨a, ha, hexp, hsel⟩)
    · rintro ⟨a, ha, hexp, hsel⟩ (hnil | hall)
      · rw [hnil] at ha
        cases ha
      · rw [hall a ha hexp] at hsel
        cases hsel
  · intro a ha
    exact isSome_get_of_selects (splitMatching_subset a (List.mem_of_mem_take ha)).2

/-! ### Without coherent access -/

/-- Coherent access is off, and no set is queued. -/
def Plain (r : DataReader) : Prop :=
  r.presentation.coherentAccess = false ∧ r.coherentCommitted = []

theorem Plain.congr (h : r.Plain) (hp : r'.presentation = r.presentation)
    (hc : r'.coherentCommitted = r.coherentCommitted) : r'.Plain :=
  ⟨hp ▸ h.1, hc.trans h.2⟩

theorem Plain.accesses (h : r.Plain) (ha : Accesses r r') : r'.Plain :=
  h.congr (by rw [ha.rest]) (by rw [ha.rest])

theorem Plain.hasPendingDataFn (h : r.Plain) : r.hasPendingDataFn = true ↔ r.pending ≠ [] := by
  unfold DataReader.hasPendingDataFn coherentCommittedReady
  rw [h.2, List.any_nil, Bool.or_false, Bool.not_eq_true', List.isEmpty_eq_false_iff]

theorem Plain.queueLocked (h : r.Plain) (copy : ℕ) (ih : HandleT) (change : CacheChange) :
    (r.queueLocked copy ih change).Plain := by
  have hkeep : (r.keepLastLocked ih).Plain := by
    refine h.congr ?_ ?_ <;>
    · unfold keepLastLocked evictOldestLocked
      split_ifs
      · split <;> rfl
      · rfl
  unfold DataReader.queueLocked
  dsimp only
  split
  · exact hkeep.congr rfl rfl
  · refine hkeep.congr ?_ ?_ <;>
    · unfold filtersTaken stampLocked
      dsimp only
      split_ifs <;> rfl

theorem Plain.onDataCb (h : r.Plain) (now : ℤ) (change : CacheChange) :
    (r.onDataCb now change).Plain := by
  have harrive : (r.arriveLocked now (keyHashToHandle change.keyHash) change).2.Plain := by
    have hdupe : (r.dupe change.data).2.Plain := h.congr rfl rfl
    have htrack : (if change.kind = .alive then (r.dupe change.data).2.trackWriterInstanceLocked
        change.writerGuid (keyHashToHandle change.keyHash)
        else (r.dupe change.data).2).Plain := by
      split_ifs
      · exact hdupe.congr rfl rfl
      · exact hdupe
    unfold arriveLocked
    dsimp only
    rw [if_neg (by rw [htrack.1]; exact Bool.false_ne_true)]
    exact htrack
  have howned : ((r.arriveLocked now (keyHashToHandle change.keyHash) change).2.ownershipLocked
      (keyHashToHandle change.keyHash) change.writerGuid).1.Plain := by
    refine harrive.congr ?_ ?_ <;>
    · unfold ownershipLocked
      split_ifs
      · split
        · split_ifs <;> rfl
        · rfl
      · rfl
  unfold DataReader.onDataCb
  dsimp only
  split_ifs with hdrop hset
  · exact howned.congr rfl rfl
  · rw [howned.1] at hset
    cases hset
  · exact howned.queueLocked _ _ _

theorem Plain.onWriterUnmatchingCb (h : r.Plain) (now : Time) (guid : Guid) :
    (r.onWriterUnmatchingCb now guid).Plain := by
  have horphans : ∀ (l : List HandleT) {r : DataReader}, r.Plain →
      (l.foldl (fun r ih => r.orphanLocked guid now ih) r).Plain := by
    intro l
    induction l with
    | nil => exact fun h => h
    | cons ih l hl =>
      intro r h
      refine hl (h.congr ?_ ?_) <;>
      · dsimp only
        unfold orphanLocked
        split_ifs <;> rfl
  exact horphans _ (h.congr rfl rfl)

end DataReader

namespace ReaderMachine

variable {s s' : ReaderMachine}

theorem plain_step {a : ReaderAction} (h : s.reader.Plain) (hs : s.step a = some s') :
    s'.reader.Plain := by
  cases a with
  | matching now info =>
    cases hs
    unfold DataReader.onWriterMatchingCb
    dsimp only
    rw [if_neg (by rw [h.1]; exact Bool.false_ne_true)]
    exact h.congr rfl rfl
  | unmatching now guid =>
    obtain ⟨-, hs⟩ := Option.ite_none_right_eq_some.1 hs
    cases hs
    exact h.onWriterUnmatchingCb now guid
  | data now change =>
    obtain ⟨-, hs⟩ := Option.ite_none_right_eq_some.1 hs
    cases hs
    exact h.onDataCb now change
  | eoc now change =>
    obtain ⟨-, hs⟩ := Option.ite_none_right_eq_some.1 hs
    cases hs
    unfold DataReader.onEocCb
    rw [if_neg (by rw [h.1]; exact Bool.false_ne_true)]
    exact h
  | promote idx =>
    cases hs
    unfold DataReader.promoteCommittedSetLocked
    rw [h.2]
    exact h.congr rfl (by rw [h.2]; rfl)
  | discard idx =>
    cases hs
    unfold DataReader.discardCommittedSetLocked
    rw [h.2]
    exact h.congr rfl (by rw [h.2]; rfl)
  | beginOrdered =>
    cases hs
    exact h.congr rfl rfl
  | endOrdered =>
    cases hs
    exact h.congr rfl rfl
  | take call built =>
    cases hs
    have hcall := h.accesses (Accesses.takeCall s.reader call)
    unfold giveOut
    split_ifs
    · exact hcall
    · exact hcall.accesses (Accesses.freePayloads _ _)
  | read call built =>
    have hcall := h.accesses (Accesses.readCall s.reader call)
    simp only [step] at hs
    split_ifs at hs
    · cases hs
      unfold giveOut
      split_ifs
      · exact hcall
      · exact hcall.accesses (Accesses.freePayloads _ _)
    · cases hs
      exact hcall
  | lend call sliced =>
    cases hs
    exact h.accesses (Accesses.loanCall s.reader call)
  | register i made =>
    obtain ⟨as, -, rfl⟩ := Option.map_eq_some_iff.mp hs
    split_ifs <;> exact h
  | returnLoan key =>
    obtain ⟨as, -, rfl⟩ := Option.map_eq_some_iff.mp hs
    exact h
  | releasePin i =>
    simp only [step] at hs
    split at hs
    · cases hs
      exact h.accesses (Accesses.releasePin _ _)
    · cases hs
  | settle i =>
    simp only [step] at hs
    split at hs
    · cases hs
      exact h.congr rfl rfl
    · cases hs
  | freeCopy i =>
    obtain ⟨payloads, -, rfl⟩ := Option.map_eq_some_iff.mp hs
    exact h.accesses (Accesses.freePayloads _ _)

/-- The readers that runs without coherent access lead to. -/
def PlainReachable (r : DataReader) : Prop :=
  ∃ qos presentation cftFilter acts s, presentation.coherentAccess = false ∧
    Run (init qos presentation cftFilter) acts s ∧ s.reader = r

theorem PlainReachable.plain {r : DataReader} (h : PlainReachable r) : r.Plain := by
  obtain ⟨qos, presentation, cftFilter, acts, s, hoff, hrun, rfl⟩ := h
  induction hrun with
  | nil => exact ⟨hoff, rfl⟩
  | snoc _ hs ih => exact plain_step ih hs

theorem filter_eq_filter_iff {α : Type} {p q : α → Bool} {l : List α} :
    l.filter p = l.filter q ↔ ∀ x ∈ l, p x = q x := by
  refine ⟨fun h x hx => ?_, List.filter_congr⟩
  have hmem := congrArg (x ∈ ·) h
  rw [eq_iff_iff, List.mem_filter, List.mem_filter, and_iff_right hx, and_iff_right hx] at hmem
  exact Bool.eq_iff_iff.2 hmem

/-- A filter of the masks alone. -/
def maskFilter (sampleStates viewStates instanceStates : UInt32) : RawFilter where
  sampleStates := sampleStates
  viewStates := viewStates
  instanceStates := instanceStates

/-- The masks ask for new samples, not read, of instances that are alive. -/
def AsksForFresh (sampleStates viewStates instanceStates : UInt32) : Prop :=
  sampleStates &&& SampleStateKind.notRead.bit ≠ 0 ∧ viewStates &&& ViewStateKind.new.bit ≠ 0 ∧
    instanceStates &&& InstanceStateKind.alive.bit ≠ 0

/-- A condition announces what a read returns exactly if the queue is empty or something in it is
readable.  `get_datareaders` does, exactly if so it is with every reader, where the masks ask for
fresh samples, and nothing is readable of any reader, where they do not. -/
theorem conditions_announce (readers : List DataReader) (hreach : ∀ r ∈ readers, PlainReachable r)
    (now : ℤ) :
    (∀ r ∈ readers, ∀ c : ReadCondition,
      (c.getTriggerValue r = true ↔ r.readAll now c.filter ≠ []) ↔
        (r.pending = [] ∨ r.Readable now c.filter)) ∧
    ∀ sampleStates viewStates instanceStates,
      getDataReaders readers sampleStates viewStates instanceStates = readers.filter (fun r =>
        !(r.readAll now (maskFilter sampleStates viewStates instanceStates)).isEmpty) ↔
      ∀ r ∈ readers,
        (AsksForFresh sampleStates viewStates instanceStates →
          r.pending = [] ∨ r.Readable now (maskFilter sampleStates viewStates instanceStates)) ∧
        (¬ AsksForFresh sampleStates viewStates instanceStates →
          ¬ r.Readable now (maskFilter sampleStates viewStates instanceStates)) := by
  have hempty {r : DataReader} {f : RawFilter} (hr : r.Readable now f) : r.pending ≠ [] := by
    obtain ⟨a, ha, -⟩ := hr
    exact List.ne_nil_of_mem ha
  refine ⟨fun r hr c => ?_, fun sampleStates viewStates instanceStates => ?_⟩
  · unfold ReadCondition.getTriggerValue
    rw [(hreach r hr).plain.hasPendingDataFn, DataReader.readAll_ne_nil]
    constructor
    · intro h
      by_cases hp : r.pending = []
      · exact .inl hp
      · exact .inr (h.1 hp)
    · rintro (hp | hread)
      · exact iff_of_false (fun hne => hne hp) fun hread => hempty hread hp
      · exact iff_of_true (hempty hread) hread
  · unfold getDataReaders
    rw [filter_eq_filter_iff]
    refine forall₂_congr fun r hr => ?_
    rw [Bool.eq_iff_iff, Bool.not_eq_true', List.isEmpty_eq_false_iff, DataReader.readAll_ne_nil]
    have hasks : (decide (sampleStates &&& SampleStateKind.notRead.bit ≠ 0) &&
        decide (viewStates &&& ViewStateKind.new.bit ≠ 0) &&
        decide (instanceStates &&& InstanceStateKind.alive.bit ≠ 0) && r.hasPendingData) = true ↔
        AsksForFresh sampleStates viewStates instanceStates ∧ r.pending ≠ [] := by
      unfold DataReader.hasPendingData AsksForFresh
      simp only [Bool.and_eq_true, decide_eq_true_eq, Bool.not_eq_true', List.isEmpty_eq_false_iff,
        and_assoc]
    rw [hasks]
    constructor
    · intro h
      refine ⟨fun hask => ?_, fun hask hread => hask (h.2 hread).1⟩
      by_cases hp : r.pending = []
      · exact .inl hp
      · exact .inr (h.1 ⟨hask, hp⟩)
    · rintro ⟨hfresh, hnone⟩
      refine ⟨fun ⟨hask, hp⟩ => (hfresh hask).resolve_left hp, fun hread => ⟨?_, hempty hread⟩⟩
      by_contra hask
      exact hnone hask hread

/-! ### Two readers -/

/-- A sample is read. -/
def readActions : List ReaderAction :=
  [.matching 0 { guid := someWriter 1, publisherGuid := someWriter 0 },
    .data 0 (someChange 1 1 .alive), .read (.readRaw 0 DataReader.anyFilter (-1) 1) true]

theorem conditions_announce_unread : ∃ r, PlainReachable r ∧ r.pending = [0] ∧
    ((ReadCondition.getTriggerValue ⟨maskFilter 2 1 1⟩ r = true ↔
      r.readAll 0 (maskFilter 2 1 1) ≠ []) ↔
        (r.pending = [] ∨ r.Readable 0 (maskFilter 2 1 1))) := by
  obtain ⟨s, hrun, hp⟩ : ∃ s, Run (init keepAllQos {} none) (readActions.take 2) s ∧
      s.reader.pending = [0] :=
    ⟨_, @Run.snoc _ (readActions.take 1) _ _ _ (@Run.snoc _ [] _ _ _ .nil rfl) rfl, rfl⟩
  have hreach : PlainReachable s.reader := ⟨_, {}, _, _, s, rfl, hrun, rfl⟩
  have hall : ∀ r ∈ [s.reader], PlainReachable r := fun r hr => List.mem_singleton.1 hr ▸ hreach
  exact ⟨s.reader, hreach, hp,
    (conditions_announce [s.reader] hall 0).1 s.reader List.mem_cons_self ⟨maskFilter 2 1 1⟩⟩

/-- Once its only sample is read, a reader still triggers a condition on unread samples, which has
nothing to read, and is none of those with read samples, though its sample can be read again. -/
theorem condition_without_data : ∃ r, PlainReachable r ∧
    ReadCondition.getTriggerValue ⟨maskFilter 2 0xffff 0xffff⟩ r = true ∧
    r.readAll 0 (maskFilter 2 0xffff 0xffff) = [] ∧
    getDataReaders [r] 1 0xffff 0xffff = [] ∧
    (r.readAll 0 (maskFilter 1 0xffff 0xffff)).length = 1 := by
  obtain ⟨s, hrun, htrigger, hnone, hreaders, hread⟩ : ∃ s,
      Run (init keepAllQos {} none) readActions s ∧
      ReadCondition.getTriggerValue ⟨maskFilter 2 0xffff 0xffff⟩ s.reader = true ∧
      s.reader.readAll 0 (maskFilter 2 0xffff 0xffff) = [] ∧
      getDataReaders [s.reader] 1 0xffff 0xffff = [] ∧
      (s.reader.readAll 0 (maskFilter 1 0xffff 0xffff)).length = 1 :=
    ⟨_, @Run.snoc _ (readActions.take 2) _ _ _ (@Run.snoc _ (readActions.take 1) _ _ _
      (@Run.snoc _ [] _ _ _ .nil rfl) rfl) rfl, rfl, rfl, rfl, rfl⟩
  exact ⟨s.reader, ⟨_, {}, _, _, s, rfl, hrun, rfl⟩, htrigger, hnone, hreaders, hread⟩

end ReaderMachine

end Zzdds.Dcps
