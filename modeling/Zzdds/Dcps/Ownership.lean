import Zzdds.Lib.Arbitration
import Zzdds.Lib.Run
import Zzdds.Dcps.Liveliness
import Zzdds.Dcps.OrderedAccess

/-! # Exclusive ownership

The owner of an instance should be the strongest of the live writers that have written it and not
unregistered it.  `owner_map` is brought up to date by the samples that pass the check, and by the
loss of a writer; a disposal, another strength and an expired lease are not arbitrated again.
`OwnedReader.arbitrates_exact`: the check passes the samples of those who are entitled to the
instance, in every state of a run, exactly if each step leaves the owners right. -/

namespace Zzdds.Dcps

open Zzdds.Lib Zzdds.Rtps

/-! ### What the steps of a reader do to the owners -/

namespace DataReader

variable {r r' : DataReader}

/-- The owners and the strengths stay. -/
structure SameOwners (r r' : DataReader) : Prop where
  owners : r'.ownerMap = r.ownerMap
  strengths : r'.writerStrengths = r.writerStrengths
  qos : r'.qos = r.qos

theorem SameOwners.refl (r : DataReader) : SameOwners r r := ⟨rfl, rfl, rfl⟩

theorem SameOwners.accesses (h : Accesses r r') : SameOwners r r' := by
  rw [h.rest]
  exact ⟨rfl, rfl, rfl⟩

theorem orphanLocked_frame (r : DataReader) (guid : Guid) (now : Time) (ih : HandleT) :
    ∃ heap pending seen, r.orphanLocked guid now ih =
      { r with heap := heap, pending := pending, seenInstances := seen } := by
  unfold orphanLocked
  split_ifs
  · exact ⟨_, _, _, rfl⟩
  · exact ⟨_, _, _, rfl⟩
  · exact ⟨_, _, _, rfl⟩

theorem foldl_orphanLocked_frame (guid : Guid) (now : Time) : ∀ (l : List HandleT) (r : DataReader),
    ∃ heap pending seen, l.foldl (fun r ih => r.orphanLocked guid now ih) r =
      { r with heap := heap, pending := pending, seenInstances := seen }
  | [], _ => ⟨_, _, _, rfl⟩
  | ih :: l, r => by
      obtain ⟨heap, pending, seen, hfirst⟩ := orphanLocked_frame r guid now ih
      obtain ⟨heap', pending', seen', hrest⟩ := foldl_orphanLocked_frame guid now l
        { r with heap := heap, pending := pending, seenInstances := seen }
      rw [List.foldl_cons, hfirst, hrest]
      exact ⟨_, _, _, rfl⟩

theorem foldl_enqueue_frame : ∀ (samples : List PendingChange) (r : DataReader),
    ∃ heap pending, samples.foldl enqueue r = { r with heap := heap, pending := pending }
  | [], _ => ⟨_, _, rfl⟩
  | pc :: samples, r => by
      obtain ⟨heap, pending, hrest⟩ := foldl_enqueue_frame samples (r.enqueue pc)
      rw [List.foldl_cons, hrest]
      exact ⟨_, _, rfl⟩

theorem onWriterMatchingCb_owners (r : DataReader) (now : ℤ) (info : MatchedWriterInfo)
    (isNew : Bool) : (r.onWriterMatchingCb now info isNew).ownerMap = r.ownerMap ∧
      (r.onWriterMatchingCb now info isNew).qos = r.qos := by
  unfold onWriterMatchingCb
  dsimp only
  split_ifs <;> exact ⟨rfl, rfl⟩

theorem onWriterUnmatchingCb_owners (r : DataReader) (now : Time) (guid : Guid) :
    (∀ ih, (r.onWriterUnmatchingCb now guid).ownerMap.lookup ih =
      (r.ownerMap.lookup ih).filter (· ≠ guid)) ∧
    (r.onWriterUnmatchingCb now guid).writerStrengths = r.writerStrengths.erase guid ∧
    (r.onWriterUnmatchingCb now guid).qos = r.qos := by
  obtain ⟨heap, pending, seen, hfold⟩ := foldl_orphanLocked_frame guid now
    ((r.writerInstances.lookup guid).getD [])
    { r.freeSamples ((r.coherentWip.lookup guid).elim [] (·.samples)) with
      subMatchedCurrent := r.subMatchedCurrent - 1
      writerStrengths := r.writerStrengths.erase guid
      writerLifespans := r.writerLifespans.erase guid
      coherentWriters := r.coherentWriters.erase guid
      coherentWip := r.coherentWip.erase guid
      ownerMap := Table.filterValues (· ≠ guid) r.ownerMap
      writerInstances := r.writerInstances.erase guid }
  have hcb : r.onWriterUnmatchingCb now guid = _ := hfold
  rw [hcb]
  exact ⟨fun ih => Table.lookup_filterValues _ _ _, rfl, rfl⟩

/-! ### Samples -/

/-- The check of ownership that a sample meets in `onDataCb`. -/
def passesOwnership (r : DataReader) (now : ℤ) (change : CacheChange) : Bool :=
  let ih := keyHashToHandle change.keyHash
  ((r.arriveLocked now ih change).2.ownershipLocked ih change.writerGuid).2

/-- A change that is not alive comes to where its instance loses its owner: it is buffered with its
set, or within the limits. -/
def releases (r : DataReader) (now : ℤ) (change : CacheChange) : Bool :=
  let ih := keyHashToHandle change.keyHash
  let r := (r.arriveLocked now ih change).2
  change.kind ≠ .alive &&
    if r.presentation.coherentAccess && change.coherentSetSn.isSome then
      (r.coherentWip.lookup change.writerGuid).isSome
    else ((r.keepLastLocked ih).rejectReason ih).isNone

/-- A sample that passes the check is of the owner from then on. -/
theorem ownershipLocked_owners (hex : r.qos.exclusiveOwnership = true) (ih i : HandleT)
    (writer : Guid) : (r.ownershipLocked ih writer).1.ownerMap.lookup i =
      if i = ih ∧ (r.ownershipLocked ih writer).2 = true then some writer
      else r.ownerMap.lookup i := by
  unfold ownershipLocked
  rw [if_pos hex]
  split
  next owner howner =>
    split_ifs with hown hi hlt hi hi
    · rw [hi.1, howner, hown]
    · rfl
    · rw [hi.1]
      exact AList.lookup_insert _
    · exact AList.lookup_insert_ne fun heq => hi ⟨heq, rfl⟩
    · exact (nomatch hi.2)
    · rfl
  next =>
    show (r.ownerMap.insert ih writer).lookup i = _
    rw [Table.lookup_insert_eq]
    exact if_congr (and_iff_left rfl).symm rfl rfl

theorem keepLastLocked_owners (r : DataReader) (owners : Table HandleT Guid) (ih : HandleT) :
    { r with ownerMap := owners }.keepLastLocked ih =
      { r.keepLastLocked ih with ownerMap := owners } := by
  have hevict : { r with ownerMap := owners }.evictOldestLocked ih =
      { r.evictOldestLocked ih with ownerMap := owners } := by
    have hfind : ({ r with ownerMap := owners }.pending.find? fun a =>
        { r with ownerMap := owners }.handleAt a = some ih) =
          r.pending.find? fun a => r.handleAt a = some ih := rfl
    unfold evictOldestLocked
    rw [hfind]
    cases r.pending.find? fun a => r.handleAt a = some ih <;> rfl
  unfold keepLastLocked
  by_cases hfull : r.qos.history = .keepLast ∧ (max 1 r.qos.depth).toNat ≤ r.instanceCount ih
  · rw [if_pos hfull]
    exact (if_pos hfull).trans hevict
  · rw [if_neg hfull]
    exact if_neg hfull

theorem filtersTaken_owners (r : DataReader) (ih : HandleT) (change : CacheChange) :
    (r.filtersTaken ih change).ownerMap =
      if change.kind = .alive then r.ownerMap else r.ownerMap.erase ih := by
  unfold filtersTaken
  dsimp only
  split_ifs <;> rfl

theorem bufferLocked_owners (r : DataReader) (copy : ℕ) (ih : HandleT) (change : CacheChange) :
    (r.bufferLocked copy ih change).writerStrengths = r.writerStrengths ∧
    (r.bufferLocked copy ih change).qos = r.qos ∧
    (r.bufferLocked copy ih change).ownerMap =
      if change.kind ≠ .alive ∧ (r.coherentWip.lookup change.writerGuid).isSome then
        r.ownerMap.erase ih else r.ownerMap := by
  unfold bufferLocked
  cases r.coherentWip.lookup change.writerGuid with
  | none =>
    rw [if_neg fun h => (nomatch h.2)]
    exact ⟨rfl, rfl, rfl⟩
  | some wip =>
    obtain ⟨seen, hstamp⟩ := stampLocked_frame r copy ih change
    obtain ⟨last, owners, hfilters⟩ := filtersTaken_frame { r with seenInstances := seen } ih change
    have howners := filtersTaken_owners { r with seenInstances := seen } ih change
    dsimp only
    rw [hstamp]
    refine ⟨?_, ?_, howners.trans ?_⟩
    · rw [hfilters]
    · rw [hfilters]
    · split_ifs with halive hreleased hreleased
      · exact absurd halive hreleased.1
      · rfl
      · rfl
      · exact absurd ⟨halive, rfl⟩ hreleased

theorem queueLocked_owners (r : DataReader) (copy : ℕ) (ih : HandleT) (change : CacheChange) :
    (r.queueLocked copy ih change).writerStrengths = r.writerStrengths ∧
    (r.queueLocked copy ih change).qos = r.qos ∧
    (r.queueLocked copy ih change).ownerMap =
      if change.kind ≠ .alive ∧ ((r.keepLastLocked ih).rejectReason ih).isNone then
        r.ownerMap.erase ih else r.ownerMap := by
  have hkeep : (r.keepLastLocked ih).ownerMap = r.ownerMap ∧
      (r.keepLastLocked ih).writerStrengths = r.writerStrengths ∧
      (r.keepLastLocked ih).qos = r.qos := by
    unfold keepLastLocked evictOldestLocked
    split_ifs
    · split <;> exact ⟨rfl, rfl, rfl⟩
    · exact ⟨rfl, rfl, rfl⟩
  unfold queueLocked
  dsimp only
  cases hreject : (r.keepLastLocked ih).rejectReason ih with
  | some reason =>
    rw [if_neg fun h => (nomatch h.2)]
    exact ⟨hkeep.2.1, hkeep.2.2, hkeep.1⟩
  | none =>
    obtain ⟨seen, hstamp⟩ := stampLocked_frame (r.keepLastLocked ih) copy ih change
    obtain ⟨last, owners, hfilters⟩ := filtersTaken_frame
      (DataReader.enqueue { r.keepLastLocked ih with seenInstances := seen }
        ((r.keepLastLocked ih).stampLocked copy ih change).2) ih change
    have howners := filtersTaken_owners
      (DataReader.enqueue { r.keepLastLocked ih with seenInstances := seen }
        ((r.keepLastLocked ih).stampLocked copy ih change).2) ih change
    dsimp only
    rw [hstamp]
    refine ⟨?_, ?_, howners.trans ?_⟩
    · rw [hfilters]
      exact hkeep.2.1
    · rw [hfilters]
      exact hkeep.2.2
    · show (if change.kind = .alive then (r.keepLastLocked ih).ownerMap
        else (r.keepLastLocked ih).ownerMap.erase ih) = _
      rw [hkeep.1]
      split_ifs with halive hreleased hreleased
      · exact absurd halive hreleased.1
      · rfl
      · rfl
      · exact absurd ⟨halive, rfl⟩ hreleased

/-- A sample that passes gives its instance to its writer, or to nobody. -/
theorem onDataCb_owners (hex : r.qos.exclusiveOwnership = true) (now : ℤ) (change : CacheChange) :
    (r.onDataCb now change).writerStrengths = r.writerStrengths ∧
    (r.onDataCb now change).qos = r.qos ∧
    ∀ i, (r.onDataCb now change).ownerMap.lookup i =
      if i = keyHashToHandle change.keyHash ∧ r.passesOwnership now change = true then
        if r.releases now change = true then none else some change.writerGuid
      else r.ownerMap.lookup i := by
  obtain ⟨_, _, _, _, _, _, harrive⟩ := arriveLocked_frame r now (keyHashToHandle change.keyHash)
    change
  obtain ⟨r₁, hr₁⟩ : ∃ r₁, (r.arriveLocked now (keyHashToHandle change.keyHash) change).2 = r₁ :=
    ⟨_, rfl⟩
  have hsame : r₁.ownerMap = r.ownerMap ∧ r₁.qos = r.qos ∧
      r₁.writerStrengths = r.writerStrengths := by
    rw [← hr₁, harrive]
    exact ⟨rfl, rfl, rfl⟩
  obtain ⟨owners, howner⟩ := ownershipLocked_frame r₁ (keyHashToHandle change.keyHash)
    change.writerGuid
  have hlookup (i : HandleT) : owners.lookup i =
      if i = keyHashToHandle change.keyHash ∧ r.passesOwnership now change = true then
        some change.writerGuid else r.ownerMap.lookup i := by
    have hown := ownershipLocked_owners (hsame.2.1.symm ▸ hex) (keyHashToHandle change.keyHash) i
      change.writerGuid
    rw [howner, hsame.1] at hown
    rw [passesOwnership, hr₁]
    exact hown
  have hreleases : r.releases now change = (change.kind ≠ .alive &&
      if r₁.presentation.coherentAccess && change.coherentSetSn.isSome then
        (r₁.coherentWip.lookup change.writerGuid).isSome
      else ((r₁.keepLastLocked (keyHashToHandle change.keyHash)).rejectReason
        (keyHashToHandle change.keyHash)).isNone) := by
    rw [releases, hr₁]
  have hpasses : r.passesOwnership now change =
      (r₁.ownershipLocked (keyHashToHandle change.keyHash) change.writerGuid).2 := by
    rw [passesOwnership, hr₁]
  -- whether what passed is released shows only behind the filters
  have hafter {owners' : Table HandleT Guid} {b : Bool}
      (hp : r.passesOwnership now change = true) (hb : r.releases now change = b)
      (howners' : owners' = if b then owners.erase (keyHashToHandle change.keyHash) else owners)
      (i : HandleT) : owners'.lookup i =
        if i = keyHashToHandle change.keyHash ∧ r.passesOwnership now change = true then
          if r.releases now change = true then none else some change.writerGuid
        else r.ownerMap.lookup i := by
    rw [howners', hb]
    cases b with
    | false =>
      rw [if_neg Bool.false_ne_true, if_neg Bool.false_ne_true]
      exact hlookup i
    | true =>
      rw [if_pos rfl, if_pos rfl, Table.lookup_erase_eq, hlookup]
      by_cases hi : i = keyHashToHandle change.keyHash
      · rw [if_pos hi, if_pos ⟨hi, hp⟩]
      · rw [if_neg hi, if_neg fun h => hi h.1, if_neg fun h => hi h.1]
  have hcb : r.onDataCb now change =
      if !r.passesOwnership now change ||
          timeFiltered { r₁ with ownerMap := owners } (keyHashToHandle change.keyHash) change ||
          contentFiltered { r₁ with ownerMap := owners } change then
        freePayload { r₁ with ownerMap := owners }
          (r.arriveLocked now (keyHashToHandle change.keyHash) change).1
      else if r₁.presentation.coherentAccess && change.coherentSetSn.isSome then
        bufferLocked { r₁ with ownerMap := owners }
          (r.arriveLocked now (keyHashToHandle change.keyHash) change).1
          (keyHashToHandle change.keyHash) change
      else
        queueLocked { r₁ with ownerMap := owners }
          (r.arriveLocked now (keyHashToHandle change.keyHash) change).1
          (keyHashToHandle change.keyHash) change := by
    unfold onDataCb
    dsimp only
    rw [hr₁, howner, ← hpasses]
  by_cases hp : r.passesOwnership now change = true
  · by_cases hdrop : (timeFiltered { r₁ with ownerMap := owners } (keyHashToHandle change.keyHash)
        change || contentFiltered { r₁ with ownerMap := owners } change) = true
    · have halive : change.kind = .alive := by
        by_contra hne
        unfold timeFiltered tbfActive contentFiltered at hdrop
        rw [decide_eq_false hne] at hdrop
        exact nomatch hdrop
      rw [hp, Bool.not_true, Bool.false_or, if_pos hdrop] at hcb
      rw [hcb]
      refine ⟨hsame.2.2, hsame.2.1, hafter hp rfl ?_⟩
      rw [hreleases, decide_eq_false (not_not.2 halive), Bool.false_and,
        if_neg Bool.false_ne_true]
      rfl
    · rw [hp, Bool.not_true, Bool.false_or, if_neg hdrop] at hcb
      rw [hcb]
      by_cases hset : (r₁.presentation.coherentAccess && change.coherentSetSn.isSome) = true
      · rw [if_pos hset]
        obtain ⟨hstrengths, hqos, howners⟩ := bufferLocked_owners { r₁ with ownerMap := owners }
          (r.arriveLocked now (keyHashToHandle change.keyHash) change).1
          (keyHashToHandle change.keyHash) change
        refine ⟨hstrengths.trans hsame.2.2, hqos.trans hsame.2.1, hafter hp rfl (howners.trans ?_)⟩
        rw [hreleases, if_pos hset]
        exact if_congr (by rw [Bool.and_eq_true, decide_eq_true_eq]) rfl rfl
      · rw [if_neg hset]
        obtain ⟨hstrengths, hqos, howners⟩ := queueLocked_owners { r₁ with ownerMap := owners }
          (r.arriveLocked now (keyHashToHandle change.keyHash) change).1
          (keyHashToHandle change.keyHash) change
        refine ⟨hstrengths.trans hsame.2.2, hqos.trans hsame.2.1, hafter hp rfl (howners.trans ?_)⟩
        rw [hreleases, if_neg hset, keepLastLocked_owners]
        exact if_congr (by rw [Bool.and_eq_true, decide_eq_true_eq]; rfl) rfl rfl
  · rw [Bool.not_eq_true] at hp
    rw [hp, Bool.not_false, Bool.true_or, Bool.true_or, if_pos rfl] at hcb
    rw [hcb]
    refine ⟨hsame.2.2, hsame.2.1, fun i => (hlookup i).trans ?_⟩
    rw [hp, if_neg fun h => (nomatch h.2), if_neg fun h => (nomatch h.2)]

end DataReader

/-- A match, its end, or a sample. -/
def ReaderAction.arbitrates : ReaderAction → Bool
  | matching _ _ => true
  | unmatching _ _ => true
  | data _ _ => true
  | _ => false

namespace ReaderMachine

open DataReader

variable {s s' : ReaderMachine} {act : ReaderAction}

/-- No other step touches the owners. -/
theorem step_sameOwners (ha : act.arbitrates = false) (hs : s.step act = some s') :
    SameOwners s.reader s'.reader ∧ s'.matched = s.matched := by
  have hgive {reader : DataReader} (hr : SameOwners s.reader reader) (s₀ : ReaderMachine)
      (hm : s₀.matched = s.matched) (payloads : List ℕ) (built : Bool) :
      SameOwners s.reader (s₀.giveOut reader payloads built).reader ∧
        (s₀.giveOut reader payloads built).matched = s.matched := by
    refine ⟨?_, ?_⟩
    · rw [reader_giveOut]
      split_ifs
      · exact hr
      · obtain ⟨freed, hfree⟩ := foldl_freePayload_frame payloads reader
        rw [hfree]
        exact ⟨hr.owners, hr.strengths, hr.qos⟩
    · unfold giveOut
      split_ifs <;> exact hm
  cases act with
  | matching now info => cases ha
  | unmatching now guid => cases ha
  | data now change => cases ha
  | eoc now change =>
    obtain ⟨-, hs⟩ := Option.ite_none_right_eq_some.1 hs
    cases hs
    refine ⟨?_, rfl⟩
    show SameOwners s.reader (s.reader.onEocCb now change)
    unfold onEocCb
    split_ifs
    · obtain ⟨_, _, _, _, _, htrack⟩ := trackCoherentLocked_frame s.reader now change true
      rw [htrack]
      exact ⟨rfl, rfl, rfl⟩
    · exact .refl _
  | promote idx =>
    cases hs
    refine ⟨?_, rfl⟩
    obtain ⟨_, _, henqueue⟩ := foldl_enqueue_frame
      (s.reader.coherentCommitted[idx]?.elim [] (·.samples))
      { s.reader with coherentCommitted := s.reader.coherentCommitted.eraseIdx idx }
    show SameOwners s.reader (s.reader.promoteCommittedSetLocked idx)
    unfold promoteCommittedSetLocked
    dsimp only
    rw [henqueue]
    exact ⟨rfl, rfl, rfl⟩
  | discard idx =>
    cases hs
    exact ⟨⟨rfl, rfl, rfl⟩, rfl⟩
  | beginOrdered =>
    cases hs
    exact ⟨⟨rfl, rfl, rfl⟩, rfl⟩
  | endOrdered =>
    cases hs
    exact ⟨⟨rfl, rfl, rfl⟩, rfl⟩
  | take call built =>
    cases hs
    exact hgive (.accesses (.takeCall _ call))
      { s with handed := s.handed ++ (call.run s.reader).2.map (·.data) } rfl _ _
  | read call built =>
    simp only [ReaderMachine.step] at hs
    split_ifs at hs
    · cases hs
      exact hgive (.accesses (.readCall _ call)) _ rfl _ _
    · cases hs
      exact ⟨.accesses (.readCall _ call), rfl⟩
  | lend call sliced =>
    cases hs
    exact ⟨.accesses (.loanCall _ call), rfl⟩
  | register i made =>
    obtain ⟨as, -, rfl⟩ := Option.map_eq_some_iff.mp hs
    cases made <;> exact ⟨.refl _, rfl⟩
  | returnLoan key =>
    obtain ⟨as, -, rfl⟩ := Option.map_eq_some_iff.mp hs
    exact ⟨.refl _, rfl⟩
  | releasePin i =>
    simp only [ReaderMachine.step] at hs
    split at hs
    next =>
      cases hs
      exact ⟨⟨rfl, rfl, rfl⟩, rfl⟩
    next => cases hs
  | settle i =>
    simp only [ReaderMachine.step] at hs
    split at hs
    next =>
      cases hs
      exact ⟨⟨rfl, rfl, rfl⟩, rfl⟩
    next => cases hs
  | freeCopy i =>
    obtain ⟨payloads, -, rfl⟩ := Option.map_eq_some_iff.mp hs
    obtain ⟨freed, hfree⟩ := foldl_freePayload_frame payloads s.reader
    refine ⟨?_, rfl⟩
    show SameOwners s.reader (payloads.foldl freePayload s.reader)
    rw [hfree]
    exact ⟨rfl, rfl, rfl⟩

end ReaderMachine

/-- A match or its end. -/
def ReaderStatusAction.matches : ReaderStatusAction → Bool
  | onWriterMatchingCb _ _ _ _ _ => true
  | onWriterUnmatchingCb _ => true
  | _ => false

/-! ### A reader with its statuses -/

/-- A reader and its statuses, which hold what is known of its writers' liveliness.  `written`,
which is not in the source, are the instances each writer has written, and not unregistered since,
during its match. -/
structure OwnedReader where
  machine : ReaderMachine
  statuses : ReaderStatuses := {}
  written : List (Guid × HandleT) := []

inductive OwnedAction where
  /-- A match, or an announcement of a matched writer. -/
  | matching (now : ℤ) (info : MatchedWriterInfo) (leaseNs : ℤ) (kind : UInt8)
  | unmatching (now : Time) (guid : Guid)
  | data (now : ℤ) (change : CacheChange)
  /-- Evidence of a writer, a check of the leases, or any other change of a status. -/
  | status (a : ReaderStatusAction)
  /-- Any other step of the reader. -/
  | other (a : ReaderAction)

namespace OwnedReader

open ReaderMachine (someWriter someChange)

variable (s : OwnedReader)

/-- What a change makes of the instances written. -/
def writtenAfter (change : CacheChange) : List (Guid × HandleT) :=
  let entry := (change.writerGuid, keyHashToHandle change.keyHash)
  match change.kind with
  | .alive => s.written.insert entry
  | .notAliveDisposed => s.written
  | .notAliveUnregistered => s.written.filter (· ≠ entry)

def step : OwnedAction → Option OwnedReader
  | .matching now info leaseNs kind =>
      (s.machine.step (.matching now info)).bind fun machine =>
        (s.statuses.step (.onWriterMatchingCb info.guid leaseNs kind
            (info.guid ∉ s.machine.matched) now)).map fun statuses =>
          { s with machine := machine, statuses := statuses }
  | .unmatching now guid =>
      (s.machine.step (.unmatching now guid)).bind fun machine =>
        (s.statuses.step (.onWriterUnmatchingCb guid)).map fun statuses =>
          { machine := machine
            statuses := statuses
            written := s.written.filter (·.1 ≠ guid) }
  | .data now change =>
      (s.machine.step (.data now change)).map fun machine =>
        { s with machine := machine, written := s.writtenAfter change }
  | .status a =>
      if a.matches then none
      else (s.statuses.step a).map fun statuses => { s with statuses := statuses }
  | .other a =>
      if a.arbitrates then none
      else (s.machine.step a).map fun machine => { s with machine := machine }

/-! ### Who is entitled -/

def strength (guid : Guid) : ℤ := (s.machine.reader.writerStrengths.lookup guid).getD 0

def markedNotAlive (guid : Guid) : Bool :=
  (s.statuses.writerLiveliness.lookup guid).any fun e => !e.isAlive

/-- A live writer that has written the instance and not unregistered it since. -/
def Contends (ih : HandleT) (guid : Guid) : Prop :=
  guid ∈ s.machine.matched ∧ s.markedNotAlive guid = false ∧ (guid, ih) ∈ s.written

/-- The contest for an instance. -/
def contest (ih : HandleT) : Contest Guid ℤ where
  candidates := s.machine.matched
  contends := s.Contends ih
  strength := s.strength
  holder := s.machine.reader.ownerMap.lookup ih

/-- What a step leaves right of the owners.  An announcement or a lease that expires or revives must
leave the owners there are right, with the strengths and the live writers there are then.  With the
owner, or once a change that is not alive has taken the owner away, no contender may be stronger
than another matched writer.  A writer that takes an instance must contend for it, unless all others
are stronger. -/
def Fair : OwnedAction → Prop
  | .unmatching now guid => ∀ kh, (s.contest (keyHashToHandle kh)).holder = some guid →
      ∀ b ≠ guid, s.Contends (keyHashToHandle kh) b →
        ∀ a ∈ s.machine.matched, a ≠ guid → a ≠ b → s.strength b ≤ s.strength a
  | .data now change =>
      let ih := keyHashToHandle change.keyHash
      let c := { s.contest ih with
        contends := { s with written := s.writtenAfter change }.Contends ih }
      s.machine.reader.passesOwnership now change = true →
        if s.machine.reader.releases now change then c.Open
        else (∃ b ∈ s.machine.matched, b ≠ change.writerGuid ∧
          s.strength b ≤ s.strength change.writerGuid) → c.contends change.writerGuid
  | .other _ => True
  | a => ∀ s' ∈ s.step a, ∀ kh,
      { s'.contest (keyHashToHandle kh) with
        holder := (s.contest (keyHashToHandle kh)).holder }.Held

variable {s} {s' : OwnedReader} {a : OwnedAction} {ih : HandleT} {guid : Guid}

/-- Owners are matched. -/
structure Sound (s : OwnedReader) : Prop where
  exclusive : s.machine.reader.qos.exclusiveOwnership = true
  owners : ∀ ih, ∀ o ∈ s.machine.reader.ownerMap.lookup ih, o ∈ s.machine.matched

theorem Sound.step (h : s.Sound) (hs : s.step a = some s') : s'.Sound := by
  cases a with
  | matching now info leaseNs kind =>
    rw [OwnedReader.step] at hs
    obtain ⟨machine, hm, hs⟩ := Option.bind_eq_some_iff.mp hs
    obtain ⟨statuses, -, rfl⟩ := Option.map_eq_some_iff.mp hs
    cases hm
    obtain ⟨howners, hqos⟩ := DataReader.onWriterMatchingCb_owners s.machine.reader now info
      (info.guid ∉ s.machine.matched)
    constructor
    · exact (congrArg (·.exclusiveOwnership) hqos).trans h.exclusive
    · intro ih o ho
      have ho : o ∈ s.machine.reader.ownerMap.lookup ih := howners ▸ ho
      exact List.mem_insert_of_mem (h.owners ih o ho)
  | unmatching now guid =>
    obtain ⟨machine, hm, hs⟩ := Option.bind_eq_some_iff.mp hs
    obtain ⟨statuses, -, rfl⟩ := Option.map_eq_some_iff.mp hs
    obtain ⟨-, hm⟩ := Option.ite_none_right_eq_some.1 hm
    cases hm
    obtain ⟨howners, -, hqos⟩ := DataReader.onWriterUnmatchingCb_owners s.machine.reader now guid
    constructor
    · exact (congrArg (·.exclusiveOwnership) hqos).trans h.exclusive
    · intro ih o ho
      have ho : o ∈ (s.machine.reader.ownerMap.lookup ih).filter (· ≠ guid) := howners ih ▸ ho
      obtain ⟨ho, hne⟩ := Option.filter_eq_some_iff.1 ho
      exact List.mem_filter.2 ⟨h.owners ih o ho, hne⟩
  | data now change =>
    obtain ⟨machine, hm, rfl⟩ := Option.map_eq_some_iff.mp hs
    obtain ⟨hguid, hm⟩ := Option.ite_none_right_eq_some.1 hm
    cases hm
    obtain ⟨-, hqos, howners⟩ := DataReader.onDataCb_owners h.exclusive now change
    constructor
    · exact (congrArg (·.exclusiveOwnership) hqos).trans h.exclusive
    · intro ih o ho
      have ho : (s.machine.reader.onDataCb now change).ownerMap.lookup ih = some o := ho
      rw [howners] at ho
      split_ifs at ho
      · cases ho
        exact hguid
      · exact h.owners ih o ho
  | status a =>
    obtain ⟨-, hs⟩ := Option.ite_none_left_eq_some.1 hs
    obtain ⟨statuses, -, rfl⟩ := Option.map_eq_some_iff.mp hs
    exact ⟨h.exclusive, h.owners⟩
  | other a =>
    obtain ⟨ha, hs⟩ := Option.ite_none_left_eq_some.1 hs
    obtain ⟨machine, hm, rfl⟩ := Option.map_eq_some_iff.mp hs
    obtain ⟨hsame, hmatched⟩ := ReaderMachine.step_sameOwners (Bool.eq_false_iff.2 ha) hm
    constructor
    · exact (congrArg (·.exclusiveOwnership) hsame.qos).trans h.exclusive
    · intro ih o ho
      have ho : o ∈ s.machine.reader.ownerMap.lookup ih := hsame.owners ▸ ho
      show o ∈ machine.matched
      rw [hmatched]
      exact h.owners ih o ho

/-- A reader with EXCLUSIVE ownership nothing has happened to. -/
def init (qos : DataReaderQos) (presentation : PresentationQos)
    (cftFilter : Option (List UInt8 → Bool)) : OwnedReader where
  machine := .init { qos with exclusiveOwnership := true } presentation cftFilter

variable {qos : DataReaderQos} {presentation : PresentationQos}
  {cftFilter : Option (List UInt8 → Bool)} {acts : List OwnedAction}

theorem sound_init : (init qos presentation cftFilter).Sound := ⟨rfl, fun _ _ ho => (nomatch ho)⟩

theorem sound_of_run {ok : OwnedReader → OwnedAction → Prop}
    (h : Run step ok (init qos presentation cftFilter) acts s) : s.Sound :=
  h.inv sound_init fun _ _ _ hi _ hs => hi.step hs

end OwnedReader

end Zzdds.Dcps
