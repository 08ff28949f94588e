import Zzdds.Lib.Growable
import Zzdds.Rtps.Reader.Tidy

/-! # Samples that cannot be kept

The receive path of `reader_sm.zig` with the memory it takes.  A number is taken as received before
its sample is added to the cache, and where the sample cannot be added, whether the error is
returned or swallowed, the number stays: nothing asks for the sample again.  `Attempt.failed` holds
the numbers of the samples whose processing failed. -/

namespace Zzdds.Rtps

open Lib

/-! ### The cache -/

/-- What an attempt to add a change to a cache leaves. -/
structure Added where
  stored : Bool
  cache : HistoryCache
  capacity : ℕ

namespace HistoryCache

/-- `addReaderChange`, into an array with room for `capacity` changes. -/
def tryAddReaderChange (c : HistoryCache) (capacity : ℕ) (mem : Memory) (ch : CacheChange) :
    Added :=
  if c.changes.any (isChange ch.writerGuid ch.sequenceNumber) then ⟨true, c, capacity⟩
  else if mem.copies then
    let trimmed := c.trimForKeepLast ch.instanceHandle
    match mem.ensure capacity (trimmed.changes.length + 1) with
    | some got => ⟨true, { trimmed with changes := trimmed.changes ++ [ch] }, got⟩
    | none => ⟨false, trimmed, capacity⟩
  else ⟨false, c, capacity⟩

variable {c : HistoryCache} {capacity : ℕ} {mem : Memory} {ch : CacheChange}

/-- Where no change made way, the cache is as it was. -/
theorem trimForKeepLast_of_length_le {ih : InstanceHandle}
    (h : c.changes.length ≤ (c.trimForKeepLast ih).changes.length) : c.trimForKeepLast ih = c := by
  have hch := (trimForKeepLast_sublist c ih).eq_of_length_le h
  unfold trimForKeepLast at hch ⊢
  split
  next hk =>
    rw [if_pos hk] at hch
    dsimp only at hch ⊢
    rw [hch]
  next => rfl

/-- **No change makes way for one that is not added.**  The array has room for what it held, so
that a change that made way leaves room for the new one. -/
theorem cache_of_not_stored (hcap : c.changes.length ≤ capacity)
    (h : (c.tryAddReaderChange capacity mem ch).stored = false) :
    (c.tryAddReaderChange capacity mem ch).cache = c := by
  unfold tryAddReaderChange at h ⊢
  split
  · rfl
  · rw [if_neg ‹_›] at h
    split at h
    · rw [if_pos ‹_›]
      dsimp only at h ⊢
      split at h
      next => cases h
      next heq =>
        refine trimForKeepLast_of_length_le (not_lt.1 fun hlt => ?_)
        rw [Memory.ensure_of_le (by omega)] at heq
        cases heq
    · rw [if_neg ‹_›]

end HistoryCache

/-! ### The receive path -/

/-- What the allocator answers a reader: for the change of a number when it is added to the cache,
for the copy of a buffered payload and the array of buffered changes, for the ranges of the received
numbers, and for a new reassembly. -/
structure ReaderMemory where
  add : ℤ → Memory
  copiesPending : Bool
  keepsPending : Bool
  keepsReceived : Bool
  newEntry : Bool

structure Attempt where
  core : ReaderCore
  proxy : WriterProxy
  capacity : ℕ
  failed : List ℤ := []

/-- Hand the cached change to the callback. -/
def ReaderCore.notify (core : ReaderCore) (writer : Guid) (change : CacheChange) : ReaderCore :=
  if core.callback.isSome then
    match core.cache.getChangeForWriter change.writerGuid change.sequenceNumber with
    | some cached => core.emit (.onData writer cached)
    | none => core
  else core

namespace Attempt

variable (mem : ReaderMemory)

def fail (a : Attempt) (sn : ℤ) : Attempt := { a with failed := a.failed ++ [sn] }

/-- Take a number as received; out of memory for that, the number is left out. -/
def take (a : Attempt) (sn : ℤ) : Attempt :=
  if mem.keepsReceived then
    { a with proxy := { a.proxy with received := a.proxy.received.insert sn } }
  else a.fail sn

def added (a : Attempt) (change : CacheChange) : Added :=
  a.core.cache.tryAddReaderChange a.capacity (mem.add change.sequenceNumber) change

/-- With the cache as the attempt to add a change leaves it. -/
def cached (a : Attempt) (change : CacheChange) : Attempt :=
  { a with
    core := { a.core with cache := (a.added mem change).cache }
    capacity := (a.added mem change).capacity }

/-- Add a change to the cache. -/
def add (a : Attempt) (change : CacheChange) : Bool × Attempt :=
  if (a.added mem change).stored then (true, a.cached mem change)
  else (false, (a.cached mem change).fail change.sequenceNumber)

def notify (a : Attempt) (change : CacheChange) : Attempt :=
  { a with core := a.core.notify a.proxy.guid change }

/-- An end marker goes to its callback. -/
def endMarker (a : Attempt) (change : CacheChange) : Attempt :=
  { a with core := a.core.handOver a.proxy.guid change }

/-- A buffered change whose turn has come; an error is swallowed. -/
def release (a : Attempt) (change : CacheChange) : Attempt :=
  if isEndMarker change then a.endMarker change else (a.add mem change).2.notify change

/-- The loop of `deliverPendingLocked`, `k` more numbers from `nextSn` on. -/
def deliverPendingLoop : ℕ → ℤ → Attempt → Attempt
  | 0, _, a => a
  | k + 1, nextSn, a =>
    match a.proxy.pendingChanges.find? (fun ch => ch.sequenceNumber == nextSn) with
    | none => deliverPendingLoop k (nextSn + 1) a
    | some ch =>
      let a := a.release mem ch
      deliverPendingLoop k (nextSn + 1) { a with
        proxy := { a.proxy with
          pendingChanges := a.proxy.pendingChanges.eraseP fun ch => ch.sequenceNumber == nextSn } }

def deliverPending (a : Attempt) (prevDelivered : ℤ) : Attempt :=
  a.deliverPendingLoop mem (a.proxy.received.cumulativeAck - prevDelivered).toNat
    (prevDelivered + 1)

/-- Hand over a change whose number was taken, and then do `rest`; an error is returned. -/
def deliver (a : Attempt) (change : CacheChange) (rest : Attempt → Attempt) : Attempt :=
  if isEndMarker change then rest (a.endMarker change)
  else
    match a.add mem change with
    | (true, a) => rest (a.notify change)
    | (false, a) => a

end Attempt

/-- `deliverChangeLocked`. -/
def tryDeliverChange (core : ReaderCore) (wp : WriterProxy) (capacity : ℕ) (mem : ReaderMemory)
    (incoming : CacheChange) : Attempt :=
  let a : Attempt := { core := core, proxy := wp, capacity := capacity }
  match core.process incoming with
  | none => a.fail incoming.sequenceNumber
  | some change =>
    let sn := change.sequenceNumber
    if core.reliable then
      if sn = wp.received.cumulativeAck + 1 then
        (a.take mem sn).deliver mem change fun a => a.deliverPending mem sn
      else if wp.pendingChanges.any (fun pc => pc.sequenceNumber == sn) then a
      else if mem.copiesPending && mem.keepsPending then
        { a with proxy := { wp with pendingChanges := wp.pendingChanges ++ [change] } }.take mem sn
      else a.fail sn
    else if sn ≤ wp.received.max then a
    else
      let a := a.take mem sn
      { a with proxy := a.proxy.dropReassemblyBelow sn }.deliver mem change id

namespace HistoryCache

/-- The changes are added one after the other, and none fails. -/
def AllAdded (mem : ℤ → Memory) : HistoryCache → ℕ → List CacheChange → Prop
  | _, _, [] => True
  | c, capacity, ch :: chs =>
    let added := c.tryAddReaderChange capacity (mem ch.sequenceNumber) ch
    added.stored = true ∧ AllAdded mem added.cache added.capacity chs

end HistoryCache

/-- The sample a change is, if it is one. -/
def sampleOf (change : CacheChange) : List CacheChange :=
  if isEndMarker change then [] else [change]

/-- The buffered samples whose turn comes with `k` numbers from `nextSn` on. -/
def released : ℕ → ℤ → List CacheChange → List CacheChange
  | 0, _, _ => []
  | k + 1, nextSn, pending =>
    match pending.find? (fun ch => ch.sequenceNumber == nextSn) with
    | none => released k (nextSn + 1) pending
    | some ch => sampleOf ch ++
        released k (nextSn + 1) (pending.eraseP fun ch => ch.sequenceNumber == nextSn)

/-- The samples a change brings to the cache whose numbers are taken as received. -/
def takenSamples (core : ReaderCore) (wp : WriterProxy) (mem : ReaderMemory)
    (incoming : CacheChange) : List CacheChange :=
  match core.process incoming with
  | none => []
  | some change =>
    let sn := change.sequenceNumber
    if mem.keepsReceived = false then []
    else if core.reliable then
      if sn = wp.received.cumulativeAck + 1 then
        sampleOf change ++ released ((wp.received.insert sn).cumulativeAck - sn).toNat (sn + 1)
          wp.pendingChanges
      else []
    else if sn ≤ wp.received.max then []
    else sampleOf change

section Loop

variable {mem : ReaderMemory} {a : Attempt} {ch : CacheChange} {sn : ℤ}

@[simp] theorem notify_cache (core : ReaderCore) (w : Guid) :
    (core.notify w ch).cache = core.cache := by
  unfold ReaderCore.notify
  split
  · split <;> rfl
  · rfl

theorem handOver_endMarker_cache {core : ReaderCore} {w : Guid} (h : isEndMarker ch = true) :
    (core.handOver w ch).cache = core.cache := by
  unfold ReaderCore.handOver
  rw [if_pos h]
  split <;> rfl

theorem allAdded_cons {chs : List CacheChange} :
    HistoryCache.AllAdded mem.add a.core.cache a.capacity (ch :: chs) ↔
      (a.added mem ch).stored = true ∧ HistoryCache.AllAdded mem.add (a.cached mem ch).core.cache
        (a.cached mem ch).capacity chs := Iff.rfl

/-- What releasing a buffered change does to the cache and the failures. -/
theorem release_spec (mem : ReaderMemory) (a : Attempt) (ch : CacheChange) :
    (a.release mem ch).proxy = a.proxy ∧
    ∃ l, (a.release mem ch).failed = a.failed ++ l ∧ (∀ n ∈ l, n = ch.sequenceNumber) ∧
      ∀ chs, HistoryCache.AllAdded mem.add a.core.cache a.capacity (sampleOf ch ++ chs) ↔
        l = [] ∧ HistoryCache.AllAdded mem.add (a.release mem ch).core.cache
          (a.release mem ch).capacity chs := by
  unfold Attempt.release sampleOf
  split
  next hm =>
    refine ⟨rfl, [], (List.append_nil _).symm, fun n hn => (nomatch hn), fun chs => ?_⟩
    rw [List.nil_append, Attempt.endMarker, handOver_endMarker_cache hm, eq_self_iff_true,
      true_and]
  next hm =>
    rw [Attempt.notify, Attempt.add]
    cases hst : (a.added mem ch).stored with
    | true =>
      refine ⟨rfl, [], (List.append_nil _).symm, fun n hn => (nomatch hn), fun chs => ?_⟩
      rw [List.singleton_append, allAdded_cons, hst, if_pos rfl, notify_cache,
        eq_self_iff_true, eq_self_iff_true]
    | false =>
      refine ⟨rfl, [ch.sequenceNumber], rfl, fun n hn => List.mem_singleton.1 hn, fun chs => ?_⟩
      rw [List.singleton_append, allAdded_cons, hst]
      exact iff_of_false (fun h => (nomatch h.1)) (fun h => (nomatch h.1))

/-- The failures of the loop are among the numbers it goes through, and there are none just where
all buffered samples can be added. -/
theorem deliverPendingLoop_spec (mem : ReaderMemory) (k : ℕ) (next : ℤ) (a : Attempt) :
    (a.deliverPendingLoop mem k next).proxy.received = a.proxy.received ∧
    ∃ l, (a.deliverPendingLoop mem k next).failed = a.failed ++ l ∧
      (∀ n ∈ l, next ≤ n ∧ n < next + k) ∧
      (HistoryCache.AllAdded mem.add a.core.cache a.capacity
        (released k next a.proxy.pendingChanges) ↔ l = []) := by
  induction k generalizing next a with
  | zero =>
    exact ⟨rfl, [], (List.append_nil _).symm, fun n hn => (nomatch hn), iff_of_true trivial rfl⟩
  | succ k ih =>
    rw [Attempt.deliverPendingLoop, released]
    split
    next hnone =>
      obtain ⟨hrec, l, hl, hrange, hiff⟩ := ih (next + 1) a
      refine ⟨hrec, l, hl, fun n hn => ?_, hiff⟩
      have := hrange n hn
      omega
    next ch hfind =>
      have hsn : ch.sequenceNumber = next := by simpa using List.find?_some hfind
      obtain ⟨hproxy, l₀, hl₀, hall, hiff₀⟩ := release_spec mem a ch
      obtain ⟨hrec, l, hl, hrange, hiff⟩ := ih (next + 1) { a.release mem ch with
        proxy := { (a.release mem ch).proxy with
          pendingChanges := (a.release mem ch).proxy.pendingChanges.eraseP fun ch =>
            ch.sequenceNumber == next } }
      dsimp only at hrec hl hiff ⊢
      rw [hproxy] at hrec hl hiff ⊢
      refine ⟨hrec, l₀ ++ l, ?_, fun n hn => ?_, ?_⟩
      · rw [hl, hl₀, List.append_assoc]
      · rcases List.mem_append.1 hn with hn | hn
        · have := hall n hn
          omega
        · have := hrange n hn
          omega
      · rw [hiff₀, hiff, List.append_eq_nil_iff]

end Loop

/-! ### Numbers of failed samples -/

/-- No number of a sample whose processing failed is taken as received. -/
def Attempt.Forgets (a : Attempt) : Prop := ∀ n ∈ a.failed, n ∉ a.proxy.received

theorem ReceivedSet.max_nonneg (s : ReceivedSet) : 0 ≤ s.max := by
  unfold ReceivedSet.max RangeSet.max
  cases hl : s.ranges.getLast? with
  | none => exact le_rfl
  | some r =>
    have hm := List.mem_of_getLast? hl
    have hlo := s.valid r hm
    have hle := s.separated.2 r hm
    exact le_trans (by omega) hle

section Deliver

variable {mem : ReaderMemory} {a : Attempt} {change : CacheChange} {core : ReaderCore}
  {wp : WriterProxy} {capacity : ℕ}

/-- What stays behind of a change whose number is in the received set: nothing where it and the
samples it releases are added. -/
theorem deliver_forgets {rest : Attempt → Attempt} {chs : List CacheChange}
    (hnil : a.failed = []) (hin : change.sequenceNumber ∈ a.proxy.received)
    (hrest : ∀ b : Attempt, b.proxy = a.proxy → b.failed = [] → ((rest b).Forgets ↔
      HistoryCache.AllAdded mem.add b.core.cache b.capacity chs)) :
    (a.deliver mem change rest).Forgets ↔
      HistoryCache.AllAdded mem.add a.core.cache a.capacity (sampleOf change ++ chs) := by
  unfold Attempt.deliver sampleOf
  split
  next hm =>
    refine (hrest (a.endMarker change) rfl hnil).trans ?_
    rw [Attempt.endMarker, handOver_endMarker_cache hm, List.nil_append]
  next hm =>
    rw [List.singleton_append, allAdded_cons, Attempt.add]
    cases hst : (a.added mem change).stored with
    | true =>
      refine (hrest ((a.cached mem change).notify change) rfl hnil).trans ?_
      rw [Attempt.notify, notify_cache]
      exact (and_iff_right rfl).symm
    | false =>
      refine iff_of_false (fun hf => ?_) (fun h => (nomatch h.1))
      refine hf change.sequenceNumber ?_ hin
      exact List.mem_append_right _ (List.mem_singleton.2 rfl)

/-- A number that was not taken stays out. -/
theorem deliver_forgets_of_not_mem {rest : Attempt → Attempt}
    (hfailed : ∀ n ∈ a.failed, n = change.sequenceNumber)
    (hnew : change.sequenceNumber ∉ a.proxy.received)
    (hrest : ∀ b : Attempt, b.proxy = a.proxy → rest b = b) :
    (a.deliver mem change rest).Forgets := by
  have hout : ∀ b : Attempt, b.proxy = a.proxy →
      (∀ n ∈ b.failed, n = change.sequenceNumber) → b.Forgets := by
    intro b hb hf n hn
    rw [hf n hn, hb]
    exact hnew
  unfold Attempt.deliver
  split
  · rw [hrest (a.endMarker change) rfl]
    exact hout _ rfl hfailed
  · rw [Attempt.add]
    cases (a.added mem change).stored with
    | true =>
      change (rest ((a.cached mem change).notify change)).Forgets
      rw [hrest ((a.cached mem change).notify change) rfl]
      exact hout _ rfl hfailed
    | false =>
      refine hout ((a.cached mem change).fail change.sequenceNumber) rfl fun n hn => ?_
      rcases List.mem_append.1 hn with hn | hn
      · exact hfailed n hn
      · exact List.mem_singleton.1 hn

theorem deliverPending_forgets {prev : ℤ} (hprev : 0 ≤ prev) (hnil : a.failed = []) :
    (a.deliverPending mem prev).Forgets ↔ HistoryCache.AllAdded mem.add a.core.cache a.capacity
      (released (a.proxy.received.cumulativeAck - prev).toNat (prev + 1)
        a.proxy.pendingChanges) := by
  obtain ⟨hrec, l, hl, hrange, hiff⟩ := deliverPendingLoop_spec mem
    (a.proxy.received.cumulativeAck - prev).toNat (prev + 1) a
  rw [hiff, Attempt.Forgets, Attempt.deliverPending, hl, hrec, hnil, List.nil_append]
  refine ⟨fun hf => ?_, fun h n hn => ?_⟩
  · refine List.eq_nil_iff_forall_not_mem.2 fun n hn => hf n hn ?_
    have := hrange n hn
    exact ReceivedSet.mem_of_le_cumulativeAck (by omega) (by omega)
  · rw [h] at hn
    cases hn

/-- **What becomes of a failed sample.**  No number of a failed sample stays among those received
just where every sample whose number was taken could be added to the cache. -/
theorem tryDeliverChange_forgets (hnew : change.sequenceNumber ∉ wp.received) :
    (tryDeliverChange core wp capacity mem change).Forgets ↔
      HistoryCache.AllAdded mem.add core.cache capacity (takenSamples core wp mem change) := by
  unfold tryDeliverChange takenSamples
  cases hproc : core.process change with
  | none =>
    refine iff_of_true (fun n hn => ?_) trivial
    rw [List.mem_singleton.1 hn]
    exact hnew
  | some ch =>
    rw [← process_sequenceNumber hproc] at hnew
    dsimp only
    have hnone : ∀ b : Attempt, b.failed = [] → (b.Forgets ↔ HistoryCache.AllAdded mem.add
        core.cache capacity []) := fun b hb =>
      iff_of_true (fun n hn => by rw [hb] at hn; cases hn) trivial
    have hfail : ({ core := core, proxy := wp, capacity := capacity } : Attempt).fail
        ch.sequenceNumber |>.Forgets := by
      intro n hn
      rw [List.mem_singleton.1 hn]
      exact hnew
    cases hkeeps : mem.keepsReceived with
    | false =>
      rw [if_pos rfl]
      refine iff_of_true ?_ trivial
      unfold Attempt.take
      rw [hkeeps]
      split
      · split
        next hnext =>
          refine deliver_forgets_of_not_mem (fun n hn => List.mem_singleton.1 hn) hnew ?_
          intro b hb
          have hcount : (b.proxy.received.cumulativeAck - ch.sequenceNumber).toNat = 0 := by
            rw [hb]
            change (wp.received.cumulativeAck - ch.sequenceNumber).toNat = 0
            omega
          rw [Attempt.deliverPending, hcount, Attempt.deliverPendingLoop]
        next =>
          split
          · exact fun n hn => nomatch hn
          · split
            · exact hfail
            · exact hfail
      · split
        · exact fun n hn => nomatch hn
        · exact deliver_forgets_of_not_mem (fun n hn => List.mem_singleton.1 hn) hnew fun b _ => rfl
    | true =>
      rw [if_neg (show ¬(true = false) by decide)]
      unfold Attempt.take
      rw [hkeeps]
      split
      · split
        next hnext =>
          have hpos : 1 ≤ ch.sequenceNumber := by
            have := wp.received.cumulativeAck_nonneg
            omega
          refine deliver_forgets rfl (ReceivedSet.mem_insert.2 (.inl ⟨rfl, hpos⟩)) ?_
          intro b hb hnil
          rw [deliverPending_forgets (by omega) hnil, hb]
          rfl
        next =>
          split
          · exact hnone _ rfl
          · split
            · exact hnone _ rfl
            · exact iff_of_true hfail trivial
      · split
        · exact hnone _ rfl
        next hmax =>
          have hpos : 1 ≤ ch.sequenceNumber := by
            have := wp.received.max_nonneg
            omega
          rw [← List.append_nil (sampleOf ch)]
          refine deliver_forgets rfl (ReceivedSet.mem_insert.2 (.inl ⟨rfl, hpos⟩)) ?_
          exact fun b hb hnil =>
            iff_of_true (fun n hn => by rw [id, hnil] at hn; cases hn) trivial

end Deliver

/-! ### With memory enough -/

def ReaderMemory.ample : ReaderMemory := ⟨fun _ => .ample, true, true, true, true⟩

/-- The attempt comes to this outcome. -/
def Attempt.Is (a : Attempt) (out : ReaderCore × WriterProxy) : Prop :=
  a.core = out.1 ∧ a.proxy = out.2

theorem added_ample (a : Attempt) (ch : CacheChange) : ∃ got,
    a.added ReaderMemory.ample ch = ⟨true, a.core.cache.addReaderChange ch, got⟩ := by
  unfold Attempt.added HistoryCache.tryAddReaderChange HistoryCache.addReaderChange Memory.ensure
  split
  · exact ⟨_, rfl⟩
  · rw [if_pos (show (ReaderMemory.ample.add ch.sequenceNumber).copies = true from rfl)]
    dsimp only [ReaderMemory.ample, Memory.ample]
    split_ifs <;> exact ⟨_, rfl⟩

theorem release_ample (a : Attempt) (ch : CacheChange) :
    (a.release ReaderMemory.ample ch).core = a.core.handOver a.proxy.guid ch ∧
    (a.release ReaderMemory.ample ch).proxy = a.proxy := by
  unfold Attempt.release
  split
  next => exact ⟨rfl, rfl⟩
  next hm =>
    obtain ⟨got, hadded⟩ := added_ample a ch
    rw [Attempt.add, Attempt.cached, hadded, ReaderCore.handOver, if_neg hm]
    exact ⟨rfl, rfl⟩

theorem deliver_ample (a : Attempt) (ch : CacheChange) (rest : Attempt → Attempt) :
    a.deliver ReaderMemory.ample ch rest = rest (a.release ReaderMemory.ample ch) := by
  unfold Attempt.deliver Attempt.release Attempt.add
  split
  next => rfl
  next =>
    obtain ⟨got, hadded⟩ := added_ample a ch
    rw [hadded]
    rfl

theorem loop_ample (k : ℕ) (next : ℤ) (a : Attempt) :
    (a.deliverPendingLoop ReaderMemory.ample k next).Is
      (Zzdds.Rtps.deliverPendingLoop k next a.core a.proxy) := by
  induction k generalizing next a with
  | zero => exact ⟨rfl, rfl⟩
  | succ k ih =>
    rw [Attempt.deliverPendingLoop, Zzdds.Rtps.deliverPendingLoop]
    cases a.proxy.pendingChanges.find? (fun ch => ch.sequenceNumber == next) with
    | none => exact ih (next + 1) a
    | some ch =>
      obtain ⟨hcore, hproxy⟩ := release_ample a ch
      have hrest := ih (next + 1) { a.release ReaderMemory.ample ch with
        proxy := { (a.release ReaderMemory.ample ch).proxy with
          pendingChanges := (a.release ReaderMemory.ample ch).proxy.pendingChanges.eraseP fun ch =>
            ch.sequenceNumber == next } }
      dsimp only at hrest ⊢
      rw [hproxy] at hrest ⊢
      rw [← hcore]
      exact hrest

theorem deliverPending_ample (a : Attempt) (prev : ℤ) :
    (a.deliverPending ReaderMemory.ample prev).Is (deliverPendingLocked a.core a.proxy prev) :=
  loop_ample _ _ a

/-- Where memory is enough, this is the delivery as it is without a thought for memory. -/
theorem tryDeliverChange_ample (core : ReaderCore) (wp : WriterProxy) (capacity : ℕ)
    (incoming : CacheChange) :
    (tryDeliverChange core wp capacity ReaderMemory.ample incoming).Is
      (deliverChangeLocked core wp incoming) := by
  unfold tryDeliverChange deliverChangeLocked
  cases core.process incoming with
  | none => exact ⟨rfl, rfl⟩
  | some ch =>
    let taken : WriterProxy := { wp with received := wp.received.insert ch.sequenceNumber }
    dsimp only
    split
    · split
      next =>
        let a : Attempt := ⟨core, taken, capacity, []⟩
        obtain ⟨hcore, hproxy⟩ := release_ample a ch
        have hpending := deliverPending_ample (a.release .ample ch) ch.sequenceNumber
        rw [hcore, hproxy] at hpending
        rw [deliver_ample]
        exact hpending
      next =>
        split
        · exact ⟨rfl, rfl⟩
        · exact ⟨rfl, rfl⟩
    · split
      · exact ⟨rfl, rfl⟩
      · rw [deliver_ample]
        exact release_ample _ ch

/-! ### DATA and DATA_FRAG -/

/-- A DATA, or a DATA_FRAG with what the allocator leaves in a new buffer. -/
inductive Receipt where
  | data (change : CacheChange)
  | dataFrag (fresh : ℕ → UInt8) (sourceTimestamp : RtpsTimestamp) (df : DataFragSubmessage)

/-- What a message does to the writer's proxy before a delivery, and the change it has to deliver,
if any: the DATA's own, or the one a fragment completes. -/
def Receipt.admitted (core : ReaderCore) (wp : WriterProxy) (mem : ReaderMemory) :
    Receipt → Option (WriterProxy × Option CacheChange)
  | .data change =>
    some (wp, if wp.received.contains change.sequenceNumber then none else some change)
  | .dataFrag fresh sourceTimestamp df => do
    match ← fragEntryLocked core wp fresh sourceTimestamp df with
    | none => return (wp, none)
    | some e =>
      if (wp.getReassembly df.writerSn).isNone && !mem.newEntry then return (wp, none)
      let entry ← e.accept df
      let wp := wp.putReassembly df.writerSn entry
      return (wp, if entry.isComplete then some (assembledChange wp.guid df.writerSn entry)
        else none)

/-- A completed reassembly is dropped, whatever became of its sample. -/
def Receipt.retire (a : Attempt) : Receipt → Attempt
  | .data _ => a
  | .dataFrag _ _ df => { a with proxy := a.proxy.removeReassembly df.writerSn }

/-- `handleData` and `handleDataFrag`, for the writer's proxy. -/
def tryReceive (core : ReaderCore) (wp : WriterProxy) (capacity : ℕ) (mem : ReaderMemory)
    (m : Receipt) : Option Attempt :=
  (m.admitted core wp mem).map fun (wp, incoming) =>
    match incoming with
    | none => { core := core, proxy := wp, capacity := capacity }
    | some change => m.retire (tryDeliverChange core wp capacity mem change)

variable {core : ReaderCore} {wp wp' : WriterProxy} {capacity : ℕ} {mem : ReaderMemory}
  {m : Receipt} {a : Attempt} {change : CacheChange}

theorem retire_forgets : (m.retire a).Forgets ↔ a.Forgets := by
  cases m <;> exact Iff.rfl

/-- What is to be delivered was not received before. -/
theorem not_mem_of_admitted (h : m.admitted core wp mem = some (wp', some change)) :
    change.sequenceNumber ∉ wp'.received := by
  cases m with
  | data ch =>
    obtain ⟨rfl, hch⟩ := Prod.mk.inj (Option.some.inj h)
    split at hch
    next => cases hch
    next hc =>
      obtain rfl := Option.some.inj hch
      exact hc
  | dataFrag fresh sourceTimestamp df =>
    obtain ⟨e, he, h⟩ := Option.bind_eq_some_iff.1 h
    cases e with
    | none => cases h
    | some e =>
      have hnew := not_mem_of_fragEntry he
      dsimp only at h
      split at h
      next => cases h
      next =>
        obtain ⟨entry, -, h⟩ := Option.bind_eq_some_iff.1 h
        obtain ⟨rfl, hch⟩ := Prod.mk.inj (Option.some.inj h)
        split at hch
        next =>
          obtain rfl := Option.some.inj hch
          exact hnew
        next => cases hch

theorem tryReceive_ample_data : ∃ a, tryReceive core wp capacity .ample (.data change) = some a ∧
    a.Is (handleDataLocked core wp change) := by
  refine ⟨_, rfl, ?_⟩
  unfold handleDataLocked
  split
  next => exact ⟨rfl, rfl⟩
  next => exact tryDeliverChange_ample _ _ _ change

theorem tryReceive_ample_dataFrag {fresh : ℕ → UInt8} {ts : RtpsTimestamp}
    {df : DataFragSubmessage} :
    (tryReceive core wp capacity .ample (.dataFrag fresh ts df)).map (fun a => (a.core, a.proxy)) =
      handleDataFragLocked core wp fresh ts df := by
  unfold tryReceive Receipt.admitted handleDataFragLocked
  dsimp only
  cases fragEntryLocked core wp fresh ts df with
  | none => rfl
  | some e =>
    cases e with
    | none => rfl
    | some e =>
      dsimp only [Option.bind_eq_bind, Option.bind_some]
      rw [if_neg (by simp [ReaderMemory.ample])]
      cases e.accept df with
      | none => rfl
      | some entry =>
        cases hc : entry.isComplete with
        | false => simp [hc]
        | true =>
          obtain ⟨hcore, hproxy⟩ := tryDeliverChange_ample core
            (wp.putReassembly df.writerSn entry) capacity (assembledChange wp.guid df.writerSn entry)
          simp only [Option.bind_some, hc, Bool.not_true, Bool.false_eq_true, if_false, if_true,
            Option.pure_def, Option.map_some, Receipt.retire]
          exact congrArg some (Prod.ext hcore (congrArg (·.removeReassembly df.writerSn) hproxy))

/-- **Stored, or not acknowledged.**  After a DATA or a DATA_FRAG no number of a sample whose
processing failed is among those received just where every sample of a number taken could be added
to the cache; and an attempt to add a change that fails leaves the cache as it was. -/
theorem stored_or_not_acknowledged (h : tryReceive core wp capacity mem m = some a) :
    (a.Forgets ↔ ∀ wp' change, m.admitted core wp mem = some (wp', some change) →
      HistoryCache.AllAdded mem.add core.cache capacity (takenSamples core wp' mem change)) ∧
    ∀ (c : HistoryCache) (capacity : ℕ) (mem : Memory) (ch : CacheChange),
      c.changes.length ≤ capacity → (c.tryAddReaderChange capacity mem ch).stored = false →
      (c.tryAddReaderChange capacity mem ch).cache = c := by
  refine ⟨?_, fun c capacity mem ch => HistoryCache.cache_of_not_stored⟩
  obtain ⟨⟨wp₁, incoming⟩, hadm, rfl⟩ := Option.map_eq_some_iff.1 h
  cases incoming with
  | none =>
    refine iff_of_true (fun n hn => nomatch hn) fun wp' change hadm' => ?_
    rw [hadm] at hadm'
    cases hadm'
  | some change =>
    refine retire_forgets.trans ((tryDeliverChange_forgets (not_mem_of_admitted hadm)).trans ?_)
    refine ⟨fun hall wp' change' hadm' => ?_, fun hall => hall wp₁ change hadm⟩
    obtain ⟨rfl, hch⟩ := Prod.mk.inj (Option.some.inj (hadm.symm.trans hadm'))
    obtain rfl := Option.some.inj hch
    exact hall

/-! ### Two small readers -/

def smallWriterGuid : Guid := ⟨GuidPrefix.unknown, EntityId.unknown⟩

def smallReaderCore (processor : Option SampleProcessor) : ReaderCore where
  guid := smallWriterGuid
  cache := .init .keepAll 0
  callback := none
  sampleProcessor := processor
  reliable := true

def smallProxy : WriterProxy where
  guid := smallWriterGuid
  selectedLocators := []
  reliable := true

def firstChange : CacheChange where
  kind := .alive
  writerGuid := smallWriterGuid
  sequenceNumber := 1
  sourceTimestamp := ⟨0, 0⟩
  instanceHandle := INSTANCE_HANDLE_NIL
  keyHash := Bytes.zeroes 16
  data := [1]

/-- A sample that the sample processor refuses is not acknowledged. -/
theorem refused_not_received : ∃ a, tryReceive (smallReaderCore (some fun _ _ _ => none)) smallProxy
    0 .ample (.data firstChange) = some a ∧ a.failed = [1] ∧ a.Forgets := by
  obtain ⟨a, ha⟩ : ∃ a, tryReceive (smallReaderCore (some fun _ _ _ => none)) smallProxy 0 .ample
      (.data firstChange) = some a := ⟨_, rfl⟩
  refine ⟨a, ha, ?_, (stored_or_not_acknowledged ha).1.2 fun wp' change h => ?_⟩
  · cases ha
    rfl
  · obtain ⟨rfl, hch⟩ := Prod.mk.inj (Option.some.inj h)
    obtain rfl := Option.some.inj hch
    exact trivial

/-- A payload that cannot be copied into the cache: the sample is nowhere, and acknowledged. -/
theorem uncopied_received : ∃ a, tryReceive (smallReaderCore none) smallProxy 0
      { ReaderMemory.ample with add := fun _ => { Memory.ample with copies := false } }
      (.data firstChange) = some a ∧
    a.failed = [1] ∧ 1 ∈ a.proxy.received ∧ a.proxy.received.cumulativeAck = 1 ∧
    a.core.cache.changes = [] :=
  ⟨_, rfl, rfl, by decide, by decide, rfl⟩

end Zzdds.Rtps
