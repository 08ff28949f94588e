import Zzdds.Rtps.Reassembly

/-! # Data held for writers not matched yet

`unmatched_cache.zig`: one cache for all readers of a participant.  It holds whole samples and
partly reassembled ones, by writer, within `Limits`, until the writer is matched
(`Prematch.collect`) or the time of what is held runs out.

Writers are kept in a list instead of a hash map; no operation depends on their order.  The
byte count is an integer, so that an underflow of the source's `usize` would show as a
negative count.  Allocation succeeds.  `none` is a stop of the program: removal from an empty
list when a limit is zero, or one of the stops of `ReassemblyEntry`.

`AllEntries P` says that every entry held satisfies `P`.  `AllEntries.putFrag` is the rule
for a fragment: `P` has to be kept by the one entry the fragment is added to
(`UnmatchedCache.fragEntry`). -/

namespace Zzdds.Rtps

open Zzdds.Lib

structure Limits where
  maxBytes : ℕ
  maxWriters : ℕ
  maxSamplesPerWriter : ℕ
  maxPartialsPerWriter : ℕ
deriving DecidableEq, Repr

/-- A sample held, and the reader it was sent to. -/
structure HeldSample where
  change : CacheChange
  hasKeyHash : Bool
  target : EntityId
  expiresNs : ℤ
deriving DecidableEq, Repr

/-- A partly reassembled sample held. -/
structure HeldPartial where
  sn : ℤ
  target : EntityId
  expiresNs : ℤ
  entry : ReassemblyEntry
deriving DecidableEq, Repr

/-- What is held from one writer: samples in arrival order, reassemblies in the order they
were started. -/
structure HeldWriter where
  guid : Guid
  samples : List HeldSample := []
  partials : List HeldPartial := []
deriving DecidableEq, Repr

namespace HeldWriter

def isEmpty (w : HeldWriter) : Bool := w.samples.isEmpty && w.partials.isEmpty

/-- Bytes counted for the writer: samples, and the declared size of each reassembly. -/
def byteCount (w : HeldWriter) : ℤ :=
  (w.samples.map (fun s => (s.change.data.length : ℤ))).sum +
    (w.partials.map (fun p => (p.entry.dataSize : ℤ))).sum

def hasSample (w : HeldWriter) (sn : ℤ) (target : EntityId) : Bool :=
  w.samples.any (fun s => s.change.sequenceNumber == sn && s.target == target)

def partialIdx (w : HeldWriter) (sn : ℤ) (target : EntityId) : Option ℕ :=
  w.partials.findIdx? (fun p => p.sn == sn && p.target == target)

/-- Drop what has run out at `nowNs`. -/
def expire (w : HeldWriter) (nowNs : ℤ) : HeldWriter :=
  { w with
    samples := w.samples.filter (fun s => nowNs < s.expiresNs)
    partials := w.partials.filter (fun p => nowNs < p.expiresNs) }

end HeldWriter

structure UnmatchedCache where
  limits : Limits
  writers : List HeldWriter := []
  bytes : ℤ := 0
deriving DecidableEq, Repr

/-- What a reader that matches the writer takes: samples with whether each came with a key
hash, and reassemblies by sequence number. -/
structure Collected where
  samples : List (CacheChange × Bool) := []
  partials : List (ℤ × ReassemblyEntry) := []
deriving DecidableEq, Repr

namespace UnmatchedCache

def init (limits : Limits) : UnmatchedCache := { limits := limits }

def getPtr (c : UnmatchedCache) (writer : Guid) : Option HeldWriter :=
  c.writers.find? (fun w => w.guid == writer)

/-- Write back what is held from a writer. -/
def store (c : UnmatchedCache) (w : HeldWriter) : UnmatchedCache :=
  { c with writers := c.writers.map (fun w' => if w'.guid = w.guid then w else w') }

/-- Remove the writers `p` picks, with the bytes counted for them. -/
def removeWriters (c : UnmatchedCache) (p : HeldWriter → Bool) : UnmatchedCache :=
  { c with
    writers := c.writers.filter (fun w => !p w)
    bytes := c.bytes - ((c.writers.filter p).map HeldWriter.byteCount).sum }

def dropWriter (c : UnmatchedCache) (writer : Guid) : UnmatchedCache :=
  c.removeWriters (fun w => w.guid == writer)

def dropPrefix (c : UnmatchedCache) (sender : GuidPrefix) : UnmatchedCache :=
  c.removeWriters (fun w => w.guid.guidPrefix == sender)

def dropIfEmptyLocked (c : UnmatchedCache) (writer : Guid) : UnmatchedCache :=
  c.removeWriters (fun w => w.guid == writer && w.isEmpty)

/-- Drop everything that has run out at `nowNs`, and then the writers left with nothing. -/
def expireLocked (c : UnmatchedCache) (nowNs : ℤ) : UnmatchedCache :=
  let left : UnmatchedCache :=
    { c with
      writers := c.writers.map (·.expire nowNs)
      bytes := c.bytes -
        (c.writers.map (fun w => w.byteCount - (w.expire nowNs).byteCount)).sum }
  left.removeWriters HeldWriter.isEmpty

/-- Whether `n` more bytes fit, expiring what has run out if they do not yet. -/
def reserveLocked (c : UnmatchedCache) (n : ℕ) (nowNs : ℤ) : UnmatchedCache × Bool :=
  if c.bytes + n ≤ c.limits.maxBytes then (c, true)
  else
    let c := c.expireLocked nowNs
    (c, decide (c.bytes + n ≤ c.limits.maxBytes))

/-- The writer's entry, made if need be, unless the limit of writers is reached. -/
def writerLocked (c : UnmatchedCache) (writer : Guid) (nowNs : ℤ) :
    UnmatchedCache × Option HeldWriter :=
  match c.getPtr writer with
  | some w => (c, some w)
  | none =>
      let c := if c.limits.maxWriters ≤ c.writers.length then c.expireLocked nowNs else c
      if c.limits.maxWriters ≤ c.writers.length then (c, none)
      else
        let w : HeldWriter := { guid := writer }
        ({ c with writers := c.writers ++ [w] }, some w)

/-- Append a sample to those of `w`, dropping the earliest-arrived one at the limit. -/
def appendSampleLocked (c : UnmatchedCache) (w : HeldWriter) (s : HeldSample) :
    Option UnmatchedCache :=
  let added := { c with bytes := c.bytes + s.change.data.length }
  if c.limits.maxSamplesPerWriter ≤ w.samples.length then
    match w.samples with
    | [] => none
    | evicted :: rest =>
        some ({ added with bytes := added.bytes - evicted.change.data.length }.store
          { w with samples := rest ++ [s] })
  else some (added.store { w with samples := w.samples ++ [s] })

/-- Hold a copy of a change until `nowNs + ttlNs`, unless a limit stops it. -/
def put (c : UnmatchedCache) (writer : Guid) (target : EntityId) (change : CacheChange)
    (hasKeyHash : Bool) (nowNs ttlNs : ℤ) : Option UnmatchedCache :=
  if c.limits.maxBytes < change.data.length then some c
  else if (c.getPtr writer).any (·.hasSample change.sequenceNumber target) then some c
  else
    match c.reserveLocked change.data.length nowNs with
    | (c, false) => some c
    | (c, true) =>
        match c.writerLocked writer nowNs with
        | (c, none) => some c
        | (c, some w) => do
            let held := if hasKeyHash then change else { change with keyHash := Bytes.zeroes 16 }
            let c ← c.appendSampleLocked w ⟨held, hasKeyHash, target, nowNs + ttlNs⟩
            return c.dropIfEmptyLocked writer

/-- The sample a complete reassembly becomes. -/
def reassembled (writer : Guid) (p : HeldPartial) : HeldSample where
  change := {
    kind := .alive
    writerGuid := writer
    sequenceNumber := p.sn
    sourceTimestamp := p.entry.sourceTimestamp
    instanceHandle := INSTANCE_HANDLE_NIL
    keyHash := p.entry.keyHash
    data := p.entry.data
    coherentSetSn := p.entry.coherentSetSn
    groupSeqNum := p.entry.groupSeqNum
    groupCoherentSn := p.entry.groupCoherentSn }
  hasKeyHash := true
  target := p.target
  expiresNs := p.expiresNs

/-- Add a fragment to reassembly `idx` of `w`, which becomes a sample once complete. -/
def receiveFragLocked (c : UnmatchedCache) (w : HeldWriter) (idx : ℕ)
    (df : DataFragSubmessage) : Option UnmatchedCache :=
  match w.partials[idx]? with
  | none => none
  | some p => do
      let entry ← p.entry.accept df
      if entry.isComplete then
        let c := { c with bytes := c.bytes - entry.dataSize }
        c.appendSampleLocked { w with partials := w.partials.eraseIdx idx }
          (reassembled w.guid { p with entry := entry })
      else
        return c.store { w with partials := w.partials.set idx { p with entry := entry } }

/-- Make room for one more reassembly in `w`, dropping the earliest-started one at the
limit. -/
def evictPartial (c : UnmatchedCache) (w : HeldWriter) :
    Option (UnmatchedCache × List HeldPartial) :=
  if c.limits.maxPartialsPerWriter ≤ w.partials.length then
    match w.partials with
    | [] => none
    | evicted :: rest => some ({ c with bytes := c.bytes - evicted.entry.dataSize }, rest)
  else some (c, w.partials)

/-- Start a reassembly for `df` in `w` and add the fragment to it. -/
def startPartial (c : UnmatchedCache) (fresh : ℕ → UInt8) (w : HeldWriter) (target : EntityId)
    (df : DataFragSubmessage) (sourceTimestamp : RtpsTimestamp) (expiresNs : ℤ) :
    Option UnmatchedCache := do
  let (c, kept) ← c.evictPartial w
  match ← ReassemblyEntry.init fresh df sourceTimestamp with
  | none => return c.store { w with partials := kept }
  | some entry =>
      let c := { c with bytes := c.bytes + df.dataSize }
      c.receiveFragLocked
        { w with partials := kept ++ [⟨df.writerSn, target, expiresNs, entry⟩] } kept.length df

/-- Like `put`, for one DATA_FRAG of a sample. -/
def putFrag (c : UnmatchedCache) (fresh : ℕ → UInt8) (writer : Guid) (target : EntityId)
    (df : DataFragSubmessage) (sourceTimestamp : RtpsTimestamp) (nowNs ttlNs : ℤ) :
    Option UnmatchedCache :=
  if (c.getPtr writer).any (·.hasSample df.writerSn target) then some c
  else
    match (c.getPtr writer).bind (fun w => (w.partialIdx df.writerSn target).map (w, ·)) with
    | some (w, idx) => c.receiveFragLocked w idx df
    | none =>
        if c.limits.maxBytes < df.dataSize then some c
        else
          match c.reserveLocked df.dataSize nowNs with
          | (c, false) => some c
          | (c, true) =>
              match c.writerLocked writer nowNs with
              | (c, none) => some c
              | (c, some w) => do
                  let c ← c.startPartial fresh w target df sourceTimestamp (nowNs + ttlNs)
                  return c.dropIfEmptyLocked writer

/-! ### Collecting -/

def forReader (target reader : EntityId) : Bool := target == EntityId.unknown || target == reader

/-- Sort by sequence number and keep the first of each. -/
def sortAndDedupe (samples : List (CacheChange × Bool)) : List (CacheChange × Bool) :=
  (samples.insertionSort (fun a b => a.1.sequenceNumber ≤ b.1.sequenceNumber)).destutter
    (fun a b => a.1.sequenceNumber ≠ b.1.sequenceNumber)

/-- Copies of what `writer` sent `reader`. -/
def collect (c : UnmatchedCache) (writer : Guid) (reader : EntityId) : Collected :=
  match c.getPtr writer with
  | none => {}
  | some w =>
      { samples := sortAndDedupe ((w.samples.filter (fun s => forReader s.target reader)).map
          (fun s => (s.change, s.hasKeyHash)))
        partials := (w.partials.filter (fun p => forReader p.target reader)).map
          (fun p => (p.sn, p.entry)) }

end UnmatchedCache

/-- A newly matched writer's held data, for one reader: the cache and the reader's key-hash
functions. -/
structure Prematch where
  cache : UnmatchedCache
  keyHashFn : Option (List UInt8 → KeyHash) := none
  keyHashOnlyFn : Option (List UInt8 → KeyHash) := none

namespace Prematch

/-- The key hash of a held sample that came without one, from its payload: only the key for a
dispose or an unregister. -/
def withKeyHash (pm : Prematch) (ch : CacheChange) : CacheChange :=
  match (if ch.kind = .alive then pm.keyHashFn else pm.keyHashOnlyFn) with
  | none => ch
  | some f => { ch with keyHash := f ch.data }

def collect (pm : Prematch) (writer : Guid) (reader : EntityId) : Collected :=
  let out := pm.cache.collect writer reader
  { out with samples := out.samples.map (fun s => if s.2 then s else (pm.withKeyHash s.1, s.2)) }

end Prematch

/-! ### What is true of every entry held -/

/-- Every partly reassembled sample of the writer satisfies `P`. -/
def HeldWriter.AllEntries (P : ReassemblyEntry → Prop) (w : HeldWriter) : Prop :=
  ∀ p ∈ w.partials, P p.entry

namespace UnmatchedCache

variable {P : ReassemblyEntry → Prop} {c c' : UnmatchedCache} {w : HeldWriter}
  {fresh : ℕ → UInt8} {writer : Guid} {target : EntityId} {df : DataFragSubmessage}
  {sourceTimestamp : RtpsTimestamp} {nowNs ttlNs : ℤ}

/-- Every partly reassembled sample held satisfies `P`. -/
def AllEntries (P : ReassemblyEntry → Prop) (c : UnmatchedCache) : Prop :=
  ∀ w ∈ c.writers, w.AllEntries P

/-- The entry `putFrag` adds a fragment to, the limits permitting: the one started earlier, or
a new one. -/
def fragEntry (c : UnmatchedCache) (fresh : ℕ → UInt8) (writer : Guid) (target : EntityId)
    (df : DataFragSubmessage) (sourceTimestamp : RtpsTimestamp) : Option ReassemblyEntry :=
  if (c.getPtr writer).any (·.hasSample df.writerSn target) then none
  else
    match (c.getPtr writer).bind (fun w => (w.partialIdx df.writerSn target).map (w, ·)) with
    | some (w, idx) => w.partials[idx]?.map (·.entry)
    | none => (ReassemblyEntry.init fresh df sourceTimestamp).join

theorem AllEntries.withBytes (h : c.AllEntries P) (bytes : ℤ) :
    AllEntries P { c with bytes := bytes } := h

theorem AllEntries.getPtr (h : c.AllEntries P) (hw : c.getPtr writer = some w) :
    w.AllEntries P :=
  h w (List.mem_of_find?_eq_some hw)

theorem AllEntries.store (h : c.AllEntries P) (hw : w.AllEntries P) :
    (c.store w).AllEntries P := by
  intro w' hm
  obtain ⟨w₀, hm₀, rfl⟩ := List.mem_map.mp hm
  split
  · exact hw
  · exact h w₀ hm₀

theorem AllEntries.removeWriters (h : c.AllEntries P) (p : HeldWriter → Bool) :
    (c.removeWriters p).AllEntries P :=
  fun w hm => h w (List.mem_of_mem_filter hm)

theorem AllEntries.expireLocked (h : c.AllEntries P) (nowNs : ℤ) :
    (c.expireLocked nowNs).AllEntries P := by
  apply AllEntries.removeWriters
  intro w hm p hp
  obtain ⟨w₀, hm₀, rfl⟩ := List.mem_map.mp hm
  exact h w₀ hm₀ p (List.mem_of_mem_filter hp)

theorem AllEntries.reserveLocked (h : c.AllEntries P) (n : ℕ) (nowNs : ℤ) :
    (c.reserveLocked n nowNs).1.AllEntries P := by
  unfold UnmatchedCache.reserveLocked
  split
  · exact h
  · exact h.expireLocked nowNs

theorem AllEntries.writerLocked (h : c.AllEntries P) (writer : Guid) (nowNs : ℤ) :
    (c.writerLocked writer nowNs).1.AllEntries P ∧
      ∀ w, (c.writerLocked writer nowNs).2 = some w → w.AllEntries P := by
  unfold UnmatchedCache.writerLocked
  split
  next w hw => exact ⟨h, fun w' hw' => by cases hw'; exact h.getPtr hw⟩
  next =>
    have hc : (if c.limits.maxWriters ≤ c.writers.length then c.expireLocked nowNs
        else c).AllEntries P := by
      split
      · exact h.expireLocked nowNs
      · exact h
    simp only
    generalize (if c.limits.maxWriters ≤ c.writers.length then c.expireLocked nowNs else c) = c₁
      at hc
    split
    · exact ⟨hc, fun w' hw' => nomatch hw'⟩
    · refine ⟨fun w' hm => ?_, fun w' hw' => ?_⟩
      · rcases List.mem_append.mp hm with hm | hm
        · exact hc w' hm
        · cases List.mem_singleton.mp hm
          exact fun p hp => nomatch hp
      · cases hw'
        exact fun p hp => nomatch hp

theorem AllEntries.appendSampleLocked {s : HeldSample} (h : c.AllEntries P)
    (hw : w.AllEntries P) (ha : c.appendSampleLocked w s = some c') : c'.AllEntries P := by
  unfold UnmatchedCache.appendSampleLocked at ha
  simp only at ha
  split at ha
  · split at ha
    · cases ha
    next evicted rest hs =>
      cases ha
      exact (h.withBytes _).store hw
  · cases ha
    exact (h.withBytes _).store hw

/-- Holding a sample leaves the entries alone. -/
theorem AllEntries.put {change : CacheChange} {hasKeyHash : Bool} (h : c.AllEntries P)
    (hp : c.put writer target change hasKeyHash nowNs ttlNs = some c') : c'.AllEntries P := by
  unfold UnmatchedCache.put at hp
  split at hp
  · cases hp
    exact h
  split at hp
  · cases hp
    exact h
  have hr := h.reserveLocked change.data.length nowNs
  split at hp
  next c₁ heq =>
    rw [heq] at hr
    cases hp
    exact hr
  next c₁ heq =>
    rw [heq] at hr
    have hwl := hr.writerLocked writer nowNs
    split at hp
    next c₂ heq' =>
      rw [heq'] at hwl
      cases hp
      exact hwl.1
    next c₂ w heq' =>
      rw [heq'] at hwl
      simp only [Option.bind_eq_bind, Option.bind_eq_some_iff] at hp
      obtain ⟨c₃, ha, hc⟩ := hp
      cases hc
      exact (hwl.1.appendSampleLocked (hwl.2 w rfl) ha).removeWriters _

/-- A fragment changes the entry it is added to, and no other. -/
theorem AllEntries.receiveFragLocked {idx : ℕ} (h : c.AllEntries P) (hw : w.AllEntries P)
    (hP : ∀ p e', w.partials[idx]? = some p → p.entry.accept df = some e' → P e')
    (hr : c.receiveFragLocked w idx df = some c') : c'.AllEntries P := by
  unfold UnmatchedCache.receiveFragLocked at hr
  split at hr
  · cases hr
  next p hp =>
    simp only [Option.bind_eq_bind, Option.bind_eq_some_iff] at hr
    obtain ⟨entry, hacc, hr⟩ := hr
    split at hr
    · refine (h.withBytes _).appendSampleLocked ?_ hr
      exact fun q hq => hw q (List.mem_of_mem_eraseIdx hq)
    · cases hr
      refine h.store fun q hq => ?_
      rcases List.mem_or_eq_of_mem_set hq with hq | rfl
      · exact hw q hq
      · exact hP p entry hp hacc

theorem AllEntries.startPartial {expiresNs : ℤ} (h : c.AllEntries P) (hw : w.AllEntries P)
    (hfresh : ∀ e, ReassemblyEntry.init fresh df sourceTimestamp = some (some e) → P e)
    (hP : ∀ e e', ReassemblyEntry.init fresh df sourceTimestamp = some (some e) →
      e.accept df = some e' → P e')
    (hs : c.startPartial fresh w target df sourceTimestamp expiresNs = some c') :
    c'.AllEntries P := by
  unfold UnmatchedCache.startPartial at hs
  simp only [Option.bind_eq_bind, Option.bind_eq_some_iff] at hs
  obtain ⟨⟨c₁, kept⟩, hkept, e?, hinit, hs⟩ := hs
  have hc₁ : c₁.AllEntries P ∧ ∀ p ∈ kept, P p.entry := by
    unfold evictPartial at hkept
    split at hkept
    · split at hkept
      · cases hkept
      next evicted rest hpart =>
        cases hkept
        refine ⟨h, fun p hp => hw p ?_⟩
        rw [hpart]
        exact List.mem_cons_of_mem evicted hp
    · cases hkept
      exact ⟨h, hw⟩
  cases e? with
  | none =>
    cases hs
    exact hc₁.1.store hc₁.2
  | some e =>
    refine (hc₁.1.withBytes _).receiveFragLocked (fun p hp => ?_)
      (fun p e' hp hacc => ?_) hs
    · rcases List.mem_append.mp hp with hp | hp
      · exact hc₁.2 p hp
      · cases List.mem_singleton.mp hp
        exact hfresh e hinit
    · rw [List.getElem?_append_right le_rfl, Nat.sub_self] at hp
      cases hp
      exact hP e e' hinit hacc

/-- Whatever is true of every entry stays so, if it is true of new entries and of the one the
fragment was added to. -/
theorem AllEntries.putFrag (h : c.AllEntries P)
    (hfresh : ∀ e, ReassemblyEntry.init fresh df sourceTimestamp = some (some e) → P e)
    (hP : ∀ e e', c.fragEntry fresh writer target df sourceTimestamp = some e →
      e.accept df = some e' → P e')
    (hp : c.putFrag fresh writer target df sourceTimestamp nowNs ttlNs = some c') :
    c'.AllEntries P := by
  unfold UnmatchedCache.putFrag at hp
  unfold fragEntry at hP
  split at hp
  · cases hp
    exact h
  next hsample =>
    rw [if_neg hsample] at hP
    split at hp
    next w idx hidx =>
      rw [hidx] at hP
      have hw : c.getPtr writer = some w := by
        obtain ⟨w', hw', hidx⟩ := Option.bind_eq_some_iff.mp hidx
        obtain ⟨i, -, hi⟩ := Option.map_eq_some_iff.mp hidx
        cases hi
        exact hw'
      refine h.receiveFragLocked (h.getPtr hw) (fun p e' hp hacc => ?_) hp
      exact hP p.entry e' (by simp [hp]) hacc
    next hnone =>
      rw [hnone] at hP
      split at hp
      · cases hp
        exact h
      have hr := h.reserveLocked df.dataSize nowNs
      split at hp
      next c₁ heq =>
        rw [heq] at hr
        cases hp
        exact hr
      next c₁ heq =>
        rw [heq] at hr
        have hwl := hr.writerLocked writer nowNs
        split at hp
        next c₂ heq' =>
          rw [heq'] at hwl
          cases hp
          exact hwl.1
        next c₂ w heq' =>
          rw [heq'] at hwl
          simp only [Option.bind_eq_bind, Option.bind_eq_some_iff] at hp
          obtain ⟨c₃, hs, hc⟩ := hp
          cases hc
          refine AllEntries.removeWriters (hwl.1.startPartial (hwl.2 w rfl) hfresh ?_ hs) _
          intro e e' hinit hacc
          exact hP e e' (by simp [hinit]) hacc

/-- What a reader collects satisfies it too. -/
theorem AllEntries.collect (h : c.AllEntries P) (reader : EntityId) :
    ∀ q ∈ (c.collect writer reader).partials, P q.2 := by
  intro q hq
  unfold UnmatchedCache.collect at hq
  split at hq
  · cases hq
  next w hw =>
    obtain ⟨p, hp, rfl⟩ := List.mem_map.mp hq
    exact h.getPtr hw p (List.mem_of_mem_filter hp)

end UnmatchedCache

end Zzdds.Rtps
