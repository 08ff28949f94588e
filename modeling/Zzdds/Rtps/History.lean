import Zzdds.Rtps.Types

/-! # The history cache

`history.zig`: cache changes and the cache that keeps them, for writers (which assign the
sequence numbers) and readers (which take the writer's).  Under KEEP_LAST the cache makes room
before it adds, one instance at a time, so the change just added is always there:
`getChangeForWriter_addReaderChange`. -/

namespace Zzdds.Rtps

open Zzdds.Lib

/-- 16-byte instance handle; all zeroes for keyless types. -/
abbrev InstanceHandle := Bytes 16

def INSTANCE_HANDLE_NIL : InstanceHandle := Bytes.zeroes 16

inductive ChangeKind where
  | alive | notAliveDisposed | notAliveUnregistered
deriving DecidableEq, Repr

/-- One change of a history cache.  `writerGroupInfo` is set on the writer side only, and
`inlineLifespanNs` on the reader side only. -/
structure CacheChange where
  kind : ChangeKind
  writerGuid : Guid
  sequenceNumber : ℤ
  sourceTimestamp : RtpsTimestamp
  instanceHandle : InstanceHandle
  keyHash : KeyHash
  data : List UInt8
  coherentSetSn : Option ℤ := none
  groupSeqNum : Option ℤ := none
  groupCoherentSn : Option ℤ := none
  writerGroupInfo : Option (Bytes 4) := none
  inlineLifespanNs : Option ℤ := none
deriving DecidableEq, Repr

inductive HistoryKind where
  | keepLast | keepAll
deriving DecidableEq, Repr

/-- `depth` bounds the changes of each instance under KEEP_LAST; `nextSn` is the next number
a writer assigns. -/
structure HistoryCache where
  kind : HistoryKind
  depth : ℕ
  changes : List CacheChange
  nextSn : ℤ
deriving DecidableEq, Repr

namespace HistoryCache

/-- An empty cache; KEEP_LAST keeps at least one change. -/
def init (kind : HistoryKind) (depth : ℕ) : HistoryCache where
  kind := kind
  depth := if kind = .keepLast ∧ depth = 0 then 1 else depth
  changes := []
  nextSn := 1

/-- Remove the first `n` changes of an instance. -/
def evictOldest (ih : InstanceHandle) : ℕ → List CacheChange → List CacheChange
  | 0, changes => changes
  | _ + 1, [] => []
  | n + 1, ch :: changes =>
      if ch.instanceHandle = ih then evictOldest ih n changes
      else ch :: evictOldest ih (n + 1) changes

/-- Make room for one more change of an instance. -/
def trimForKeepLast (c : HistoryCache) (ih : InstanceHandle) : HistoryCache :=
  if c.kind = .keepLast ∧ c.depth ≠ 0 then
    let count := c.changes.countP (fun ch => ch.instanceHandle = ih)
    { c with changes := evictOldest ih (count + 1 - c.depth) c.changes }
  else c

/-! ### Writer side -/

/-- Add a change under the next sequence number. -/
def addWriterChange (c : HistoryCache) (kind : ChangeKind) (writerGuid : Guid)
    (sourceTimestamp : RtpsTimestamp) (instanceHandle : InstanceHandle) (keyHash : KeyHash)
    (data : List UInt8) : ℤ × HistoryCache :=
  let sn := c.nextSn
  let c := { c with nextSn := c.nextSn + 1 }.trimForKeepLast instanceHandle
  (sn, { c with
    changes := c.changes ++ [{
      kind := kind
      writerGuid := writerGuid
      sequenceNumber := sn
      sourceTimestamp := sourceTimestamp
      instanceHandle := instanceHandle
      keyHash := keyHash
      data := data }] })

/-- Take a sequence number without adding a change. -/
def allocSn (c : HistoryCache) : ℤ × HistoryCache := (c.nextSn, { c with nextSn := c.nextSn + 1 })

/-! ### Reader side -/

def isChange (writerGuid : Guid) (sn : ℤ) (ch : CacheChange) : Bool :=
  ch.sequenceNumber == sn && ch.writerGuid == writerGuid

/-- Add a change received from the wire; one already there, by writer and number, stays. -/
def addReaderChange (c : HistoryCache) (ch : CacheChange) : HistoryCache :=
  if c.changes.any (isChange ch.writerGuid ch.sequenceNumber) then c
  else
    let c := c.trimForKeepLast ch.instanceHandle
    { c with changes := c.changes ++ [ch] }

/-! ### Lookup and removal -/

def getChange (c : HistoryCache) (sn : ℤ) : Option CacheChange :=
  c.changes.find? (fun ch => ch.sequenceNumber == sn)

def getChangeForWriter (c : HistoryCache) (writerGuid : Guid) (sn : ℤ) : Option CacheChange :=
  c.changes.find? (isChange writerGuid sn)

/-- Remove a writer's changes up to `upToSn`: a prefix, since they are sorted. -/
def removeWriterChangesUpTo (c : HistoryCache) (upToSn : ℤ) : HistoryCache :=
  { c with changes := c.changes.dropWhile (fun ch => ch.sequenceNumber ≤ upToSn) }

/-- Smallest sequence number of the cache, or `0` if it is empty. -/
def minSn (c : HistoryCache) : ℤ :=
  match (c.changes.map (·.sequenceNumber)).min? with
  | none => 0
  | some m => m

/-- Largest sequence number of the cache, or `0` if it is empty. -/
def maxSn (c : HistoryCache) : ℤ := (c.changes.map (·.sequenceNumber)).foldl max 0

/-- A writer's cache holds a change with a number from `first` to `last`: the first change
from `first` on, which the source finds by bisection of the sorted cache, is not beyond
`last`. -/
def hasWriterChangeIn (c : HistoryCache) (first last : ℤ) : Bool :=
  if last < first then false
  else
    match c.changes.dropWhile (fun ch => ch.sequenceNumber < first) with
    | [] => false
    | ch :: _ => ch.sequenceNumber ≤ last

theorem maxSn_spec (c : HistoryCache) :
    0 ≤ c.maxSn ∧ ∀ ch ∈ c.changes, ch.sequenceNumber ≤ c.maxSn := by
  have hmax : ∀ (l : List ℤ) (n : ℤ), n ≤ l.foldl max n ∧ ∀ a ∈ l, a ≤ l.foldl max n := by
    intro l
    induction l with
    | nil => exact fun n => ⟨le_rfl, fun _ h => nomatch h⟩
    | cons a l ih =>
      intro n
      obtain ⟨h₁, h₂⟩ := ih (max n a)
      refine ⟨(le_max_left _ _).trans h₁, fun b hb => ?_⟩
      rcases List.mem_cons.mp hb with rfl | hb
      · exact (le_max_right _ _).trans h₁
      · exact h₂ b hb
  obtain ⟨h₀, hall⟩ := hmax (c.changes.map (·.sequenceNumber)) 0
  exact ⟨h₀, fun ch hm => hall _ (List.mem_map_of_mem hm)⟩

theorem evictOldest_sublist (ih : InstanceHandle) : ∀ (n : ℕ) (changes : List CacheChange),
    (evictOldest ih n changes).Sublist changes
  | 0, changes => by rw [evictOldest]
  | _ + 1, [] => by rw [evictOldest]
  | n + 1, ch :: changes => by
      rw [evictOldest]
      split
      · exact (evictOldest_sublist ih n changes).cons ch
      · exact (evictOldest_sublist ih (n + 1) changes).cons_cons ch

theorem trimForKeepLast_sublist (c : HistoryCache) (ih : InstanceHandle) :
    (c.trimForKeepLast ih).changes.Sublist c.changes := by
  unfold trimForKeepLast
  split
  · exact evictOldest_sublist ih _ _
  · exact List.Sublist.refl _

/-- A change just added is found, or the one that was there under its number. -/
theorem getChangeForWriter_addReaderChange (c : HistoryCache) (ch : CacheChange) :
    ∃ cached, (c.addReaderChange ch).getChangeForWriter ch.writerGuid ch.sequenceNumber =
        some cached ∧ cached.sequenceNumber = ch.sequenceNumber ∧
        cached.writerGuid = ch.writerGuid := by
  have hsome : ∃ cached, (c.addReaderChange ch).getChangeForWriter ch.writerGuid
      ch.sequenceNumber = some cached := by
    rw [← Option.isSome_iff_exists, getChangeForWriter, List.find?_isSome]
    unfold addReaderChange
    split
    next h => exact List.any_eq_true.mp h
    next h => exact ⟨ch, by simp, by simp [isChange]⟩
  obtain ⟨cached, hc⟩ := hsome
  have hp := List.find?_some hc
  simp only [isChange, Bool.and_eq_true, beq_iff_eq] at hp
  exact ⟨cached, hc, hp.1, hp.2⟩

end HistoryCache

end Zzdds.Rtps
