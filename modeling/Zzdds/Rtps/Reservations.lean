import Zzdds.Lib.Trapping
import Zzdds.Rtps.History

/-! # Room made ahead in a writer's history

`reserve`, `release` and `addReservedWriterChange` of `history.zig`.  The array of changes has room
for `capacity` of them, and adding one more than that stops the program. -/

namespace Zzdds.Rtps

open Lib Trapping

/-- `reserved` is how many changes room was made for that are not yet added. -/
structure ReservingCache extends HistoryCache where
  capacity : ℕ := 0
  reserved : ℕ := 0
deriving DecidableEq, Repr

namespace ReservingCache

variable (c : ReservingCache)

def init (kind : HistoryKind) (depth : ℕ) : ReservingCache where
  toHistoryCache := HistoryCache.init kind depth

/-- `spare` is the room a larger array has beyond `n`, or none where there is no memory for it. -/
def ensureTotalCapacity (n : ℕ) (spare : Option ℕ) : Option ReservingCache :=
  if n ≤ c.capacity then some c else spare.map fun spare => { c with capacity := n + spare }

def reserve (n : ℕ) (spare : Option ℕ) : Option ReservingCache :=
  (c.ensureTotalCapacity (c.changes.length + c.reserved + n) spare).map fun c =>
    { c with reserved := c.reserved + n }

def release (n : ℕ) : Option ReservingCache :=
  (sub c.reserved n).map fun reserved => { c with reserved := reserved }

/-- Add a change into room already made. -/
def addOwnedLocked (kind : ChangeKind) (writerGuid : Guid) (sourceTimestamp : RtpsTimestamp)
    (instanceHandle : InstanceHandle) (keyHash : KeyHash) (data : List UInt8) :
    Option (ℤ × ReservingCache) :=
  let (sn, added) := c.toHistoryCache.addWriterChange kind writerGuid sourceTimestamp
    instanceHandle keyHash data
  if added.changes.length ≤ c.capacity then some (sn, { c with toHistoryCache := added }) else none

/-- Add a change that takes one reserved slot, or else the slot of the change it replaces. -/
def addReservedWriterChange (kind : ChangeKind) (writerGuid : Guid)
    (sourceTimestamp : RtpsTimestamp) (instanceHandle : InstanceHandle) (keyHash : KeyHash)
    (data : List UInt8) (usesReservation : Bool) : Option (ℤ × ReservingCache) :=
  (if usesReservation then c.release 1 else some c).bind fun c =>
    c.addOwnedLocked kind writerGuid sourceTimestamp instanceHandle keyHash data

/-! ### What a cache has room for -/

/-- The cache holds a change of an instance. -/
def Holds (ih : InstanceHandle) : Prop := ∃ ch ∈ c.changes, ch.instanceHandle = ih

instance (ih : InstanceHandle) : Decidable (c.Holds ih) := by
  unfold Holds
  infer_instance

/-- One change is kept of each instance, and there is room for all reserved. -/
structure Roomy (c : ReservingCache) : Prop where
  kind : c.kind = .keepLast
  depth : c.depth = 1
  room : c.changes.length + c.reserved ≤ c.capacity

variable {c}

theorem roomy_init : (init .keepLast 1).Roomy := ⟨rfl, rfl, le_rfl⟩

/-- What is asked for fits in the array, and the rest is as before. -/
theorem reserve_spec {n : ℕ} {spare : Option ℕ} {c' : ReservingCache}
    (h : c.reserve n spare = some c') : c'.toHistoryCache = c.toHistoryCache ∧
      c'.reserved = c.reserved + n ∧ c'.changes.length + c'.reserved ≤ c'.capacity := by
  unfold reserve ensureTotalCapacity at h
  split at h
  next hfits =>
    cases h
    exact ⟨rfl, rfl, by dsimp only; omega⟩
  next =>
    obtain ⟨c₁, h₁, rfl⟩ := Option.map_eq_some_iff.mp h
    obtain ⟨r, -, rfl⟩ := Option.map_eq_some_iff.mp h₁
    exact ⟨rfl, rfl, by dsimp only; omega⟩

theorem Roomy.reserve {n : ℕ} {spare : Option ℕ} {c' : ReservingCache} (hc : c.Roomy)
    (h : c.reserve n spare = some c') : c'.Roomy := by
  obtain ⟨hcache, -, hroom⟩ := reserve_spec h
  exact ⟨hcache ▸ hc.kind, hcache ▸ hc.depth, hroom⟩

/-- Slots that were reserved can be given back. -/
theorem release_spec {n : ℕ} (hc : c.Roomy) (hn : n ≤ c.reserved) :
    ∃ c', c.release n = some c' ∧ c'.Roomy ∧ c'.toHistoryCache = c.toHistoryCache ∧
      c'.reserved = c.reserved - n ∧ c'.changes.length + c'.reserved + n ≤ c'.capacity := by
  have hroom := hc.room
  refine ⟨{ c with reserved := c.reserved - n }, ?_, ⟨hc.kind, hc.depth, ?_⟩, rfl, rfl, ?_⟩
  · rw [release, sub_of_le hn, Option.map_some]
  · dsimp only
    omega
  · dsimp only
    omega

end ReservingCache

/-! ### Adding a change -/

namespace HistoryCache

/-- Evicting as many changes of an instance as there are leaves none of it. -/
theorem evictOldest_countP (ih : InstanceHandle) : ∀ changes : List CacheChange,
    evictOldest ih (changes.countP fun ch => ch.instanceHandle = ih) changes =
      changes.filter fun ch => ch.instanceHandle ≠ ih
  | [] => by rw [List.countP_nil, evictOldest, List.filter_nil]
  | ch :: changes => by
      have htail := evictOldest_countP ih changes
      by_cases hch : ch.instanceHandle = ih
      · rw [List.countP_cons_of_pos (by simpa using hch), evictOldest, if_pos hch, htail,
          List.filter_cons_of_neg (by simpa using hch)]
      · rw [List.countP_cons_of_neg (by simpa using hch),
          List.filter_cons_of_pos (by simpa using hch), ← htail]
        cases changes.countP fun ch => ch.instanceHandle = ih with
        | zero => simp only [evictOldest]
        | succ n => rw [evictOldest, if_neg hch]

/-- Where one change is kept of each instance, room is made by dropping the one there is. -/
theorem trimForKeepLast_one {c : HistoryCache} (hkind : c.kind = .keepLast) (hdepth : c.depth = 1)
    (ih : InstanceHandle) : c.trimForKeepLast ih =
      { c with changes := c.changes.filter fun ch => ch.instanceHandle ≠ ih } := by
  rw [trimForKeepLast, if_pos ⟨hkind, hdepth ▸ one_ne_zero⟩, hdepth]
  dsimp only
  rw [Nat.add_sub_cancel, evictOldest_countP, ← hdepth]

end HistoryCache

namespace ReservingCache

variable {c : ReservingCache}

theorem mem_filter_or {ih ih' : InstanceHandle} {ch : CacheChange} (hch : ch.instanceHandle = ih) :
    (∃ ch' ∈ c.changes.filter (fun ch => ch.instanceHandle ≠ ih) ++ [ch],
      ch'.instanceHandle = ih') ↔ ih' = ih ∨ c.Holds ih' := by
  constructor
  · rintro ⟨ch', hmem, rfl⟩
    rcases List.mem_append.mp hmem with hmem | hmem
    · exact .inr ⟨ch', List.mem_of_mem_filter hmem, rfl⟩
    · exact .inl (List.mem_singleton.mp hmem ▸ hch)
  · intro h
    by_cases hih : ih' = ih
    · exact ⟨ch, List.mem_append_right _ (List.mem_singleton.mpr rfl), hch.trans hih.symm⟩
    · obtain ⟨ch', hmem, rfl⟩ := h.resolve_left hih
      exact ⟨ch', List.mem_append_left _ (List.mem_filter.mpr ⟨hmem, by simpa using hih⟩), rfl⟩

/-- There is room for a change where there is for more than are reserved, or where it replaces
one. -/
theorem addOwnedLocked_spec (hc : c.Roomy) (kind : ChangeKind) (guid : Guid) (now : RtpsTimestamp)
    (ih : InstanceHandle) (kh : KeyHash) (data : List UInt8)
    (hroom : c.changes.length + c.reserved + 1 ≤ c.capacity ∨ c.Holds ih) :
    ∃ sn c', c.addOwnedLocked kind guid now ih kh data = some (sn, c') ∧ c'.Roomy ∧
      c'.reserved = c.reserved ∧ ∀ ih', c'.Holds ih' ↔ ih' = ih ∨ c.Holds ih' := by
  have hlen : (c.changes.filter fun ch => ch.instanceHandle ≠ ih).length + 1 + c.reserved ≤
      c.capacity := by
    have hle := List.length_filter_le (fun ch => decide (ch.instanceHandle ≠ ih)) c.changes
    rcases hroom with hroom | ⟨ch, hmem, hih⟩
    · omega
    · have hlt : (c.changes.filter fun ch => ch.instanceHandle ≠ ih).length < c.changes.length :=
        List.length_filter_lt_length_iff_exists.mpr ⟨ch, hmem, by simpa using hih⟩
      have hfits := hc.room
      omega
  unfold addOwnedLocked HistoryCache.addWriterChange
  dsimp only
  rw [HistoryCache.trimForKeepLast_one (by exact hc.kind) (by exact hc.depth)]
  dsimp only
  rw [if_pos (by rw [List.length_append, List.length_singleton]; omega)]
  refine ⟨_, _, rfl, ⟨hc.kind, hc.depth, ?_⟩, rfl, fun ih' => mem_filter_or rfl⟩
  dsimp only
  rw [List.length_append, List.length_singleton]
  exact hlen

/-- A change is added with a slot reserved for it, or into the slot of the one it replaces. -/
theorem addReservedWriterChange_spec (hc : c.Roomy) (kind : ChangeKind) (guid : Guid)
    (now : RtpsTimestamp) (ih : InstanceHandle) (kh : KeyHash) (data : List UInt8)
    (usesReservation : Bool) (hslot : if usesReservation then 0 < c.reserved else c.Holds ih) :
    ∃ sn c', c.addReservedWriterChange kind guid now ih kh data usesReservation = some (sn, c') ∧
      c'.Roomy ∧ c'.reserved = c.reserved - (if usesReservation then 1 else 0) ∧
      ∀ ih', c'.Holds ih' ↔ ih' = ih ∨ c.Holds ih' := by
  cases usesReservation with
  | false => exact addOwnedLocked_spec hc kind guid now ih kh data (.inr hslot)
  | true =>
    have hpos : 1 ≤ c.reserved := hslot
    obtain ⟨c₁, hreleased, hc₁, hsame, hreserved, hroom⟩ := release_spec hc hpos
    obtain ⟨sn, c', hadded, hc', hkept, hholds⟩ :=
      addOwnedLocked_spec hc₁ kind guid now ih kh data (.inl hroom)
    refine ⟨sn, c', ?_, hc', hkept.trans hreserved, fun ih' => (hholds ih').trans ?_⟩
    · rw [addReservedWriterChange, if_pos rfl, hreleased, Option.bind_some, hadded]
    · rw [Holds, hsame, Holds]

end ReservingCache

end Zzdds.Rtps
