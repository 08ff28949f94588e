import Zzdds.Rtps.Writer.History

/-! # Writes that fail

`write` of `writer_sm.zig` with the memory it takes: for the copy of the payload, for the array of
the changes, and within a coherent set for the array of the set's numbers.  The last is asked for
when the change is already in the cache; `removeChange` takes it out again, but not what made way
for it, nor its number. -/

namespace Zzdds.Rtps.StatefulWriter

open Lib WriterHistory

/-- The room a writer's arrays have, and the changes room is reserved for. -/
structure WriterRoom where
  reserved : ℕ
  capacity : ℕ
  pendingCapacity : ℕ

/-- What the allocator answers a write: for the history, and for the array of pending numbers. -/
structure WriteMemory where
  history : Memory
  pending : ℕ → Option ℕ

variable (w : StatefulWriter) (room : WriterRoom) (mem : WriteMemory) (s : Sample)

def historyOf : WriterHistory :=
  { cache := w.cache, reserved := room.reserved, capacity := room.capacity }

/-- Whether one more pending number can be kept. -/
def pendingRoom : Bool :=
  decide (w.coherentPendingSns.length + 1 ≤ room.pendingCapacity) ||
    (mem.pending (w.coherentPendingSns.length + 1)).isSome

/-- The sample is in the cache, and is taken out again. -/
def rollBack : StatefulWriter :=
  { w.addSample s with
    cache := { (w.addSample s).cache with
      changes := (w.addSample s).cache.changes.eraseP fun ch =>
        ch.sequenceNumber == w.cache.nextSn } }

/-- `write`, which fails where memory does. -/
def tryWrite (suspended : Bool) : Except StatefulWriter (StatefulWriter × Option Task) :=
  match (w.historyOf room).makeRoom mem.history with
  | none => .error w
  | some _ =>
    if w.coherentActive && !w.pendingRoom room mem then .error (w.rollBack s)
    else .ok (w.write s suspended)

/-- The payload cannot be copied, or the array of the changes cannot grow. -/
def HistoryFails : Prop :=
  mem.history.copies = false ∨ room.capacity < w.cache.changes.length + room.reserved + 1 ∧
    mem.history.grows (w.cache.changes.length + room.reserved + 1) = none

variable {w room mem s} {w' : StatefulWriter} {h : WriterHistory}

theorem makeRoom_eq_none :
    (w.historyOf room).makeRoom mem.history = none ↔ w.HistoryFails room mem := by
  have hneed : (w.historyOf room).changes.length + (w.historyOf room).reserved + 1 =
      w.cache.changes.length + room.reserved + 1 := rfl
  have hcap : (w.historyOf room).capacity = room.capacity := rfl
  unfold WriterHistory.makeRoom WriterHistory.ensureTotalCapacity HistoryFails
  rw [hneed, hcap]
  cases hcopy : mem.history.copies with
  | false => exact iff_of_true rfl (.inl rfl)
  | true =>
    rw [if_pos rfl, Option.map_eq_none_iff, Memory.ensure_eq_none]
    exact ⟨.inr, fun h => h.resolve_left (by decide)⟩

theorem rollBack_nextSn : (w.rollBack s).cache.nextSn = w.cache.nextSn + 1 :=
  (trimmed_rest (w.historyOf ⟨0, 0, 0⟩) _).2.2

/-- **Failed writes.**  A write that fails leaves the history and the pending numbers as they were
just where the history itself had no memory; a failure for want of a pending number costs a number,
and the change that KEEP_LAST made way of. -/
theorem failed_write {suspended : Bool} (h : w.tryWrite room mem s suspended = .error w') :
    (w'.cache = w.cache ∧ w'.coherentPendingSns = w.coherentPendingSns) ↔
      w.HistoryFails room mem := by
  rw [← makeRoom_eq_none]
  unfold tryWrite at h
  split at h
  next hnone =>
    cases h
    exact iff_of_true ⟨rfl, rfl⟩ hnone
  next hsome =>
    split at h
    · cases h
      refine iff_of_false (fun heq => ?_) (by rw [hsome]; exact Option.some_ne_none _)
      have hnext := congrArg HistoryCache.nextSn heq.1
      rw [rollBack_nextSn] at hnext
      omega
    · cases h

/-- A writer with a sample of its only instance, with a coherent set begun. -/
def smallCoherent : StatefulWriter :=
  { (smallWriter .keepLast).writer.addSample (smallSample [1]) with coherentActive := true }

/-- An allocator with memory for the history only. -/
def historyOnly : WriteMemory := ⟨.ample, fun _ => none⟩

/-- The payload cannot be copied. -/
theorem failed_write_uncopied :
    let mem : WriteMemory := ⟨{ Memory.ample with copies := false }, some⟩
    (smallCoherent.cache = smallCoherent.cache ∧
      smallCoherent.coherentPendingSns = smallCoherent.coherentPendingSns) ↔
      smallCoherent.HistoryFails ⟨0, 1, 0⟩ mem :=
  @failed_write smallCoherent ⟨0, 1, 0⟩ _ (smallSample [2]) _ false rfl

/-- The set's number cannot be kept: the sample that was there is gone, and so is a number. -/
theorem failed_write_evicts : ∃ w', smallCoherent.tryWrite ⟨0, 1, 0⟩ historyOnly (smallSample [2])
      false = .error w' ∧
    smallCoherent.cache.changes.map (·.data) = [[1]] ∧ w'.cache.changes = [] ∧
    smallCoherent.cache.nextSn = 2 ∧ w'.cache.nextSn = 3 :=
  ⟨_, rfl, by decide, by decide, by decide, by decide⟩

end Zzdds.Rtps.StatefulWriter
