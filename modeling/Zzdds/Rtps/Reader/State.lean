import Zzdds.Rtps.Message.Builder
import Zzdds.Rtps.ReceivedSet
import Zzdds.Rtps.UnmatchedCache

/-! # The reader's state

`StatefulReader` and `WriterProxy` of `reader_sm.zig`.  A proxy is found by its GUID, and the
reader carries that no two proxies share one.  What a reader does to the outside (the data
callbacks, the ready notifications and the messages it sends) is its `log`, in order; a change
handed over is recorded with the proxy it came through.

Allocation succeeds.  The `on_flush` notification, which only says that a data callback ran,
is left out.  Sequence numbers are integers, so that an overflow of the source's `i64` next
to its largest value is not a stop here. -/

namespace Zzdds.Rtps

open Zzdds.Lib

/-- An end-of-coherent-set marker: an alive change without payload that is in no coherent set,
or ends a group coherent set. -/
def isEndMarker (change : CacheChange) : Bool :=
  change.kind == .alive && change.data.isEmpty &&
    (change.coherentSetSn.isNone || change.groupCoherentSn.isSome)

/-- Which of the optional callbacks are registered; `on_data` always is. -/
structure DataCallback where
  onSampleLost : Bool
  onEoc : Bool
deriving DecidableEq, Repr

/-- What a reader does to the outside. -/
inductive ReaderEvent where
  | onData (writer : Guid) (change : CacheChange)
  | onEoc (writer : Guid) (change : CacheChange)
  | onSampleLost (count : ℕ)
  | ready (writer : Guid) (isReady : Bool)
  | send (locators : List Locator) (message : List BuilderCall)
deriving DecidableEq, Repr

/-! ### Writer proxies -/

/-- What a reader tracks for a matched writer. -/
structure WriterProxy where
  guid : Guid
  selectedLocators : List Locator
  received : ReceivedSet := ReceivedSet.empty
  pendingChanges : List CacheChange := []
  lastHbCount : Option Int32 := none
  lastHbFragCount : Option Int32 := none
  reliable : Bool
  historyFloorSn : ℤ := 0
  historyEstablished : Bool := true
  reassembly : List (ℤ × ReassemblyEntry) := []
  protocolReady : Bool := false
  isLocal : Bool := false

/-- A count newer than the last one accepted: the difference, as a signed 32-bit number, is
positive. -/
def isNewerCount (count : Int32) : Option Int32 → Bool
  | none => true
  | some last => decide (0 < (count - last))

namespace WriterProxy

/-- The numbers this reader misses up to `lastSn`: a window of at most 256 from the first. -/
def missingSnSet (wp : WriterProxy) (lastSn : ℤ) : SequenceNumberSet :=
  let base := wp.received.cumulativeAck + 1
  if lastSn < base then ⟨lastSn + 1, 0, Bitmap.zeroes⟩
  else
    let numBits := min (lastSn - base + 1).toNat 256
    ⟨base, numBits, (List.range numBits).foldl
      (fun m (offset : ℕ) => if wp.received.contains (base + offset) then m else m.setBit offset)
      Bitmap.zeroes⟩

def getReassembly (wp : WriterProxy) (sn : ℤ) : Option ReassemblyEntry :=
  (wp.reassembly.find? (fun q => q.1 == sn)).map (·.2)

def removeReassembly (wp : WriterProxy) (sn : ℤ) : WriterProxy :=
  { wp with reassembly := wp.reassembly.filter (fun q => q.1 != sn) }

def putReassembly (wp : WriterProxy) (sn : ℤ) (entry : ReassemblyEntry) : WriterProxy :=
  { wp with reassembly := (sn, entry) :: (wp.removeReassembly sn).reassembly }

/-- Drop the reassemblies below `sn`, which can no longer be delivered. -/
def dropReassemblyBelow (wp : WriterProxy) (sn : ℤ) : WriterProxy :=
  { wp with reassembly := wp.reassembly.filter (fun q => !decide (q.1 < sn)) }

/-- Samples up to the history floor never delivered. -/
def undeliveredHistory (wp : WriterProxy) : ℤ :=
  if !wp.historyEstablished then 0
  else
    let ack := wp.received.cumulativeAck
    if wp.historyFloorSn ≤ ack then 0
    else
      let missing := (List.range (wp.historyFloorSn - ack).toNat).countP
        (fun i => !wp.received.contains (ack + 1 + i))
      let held := wp.pendingChanges.countP
        (fun ch => decide (ch.sequenceNumber ≤ wp.historyFloorSn) && !isEndMarker ch)
      min (missing + held) (2 ^ 31 - 1)

end WriterProxy

/-! ### The reader -/

/-- A check or transform of a sample before it is admitted; `none` refuses it. -/
abbrev SampleProcessor := List UInt8 → ChangeKind → KeyHash → Option KeyHash

/-- The part of a reader that its proxies share. -/
structure ReaderCore where
  guid : Guid
  cache : HistoryCache
  callback : Option DataCallback
  sampleProcessor : Option SampleProcessor := none
  reliable : Bool
  ackCount : Int32 := 0
  protocolReadyFn : Bool := false
  log : List ReaderEvent := []

structure StatefulReader where
  core : ReaderCore
  writerProxies : List WriterProxy
  everMatchedWriter : Bool := false
  nodup : (writerProxies.map (·.guid)).Nodup

namespace ReaderCore

def emit (core : ReaderCore) (ev : ReaderEvent) : ReaderCore :=
  { core with log := core.log ++ [ev] }

/-- Report lost samples, if there are any and the callback takes the report. -/
def reportLost (core : ReaderCore) (count : ℕ) : ReaderCore :=
  if 0 < count ∧ core.callback.any (·.onSampleLost) then core.emit (.onSampleLost count)
  else core

def reportReady (core : ReaderCore) (writer : Guid) (isReady : Bool) : ReaderCore :=
  if core.protocolReadyFn then core.emit (.ready writer isReady) else core

end ReaderCore

namespace StatefulReader

/-- The proxy of a matched writer. -/
def find (r : StatefulReader) (writer : Guid) : Option WriterProxy :=
  r.writerProxies.find? (fun wp => wp.guid == writer)

/-- Write back a proxy and the shared part. -/
def setProxy (r : StatefulReader) (core : ReaderCore) (wp : WriterProxy) : StatefulReader where
  core := core
  writerProxies := r.writerProxies.map (fun wp' => if wp'.guid = wp.guid then wp else wp')
  everMatchedWriter := r.everMatchedWriter
  nodup := by
    have h : (r.writerProxies.map (fun wp' => if wp'.guid = wp.guid then wp else wp')).map
        (·.guid) = r.writerProxies.map (·.guid) := by
      rw [List.map_map]
      apply List.map_congr_left
      intro wp' _
      by_cases e : wp'.guid = wp.guid <;> simp [e]
    rw [h]
    exact r.nodup

/-- Add a proxy for a writer that has none. -/
def appendProxy (r : StatefulReader) (wp : WriterProxy) (h : r.find wp.guid = none) :
    StatefulReader where
  core := r.core
  writerProxies := r.writerProxies ++ [wp]
  everMatchedWriter := true
  nodup := by
    simp only [List.map_append, List.map_cons, List.map_nil]
    rw [List.nodup_append]
    refine ⟨r.nodup, List.nodup_singleton _, ?_⟩
    rintro g hg g' hg' rfl
    obtain ⟨wp', hm, he⟩ := List.mem_map.mp hg
    have hne := List.find?_eq_none.mp h wp' hm
    rw [List.mem_singleton.mp hg'] at he
    simp [he] at hne

/-- Remove a writer's proxy. -/
def removeProxy (r : StatefulReader) (writer : Guid) : StatefulReader where
  core := r.core
  writerProxies := r.writerProxies.filter (fun wp => wp.guid != writer)
  everMatchedWriter := r.everMatchedWriter
  nodup := r.nodup.sublist (List.filter_sublist.map _)

/-- The numbers received from a writer during its match. -/
def receivedFrom (r : StatefulReader) (writer : Guid) : ReceivedSet :=
  match r.find writer with
  | none => ReceivedSet.empty
  | some wp => wp.received

variable {r : StatefulReader} {wp : WriterProxy} {core : ReaderCore} {g : Guid}

theorem find_guid (h : r.find g = some wp) : wp.guid = g := by
  simpa using List.find?_some h

theorem find_setProxy (h : (r.find wp.guid).isSome) :
    (r.setProxy core wp).find wp.guid = some wp := by
  obtain ⟨wp₀, h₀⟩ := Option.isSome_iff_exists.mp h
  unfold find at h₀ ⊢
  simp only [setProxy, List.find?_map]
  have hcomp : ((fun wp' : WriterProxy => wp'.guid == wp.guid) ∘
      fun wp' => if wp'.guid = wp.guid then wp else wp') = fun wp' => wp'.guid == wp.guid := by
    funext wp'
    by_cases e : wp'.guid = wp.guid <;> simp [e]
  rw [hcomp, h₀]
  have : wp₀.guid = wp.guid := by simpa using List.find?_some h₀
  simp [this]

theorem find_setProxy_ne (h : g ≠ wp.guid) : (r.setProxy core wp).find g = r.find g := by
  unfold find
  simp only [setProxy, List.find?_map]
  have hcomp : ((fun wp' : WriterProxy => wp'.guid == g) ∘
      fun wp' => if wp'.guid = wp.guid then wp else wp') = fun wp' => wp'.guid == g := by
    funext wp'
    by_cases e : wp'.guid = wp.guid <;> simp [e]
  rw [hcomp]
  cases hf : r.writerProxies.find? (fun wp' => wp'.guid == g) with
  | none => rfl
  | some wp' =>
    have he : wp'.guid = g := by simpa using List.find?_some hf
    have : ¬ wp'.guid = wp.guid := fun e => h (he ▸ e)
    simp [this]

theorem find_appendProxy (h : r.find wp.guid = none) :
    (r.appendProxy wp h).find wp.guid = some wp := by
  have h' := h
  unfold find at h' ⊢
  simp only [appendProxy, List.find?_append, h']
  simp

theorem find_appendProxy_ne (h : r.find wp.guid = none) (hne : g ≠ wp.guid) :
    (r.appendProxy wp h).find g = r.find g := by
  unfold find
  have : ¬ wp.guid = g := fun e => hne e.symm
  simp [appendProxy, List.find?_append, this]

theorem find_removeProxy_ne {writer : Guid} (hne : g ≠ writer) :
    (r.removeProxy writer).find g = r.find g := by
  unfold find
  simp only [removeProxy, List.find?_filter]
  congr 1
  funext wp'
  by_cases e : wp'.guid = g
  · simp [e, hne]
  · simp [e]

end StatefulReader

end Zzdds.Rtps
