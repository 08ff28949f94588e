import Zzdds.Rtps.Reader.Delivery

/-! # Where reassembled bytes come from

The receiving side of a participant, as far as fragments go: the cache for unmatched writers
and a reader, with the steps of both (`ReceiveSide.step`); a match takes what the cache holds.

`receiveFrag` counts a fragment as received whether or not the payload was long enough to copy
it.  `run_byteSafe`: along every run in which each fragment's payload holds what it newly
marks (`ReceiveOp.Fits`), every entry a fragment was added to has its received fragments from
payloads at the matching offsets, and all its bytes once it is complete.
`shortFragment_not_byteSafe` is what happens otherwise. -/

namespace Zzdds.Rtps

open Zzdds.Lib

/-! ### The reassemblies of a proxy -/

variable {P : ReassemblyEntry → Prop} {core : ReaderCore} {wp wp' : WriterProxy}
  {r r' : StatefulReader}

def WriterProxy.AllEntries (P : ReassemblyEntry → Prop) (wp : WriterProxy) : Prop :=
  ∀ q ∈ wp.reassembly, P q.2

theorem WriterProxy.AllEntries.of_subset (h : wp.AllEntries P)
    (hs : wp'.reassembly ⊆ wp.reassembly) : wp'.AllEntries P :=
  fun q hq => h q (hs hq)

theorem WriterProxy.AllEntries.putReassembly {entry : ReassemblyEntry} {sn : ℤ}
    (h : wp.AllEntries P) (he : P entry) : (wp.putReassembly sn entry).AllEntries P := by
  intro q hq
  rcases List.mem_cons.mp hq with rfl | hq
  · exact he
  · exact h q (List.mem_of_mem_filter hq)

theorem WriterProxy.getReassembly_mem {sn : ℤ} {e : ReassemblyEntry}
    (h : wp.getReassembly sn = some e) : ∃ q ∈ wp.reassembly, q.2 = e := by
  obtain ⟨q, hq, rfl⟩ := Option.map_eq_some_iff.mp h
  exact ⟨q, List.mem_of_find?_eq_some hq, rfl⟩

theorem deliverPendingLoop_reassembly : ∀ (n : ℕ) (nextSn : ℤ) (core : ReaderCore)
    (wp : WriterProxy), (deliverPendingLoop n nextSn core wp).2.reassembly = wp.reassembly
  | 0, _, _, _ => rfl
  | n + 1, nextSn, core, wp => by
      rw [deliverPendingLoop]
      split
      · exact deliverPendingLoop_reassembly n _ core wp
      · exact deliverPendingLoop_reassembly n _ _ _

/-- Delivery drops reassemblies and starts none. -/
theorem deliverChangeLocked_reassembly (core : ReaderCore) (wp : WriterProxy)
    (ch : CacheChange) :
    (deliverChangeLocked core wp ch).2.reassembly ⊆ wp.reassembly := by
  unfold deliverChangeLocked
  split
  · exact List.Subset.refl _
  · simp only
    split
    · split
      · rw [deliverPendingLocked, deliverPendingLoop_reassembly]
        exact List.Subset.refl _
      · split <;> exact List.Subset.refl _
    · split
      · exact List.Subset.refl _
      · exact List.filter_subset_self _

theorem handleDataLocked_reassembly (core : ReaderCore) (wp : WriterProxy) (ch : CacheChange) :
    (handleDataLocked core wp ch).2.reassembly ⊆ wp.reassembly := by
  unfold handleDataLocked
  split
  · exact List.Subset.refl _
  · exact deliverChangeLocked_reassembly core wp ch

theorem advancePast_reassembly {sns : List ℤ} {out : ReaderCore × WriterProxy × ℕ}
    (h : advancePast core wp sns = some out) : out.2.1.reassembly = wp.reassembly := by
  obtain ⟨wp₁, rfl, -, -, hout⟩ := advancePast_eq h
  have h₂ := congrArg Prod.snd hout
  simp only at h₂
  rw [h₂]
  split
  · exact deliverPendingLoop_reassembly _ _ _ _
  · rfl

/-- A fragment changes the entry it is added to, and no other. -/
theorem handleDataFragLocked_allEntries {fresh : ℕ → UInt8} {ts : RtpsTimestamp}
    {df : DataFragSubmessage} {out : ReaderCore × WriterProxy} (h : wp.AllEntries P)
    (hP : ∀ e e', fragEntryLocked core wp fresh ts df = some (some e) →
      e.accept df = some e' → P e')
    (hf : handleDataFragLocked core wp fresh ts df = some out) : out.2.AllEntries P := by
  rcases handleDataFragLocked_cases hf with rfl | ⟨e, entry, he, hacc, hout⟩
  · exact h
  · have hput := @WriterProxy.AllEntries.putReassembly _ _ _ df.writerSn h (hP e entry he hacc)
    rcases hout with ⟨-, rfl⟩ | ⟨-, -, h₂⟩
    · exact hput
    · rw [h₂]
      refine hput.of_subset ?_
      exact List.Subset.trans (List.filter_subset_self _) (deliverChangeLocked_reassembly _ _ _)

theorem takePrematchLocked_allEntries {held : Collected} (h : wp.AllEntries P)
    (hheld : ∀ q ∈ held.partials, P q.2) :
    (takePrematchLocked core wp held).2.AllEntries P := by
  have hsamples : ∀ (samples : List (CacheChange × Bool)) (acc : ReaderCore × WriterProxy),
      acc.2.AllEntries P →
        (samples.foldl (fun acc s => handleDataLocked acc.1 acc.2 s.1) acc).2.AllEntries P := by
    intro samples
    induction samples with
    | nil =>
      intro acc hacc
      exact hacc
    | cons s samples ih =>
      intro acc hacc
      exact ih _ (hacc.of_subset (handleDataLocked_reassembly acc.1 acc.2 s.1))
  have hpartials : ∀ (core : ReaderCore) (partials : List (ℤ × ReassemblyEntry))
      (wp : WriterProxy), (∀ q ∈ partials, P q.2) → wp.AllEntries P →
        (partials.foldl (takePartial core) wp).AllEntries P := by
    intro core partials
    induction partials with
    | nil =>
      intro wp _ hwp
      exact hwp
    | cons q partials ih =>
      intro wp hq hwp
      refine ih _ (fun q' hq' => hq q' (List.mem_cons_of_mem q hq')) ?_
      unfold takePartial
      split
      · exact hwp
      · split
        · exact hwp
        · exact hwp.putReassembly (hq q List.mem_cons_self)
  exact hpartials _ _ _ (fun q hq => hheld q (List.mem_reverse.mp hq))
    (hsamples held.samples (core, wp) h)

/-! ### The reassemblies of a reader -/

/-- The fragment a step brings. -/
def ReaderOp.frag : ReaderOp → Option DataFragSubmessage
  | dataFrag _ _ _ df => some df
  | _ => none

namespace StatefulReader

/-- Every reassembly of every proxy satisfies `P`. -/
def AllEntries (P : ReassemblyEntry → Prop) (r : StatefulReader) : Prop :=
  ∀ wp ∈ r.writerProxies, wp.AllEntries P

theorem AllEntries.find {g : Guid} (h : r.AllEntries P) (hw : r.find g = some wp) :
    wp.AllEntries P :=
  h wp (List.mem_of_find?_eq_some hw)

theorem AllEntries.setProxy (h : r.AllEntries P) (hw : wp.AllEntries P) :
    (r.setProxy core wp).AllEntries P := by
  intro wp' hm
  obtain ⟨wp₀, hm₀, rfl⟩ := List.mem_map.mp hm
  split
  · exact hw
  · exact h wp₀ hm₀

theorem AllEntries.onProxy {w : Guid}
    {f : ReaderCore → WriterProxy → Option (ReaderCore × WriterProxy)} (h : r.AllEntries P)
    (hon : r.onProxy w f = some r')
    (hf : ∀ wp out, r.find w = some wp → wp.AllEntries P → f r.core wp = some out →
      out.2.AllEntries P) : r'.AllEntries P := by
  rcases onProxy_cases hon with ⟨-, rfl⟩ | ⟨wp, out, hw, hout, rfl⟩
  · exact h
  · exact h.setProxy (hf wp out hw (h.find hw) hout)

/-- The entry a step adds a fragment to. -/
def fragEntry (r : StatefulReader) : ReaderOp → Option ReassemblyEntry
  | .dataFrag writer fresh ts df =>
      (r.find writer).bind (fun wp => (fragEntryLocked r.core wp fresh ts df).join)
  | _ => none

/-- Whatever is true of every reassembly stays so, if it is true of what a match takes and of
the entry a fragment was added to. -/
theorem AllEntries.step {op : ReaderOp} (h : r.AllEntries P)
    (hheld : ∀ m pm isCurrent, op = .matchWriter m (some pm) isCurrent →
      ∀ q ∈ (pm.collect m.guid r.core.guid.entityId).partials, P q.2)
    (hP : ∀ df e e', op.frag = some df → r.fragEntry op = some e → e.accept df = some e' → P e')
    (hs : r.step op = some r') : r'.AllEntries P := by
  cases op with
  | data w change =>
    rw [StatefulReader.step] at hs
    refine h.onProxy hs (fun wp out _ hw hout => ?_)
    cases hout
    exact hw.of_subset (handleDataLocked_reassembly r.core wp change)
  | dataFrag w fresh ts df =>
    rw [StatefulReader.step] at hs
    refine h.onProxy hs (fun wp out hfind hw hout => ?_)
    refine handleDataFragLocked_allEntries hw (fun e e' he hacc => ?_) hout
    refine hP df e e' rfl ?_ hacc
    simp [fragEntry, hfind, he]
  | heartbeat w readerId firstSn lastSn count final =>
    simp only [StatefulReader.step] at hs
    split at hs
    · cases hs
      exact h
    · refine h.onProxy hs (fun wp out _ hw hout => ?_)
      rcases handleHeartbeatLocked_cases hout with rfl | ⟨adv, hadv, h₂, -⟩
      · exact hw
      · refine hw.of_subset ?_
        rw [h₂, advancePast_reassembly hadv]
        exact List.Subset.refl _
  | heartbeatFrag w sn last count =>
    rw [StatefulReader.step] at hs
    refine h.onProxy hs (fun wp out _ hw hout => ?_)
    cases hout
    obtain ⟨-, c, hc⟩ := handleHeartbeatFragLocked_appends ∅ r.core wp sn last count
    rw [hc]
    exact hw
  | gap w gapStart gapList =>
    rw [StatefulReader.step] at hs
    refine h.onProxy hs (fun wp out _ hw hout => ?_)
    obtain ⟨adv, hadv, h₂, -⟩ := handleGapLocked_cases hout
    refine hw.of_subset ?_
    rw [h₂, advancePast_reassembly hadv]
    exact List.Subset.refl _
  | matchWriter m prematch isCurrent =>
    cases hs
    cases isCurrent with
    | false => exact h
    | true =>
      rcases addOrRefreshMatchedWriterWith_cases r m prematch with
        ⟨wp, wp', hw, heq, -, -, -, hre⟩ | ⟨hnone, held, core', hheld', -, heq⟩
      · rw [heq]
        refine h.setProxy ((h.find hw).of_subset ?_)
        rw [hre]
        exact List.Subset.refl _
      · rw [heq]
        have hnew : m.proxy.AllEntries P := fun q hq => (by cases hq)
        refine AllEntries.setProxy (r := r.appendProxy m.proxy hnone) (fun wp hm => ?_)
          (takePrematchLocked_allEntries hnew (fun q hq => ?_))
        · rcases List.mem_append.mp hm with hm | hm
          · exact h wp hm
          · cases List.mem_singleton.mp hm
            exact hnew
        · cases prematch with
          | none =>
            rw [hheld'] at hq
            exact by cases hq
          | some pm =>
            rw [hheld'] at hq
            exact hheld m pm true rfl q hq
  | unmatchWriter w =>
    cases hs
    unfold removeMatchedWriter
    split
    · exact h
    · exact fun wp hm => h wp (List.mem_of_mem_filter hm)

end StatefulReader

/-! ### The receiving side of a participant -/

structure ReceiveSide where
  cache : UnmatchedCache
  reader : StatefulReader

/-- The entry points that reach the cache or the reader. -/
inductive ReceiveOp where
  | put (writer : Guid) (target : EntityId) (change : CacheChange) (hasKeyHash : Bool)
      (nowNs ttlNs : ℤ)
  | putFrag (fresh : ℕ → UInt8) (writer : Guid) (target : EntityId) (df : DataFragSubmessage)
      (sourceTimestamp : RtpsTimestamp) (nowNs ttlNs : ℤ)
  | dropWriter (writer : Guid)
  | dropPrefix (sender : GuidPrefix)
  | expire (nowNs : ℤ)
  | reader (op : ReaderOp)

/-- A match takes what this participant's cache holds. -/
def ReaderOp.withCache (cache : UnmatchedCache) : ReaderOp → ReaderOp
  | matchWriter m prematch isCurrent =>
      matchWriter m (prematch.map (fun pm => { pm with cache := cache })) isCurrent
  | op => op

/-- The fragment a step brings. -/
def ReceiveOp.frag : ReceiveOp → Option DataFragSubmessage
  | putFrag _ _ _ df _ _ _ => some df
  | reader op => op.frag
  | _ => none

namespace ReceiveSide

def step (s : ReceiveSide) : ReceiveOp → Option ReceiveSide
  | .put writer target change hasKeyHash nowNs ttlNs =>
      (s.cache.put writer target change hasKeyHash nowNs ttlNs).map ({ s with cache := · })
  | .putFrag fresh writer target df ts nowNs ttlNs =>
      (s.cache.putFrag fresh writer target df ts nowNs ttlNs).map ({ s with cache := · })
  | .dropWriter writer => some { s with cache := s.cache.dropWriter writer }
  | .dropPrefix sender => some { s with cache := s.cache.dropPrefix sender }
  | .expire nowNs => some { s with cache := s.cache.expireLocked nowNs }
  | .reader op => (s.reader.step (op.withCache s.cache)).map ({ s with reader := · })

def run (s : ReceiveSide) (ops : List ReceiveOp) : Option ReceiveSide := ops.foldlM step s

/-- The entry a step adds a fragment to: one in progress or a new one. -/
def fragEntry (s : ReceiveSide) : ReceiveOp → Option ReassemblyEntry
  | .putFrag fresh writer target df ts _ _ => s.cache.fragEntry fresh writer target df ts
  | .reader op => s.reader.fragEntry op
  | _ => none

/-- The payload of the step's fragment holds every fragment that it newly marks received. -/
def Fits (s : ReceiveSide) (op : ReceiveOp) : Prop :=
  ∀ df e, op.frag = some df → s.fragEntry op = some e → e.Holds df

/-- Every entry in progress satisfies `P`. -/
def AllEntries (P : ReassemblyEntry → Prop) (s : ReceiveSide) : Prop :=
  s.cache.AllEntries P ∧ s.reader.AllEntries P

end ReceiveSide

variable {s s' : ReceiveSide} {op : ReceiveOp} {ops : List ReceiveOp}
  {feds : List DataFragSubmessage}

theorem ReceiveSide.AllEntries.mono {Q : ReassemblyEntry → Prop} (h : s.AllEntries P)
    (hPQ : ∀ e, P e → Q e) : s.AllEntries Q :=
  ⟨fun w hw p hp => hPQ _ (h.1 w hw p hp), fun wp hwp q hq => hPQ _ (h.2 wp hwp q hq)⟩

/-- Nothing is in progress. -/
def ReceiveSide.Fresh (s : ReceiveSide) : Prop := s.AllEntries (fun _ => False)

/-- A reader with the remote writer matched, and nothing held or in progress. -/
def matchedSide : ReceiveSide where
  cache := UnmatchedCache.init ⟨64, 1, 1, 1⟩
  reader := idleReader.addOrRefreshMatchedWriterWith remoteWriter none true

end Zzdds.Rtps
