import Zzdds.Lib.Run
import Zzdds.Rtps.Reader.FragmentTraps

/-! # What a proxy keeps

A proxy is tidy (`WriterProxy.Tidy`) when its buffer holds one change a number, each received
and beyond the cumulative acknowledgment, and it reassembles nothing it has received.

Two slips make a proxy untidy.  A reliable reader buffers a sample numbered below 1, which
`ReceivedSet.insert` rejects.  And a number can become received while its reassembly stays:
by a whole DATA, or by a HEARTBEAT or GAP that declares it gone.  `ReaderOp.KeepsTidy` says that
a step does neither; along every run of such steps every proxy is tidy (`run_tidy`). -/

namespace Zzdds.Rtps

open Zzdds.Lib

/-- What is buffered is received and not delivered, one change a number. -/
structure WriterProxy.Buffered (wp : WriterProxy) : Prop where
  pending_nodup : (wp.pendingChanges.map (·.sequenceNumber)).Nodup
  pending_received : ∀ ch ∈ wp.pendingChanges, ch.sequenceNumber ∈ wp.received
  pending_above : ∀ ch ∈ wp.pendingChanges, wp.received.cumulativeAck < ch.sequenceNumber

/-- And nothing received is reassembled. -/
structure WriterProxy.Tidy (wp : WriterProxy) : Prop extends WriterProxy.Buffered wp where
  reassembly : ∀ q ∈ wp.reassembly, q.1 ∉ wp.received

/-- The reader takes a change it has not received: the processor admits it, and for a
best-effort reader its number is beyond what it has had. -/
def Takes (core : ReaderCore) (wp : WriterProxy) (ch : CacheChange) : Prop :=
  ch.sequenceNumber ∉ wp.received ∧ core.process ch ≠ none ∧
    (core.reliable = false → wp.received.max < ch.sequenceNumber)

/-- The fragment is the last one missing of a sample that the processor admits. -/
def CompletesSample (core : ReaderCore) (wp : WriterProxy) (fresh : ℕ → UInt8)
    (ts : RtpsTimestamp) (df : DataFragSubmessage) : Prop :=
  ∃ e entry, fragEntryLocked core wp fresh ts df = some (some e) ∧ e.accept df = some entry ∧
    entry.isComplete = true ∧ core.process (assembledChange wp.guid df.writerSn entry) ≠ none

/-- What the cache for unmatched writers holds of a writer that is matched. -/
def heldFor (core : ReaderCore) (m : MatchedWriter) (prematch : Option Prematch) : Collected :=
  (prematch.map (·.collect m.guid core.guid.entityId)).getD {}

/-- The step takes no sample below 1 into a buffer, and no number it makes received has
a reassembly in progress. -/
def ReaderOp.KeepsTidy (r : StatefulReader) : ReaderOp → Prop
  | data writer change => ∀ wp, r.find writer = some wp → Takes r.core wp change →
      (r.core.reliable = true → 1 ≤ change.sequenceNumber) ∧
        wp.getReassembly change.sequenceNumber = none
  | dataFrag writer fresh ts df => r.core.reliable = true → ∀ wp, r.find writer = some wp →
      CompletesSample r.core wp fresh ts df → 1 ≤ df.writerSn
  | heartbeat writer _ firstSn lastSn count _ => 0 < firstSn → firstSn - 1 ≤ lastSn →
      ∀ wp, r.find writer = some wp → isNewerCount count wp.lastHbCount = true →
        ∀ sn ∈ heartbeatGone r.core wp firstSn, wp.getReassembly sn = none
  | gap writer gapStart gapList => ∀ wp, r.find writer = some wp →
      ∀ sn ∈ gapSns gapStart gapList, 1 ≤ sn → wp.getReassembly sn = none
  | matchWriter m prematch isCurrent => isCurrent = true → r.find m.guid = none →
      r.core.reliable = true →
        ∀ s ∈ (heldFor r.core m prematch).samples, r.core.process s.1 ≠ none →
          1 ≤ s.1.sequenceNumber
  | _ => True

variable {core : ReaderCore} {wp wp' : WriterProxy} {ch : CacheChange} {r r' : StatefulReader}

/-! ### One proxy -/

namespace WriterProxy

theorem getReassembly_eq_none {sn : ℤ} :
    wp.getReassembly sn = none ↔ ∀ q ∈ wp.reassembly, q.1 ≠ sn := by
  rw [getReassembly, Option.map_eq_none_iff, List.find?_eq_none]
  simp only [beq_iff_eq]

theorem Buffered.congr (h : wp.Buffered) (hr : wp'.received = wp.received)
    (hp : wp'.pendingChanges = wp.pendingChanges) : wp'.Buffered where
  pending_nodup := by
    rw [hp]
    exact h.pending_nodup
  pending_received := by
    rw [hp, hr]
    exact h.pending_received
  pending_above := by
    rw [hp, hr]
    exact h.pending_above

theorem Tidy.congr (h : wp.Tidy) (hr : wp'.received = wp.received)
    (hp : wp'.pendingChanges = wp.pendingChanges) (hq : wp'.reassembly ⊆ wp.reassembly) :
    wp'.Tidy where
  toBuffered := h.toBuffered.congr hr hp
  reassembly := by
    rw [hr]
    exact fun q hm => h.reassembly q (hq hm)

theorem Tidy.putReassembly {sn : ℤ} {entry : ReassemblyEntry} (h : wp.Tidy)
    (hsn : sn ∉ wp.received) : (wp.putReassembly sn entry).Tidy where
  toBuffered := h.toBuffered.congr rfl rfl
  reassembly := by
    intro q hq
    rcases List.mem_cons.mp hq with rfl | hq
    · exact hsn
    · exact h.reassembly q (List.mem_of_mem_filter hq)

end WriterProxy

open WriterProxy

/-- A proxy's buffer as a step finds and leaves it: a best-effort reader has none. -/
def BuffersFor (core : ReaderCore) (wp : WriterProxy) : Prop :=
  wp.Buffered ∧ (core.reliable = false → wp.pendingChanges = [])

/-- A proxy as a step finds and leaves it. -/
def TidyFor (core : ReaderCore) (wp : WriterProxy) : Prop :=
  wp.Tidy ∧ (core.reliable = false → wp.pendingChanges = [])

theorem TidyFor.of_buffersFor (h : BuffersFor core wp)
    (hq : ∀ q ∈ wp.reassembly, q.1 ∉ wp.received) : TidyFor core wp :=
  ⟨⟨h.1, hq⟩, h.2⟩

theorem TidyFor.buffersFor (h : TidyFor core wp) : BuffersFor core wp := ⟨h.1.toBuffered, h.2⟩

/-! ### Delivery -/

/-- The loop of `deliverPendingLocked` takes out of the buffer what it looks at. -/
theorem deliverPendingLoop_pending : ∀ (n : ℕ) (next : ℤ) (core : ReaderCore) (wp : WriterProxy),
    (wp.pendingChanges.map (·.sequenceNumber)).Nodup →
    (∀ ch ∈ wp.pendingChanges, next ≤ ch.sequenceNumber) →
      (deliverPendingLoop n next core wp).2.pendingChanges.Sublist wp.pendingChanges ∧
      ∀ ch ∈ (deliverPendingLoop n next core wp).2.pendingChanges, next + n ≤ ch.sequenceNumber
  | 0, next, core, wp, _, hge => by
      refine ⟨List.Sublist.refl _, fun ch hch => ?_⟩
      have := hge ch hch
      rw [Nat.cast_zero]
      omega
  | n + 1, next, core, wp, hnd, hge => by
      have hcast : next + ((n + 1 : ℕ) : ℤ) = next + 1 + (n : ℤ) := by
        push_cast
        omega
      rw [deliverPendingLoop, hcast]
      split
      next hnone =>
        refine deliverPendingLoop_pending n (next + 1) core wp hnd (fun ch hch => ?_)
        have hne : ch.sequenceNumber ≠ next := by
          simpa using List.find?_eq_none.mp hnone ch hch
        have := hge ch hch
        omega
      next ch hsome =>
        have hsub := List.eraseP_sublist (p := fun c : CacheChange => c.sequenceNumber == next)
          (l := wp.pendingChanges)
        obtain ⟨hs, hn⟩ := deliverPendingLoop_pending n (next + 1) (core.handOver wp.guid ch)
          { wp with pendingChanges := wp.pendingChanges.eraseP _ } (hnd.sublist (hsub.map _))
          (fun c hc => by
            have hne := ne_of_mem_eraseP hnd hc
            have := hge c (hsub.subset hc)
            omega)
        exact ⟨hs.trans hsub, hn⟩

/-- Delivering what is buffered leaves what is beyond the cumulative acknowledgment. -/
theorem deliverPendingLocked_buffered {prev : ℤ} (core : ReaderCore)
    (hle : prev ≤ wp.received.cumulativeAck)
    (hnd : (wp.pendingChanges.map (·.sequenceNumber)).Nodup)
    (hrecv : ∀ ch ∈ wp.pendingChanges, ch.sequenceNumber ∈ wp.received)
    (hgt : ∀ ch ∈ wp.pendingChanges, prev < ch.sequenceNumber) :
    (deliverPendingLocked core wp prev).2.Buffered := by
  obtain ⟨hsub, hge⟩ := deliverPendingLoop_pending (wp.received.cumulativeAck - prev).toNat
    (prev + 1) core wp hnd (fun ch hch => hgt ch hch)
  have hreceived := (deliverPendingLocked_appends core wp prev).2.2
  constructor
  · exact hnd.sublist (hsub.map _)
  · intro c hc
    rw [hreceived]
    exact hrecv c (hsub.subset hc)
  · intro c hc
    have := hge c hc
    rw [hreceived]
    omega

/-- A change that is not taken changes nothing. -/
theorem deliverChangeLocked_of_not_takes (hnew : ch.sequenceNumber ∉ wp.received)
    (h : ¬ Takes core wp ch) : deliverChangeLocked core wp ch = (core, wp) := by
  unfold deliverChangeLocked
  cases hproc : core.process ch with
  | none => rfl
  | some change =>
    have hsn := process_sequenceNumber hproc
    cases hr : core.reliable with
    | true => exact absurd ⟨hnew, by simp [hproc], fun h' => by simp [hr] at h'⟩ h
    | false =>
      have hle : change.sequenceNumber ≤ wp.received.max := by
        by_contra hlt
        exact h ⟨hnew, by simp [hproc], fun _ => by omega⟩
      simp only [Bool.false_eq_true, if_false, if_pos hle]

/-- The only number a change makes received is its own. -/
theorem mem_received_deliverChange {m : ℤ}
    (h : m ∈ (deliverChangeLocked core wp ch).2.received) :
    m ∈ wp.received ∨ m = ch.sequenceNumber := by
  unfold deliverChangeLocked at h
  cases hproc : core.process ch with
  | none =>
    rw [hproc] at h
    exact .inl h
  | some change =>
    rw [hproc] at h
    dsimp only at h
    rw [process_sequenceNumber hproc] at h
    have hins : ∀ {m}, m ∈ wp.received.insert ch.sequenceNumber →
        m ∈ wp.received ∨ m = ch.sequenceNumber := fun hm =>
      (ReceivedSet.mem_insert.mp hm).symm.imp_right And.left
    split at h
    · split at h
      · rw [(deliverPendingLocked_appends _ _ _).2.2] at h
        exact hins h
      · split at h
        · exact .inl h
        · exact hins h
    · split at h
      · exact .inl h
      · exact hins h

/-- A change that is taken is handed over with what waited for it, or buffered. -/
theorem BuffersFor.deliverChange (ch : CacheChange) (h : BuffersFor core wp)
    (hnew : ch.sequenceNumber ∉ wp.received)
    (hpos : core.reliable = true → core.process ch ≠ none → 1 ≤ ch.sequenceNumber) :
    BuffersFor core (deliverChangeLocked core wp ch).2 := by
  obtain ⟨hbuf, hbest⟩ := h
  unfold deliverChangeLocked
  cases hproc : core.process ch with
  | none => exact ⟨hbuf, hbest⟩
  | some change =>
    have hsn := process_sequenceNumber hproc
    dsimp only
    rw [hsn]
    cases hr : core.reliable with
    | true =>
      have h1 : 1 ≤ ch.sequenceNumber := hpos hr (by simp [hproc])
      refine ⟨?_, fun h' => nomatch (hr.symm.trans h')⟩
      rw [if_pos rfl]
      split
      next hnext =>
        refine deliverPendingLocked_buffered _ ?_ hbuf.pending_nodup (fun c hc => ?_)
          (fun c hc => ?_)
        · rw [hnext]
          exact wp.received.le_cumulativeAck_insert
        · exact ReceivedSet.mem_insert.mpr (.inr (hbuf.pending_received c hc))
        · have hgt := hbuf.pending_above c hc
          have hne : c.sequenceNumber ≠ ch.sequenceNumber := fun e =>
            hnew (e ▸ hbuf.pending_received c hc)
          omega
      next hnext =>
        split
        · exact hbuf
        next hfree =>
          -- out of order: the cumulative acknowledgment stays where it is
          have hack := ReceivedSet.cumulativeAck_insert_of_ne hnext
          constructor
          · rw [List.map_append, List.nodup_append]
            refine ⟨hbuf.pending_nodup, List.nodup_singleton _, ?_⟩
            rintro m hm m' hm' rfl
            obtain ⟨c, hc, rfl⟩ := List.mem_map.mp hm
            refine hfree (List.any_eq_true.mpr ⟨c, hc, ?_⟩)
            rw [beq_iff_eq, ← hsn]
            exact List.mem_singleton.mp hm'
          · intro c hc
            rcases List.mem_append.mp hc with hc | hc
            · exact ReceivedSet.mem_insert.mpr (.inr (hbuf.pending_received c hc))
            · rw [List.mem_singleton.mp hc, hsn]
              exact ReceivedSet.mem_insert.mpr (.inl ⟨rfl, h1⟩)
          · intro c hc
            rw [hack]
            rcases List.mem_append.mp hc with hc | hc
            · exact hbuf.pending_above c hc
            · rw [List.mem_singleton.mp hc, hsn]
              by_contra hle
              exact hnew (ReceivedSet.mem_of_le_cumulativeAck h1 (not_lt.mp hle))
    | false =>
      have hnil := hbest hr
      rw [if_neg Bool.false_ne_true]
      split
      · exact ⟨hbuf, hbest⟩
      · refine ⟨⟨?_, ?_, ?_⟩, hbest⟩
        · exact hbuf.pending_nodup
        · intro c hc
          rw [dropReassemblyBelow, hnil] at hc
          cases hc
        · intro c hc
          rw [dropReassemblyBelow, hnil] at hc
          cases hc

/-! ### Each operation -/

theorem TidyFor.handleData (h : TidyFor core wp)
    (hok : Takes core wp ch → (core.reliable = true → 1 ≤ ch.sequenceNumber) ∧
      wp.getReassembly ch.sequenceNumber = none) :
    TidyFor core (handleDataLocked core wp ch).2 := by
  unfold handleDataLocked
  split
  · exact h
  next hnew =>
    by_cases ht : Takes core wp ch
    swap
    · rw [deliverChangeLocked_of_not_takes hnew ht]
      exact h
    · obtain ⟨hpos, hnone⟩ := hok ht
      refine .of_buffersFor (h.buffersFor.deliverChange ch hnew fun hr _ => hpos hr) ?_
      intro q hq hrecv
      have hq' := deliverChangeLocked_reassembly core wp ch hq
      rcases mem_received_deliverChange hrecv with hold | hsn
      · exact h.1.reassembly q hq' hold
      · exact getReassembly_eq_none.mp hnone q hq' hsn

theorem not_mem_of_fragEntry {fresh : ℕ → UInt8} {ts : RtpsTimestamp} {df : DataFragSubmessage}
    {e : ReassemblyEntry} (h : fragEntryLocked core wp fresh ts df = some (some e)) :
    df.writerSn ∉ wp.received := by
  unfold fragEntryLocked at h
  split at h
  · cases h
  next hn => exact hn

theorem TidyFor.handleDataFrag {fresh : ℕ → UInt8} {ts : RtpsTimestamp}
    {df : DataFragSubmessage} {out : ReaderCore × WriterProxy} (h : TidyFor core wp)
    (hok : core.reliable = true → CompletesSample core wp fresh ts df → 1 ≤ df.writerSn)
    (hf : handleDataFragLocked core wp fresh ts df = some out) : TidyFor core out.2 := by
  rcases handleDataFragLocked_cases hf with rfl | ⟨e, entry, he, hacc, hout⟩
  · exact h
  · have hnew := not_mem_of_fragEntry he
    have hput : TidyFor core (wp.putReassembly df.writerSn entry) :=
      ⟨h.1.putReassembly hnew, h.2⟩
    rcases hout with ⟨-, rfl⟩ | ⟨hc, -, h₂⟩
    · exact hput
    · rw [h₂]
      have hdel := hput.buffersFor.deliverChange (assembledChange wp.guid df.writerSn entry) hnew
        (fun hr hproc => hok hr ⟨e, entry, he, hacc, hc, hproc⟩)
      refine .of_buffersFor ⟨hdel.1.congr rfl rfl, hdel.2⟩ ?_
      -- the sample's own reassembly is removed after delivery
      intro q hq hrecv
      obtain ⟨hq, hne⟩ := List.mem_filter.mp hq
      have hq' := deliverChangeLocked_reassembly _ _ _ hq
      rcases mem_received_deliverChange hrecv with hold | hsn
      · exact hput.1.reassembly q hq' hold
      · exact absurd hsn (bne_iff_ne.mp hne)

theorem TidyFor.advancePast {sns : List ℤ} {out : ReaderCore × WriterProxy × ℕ}
    (h : TidyFor core wp) (hok : ∀ sn ∈ sns, 1 ≤ sn → wp.getReassembly sn = none)
    (ha : advancePast core wp sns = some out) : TidyFor core out.2.1 := by
  have hreassembly := advancePast_reassembly ha
  obtain ⟨wp₁, hwp₁, -, -, hout⟩ := advancePast_eq ha
  obtain ⟨core', wp', lost⟩ := out
  dsimp only at hout hreassembly ⊢
  have hmem : ∀ m, m ∈ wp₁.received ↔ m ∈ wp.received ∨ (m ∈ sns ∧ 1 ≤ m) := by
    rw [hwp₁]
    exact fun m => mem_markGone sns wp.received 0 m
  have hpend : wp₁.pendingChanges = wp.pendingChanges := by rw [hwp₁]
  have hrecv : ∀ ch ∈ wp₁.pendingChanges, ch.sequenceNumber ∈ wp₁.received := by
    rw [hpend]
    exact fun ch hch => (hmem _).mpr (.inl (h.1.pending_received ch hch))
  have hq : ∀ q ∈ wp.reassembly, q.1 ∉ wp₁.received := by
    intro q hq hin
    rcases (hmem _).mp hin with hold | ⟨hgone, h1⟩
    · exact h.1.reassembly q hq hold
    · exact getReassembly_eq_none.mp (hok _ hgone h1) q hq rfl
  split at hout
  next hr =>
    have hbuf := @deliverPendingLocked_buffered wp₁ _ core
      (ReceivedSet.cumulativeAck_mono (fun m hm => (hmem m).mpr (.inl hm)))
      (by rw [hpend]; exact h.1.pending_nodup) hrecv
      (by rw [hpend]; exact h.1.pending_above)
    have hsame := (deliverPendingLocked_appends core wp₁ wp.received.cumulativeAck).2.2
    rw [← hout] at hbuf hsame
    refine .of_buffersFor ⟨hbuf, fun hf => nomatch (hr.symm.trans hf)⟩ ?_
    rw [hreassembly, hsame]
    exact hq
  next hr =>
    obtain ⟨rfl, rfl⟩ := Prod.mk.inj hout
    have hnil := h.2 (by simpa using hr)
    rw [hnil] at hpend
    refine .of_buffersFor ⟨⟨?_, hrecv, ?_⟩, fun _ => hpend⟩ ?_
    · rw [hpend]
      exact List.nodup_nil
    · rw [hpend]
      exact fun ch hch => nomatch hch
    · rw [hreassembly]
      exact hq

theorem handOver_process (core : ReaderCore) (writer : Guid) (ch : CacheChange) :
    (core.handOver writer ch).process = core.process := by
  unfold ReaderCore.handOver
  split
  · split <;> rfl
  · dsimp only
    split
    · split <;> rfl
    · rfl

theorem deliverPendingLoop_process : ∀ (n : ℕ) (next : ℤ) (core : ReaderCore) (wp : WriterProxy),
    (deliverPendingLoop n next core wp).1.process = core.process
  | 0, _, _, _ => rfl
  | n + 1, next, core, wp => by
      rw [deliverPendingLoop]
      split
      · exact deliverPendingLoop_process n (next + 1) core wp
      · exact (deliverPendingLoop_process n (next + 1) _ _).trans (handOver_process _ _ _)

/-- Delivery leaves the processor as it is. -/
theorem handleDataLocked_process (core : ReaderCore) (wp : WriterProxy) (ch : CacheChange) :
    (handleDataLocked core wp ch).1.process = core.process := by
  unfold handleDataLocked deliverChangeLocked
  split
  · rfl
  · split
    · rfl
    · dsimp only
      split
      · split
        · exact (deliverPendingLoop_process _ _ _ _).trans (handOver_process _ _ _)
        · split <;> rfl
      · split
        · rfl
        · exact handOver_process _ _ _

theorem TidyFor.of_reliable {core' : ReaderCore} (h : TidyFor core wp)
    (hr : core'.reliable = core.reliable) : TidyFor core' wp :=
  ⟨h.1, fun hf => h.2 (hr.symm.trans hf)⟩

/-- The held samples a new proxy takes, one after the other. -/
theorem TidyFor.takeSamples : ∀ (samples : List (CacheChange × Bool))
    (acc : ReaderCore × WriterProxy), TidyFor acc.1 acc.2 → acc.2.reassembly = [] →
    (acc.1.reliable = true → ∀ s ∈ samples, acc.1.process s.1 ≠ none → 1 ≤ s.1.sequenceNumber) →
      TidyFor (samples.foldl (fun acc s => handleDataLocked acc.1 acc.2 s.1) acc).1
        (samples.foldl (fun acc s => handleDataLocked acc.1 acc.2 s.1) acc).2
  | [], _, h, _, _ => h
  | s :: samples, acc, h, hnil, hok => by
      have hrel := (handleDataLocked_appends acc.1 acc.2 s.1).1.reliable
      have hproc := handleDataLocked_process acc.1 acc.2 s.1
      have hstep : TidyFor acc.1 (handleDataLocked acc.1 acc.2 s.1).2 := by
        refine h.handleData (fun ht => ⟨fun hr => hok hr s List.mem_cons_self ht.2.1, ?_⟩)
        rw [getReassembly_eq_none, hnil]
        exact fun q hq => nomatch hq
      refine takeSamples samples _ (hstep.of_reliable hrel) ?_ (fun hr s' hs' => ?_)
      · refine List.subset_nil.mp ?_
        rw [← hnil]
        exact handleDataLocked_reassembly acc.1 acc.2 s.1
      · rw [hproc]
        exact hok (hrel.symm.trans hr) s' (List.mem_cons_of_mem s hs')

theorem TidyFor.takePartial (q : ℤ × ReassemblyEntry) (h : TidyFor core wp) :
    TidyFor core (takePartial core wp q) := by
  unfold Rtps.takePartial
  split
  · exact h
  next hn =>
    split
    · exact h
    · refine ⟨h.1.putReassembly fun hin => hn ?_, h.2⟩
      rw [Bool.or_eq_true]
      exact .inl hin

theorem TidyFor.takePartials (core : ReaderCore) : ∀ (partials : List (ℤ × ReassemblyEntry))
    (wp : WriterProxy), TidyFor core wp → TidyFor core (partials.foldl (Rtps.takePartial core) wp)
  | [], _, h => h
  | q :: partials, _, h => takePartials core partials _ (h.takePartial q)

theorem TidyFor.takePrematch (held : Collected) (h : TidyFor core wp) (hnil : wp.reassembly = [])
    (hok : core.reliable = true →
      ∀ s ∈ held.samples, core.process s.1 ≠ none → 1 ≤ s.1.sequenceNumber) :
    TidyFor (takePrematchLocked core wp held).1 (takePrematchLocked core wp held).2 :=
  takePartials _ _ _ (takeSamples held.samples (core, wp) h hnil hok)

/-! ### Steps and runs -/

namespace StatefulReader

/-- Every proxy is tidy. -/
def Tidy (r : StatefulReader) : Prop := ∀ wp ∈ r.writerProxies, TidyFor r.core wp

theorem Tidy.setProxy (h : r.Tidy) (hr : core.reliable = r.core.reliable)
    (hw : TidyFor r.core wp) : (r.setProxy core wp).Tidy := by
  intro wp' hm
  obtain ⟨wp₀, hm₀, rfl⟩ := List.mem_map.mp hm
  split
  · exact hw.of_reliable hr
  · exact (h wp₀ hm₀).of_reliable hr

theorem Tidy.onProxy {w : Guid}
    {f : ReaderCore → WriterProxy → Option (ReaderCore × WriterProxy)} (h : r.Tidy)
    (hon : r.onProxy w f = some r')
    (hf : ∀ wp out, r.find w = some wp → TidyFor r.core wp → f r.core wp = some out →
      TidyFor r.core out.2 ∧ out.1.reliable = r.core.reliable) : r'.Tidy := by
  rcases onProxy_cases hon with ⟨-, rfl⟩ | ⟨wp, out, hw, hout, rfl⟩
  · exact h
  · obtain ⟨hwp, hr⟩ := hf wp out hw (h wp (List.mem_of_find?_eq_some hw)) hout
    exact h.setProxy hr hwp

theorem Tidy.data {w : Guid} {change : CacheChange} (h : r.Tidy)
    (hok : (ReaderOp.data w change).KeepsTidy r) (hs : r.step (.data w change) = some r') :
    r'.Tidy := by
  rw [step] at hs
  refine h.onProxy hs (fun wp out hw hwp hout => ?_)
  cases hout
  exact ⟨hwp.handleData (hok wp hw), (handleDataLocked_appends r.core wp change).1.reliable⟩

theorem Tidy.dataFrag {w : Guid} {fresh : ℕ → UInt8} {ts : RtpsTimestamp}
    {df : DataFragSubmessage} (h : r.Tidy) (hok : (ReaderOp.dataFrag w fresh ts df).KeepsTidy r)
    (hs : r.step (.dataFrag w fresh ts df) = some r') : r'.Tidy := by
  rw [step] at hs
  refine h.onProxy hs (fun wp out hw hwp hout => ?_)
  exact ⟨hwp.handleDataFrag (fun hr hc => hok hr wp hw hc) hout,
    (handleDataFragLocked_appends hout).1.reliable⟩

theorem Tidy.heartbeat {w : Guid} {readerId : EntityId} {firstSn lastSn : ℤ} {count : Int32}
    {final : Bool} (h : r.Tidy)
    (hok : (ReaderOp.heartbeat w readerId firstSn lastSn count final).KeepsTidy r)
    (hs : r.step (.heartbeat w readerId firstSn lastSn count final) = some r') : r'.Tidy := by
  rw [step] at hs
  split at hs
  · cases hs
    exact h
  next hvalid =>
    obtain ⟨hfirst, hlast⟩ := not_or.mp hvalid
    refine h.onProxy hs (fun wp out hw hwp hout => ?_)
    refine ⟨?_, (handleHeartbeatLocked_appends hout).1.reliable⟩
    by_cases hnew : isNewerCount count wp.lastHbCount = true
    · have hgone := hok (by omega) (by omega) wp hw hnew
      rcases handleHeartbeatLocked_cases hout with rfl | ⟨adv, hadv, h₂, -⟩
      · exact hwp
      · have hacc : TidyFor r.core (acceptHeartbeat r.core wp readerId lastSn count) :=
          ⟨hwp.1.congr rfl rfl (List.Subset.refl _), hwp.2⟩
        rw [h₂]
        exact hacc.advancePast (fun sn hsn _ => hgone sn hsn) hadv
    · -- a count that is not newer changes nothing
      unfold handleHeartbeatLocked at hout
      rw [if_pos (by simpa using hnew)] at hout
      cases hout
      exact hwp

theorem Tidy.heartbeatFrag {w : Guid} {sn : ℤ} {last : ℕ} {count : Int32} (h : r.Tidy)
    (hs : r.step (.heartbeatFrag w sn last count) = some r') : r'.Tidy := by
  rw [step] at hs
  refine h.onProxy hs (fun wp out _ hwp hout => ?_)
  cases hout
  obtain ⟨happ, c, hc⟩ := handleHeartbeatFragLocked_appends ∅ r.core wp sn last count
  refine ⟨?_, happ.reliable⟩
  rw [hc]
  exact ⟨hwp.1.congr rfl rfl (List.Subset.refl _), hwp.2⟩

theorem Tidy.gap {w : Guid} {gapStart : ℤ} {gapList : SequenceNumberSet} (h : r.Tidy)
    (hok : (ReaderOp.gap w gapStart gapList).KeepsTidy r)
    (hs : r.step (.gap w gapStart gapList) = some r') : r'.Tidy := by
  rw [step] at hs
  refine h.onProxy hs (fun wp out hw hwp hout => ?_)
  obtain ⟨adv, hadv, h₂, -⟩ := handleGapLocked_cases hout
  refine ⟨?_, (handleGapLocked_appends hout).1.reliable⟩
  rw [h₂]
  exact hwp.advancePast (hok wp hw) hadv

theorem Tidy.matchWriter {m : MatchedWriter} {prematch : Option Prematch} (h : r.Tidy)
    (hok : (ReaderOp.matchWriter m prematch true).KeepsTidy r) :
    (r.addOrRefreshMatchedWriterWith m prematch true).Tidy := by
  rcases addOrRefreshMatchedWriterWith_cases r m prematch with
    ⟨wp, wp', hw, heq, -, hrecv, hpend, hreas⟩ | ⟨hnone, held, core', hheld, hstill, heq⟩
  · -- a refresh keeps the sequence state
    obtain ⟨hwp, hbest⟩ := h wp (List.mem_of_find?_eq_some hw)
    rw [heq]
    refine h.setProxy rfl ⟨hwp.congr hrecv hpend (by rw [hreas]; exact List.Subset.refl _), ?_⟩
    rw [hpend]
    exact hbest
  · have hnew : TidyFor r.core m.proxy :=
      ⟨⟨⟨List.nodup_nil, fun ch hch => (nomatch hch), fun ch hch => nomatch hch⟩,
        fun q hq => nomatch hq⟩, fun _ => rfl⟩
    have hrel := (takePrematchLocked_appends r.core m.proxy held).1.reliable
    have htaken := hnew.takePrematch held rfl
      (fun hr => by rw [hheld]; exact hok rfl hnone hr)
    have happ : (r.appendProxy m.proxy hnone).Tidy := by
      intro wp hm
      rcases List.mem_append.mp hm with hm | hm
      · exact h wp hm
      · rw [List.mem_singleton.mp hm]
        exact hnew
    rw [heq]
    exact happ.setProxy (hstill.appends.reliable.trans hrel) (htaken.of_reliable hrel.symm)

theorem Tidy.unmatchWriter {w : Guid} (h : r.Tidy) : (r.removeMatchedWriter w).Tidy := by
  unfold removeMatchedWriter
  split
  · exact h
  next =>
    intro wp' hm
    refine (h wp' (List.mem_of_mem_filter hm)).of_reliable ?_
    dsimp only
    split
    · exact ((@Appends.reportLost ∅ _ _).trans (.reportReady w false)).reliable
    · exact (@Appends.reportLost ∅ _ _).reliable

/-- Each step keeps the proxies tidy. -/
theorem Tidy.step {op : ReaderOp} (h : r.Tidy) (hok : op.KeepsTidy r)
    (hs : r.step op = some r') : r'.Tidy := by
  cases op with
  | data w change => exact h.data hok hs
  | dataFrag w fresh ts df => exact h.dataFrag hok hs
  | heartbeat w readerId firstSn lastSn count final => exact h.heartbeat hok hs
  | heartbeatFrag w sn last count => exact h.heartbeatFrag hs
  | gap w gapStart gapList => exact h.gap hok hs
  | matchWriter m prematch isCurrent =>
    cases hs
    cases isCurrent with
    | false => exact h
    | true => exact h.matchWriter hok
  | unmatchWriter w =>
    cases hs
    exact h.unmatchWriter

/-- **Proxies stay tidy**: whatever the numbers and the order of the steps, if no step buffers
a sample below 1 or receives a number with its reassembly still open, then every proxy buffers
one change a number, received and beyond the cumulative acknowledgment, and reassembles nothing
it has received. -/
theorem run_tidy {r₀ : StatefulReader} {ops : List ReaderOp} (hempty : r₀.writerProxies = [])
    (hrun : Run StatefulReader.step (fun r op => op.KeepsTidy r) r₀ ops r) :
    ∀ wp ∈ r.writerProxies, wp.Tidy := by
  have hinv : r.Tidy := by
    refine hrun.inv ?_ (fun s op s' hs hok hstep => hs.step hok hstep)
    intro wp hm
    rw [hempty] at hm
    cases hm
  exact fun wp hm => (hinv wp hm).1

/-- A match and a sample that waits for the one before it. -/
def bufferingOps : List ReaderOp :=
  [.matchWriter remoteWriter none true, .data remoteWriter.guid (remoteChange 2)]

theorem run_tidy_buffering :
    ∃ r, Run StatefulReader.step (fun r op => op.KeepsTidy r) idleReader bufferingOps r ∧
      ∀ wp ∈ r.writerProxies, wp.Tidy := by
  have hsome : ((idleReader.addOrRefreshMatchedWriterWith remoteWriter none true).step
      (.data remoteWriter.guid (remoteChange 2))).isSome = true := by decide
  obtain ⟨r, hr⟩ := Option.isSome_iff_exists.mp hsome
  have hnil : ∀ wp ∈ (idleReader.addOrRefreshMatchedWriterWith remoteWriter none
      true).writerProxies, wp.reassembly.length = 0 := by decide
  have hok : (ReaderOp.data remoteWriter.guid (remoteChange 2)).KeepsTidy
      (idleReader.addOrRefreshMatchedWriterWith remoteWriter none true) := by
    intro wp hw _
    refine ⟨fun _ => by decide, getReassembly_eq_none.mpr ?_⟩
    rw [List.length_eq_zero_iff.mp (hnil wp (List.mem_of_find?_eq_some hw))]
    exact fun q hq => nomatch hq
  have hmatch : (ReaderOp.matchWriter remoteWriter none true).KeepsTidy idleReader :=
    fun _ _ _ s hs => nomatch hs
  have hrun := (Run.single hmatch rfl).snoc hok hr
  exact ⟨r, hrun, run_tidy rfl hrun⟩

theorem not_tidy_of_run {ops : List ReaderOp}
    (h : (idleReader.run ops).any (fun r => r.writerProxies.any (fun wp =>
      wp.pendingChanges.any (fun ch => !wp.received.contains ch.sequenceNumber) ||
        wp.reassembly.any (fun q => wp.received.contains q.1))) = true) :
    ∃ r, idleReader.run ops = some r ∧ ∃ wp ∈ r.writerProxies, ¬ wp.Tidy := by
  obtain ⟨r, hr, h⟩ := (Option.any_eq_true _ _).mp h
  obtain ⟨wp, hm, h⟩ := List.any_eq_true.mp h
  refine ⟨r, hr, wp, hm, fun ht => ?_⟩
  rcases Bool.or_eq_true_iff.mp h with h | h
  · obtain ⟨ch, hch, h⟩ := List.any_eq_true.mp h
    rw [Bool.not_eq_true'] at h
    exact Bool.eq_false_iff.mp h (ht.pending_received ch hch)
  · obtain ⟨q, hq, h⟩ := List.any_eq_true.mp h
    exact ht.reassembly q hq h

/-- A buffered sample 0 is not received.  A sample whose first fragment arrived is received
while its reassembly stays, once a GAP lists it or the whole sample arrives. -/
theorem untidy_runs :
    (∃ r, idleReader.run [.matchWriter remoteWriter none true,
        .data remoteWriter.guid (remoteChange 0)] = some r ∧ ∃ wp ∈ r.writerProxies, ¬ wp.Tidy) ∧
    (∃ r, idleReader.run [.matchWriter remoteWriter none true,
        .dataFrag remoteWriter.guid (fun _ => 0) ⟨0, 0⟩ (fragOf 1 8),
        .gap remoteWriter.guid 1 ⟨2, 0, Bitmap.zeroes⟩] = some r ∧
      ∃ wp ∈ r.writerProxies, ¬ wp.Tidy) ∧
    ∃ r, idleReader.run [.matchWriter remoteWriter none true,
        .dataFrag remoteWriter.guid (fun _ => 0) ⟨0, 0⟩ (fragOf 1 8),
        .data remoteWriter.guid (remoteChange 1)] = some r ∧
      ∃ wp ∈ r.writerProxies, ¬ wp.Tidy :=
  ⟨not_tidy_of_run (by decide), not_tidy_of_run (by decide), not_tidy_of_run (by decide)⟩

end StatefulReader

end Zzdds.Rtps
