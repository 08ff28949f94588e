import Zzdds.Rtps.Reader.Appends

/-! # In-order delivery

What a reliable reader hands over for one writer.  The invariant `InOrder` ties the proxy's
received set and its buffer of out-of-order changes to what was handed over since the match:
handed numbers increase and stay below `next`, buffered ones are received and not below
`next`, and every received number was handed over, is buffered, or was declared gone
(`covered`).  Between operations `next` is the number after the cumulative acknowledgment;
`deliverPendingLoop` moves it there one number at a time (`InOrder.loop`).

`InOrder.step` keeps the invariant along every entry point, and `inOrder_run` along every
run. -/

namespace Zzdds.Rtps

open Zzdds.Lib

/-- A reliable reader whose callbacks take every change. -/
structure ReaderCore.Reports (core : ReaderCore) : Prop where
  reliable : core.reliable = true
  callback : ∃ cb, core.callback = some cb ∧ cb.onEoc = true

theorem ReaderCore.Reports.of_appends {ws : Set Guid} {a b : ReaderCore} (h : a.Reports)
    (hab : Appends ws a b) : b.Reports :=
  ⟨hab.reliable.trans h.reliable, hab.callback ▸ h.callback⟩

/-- The invariant of one writer's proxy, for what was handed over since the log had `k`
events. -/
structure InOrder (k : ℕ) (covered : ℤ → Prop) (next : ℤ) (core : ReaderCore)
    (wp : WriterProxy) : Prop where
  start : k ≤ core.log.length
  increasing : (handedSince k wp.guid core).Pairwise (· < ·)
  bounded : ∀ n ∈ handedSince k wp.guid core, 1 ≤ n ∧ n < next
  pending_nodup : (wp.pendingChanges.map (·.sequenceNumber)).Nodup
  pending : ∀ ch ∈ wp.pendingChanges, 1 ≤ ch.sequenceNumber →
    ch.sequenceNumber ∈ wp.received ∧ next ≤ ch.sequenceNumber
  accounted : ∀ n ∈ wp.received, n ∈ handedSince k wp.guid core ∨
    (∃ ch ∈ wp.pendingChanges, ch.sequenceNumber = n) ∨ covered n

variable {k : ℕ} {covered covered' : ℤ → Prop} {next : ℤ} {core core' : ReaderCore}
  {wp wp' : WriterProxy}

/-! ### One change -/

/-- A change handed over is the next entry of what was handed over. -/
theorem handedSince_handOver (hr : core.Reports) (hk : k ≤ core.log.length) (g : Guid)
    (ch : CacheChange) : handedSince k g (core.handOver g ch) =
      handedSince k g core ++ [ch.sequenceNumber] := by
  obtain ⟨cb, hcb, heoc⟩ := hr.callback
  unfold ReaderCore.handOver
  split
  · simp only [hcb, Option.any_some, heoc, if_true]
    rw [handedSince, ReaderCore.emit, List.drop_append_of_le_length hk, handedSns_append]
    simp [handedSns, ReaderEvent.handed, handedSince]
  · simp only [hcb, Option.isSome_some, if_true]
    obtain ⟨cached, hc, hsn, -⟩ := core.cache.getChangeForWriter_addReaderChange ch
    rw [hc]
    simp only
    rw [handedSince, ReaderCore.emit, List.drop_append_of_le_length hk, handedSns_append]
    simp [handedSns, ReaderEvent.handed, handedSince, hsn]

theorem process_sequenceNumber {ch ch' : CacheChange} (h : core.process ch = some ch') :
    ch'.sequenceNumber = ch.sequenceNumber := by
  unfold ReaderCore.process at h
  split at h
  · cases h
    rfl
  · split at h
    · cases h
      rfl
    · obtain ⟨kh, -, rfl⟩ := Option.map_eq_some_iff.mp h
      rfl

/-- Without repeats, nothing with the number taken out is left. -/
theorem ne_of_mem_eraseP {l : List CacheChange} {sn : ℤ}
    (hnd : (l.map (·.sequenceNumber)).Nodup) {ch : CacheChange}
    (hm : ch ∈ l.eraseP (fun c => c.sequenceNumber == sn)) : ch.sequenceNumber ≠ sn := by
  intro e
  have he : (ch.sequenceNumber == sn) = true := beq_iff_eq.mpr e
  obtain ⟨a, l₁, l₂, h₁, ha, hl, her⟩ := List.exists_of_eraseP
    (p := fun c : CacheChange => c.sequenceNumber == sn) (List.mem_of_mem_eraseP hm) he
  rw [hl] at hnd
  simp only [List.map_append, List.map_cons] at hnd
  rw [her] at hm
  rcases List.mem_append.mp hm with hm | hm
  · exact h₁ ch hm he
  · have hne := (List.nodup_cons.mp (List.nodup_append.mp hnd).2.1).1
    exact hne (List.mem_map.mpr ⟨ch, hm, e.trans (beq_iff_eq.mp ha).symm⟩)

namespace InOrder

theorem mono (h : InOrder k covered next core wp) (hc : ∀ n, covered n → covered' n) :
    InOrder k covered' next core wp :=
  { h with accounted := fun n hn => (h.accounted n hn).imp_right (Or.imp_right (hc n)) }

/-- Nothing about a writer depends on what is handed over for others, sent or reported. -/
theorem frame {ws : Set Guid} (h : InOrder k covered next core wp) (ha : Appends ws core core')
    (hg : wp.guid ∉ ws) : InOrder k covered next core' wp := by
  have hs := handedSince_of_appends ha hg h.start
  refine ⟨h.start.trans ha.le_length, ?_, ?_, h.pending_nodup, h.pending, ?_⟩
  · rw [hs]
    exact h.increasing
  · rw [hs]
    exact h.bounded
  · rw [hs]
    exact h.accounted

/-- The other fields of a proxy do not matter. -/
theorem congr (h : InOrder k covered next core wp) (hg : wp'.guid = wp.guid)
    (hr : wp'.received = wp.received) (hp : wp'.pendingChanges = wp.pendingChanges) :
    InOrder k covered next core wp' := by
  obtain ⟨h1, h2, h3, h4, h5, h6⟩ := h
  constructor
  · exact h1
  · rw [hg]
    exact h2
  · rw [hg]
    exact h3
  · rw [hp]
    exact h4
  · rw [hp, hr]
    exact h5
  · rw [hg, hp, hr]
    exact h6

/-- Hand over the change with number `next`, which is not buffered any more. -/
theorem handOver {ch : CacheChange} (h : InOrder k covered next core wp) (hr : core.Reports)
    (hsn : ch.sequenceNumber = next) (hpos : 1 ≤ next)
    (hfree : ∀ c ∈ wp.pendingChanges, c.sequenceNumber ≠ next) :
    InOrder k covered (next + 1) (core.handOver wp.guid ch) wp := by
  have hs := handedSince_handOver hr h.start wp.guid ch
  rw [hsn] at hs
  refine ⟨h.start.trans (Appends.handOver wp.guid ch).le_length, ?_, ?_, h.pending_nodup,
    ?_, ?_⟩
  · rw [hs, List.pairwise_append]
    refine ⟨h.increasing, List.pairwise_singleton _ _, fun n hn m hm => ?_⟩
    rw [List.mem_singleton.mp hm]
    exact (h.bounded n hn).2
  · rw [hs]
    intro n hn
    rcases List.mem_append.mp hn with hn | hn
    · have := h.bounded n hn
      omega
    · rw [List.mem_singleton.mp hn]
      omega
  · intro c hc h1
    have hge := h.pending c hc h1
    have hne := hfree c hc
    exact ⟨hge.1, by omega⟩
  · rw [hs]
    intro n hn
    exact (h.accounted n hn).imp_left (List.mem_append_left _)

/-- The loop of `deliverPendingLocked` moves `next` over the numbers it looks at. -/
theorem loop : ∀ (n : ℕ) (next : ℤ) (core : ReaderCore) (wp : WriterProxy),
    InOrder k covered next core wp → core.Reports → 1 ≤ next →
      InOrder k covered (next + n) (deliverPendingLoop n next core wp).1
        (deliverPendingLoop n next core wp).2
  | 0, next, core, wp, h, _, _ => by simpa [deliverPendingLoop] using h
  | n + 1, next, core, wp, h, hr, hpos => by
      have hcast : next + ((n + 1 : ℕ) : ℤ) = next + 1 + (n : ℤ) := by
        push_cast
        omega
      rw [deliverPendingLoop, hcast]
      split
      next hnone =>
        -- nothing is buffered under `next`
        refine loop n (next + 1) core wp ⟨h.start, h.increasing, fun m hm => ?_,
          h.pending_nodup, fun ch hch h1 => ?_, h.accounted⟩ hr (by omega)
        · have := h.bounded m hm
          omega
        · have hne : ch.sequenceNumber ≠ next := by
            simpa using List.find?_eq_none.mp hnone ch hch
          have := h.pending ch hch h1
          exact ⟨this.1, by omega⟩
      next ch hsome =>
        have hsn : ch.sequenceNumber = next := by simpa using List.find?_some hsome
        -- the buffer without `ch`, with `ch` accounted for as handed over
        have herase : InOrder k (fun m => covered m ∨ m = next) next core
            { wp with pendingChanges :=
                wp.pendingChanges.eraseP (fun c => c.sequenceNumber == next) } := by
          refine ⟨h.start, h.increasing, h.bounded,
            h.pending_nodup.sublist (List.eraseP_sublist.map _),
            fun c hc => h.pending c (List.mem_of_mem_eraseP hc), fun m hm => ?_⟩
          rcases h.accounted m hm with hm | ⟨c, hc, rfl⟩ | hm
          · exact .inl hm
          · by_cases e : c.sequenceNumber = next
            · exact .inr (.inr (.inr e))
            · exact .inr (.inl ⟨c, (List.mem_eraseP_of_neg (by simpa using e)).mpr hc, rfl⟩)
          · exact .inr (.inr (.inl hm))
        have hover := herase.handOver hr hsn hpos
          (fun c hc => ne_of_mem_eraseP h.pending_nodup hc)
        refine loop n (next + 1) _ _ { hover with accounted := fun m hm => ?_ }
          (hr.of_appends (Appends.handOver wp.guid ch)) (by omega)
        rcases hover.accounted m hm with hm | hm | hm | rfl
        · exact .inl hm
        · exact .inr (.inl hm)
        · exact .inr (.inr hm)
        · left
          rw [handedSince_handOver hr h.start wp.guid ch, hsn]
          exact List.mem_append_right _ (List.mem_singleton_self _)

/-- Delivering what is buffered brings `next` to the number after the cumulative
acknowledgment. -/
theorem deliverPending {prev : ℤ} (h : InOrder k covered (prev + 1) core wp)
    (hr : core.Reports) (h0 : 0 ≤ prev) (hle : prev ≤ wp.received.cumulativeAck) :
    InOrder k covered ((deliverPendingLocked core wp prev).2.received.cumulativeAck + 1)
      (deliverPendingLocked core wp prev).1 (deliverPendingLocked core wp prev).2 := by
  have hloop := loop (wp.received.cumulativeAck - prev).toNat (prev + 1) core wp h hr (by omega)
  have hnext : prev + 1 + ((wp.received.cumulativeAck - prev).toNat : ℤ) =
      wp.received.cumulativeAck + 1 := by omega
  rw [hnext] at hloop
  rw [(deliverPendingLocked_appends core wp prev).2.2]
  exact hloop

end InOrder

/-! ### The invariant between operations -/

/-- `InOrder` up to the cumulative acknowledgment. -/
def DeliversInOrder (k : ℕ) (covered : ℤ → Prop) (core : ReaderCore) (wp : WriterProxy) : Prop :=
  InOrder k covered (wp.received.cumulativeAck + 1) core wp

namespace DeliversInOrder

theorem mono (h : DeliversInOrder k covered core wp) (hc : ∀ n, covered n → covered' n) :
    DeliversInOrder k covered' core wp :=
  InOrder.mono h hc

theorem frame {ws : Set Guid} (h : DeliversInOrder k covered core wp)
    (ha : Appends ws core core') (hg : wp.guid ∉ ws) : DeliversInOrder k covered core' wp :=
  InOrder.frame h ha hg

theorem congr (h : DeliversInOrder k covered core wp) (hg : wp'.guid = wp.guid)
    (hr : wp'.received = wp.received) (hp : wp'.pendingChanges = wp.pendingChanges) :
    DeliversInOrder k covered core wp' := by
  unfold DeliversInOrder
  rw [hr]
  exact InOrder.congr h hg hr hp

/-- A change not received yet: handed over with what waited for it, or buffered. -/
theorem deliverChange {ch : CacheChange} (h : DeliversInOrder k covered core wp)
    (hr : core.Reports) (hnew : ch.sequenceNumber ∉ wp.received) :
    DeliversInOrder k covered (deliverChangeLocked core wp ch).1
      (deliverChangeLocked core wp ch).2 := by
  have hack := wp.received.cumulativeAck_nonneg
  have hsucc := wp.received.not_mem_cumulativeAck_succ
  unfold deliverChangeLocked
  split
  · exact h
  next change hproc =>
    have hsn := process_sequenceNumber hproc
    rw [← hsn] at hnew
    simp only [hr.reliable, if_true]
    split
    next hnext =>
      -- the next expected number: `h` holds with it inserted, then it is handed over
      have hins : InOrder k (fun m => covered m ∨ m = change.sequenceNumber)
          change.sequenceNumber core
          { wp with received := wp.received.insert change.sequenceNumber } := by
        refine ⟨h.start, h.increasing, ?_, h.pending_nodup, fun c hc h1 => ?_, fun m hm => ?_⟩
        · rw [hnext]
          exact h.bounded
        · have := h.pending c hc h1
          exact ⟨ReceivedSet.mem_insert.mpr (.inr this.1), by omega⟩
        · rcases ReceivedSet.mem_insert.mp hm with ⟨rfl, -⟩ | hm
          · exact .inr (.inr (.inr rfl))
          · exact (h.accounted m hm).imp_right (Or.imp_right Or.inl)
      have hfree : ∀ c ∈ wp.pendingChanges, c.sequenceNumber ≠ change.sequenceNumber := by
        intro c hc e
        have := h.pending c hc (by omega)
        exact hnew (e ▸ this.1)
      have hover := hins.handOver hr rfl (by omega) hfree
      refine InOrder.deliverPending { hover with accounted := fun m hm => ?_ }
        (hr.of_appends (Appends.handOver wp.guid change)) (by omega) ?_
      · rcases hover.accounted m hm with hm | hm | hm | rfl
        · exact .inl hm
        · exact .inr (.inl hm)
        · exact .inr (.inr hm)
        · left
          rw [handedSince_handOver hr h.start wp.guid change]
          exact List.mem_append_right _ (List.mem_singleton_self _)
      · rw [hnext]
        exact wp.received.le_cumulativeAck_insert
    next hnext =>
      split
      · exact h
      next hbuf =>
        -- out of order: the cumulative acknowledgment stays where it is
        have hackeq := ReceivedSet.cumulativeAck_insert_of_ne hnext
        have hfresh : ∀ c ∈ wp.pendingChanges, c.sequenceNumber ≠ change.sequenceNumber := by
          intro c hc e
          exact hbuf (List.any_eq_true.mpr ⟨c, hc, beq_iff_eq.mpr e⟩)
        unfold DeliversInOrder
        simp only [hackeq]
        refine ⟨h.start, h.increasing, h.bounded, ?_, ?_, ?_⟩
        · rw [List.map_append, List.nodup_append]
          refine ⟨h.pending_nodup, List.nodup_singleton _, ?_⟩
          rintro m hm m' hm' rfl
          obtain ⟨c, hc, rfl⟩ := List.mem_map.mp hm
          exact hfresh c hc (by simpa using hm')
        · intro c hc h1
          rcases List.mem_append.mp hc with hc | hc
          · have := h.pending c hc h1
            exact ⟨ReceivedSet.mem_insert.mpr (.inr this.1), this.2⟩
          · cases List.mem_singleton.mp hc
            refine ⟨ReceivedSet.mem_insert.mpr (.inl ⟨rfl, h1⟩), ?_⟩
            by_contra hlt
            exact hnew (ReceivedSet.mem_of_le_cumulativeAck h1 (by omega))
        · intro m hm
          rcases ReceivedSet.mem_insert.mp hm with ⟨rfl, -⟩ | hm
          · exact .inr (.inl ⟨change, List.mem_append_right _ (List.mem_singleton_self _), rfl⟩)
          · refine (h.accounted m hm).imp_right (Or.imp_left ?_)
            rintro ⟨c, hc, e⟩
            exact ⟨c, List.mem_append_left _ hc, e⟩

theorem handleData {ch : CacheChange} (h : DeliversInOrder k covered core wp)
    (hr : core.Reports) :
    DeliversInOrder k covered (handleDataLocked core wp ch).1 (handleDataLocked core wp ch).2 := by
  unfold handleDataLocked
  split
  · exact h
  next hnew => exact h.deliverChange hr hnew

theorem handleDataFrag {fresh : ℕ → UInt8} {ts : RtpsTimestamp} {df : DataFragSubmessage}
    {out : ReaderCore × WriterProxy} (h : DeliversInOrder k covered core wp)
    (hr : core.Reports) (hf : handleDataFragLocked core wp fresh ts df = some out) :
    DeliversInOrder k covered out.1 out.2 := by
  rcases handleDataFragLocked_cases hf with rfl | ⟨e, entry, he, -, hout⟩
  · exact h
  · -- a number already received is dropped before
    have hnew : df.writerSn ∉ wp.received := by
      unfold fragEntryLocked at he
      split at he
      · cases he
      next hn => exact hn
    have hput : DeliversInOrder k covered core (wp.putReassembly df.writerSn entry) :=
      h.congr rfl rfl rfl
    rcases hout with ⟨-, rfl⟩ | ⟨-, h₁, h₂⟩
    · exact hput
    · rw [h₁, h₂]
      have hd := @deliverChange _ _ _ _ (assembledChange wp.guid df.writerSn entry) hput hr hnew
      exact hd.congr rfl rfl rfl

end DeliversInOrder

/-- What marking numbers gone adds. -/
theorem mem_markGone : ∀ (sns : List ℤ) (s : ReceivedSet) (n : ℕ) (m : ℤ),
    m ∈ (sns.foldl (fun acc sn =>
        (acc.1.insert sn, if acc.1.contains sn then acc.2 else acc.2 + 1)) (s, n)).1 ↔
      m ∈ s ∨ (m ∈ sns ∧ 1 ≤ m)
  | [], s, n, m => by simp
  | sn :: sns, s, n, m => by
      rw [List.foldl_cons, mem_markGone sns, ReceivedSet.mem_insert]
      constructor
      · rintro ((⟨rfl, h1⟩ | hm) | ⟨hm, h1⟩)
        · exact .inr ⟨List.mem_cons_self, h1⟩
        · exact .inl hm
        · exact .inr ⟨List.mem_cons_of_mem _ hm, h1⟩
      · rintro (hm | ⟨hm, h1⟩)
        · exact .inl (.inr hm)
        · rcases List.mem_cons.mp hm with rfl | hm
          · exact .inl (.inl ⟨rfl, h1⟩)
          · exact .inr ⟨hm, h1⟩

/-- Numbers declared gone are covered if they were not received. -/
theorem DeliversInOrder.advancePast {sns : List ℤ} {out : ReaderCore × WriterProxy × ℕ}
    (h : DeliversInOrder k covered core wp) (hr : core.Reports)
    (ha : Rtps.advancePast core wp sns = some out) :
    DeliversInOrder k
      (fun n => covered n ∨ (n ∈ sns ∧ n ∉ wp.received ∧ n ∈ out.2.1.received)) out.1 out.2.1 := by
  obtain ⟨wp₁, rfl, -, -, hout⟩ := advancePast_eq ha
  obtain ⟨core', wp', lost⟩ := out
  simp only [hr.reliable, if_true] at hout
  have hmem : ∀ m, m ∈ (markGone wp.received sns).1 ↔ m ∈ wp.received ∨ (m ∈ sns ∧ 1 ≤ m) :=
    fun m => mem_markGone sns wp.received 0 m
  have hrecv := (deliverPendingLocked_appends core
    { wp with received := (markGone wp.received sns).1 } wp.received.cumulativeAck).2.2
  have hgone : InOrder k (fun n => covered n ∨ (n ∈ sns ∧ n ∉ wp.received ∧
      n ∈ (markGone wp.received sns).1)) (wp.received.cumulativeAck + 1) core
        { wp with received := (markGone wp.received sns).1 } := by
    refine ⟨h.start, h.increasing, h.bounded, h.pending_nodup, fun c hc h1 => ?_, fun m hm => ?_⟩
    · have := h.pending c hc h1
      exact ⟨(hmem _).mpr (.inl this.1), this.2⟩
    · by_cases hold : m ∈ wp.received
      · exact (h.accounted m hold).imp_right (Or.imp_right Or.inl)
      · rcases (hmem m).mp hm with hm' | ⟨hm', -⟩
        · exact absurd hm' hold
        · exact .inr (.inr (.inr ⟨hm', hold, hm⟩))
  have hdel := hgone.deliverPending hr wp.received.cumulativeAck_nonneg
    (ReceivedSet.cumulativeAck_mono (fun m hm => (hmem m).mpr (.inl hm)))
  rw [← hout] at hdel hrecv
  simp only at hrecv
  unfold DeliversInOrder
  simp only [hrecv] at hdel ⊢
  exact hdel

end Zzdds.Rtps
