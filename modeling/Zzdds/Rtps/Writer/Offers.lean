import Zzdds.Rtps.Writer.Sound

/-! # What HEARTBEATs and GAPs give up

A reader takes every number below a HEARTBEAT's first number, and every number of a GAP, as gone
for good.  `Machine.never_disowns`: no message of a run gives up a sample or an end marker that the
writer still has at that moment and that the reader is served, and every HEARTBEAT is one that a
reader accepts.  A scheduled HEARTBEAT goes by the history of the moment it was made: what is
added later has higher numbers, so it leaves that open too (`LeavesOpen`). -/

namespace Zzdds.Rtps

/-! ### Giving up a number -/

/-- The message tells its reader that `sn`, from the reader's start on, is gone. -/
def WriterMessage.Disowns (sn : ℤ) : WriterMessage → Prop
  | heartbeat startSn gaps firstSn _ _ _ _ =>
      startSn ≤ sn ∧ (sn < firstSn ∨ ∃ g ∈ gaps, g.1 ≤ sn ∧ sn < g.2)
  | gap gone => sn = gone
  | _ => False

/-- A HEARTBEAT passes the reader's test. -/
def WriterMessage.Acceptable : WriterMessage → Prop
  | heartbeat _ _ firstSn lastSn _ _ _ => 1 ≤ firstSn ∧ firstSn - 1 ≤ lastSn
  | _ => True

namespace StatefulWriter

/-- The message gives up nothing the writer has or will have. -/
def LeavesOpen (w : StatefulWriter) (m : WriterMessage) : Prop :=
  ∀ sn, sn ∈ w.keptSns ∨ w.cache.nextSn ≤ sn → ¬ m.Disowns sn

variable {w : StatefulWriter} {sn : ℤ}

/-! ### The first number -/

theorem minSn_spec (ho : w.Ordered) : 0 ≤ w.cache.minSn ∧
    (∀ ch ∈ w.cache.changes, w.cache.minSn ≤ ch.sequenceNumber) ∧
    (w.cache.minSn = 0 → w.cache.changes = []) ∧ w.cache.minSn ≤ w.cache.maxSn := by
  unfold HistoryCache.minSn
  split
  next h =>
    have hnil : w.cache.changes = [] := by simpa [List.min?_eq_none_iff] using h
    rw [HistoryCache.maxSn, hnil]
    exact ⟨le_rfl, fun _ h => (List.not_mem_nil h).elim, fun _ => rfl, le_rfl⟩
  next m h =>
    obtain ⟨hmem, hmin⟩ := List.min?_eq_some_iff.mp h
    have hpos := ho.positive m (List.mem_append_left _ hmem)
    refine ⟨hpos.le, fun ch hch => hmin _ (List.mem_map_of_mem hch), fun h0 => absurd h0 hpos.ne',
      ?_⟩
    obtain ⟨ch, hch, rfl⟩ := List.mem_map.mp hmem
    exact w.cache.maxSn_spec.2 ch hch

/-- Where the samples of the history start, or would start. -/
theorem cacheFirst_spec (ho : w.Ordered) {f : ℤ}
    (hf : f = if w.cache.minSn = 0 ∧ 0 < w.trimmedThrough then w.trimmedThrough + 1
      else w.cache.minSn) :
    0 ≤ f ∧ f ≤ w.cache.nextSn ∧ (∀ ch ∈ w.cache.changes, f ≤ ch.sequenceNumber) ∧
    (f = 0 → w.cache.changes = []) ∧ f ≤ max w.cache.maxSn w.trimmedThrough + 1 := by
  obtain ⟨hmin, hle, hempty, hmax⟩ := minSn_spec ho
  have htrim := ho.trimmed_le.trans_lt ho.flushed_lt
  subst hf
  split
  next h =>
    rw [hempty h.1]
    have := le_max_right w.cache.maxSn w.trimmedThrough
    exact ⟨by omega, by omega, fun _ h => (List.not_mem_nil h).elim, fun _ => rfl, by omega⟩
  next h =>
    have := le_max_left w.cache.maxSn w.trimmedThrough
    refine ⟨hmin, ?_, hle, hempty, by omega⟩
    cases hc : w.cache.changes with
    | nil =>
      have : w.cache.minSn = 0 := by rw [HistoryCache.minSn, hc]; rfl
      rw [this]
      exact ho.next_pos.le
    | cons ch l =>
      have hch : ch ∈ w.cache.changes := by rw [hc]; exact List.mem_cons_self
      exact (hle ch hch).trans (ho.below _ (mem_keptSns_of_change hch)).le

/-- The writer starts at or below all it has, and at most one above the last of it. -/
theorem firstAvailable_spec (ho : w.Ordered) : 0 ≤ w.firstAvailableSnLocked ∧
    (∀ sn, sn ∈ w.keptSns ∨ w.cache.nextSn ≤ sn → w.firstAvailableSnLocked ≤ sn) ∧
    w.firstAvailableSnLocked ≤ w.lastAvailableSnLocked + 1 := by
  obtain ⟨h₀, hn, hch, hempty, hl⟩ := cacheFirst_spec ho rfl
  unfold firstAvailableSnLocked lastAvailableSnLocked
  dsimp only
  generalize (if w.cache.minSn = 0 ∧ 0 < w.trimmedThrough then w.trimmedThrough + 1
      else w.cache.minSn) = f at h₀ hn hch hempty hl
  cases hm : w.endMarkers with
  | nil =>
    refine ⟨h₀, ?_, hl⟩
    rintro sn (h | h)
    · rw [keptSns, hm, List.map_nil, List.append_nil] at h
      obtain ⟨ch, hmem, rfl⟩ := List.mem_map.mp h
      exact hch ch hmem
    · exact hn.trans h
  | cons m ms =>
    have hmem : m ∈ w.endMarkers := by rw [hm]; exact List.mem_cons_self
    have hpos := ho.positive _ (mem_keptSns_of_marker hmem)
    have hlt := ho.below _ (mem_keptSns_of_marker hmem)
    have hfirst : ∀ m' ∈ w.endMarkers, m.sn ≤ m'.sn := by
      have hs := ho.markers
      rw [hm, List.map_cons, List.pairwise_cons] at hs
      intro m' hm'
      rw [hm] at hm'
      rcases List.mem_cons.mp hm' with rfl | hm'
      · exact le_rfl
      · exact (hs.1 _ (List.mem_map_of_mem hm')).le
    have hbound : (if f = 0 then m.sn else min f m.sn) ≤ m.sn := by
      split
      · exact le_rfl
      · exact min_le_right _ _
    rw [List.head?_cons, List.getLast?_eq_some_getLast (List.cons_ne_nil m ms)]
    dsimp only
    refine ⟨?_, ?_, ?_⟩
    · split
      · exact hpos.le
      · exact le_min h₀ hpos.le
    · rintro sn (h | h)
      · rcases List.mem_append.mp h with h | h
        · obtain ⟨ch, hc, rfl⟩ := List.mem_map.mp h
          have hne : f ≠ 0 := by
            intro h0
            rw [hempty h0] at hc
            cases hc
          rw [if_neg hne]
          exact (min_le_left _ _).trans (hch ch hc)
        · obtain ⟨m', hm', rfl⟩ := List.mem_map.mp h
          exact hbound.trans (hfirst m' hm')
      · exact hbound.trans (hlt.le.trans h)
    · have hlast := hfirst _ (by rw [hm]; exact List.getLast_mem (List.cons_ne_nil m ms))
      have := le_max_right (max w.cache.maxSn w.trimmedThrough)
        ((m :: ms).getLast (List.cons_ne_nil m ms)).sn
      omega

/-! ### HEARTBEATs as the code makes them -/

/-- A HEARTBEAT before it is checked for validity. -/
structure WellBounded (firstSn lastSn : ℤ) : Prop where
  first_pos : 1 ≤ firstSn
  last_nonneg : 0 ≤ lastSn
  empty : lastSn = 0 → firstSn = 1

theorem Offers.leavesOpen (ho : w.Ordered) {startSn firstSn lastSn : ℤ} {gaps : List (ℤ × ℤ)}
    (h : w.Offers startSn gaps firstSn lastSn) (count : ℕ) (final liveliness : Bool) :
    w.LeavesOpen (.heartbeat startSn gaps firstSn lastSn count final liveliness) := by
  obtain ⟨h₀, hopen, -⟩ := firstAvailable_spec ho
  obtain ⟨-, ov, hov, rfl, rfl⟩ := h
  rintro sn hsn ⟨hstart, hgone⟩
  have hfa := hopen sn hsn
  have hpos : 1 ≤ sn := by
    rcases hsn with hsn | hsn
    · exact ho.positive sn hsn
    · have := ho.next_pos
      omega
  rcases hgone with hlt | ⟨g, hg, hg₁, hg₂⟩
  · -- below the first number
    cases ov with
    | some fsn =>
      have hlt : sn < fsn := hlt
      rw [(hov fsn rfl).2] at hlt
      split at hlt <;> omega
    | none =>
      rw [hbFirstSn] at hlt
      split_ifs at hlt <;> omega
  · -- in a GAP
    rcases List.mem_append.mp hg with hg | hg
    · cases ov with
      | none => cases hg
      | some fsn =>
        rw [preMatchGap] at hg
        split at hg
        · rw [List.mem_singleton.mp hg] at hg₂
          exact absurd hstart (not_le.mpr hg₂)
        · cases hg
    · rw [evictedGap] at hg
      split at hg
      · rw [List.mem_singleton.mp hg] at hg₂
        exact absurd hfa (not_le.mpr hg₂)
      · cases hg

theorem Offers.wellBounded (ho : w.Ordered) {startSn firstSn lastSn : ℤ} {gaps : List (ℤ × ℤ)}
    (h : w.Offers startSn gaps firstSn lastSn) : WellBounded firstSn lastSn := by
  obtain ⟨h₀, -, hle⟩ := firstAvailable_spec ho
  obtain ⟨hlo, ov, hov, rfl, -⟩ := h
  have hlast : 0 ≤ lastSn := by
    have hsent : 0 ≤ w.lastSentSnLocked := by
      unfold lastSentSnLocked
      split
      · exact le_min lastAvailable_nonneg (ho.trimmed_nonneg.trans ho.trimmed_le)
      · exact lastAvailable_nonneg
    rwa [min_eq_left hsent] at hlo
  refine ⟨?_, hlast, ?_⟩
  · cases ov with
    | some fsn =>
      obtain ⟨-, hf⟩ := hov fsn rfl
      show 1 ≤ fsn
      split at hf <;> omega
    | none =>
      rw [hbFirstSn]
      split_ifs <;> omega
  · intro hz
    cases ov with
    | some fsn =>
      obtain ⟨he, hf⟩ := hov fsn rfl
      rw [hbFirstSn]
      split at hf <;> omega
    | none =>
      rw [hbFirstSn, if_pos hz]

end StatefulWriter

/-! ### Runs -/

/-- What is in flight and what was sent leaves open all that is kept. -/
structure View.Honest (s : View) : Prop where
  flight : ∀ g m, .message g m ∈ s.flight → s.writer.LeavesOpen m
  bounds : ∀ g startSn gaps firstSn lastSn count final liveliness,
    .message g (.heartbeat startSn gaps firstSn lastSn count final liveliness) ∈ s.flight →
    StatefulWriter.WellBounded firstSn lastSn
  log : ∀ hidden kept g locs m, .send hidden kept g locs m ∈ s.writer.log →
    (∀ sn ∈ kept, ¬ m.Disowns sn) ∧ m.Acceptable

namespace Move

open StatefulWriter

variable {sc : Scope} {s s' : View}

/-- What leaves open all that is kept still does after a move. -/
theorem leavesOpen (h : Move sc s s') {m : WriterMessage} (hm : s.writer.LeavesOpen m) :
    s'.writer.LeavesOpen m := by
  obtain ⟨hn, hk⟩ := h.keeps
  rintro sn (hsn | hsn)
  · exact hm sn (hk sn hsn)
  · exact hm sn (.inr (hn.trans hsn))

/-- A HEARTBEAT checked for validity is acceptable. -/
theorem acceptable_of_wellBounded {firstSn lastSn : ℤ}
    (hb : WellBounded firstSn lastSn) (hv : 0 < lastSn → firstSn ≤ lastSn + 1) :
    1 ≤ firstSn ∧ firstSn - 1 ≤ lastSn := by
  obtain ⟨h₁, h₂, h₃⟩ := hb
  refine ⟨h₁, ?_⟩
  rcases h₂.lt_or_eq with hpos | hz
  · have := hv hpos
    omega
  · have := h₃ hz.symm
    omega

theorem honest (h : Move sc s s') (hs : s.Sound) (hi : s.Honest) : s'.Honest := by
  have ho := hs.toOrdered
  refine ⟨?_, ?_, ?_⟩
  · intro g m hm
    apply h.leavesOpen
    rcases h.scheduled hm with hold | hnew
    · exact hi.flight g m hold
    · cases hnew with
      | data _ ch hs => exact fun _ _ => id
      | marker _ m hm => exact fun _ _ => id
      | heartbeat _ startSn gaps firstSn lastSn final liveliness hu hof hl =>
        exact hof.leavesOpen ho _ _ _
  · intro g startSn gaps firstSn lastSn count final liveliness hm
    rcases h.scheduled hm with hold | hnew
    · exact hi.bounds _ _ _ _ _ _ _ _ hold
    · cases hnew with
      | heartbeat _ startSn gaps firstSn lastSn final liveliness hu hof hl =>
        exact hof.wellBounded ho
  · intro hidden kept g locs m hm
    rcases h.sent hm with hold | ⟨-, hkept, hnew⟩
    · exact hi.log _ _ _ _ _ hold
    · subst hkept
      cases hnew with
      | heartbeat startSn gaps firstSn lastSn final liveliness hu hg hof hv hl =>
        exact ⟨fun sn hsn => hof.leavesOpen ho _ _ _ sn (.inl hsn), acceptable_of_wellBounded (hof.wellBounded ho) hv⟩
      | heartbeatFrag ch numFrags hu hs => exact ⟨fun _ _ => id, trivial⟩
      | data ch hs => exact ⟨fun _ _ => id, trivial⟩
      | dataFrag ch fragNum withTs hs => exact ⟨fun _ _ => id, trivial⟩
      | marker m hm => exact ⟨fun _ _ => id, trivial⟩
      | gap sn hn =>
        refine ⟨?_, trivial⟩
        rintro sn' hsn' rfl
        exact hn hsn'
      | land _ hf hl =>
        refine ⟨fun sn hsn => hi.flight g m hf sn (.inl hsn), ?_⟩
        cases m with
        | heartbeat startSn gaps firstSn lastSn count final liveliness =>
          exact acceptable_of_wellBounded (hi.bounds _ _ _ _ _ _ _ _ hf) (hl _ _ _ _ _ _ _ rfl).2
        | _ => exact trivial

end Move

/-- No message of a run gives up a sample or an end marker that the writer still has and that the
reader is served, and every HEARTBEAT is valid. -/
theorem Machine.never_disowns (config : WriterConfig) (kind : HistoryKind) (depth : ℕ)
    (blocks : ℕ → Bool) (as : List WriterAction) (c : Machine)
    (h : (Machine.init config kind depth blocks).run as = some c) (hidden kept : List ℤ)
    (g : Guid) (locs : List Locator) (m : WriterMessage)
    (hm : .send hidden kept g locs m ∈ c.writer.log) :
    (∀ sn ∈ kept, ¬ m.Disowns sn) ∧ m.Acceptable := by
  have hinit : (Machine.init config kind depth blocks).view.Honest := {
    flight := fun _ _ h => absurd h (Multiset.notMem_zero _)
    bounds := fun _ _ _ _ _ _ _ _ h => absurd h (Multiset.notMem_zero _)
    log := fun _ _ _ _ _ h => (List.not_mem_nil h).elim }
  have hinv : c.view.Sound ∧ c.view.Honest :=
    Machine.run_inv' (I := fun s => s.Sound ∧ s.Honest)
      (fun _ _ _ hmove hi => ⟨hmove.sound hi.1, hmove.honest hi.1 hi.2⟩) as
      (Machine.init_wellPhased _ _ _ _) ⟨Machine.init_sound _ _ _ _, hinit⟩ h
  exact hinv.2.log hidden kept g locs m hm

/-- A KEEP_LAST writer that replaced its first two samples: its HEARTBEAT starts at the third,
behind a GAP for the two. -/
theorem Machine.never_disowns_keepLast : ∃ c, (smallWriter .keepLast).run
    [.addOrRefreshMatchedReader (smallReader 2 true) (fun _ => 0) true, .write (smallSample [1]),
      .write (smallSample [2]), .write (smallSample [3]), .sendHeartbeat false false] = some c ∧
    .send [] [3] (smallGuid 2) [.shmem 0 0] (.heartbeat 1 [(1, 3)] 3 3 5 false false) ∈
      c.writer.log ∧
    (∀ sn ∈ [3], ¬ (WriterMessage.heartbeat 1 [(1, 3)] 3 3 5 false false).Disowns sn) ∧
    (WriterMessage.heartbeat 1 [(1, 3)] 3 3 5 false false).Acceptable := by
  have hm : .send [] [3] (smallGuid 2) [.shmem 0 0] (.heartbeat 1 [(1, 3)] 3 3 5 false false) ∈
      (((smallWriter .keepLast).run [.addOrRefreshMatchedReader (smallReader 2 true) (fun _ => 0)
        true, .write (smallSample [1]), .write (smallSample [2]), .write (smallSample [3]),
        .sendHeartbeat false false]).get rfl).writer.log := List.mem_of_getElem? (i := 7) rfl
  exact ⟨_, (Option.some_get _).symm, hm, Machine.never_disowns smallConfig .keepLast 1 _ _ _
    (Option.some_get _).symm _ _ _ _ _ hm⟩

end Zzdds.Rtps
