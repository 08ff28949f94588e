import Zzdds.Rtps.Writer.Hidden

/-! # Suspended publications

A sample written while publications are suspended is to wait for an `endCoherentSet`.  The log says
of each write whether it was made under a suspension, and of each sample whether it went out with
its write or from an `endCoherentSet`.  An `endCoherentSet` that resumes the suspension clears
`coherent_active` for the time of its flush and frees the lock while it sends, so a write in between
goes out at once; and one that frees the lock lets a write move the floor of the trim past samples
it has still to send.  `Steady` says of a write that it does neither, nor evicts a waiting sample,
and `Machine.holds_suspended` that then every suspended write waits or went out from an
`endCoherentSet`. -/

namespace Zzdds.Rtps

/-! ### What waits -/

/-- The samples a flush has still to send. -/
def Phase.awaitingSns (ph : Phase) : List ℤ :=
  if ph.tagged then ph.rest else ph.rest ++ ph.set.coherentSns

/-- The samples that wait for an `endCoherentSet`, or for the flush of one. -/
def View.awaitingSns (s : View) : List ℤ :=
  match s.phase with
  | none => s.writer.coherentPendingSns
  | some ph => ph.awaitingSns

def Machine.awaitingSns (c : Machine) : List ℤ := c.view.awaitingSns

/-- A write is not made during the flush of an `endCoherentSet` that is to stay suspended, nor, by a
writer that drops what is acknowledged, during any flush; and it takes no waiting sample out of the
history. -/
def WriterAction.Steady (c : Machine) : WriterAction → Prop
  | write sample => c.tasks.any (·.resuspends) = false ∧
      (c.writer.config.dropAcked = true → c.phases = []) ∧
      ∀ sn ∈ c.awaitingSns, ¬ c.writer.Evicts sample sn
  | _ => True

/-! ### The invariant -/

/-- All that may come to count as flushed is below `sn`. -/
structure View.FlushesBelow (s : View) (sn : ℤ) : Prop where
  flushed : s.writer.lastFlushedSn < sn
  flight : ∀ n, .flushing n ∈ s.flight → n < sn
  eoc : ∀ n ∈ s.writer.pendingEocSn, n < sn
  current : ∀ n, s.current = some n → n < sn

structure View.Holding (s : View) : Prop extends s.Phased where
  sorted : s.awaitingSns.Pairwise (· < ·)
  cached : ∀ sn ∈ s.awaitingSns, ∃ ch ∈ s.writer.cache.changes, ch.sequenceNumber = sn
  ahead : s.writer.config.dropAcked = true → ∀ sn ∈ s.awaitingSns, s.FlushesBelow sn
  current : ∀ n, s.current = some n → n < s.writer.cache.nextSn
  logged : ∀ sn b, .wrote sn b ∈ s.writer.log ∨ .offer sn b ∈ s.writer.log →
    sn < s.writer.cache.nextSn
  held : ∀ sn, .wrote sn true ∈ s.writer.log → .offer sn true ∉ s.writer.log ∧
    (.offer sn false ∈ s.writer.log ∨ sn ∈ s.awaitingSns)

/-- The actions' condition, inside the action. -/
structure Scope.Steady (sc : Scope) (s : View) : Prop where
  write : ∀ sample b, sc.write sample b → ¬ sc.endSet ∧
    (b = true → s.writer.coherentActive = true) ∧
    (s.writer.config.dropAcked = true → s.phase = none)
  evicts : ∀ sn ∈ s.awaitingSns, ¬ sc.evicts sn
  evicts_lt : ∀ sn, sc.evicts sn → sn < s.writer.cache.nextSn

namespace Move

open StatefulWriter

variable {sc : Scope} {s s' : View}

/-- What waits: a write held back joins it, and a flush takes from its front, which it sends
unless it has left the history. -/
theorem awaiting (h : Move sc s s') (hi : s.Phased) :
    s'.awaitingSns = s.awaitingSns ∨
    (s'.awaitingSns = s.awaitingSns ++ [s.writer.cache.nextSn] ∧
      ∃ ch ∈ s'.writer.cache.changes, ch.sequenceNumber = s.writer.cache.nextSn) ∨
    ∃ sn, s.awaitingSns = sn :: s'.awaitingSns ∧
      (.offer sn false ∈ s'.writer.log ∨ s.writer.cache.getChange sn = none) := by
  have hsame : s'.phase = s.phase →
      s'.writer.coherentPendingSns = s.writer.coherentPendingSns →
      s'.awaitingSns = s.awaitingSns := by
    intro hp hq
    unfold View.awaitingSns
    rw [hp, hq]
  -- the front of a flush
  have hfront : ∀ {tagged : Bool} {sn : ℤ} {rest : List ℤ} {e : EndSet},
      (⟨tagged, sn :: rest, e⟩ : Phase).awaitingSns =
        sn :: (⟨tagged, rest, e⟩ : Phase).awaitingSns := by
    intro tagged sn rest e
    cases tagged <;> rfl
  cases h with
  | writeBuffered sample b hw hev ha =>
    have hp : s.phase = none := by
      by_contra hne
      exact absurd (hi.closed hne) (by rw [ha]; decide)
    right; left
    obtain ⟨old, ch, -, hch, hl, -⟩ := s.writer.addSample_changes sample
    refine ⟨?_, ch, ?_, hch⟩
    · unfold View.awaitingSns
      rw [hp]
    · show ch ∈ (s.writer.addSample sample).cache.changes
      rw [hl]
      exact List.mem_append_right _ (List.mem_singleton.mpr rfl)
  | beginSet b hp =>
    left
    apply hsame rfl
    unfold beginCoherentSet
    split <;> rfl
  | endSet e he hp =>
    left
    show List.take _ _ ++ List.drop _ _ = _
    unfold View.awaitingSns
    rw [hp, List.take_append_drop]
  | skip tagged sn rest e hp hn =>
    right; right
    refine ⟨sn, ?_, .inr hn⟩
    unfold View.awaitingSns
    rw [hp]
    exact hfront
  | offer tagged sn rest e hp =>
    right; right
    refine ⟨sn, ?_, .inl (List.mem_append_right _ (List.mem_singleton.mpr rfl))⟩
    unfold View.awaitingSns
    rw [hp]
    exact hfront
  | tag e hp =>
    left
    unfold View.awaitingSns
    rw [hp]
    exact s.writer.tagSet_coherentSns e
  | finish tagged e hp ht =>
    left
    have hnil : (⟨tagged, [], e⟩ : Phase).awaitingSns = [] := by
      cases tagged with
      | true => rfl
      | false => exact ht.resolve_left (by decide)
    show [] = s.awaitingSns
    unfold View.awaitingSns
    rw [hp]
    exact hnil.symm
  | ready g isReady =>
    exact .inl (hsame rfl (OnlySent.reportReady s.writer g isReady).coherentPendingSns)
  | trim =>
    left
    apply hsame rfl
    rcases s.writer.trimAckedLocked_cases with h | ⟨-, -, h⟩
    · rw [h]
    · rw [h]
      rfl
  | retire =>
    left
    apply hsame rfl
    simp only [retireEndMarkersLocked]
  | addMarker e m deferEoc hp hm =>
    left
    apply hsame rfl
    simp only [StatefulWriter.addMarker, retireEndMarkersLocked]
  | _ => exact .inl (hsame rfl rfl)

theorem mem_dropWhile {α : Type*} {p : α → Bool} {x : α} (hp : p x = false) :
    ∀ {l : List α}, x ∈ l → x ∈ l.dropWhile p
  | a :: l, h => by
      rw [List.dropWhile_cons]
      split
      next ha =>
        rcases List.mem_cons.mp h with rfl | h
        · rw [hp] at ha
          cases ha
        · exact mem_dropWhile hp h
      next => exact h

/-- A sample leaves the history by a write that evicts it, or by a trim once it counts as
flushed. -/
theorem stays (h : Move sc s s') {sn : ℤ}
    (hc : ∃ ch ∈ s.writer.cache.changes, ch.sequenceNumber = sn) :
    (∃ ch ∈ s'.writer.cache.changes, ch.sequenceNumber = sn) ∨ sc.evicts sn ∨
    (s.writer.config.dropAcked = true ∧ sn ≤ s.writer.lastFlushedSn) := by
  have hwrite : ∀ sample, (∀ n, s.writer.Evicts sample n → sc.evicts n) →
      (∃ ch ∈ (s.writer.addSample sample).cache.changes, ch.sequenceNumber = sn) ∨
      sc.evicts sn := by
    intro sample hev
    by_cases hx : ∃ ch ∈ (s.writer.addSample sample).cache.changes, ch.sequenceNumber = sn
    · exact .inl hx
    · exact .inr (hev sn ⟨hc, fun ch hch he => hx ⟨ch, hch, he⟩⟩)
  cases h with
  | ready g isReady =>
    rw [(OnlySent.reportReady s.writer g isReady).cache]
    exact .inl hc
  | trim =>
    rcases s.writer.trimAckedLocked_cases with h | ⟨hdrop, -, h⟩
    · rw [h]
      exact .inl hc
    · rw [h]
      obtain ⟨ch, hch, rfl⟩ := hc
      by_cases hle : ch.sequenceNumber ≤ s.writer.trimFloor
      · exact .inr (.inr ⟨hdrop, hle.trans trimFloor_le⟩)
      · exact .inl ⟨ch, mem_dropWhile (by simpa using hle) hch, rfl⟩
  | retire =>
    rw [retireEndMarkersLocked_cache]
    exact .inl hc
  | writeBuffered sample b hw hev ha => exact (hwrite sample hev).imp_right .inl
  | writeNow sample b hw hev ha => exact (hwrite sample hev).imp_right .inl
  | beginSet b =>
    left
    unfold beginCoherentSet
    split <;> exact hc
  | tag e hp =>
    obtain ⟨hsns, -⟩ := s.writer.tagSet_rest e
    obtain ⟨ch, hch, rfl⟩ := hc
    have hm : ch.sequenceNumber ∈
        (s.writer.tagSet e).1.cache.changes.map (·.sequenceNumber) := by
      rw [hsns]
      exact List.mem_map_of_mem hch
    exact .inl (List.mem_map.mp hm)
  | addMarker e m deferEoc hp hm =>
    have he : (s.writer.addMarker m deferEoc).cache.changes = s.writer.cache.changes := by
      simp only [StatefulWriter.addMarker, retireEndMarkersLocked, HistoryCache.allocSn]
    rw [he]
    exact .inl hc
  | _ => exact .inl hc

/-! ### The log -/

/-- The log only grows. -/
theorem log_subset (h : Move sc s s') {ev : WriterEvent} (hev : ev ∈ s.writer.log) :
    ev ∈ s'.writer.log := by
  rcases h.log with ⟨g, locs, m, -, hl, -⟩ | ⟨evs, hl, -⟩ <;>
  · rw [hl]
    exact List.mem_append_left _ hev

/-- A move that is no write and starts no send logs neither. -/
theorem wrote_or_offer (h : Move sc s s') {ev : WriterEvent}
    (hkind : (∃ sn b, ev = .wrote sn b) ∨ ∃ sn b, ev = .offer sn b) (hev : ev ∈ s'.writer.log) :
    ev ∈ s.writer.log ∨
    (∃ sample b, sc.write sample b ∧ ev = .wrote s.writer.cache.nextSn b ∧
      s.writer.cache.nextSn < s'.writer.cache.nextSn ∧
      (s.writer.coherentActive = true →
        s'.awaitingSns = s.awaitingSns ++ [s.writer.cache.nextSn] ∨ s.phase ≠ none)) ∨
    (s.writer.coherentActive = false ∧ (∃ sample b, sc.write sample b) ∧
      s.writer.cache.nextSn < s'.writer.cache.nextSn ∧
      ev = .offer s.writer.cache.nextSn true) ∨
    (∃ sn ∈ s.awaitingSns, ev = .offer sn false) := by
  have hother : ∀ {ev' : WriterEvent}, ev ∈ s.writer.log ++ [ev'] →
      (∀ sn b, ev' ≠ .wrote sn b) → (∀ sn b, ev' ≠ .offer sn b) → ev ∈ s.writer.log := by
    intro ev' hm hw ho
    rcases List.mem_append.mp hm with hm | hm
    · exact hm
    · obtain rfl := List.mem_singleton.mp hm
      rcases hkind with ⟨sn, b, he⟩ | ⟨sn, b, he⟩
      · exact absurd he (hw sn b)
      · exact absurd he (ho sn b)
  have hnext : ∀ sample, s.writer.cache.nextSn < (s.writer.addSample sample).cache.nextSn := by
    intro sample
    obtain ⟨-, -, -, -, -, hn⟩ := s.writer.addSample_changes sample
    rw [hn]
    exact lt_add_one _
  cases h with
  | ready g isReady =>
    unfold StatefulWriter.reportReady at hev
    split at hev
    · exact .inl (hother hev (by rintro _ _ ⟨⟩) (by rintro _ _ ⟨⟩))
    · exact .inl hev
  | trim =>
    rcases s.writer.trimAckedLocked_cases with h | ⟨-, -, h⟩
    · rw [h] at hev
      exact .inl hev
    · rw [h] at hev
      exact .inl (hother hev (by rintro _ _ ⟨⟩) (by rintro _ _ ⟨⟩))
  | retire =>
    rw [retireEndMarkersLocked_rest] at hev
    exact .inl hev
  | writeBuffered sample b hw hve ha =>
    rcases List.mem_append.mp hev with hev | hev
    · exact .inl hev
    · refine .inr (.inl ⟨sample, b, hw, List.mem_singleton.mp hev, hnext sample, fun _ => ?_⟩)
      by_cases hp : s.phase = none
      · left
        unfold View.awaitingSns
        rw [hp]
      · exact .inr hp
  | writeNow sample b hw hve ha =>
    have hev : ev ∈ (s.writer.log ++ [_]) ++ [_] := hev
    rw [List.append_assoc] at hev
    rcases List.mem_append.mp hev with hev | hev
    · exact .inl hev
    · rcases List.mem_pair.mp hev with rfl | rfl
      · refine .inr (.inl ⟨sample, b, hw, rfl, hnext sample, fun h => ?_⟩)
        rw [ha] at h
        cases h
      · exact .inr (.inr (.inl ⟨ha, ⟨sample, b, hw⟩, hnext sample, rfl⟩))
  | beginSet b =>
    unfold beginCoherentSet at hev
    split at hev <;> exact .inl hev
  | offer tagged sn rest e hp =>
    rcases List.mem_append.mp hev with hev | hev
    · exact .inl hev
    · refine .inr (.inr (.inr ⟨sn, ?_, List.mem_singleton.mp hev⟩))
      unfold View.awaitingSns
      rw [hp]
      cases tagged <;> exact List.mem_cons_self
  | tag e hp =>
    dsimp only at hev
    unfold tagSet at hev
    split at hev
    · exact .inl hev
    · exact .inl (hother hev (by rintro _ _ ⟨⟩) (by rintro _ _ ⟨⟩))
  | addMarker e m deferEoc hp hm =>
    have hl : (s.writer.addMarker m deferEoc).log = s.writer.log := by
      simp only [StatefulWriter.addMarker, retireEndMarkersLocked]
    rw [hl] at hev
    exact .inl hev
  | _ =>
    first
    | exact .inl hev
    | exact .inl (hother hev (by rintro _ _ ⟨⟩) (by rintro _ _ ⟨⟩))

/-! ### Each move keeps what waits -/

theorem awaiting_lt (hs : s.Sound) (hi : s.Holding) {sn : ℤ} (h : sn ∈ s.awaitingSns) :
    sn < s.writer.cache.nextSn := by
  obtain ⟨ch, hch, rfl⟩ := hi.cached sn h
  exact hs.below _ (mem_keptSns_of_change hch)

/-- A flush passes over nothing that waits, since all of it is in the history. -/
theorem awaiting_sent (h : Move sc s s') (hi : s.Holding) :
    s'.awaitingSns = s.awaitingSns ∨
    (s'.awaitingSns = s.awaitingSns ++ [s.writer.cache.nextSn] ∧
      ∃ ch ∈ s'.writer.cache.changes, ch.sequenceNumber = s.writer.cache.nextSn) ∨
    ∃ sn, s.awaitingSns = sn :: s'.awaitingSns ∧ .offer sn false ∈ s'.writer.log := by
  rcases h.awaiting hi.toPhased with h | h | ⟨sn, hsn, h | hn⟩
  · exact .inl h
  · exact .inr (.inl h)
  · exact .inr (.inr ⟨sn, hsn, h⟩)
  · obtain ⟨ch, hch, he⟩ := hi.cached sn (by rw [hsn]; exact List.mem_cons_self)
    exact absurd (List.find?_eq_none.mp hn ch hch) (by simp [he])

/-- What waits was waiting, or is the sample just written. -/
theorem awaiting_mem (h : Move sc s s') (hi : s.Holding) {sn : ℤ} (hsn : sn ∈ s'.awaitingSns) :
    sn ∈ s.awaitingSns ∨ (sn = s.writer.cache.nextSn ∧
      ∃ ch ∈ s'.writer.cache.changes, ch.sequenceNumber = sn) := by
  rcases h.awaiting_sent hi with h | ⟨h, hch⟩ | ⟨n, h, -⟩
  · exact .inl (h ▸ hsn)
  · rw [h] at hsn
    rcases List.mem_append.mp hsn with hsn | hsn
    · exact .inl hsn
    · obtain rfl := List.mem_singleton.mp hsn
      exact .inr ⟨rfl, hch⟩
  · exact .inl (by rw [h]; exact List.mem_cons_of_mem _ hsn)

/-- Nothing comes to count as flushed past a sample that waits and goes on waiting. -/
theorem flushesBelow (h : Move sc s s') (hi : s.Phased) (hj : sc.Steady s)
    (hd : s.writer.config.dropAcked = true) {sn : ℤ} (hb : s.FlushesBelow sn)
    (hsn : sn ∈ s'.awaitingSns) (hoff : ∀ n, s.awaitingSns = n :: s'.awaitingSns → n < sn) :
    s'.FlushesBelow sn := by
  obtain ⟨hfl, hflight, heoc, hcur⟩ := hb
  -- past its last sample a flush has nothing that waits
  have hdone : ∀ {e : EndSet}, s'.phase ≠ some ⟨true, [], e⟩ := by
    intro e hp
    unfold View.awaitingSns at hsn
    rw [hp] at hsn
    exact List.not_mem_nil hsn
  cases h with
  | ready g isReady =>
    have h := OnlySent.reportReady s.writer g isReady
    exact ⟨by rw [h.lastFlushedSn]; exact hfl, hflight, by rw [h.pendingEocSn]; exact heoc, hcur⟩
  | trim =>
    rcases s.writer.trimAckedLocked_cases with h | ⟨-, -, h⟩ <;>
    · rw [h]
      exact ⟨hfl, hflight, heoc, hcur⟩
  | retire =>
    rw [retireEndMarkersLocked_rest]
    exact ⟨hfl, hflight, heoc, hcur⟩
  | launchData g ch hm =>
    exact ⟨hfl, fun n hn => hflight n ((Multiset.mem_cons.mp hn).resolve_left (by rintro ⟨⟩)),
      heoc, hcur⟩
  | launchMarker g m hm =>
    exact ⟨hfl, fun n hn => hflight n ((Multiset.mem_cons.mp hn).resolve_left (by rintro ⟨⟩)),
      heoc, hcur⟩
  | launchHeartbeat g startSn gaps firstSn lastSn final liveliness hu ho hl =>
    exact ⟨hfl, fun n hn => hflight n ((Multiset.mem_cons.mp hn).resolve_left (by rintro ⟨⟩)),
      heoc, hcur⟩
  | launchFlush n hf =>
    refine ⟨hfl, fun k hk => ?_, heoc, hcur⟩
    rcases Multiset.mem_cons.mp hk with hk | hk
    · cases hk
      exact hcur n hf.2.1
    · exact hflight k hk
  | takeEoc n hn =>
    refine ⟨hfl, fun k hk => ?_, fun _ h => (by cases h), hcur⟩
    rcases Multiset.mem_cons.mp hk with hk | hk
    · cases hk
      exact heoc n hn
    · exact hflight k hk
  | land g locs m f hf hl =>
    exact ⟨hfl, fun n hn => hflight n (by rw [hf]; exact Multiset.mem_cons_of_mem hn), heoc, hcur⟩
  | flush n f hf =>
    refine ⟨max_lt hfl (hflight n (by rw [hf]; exact Multiset.mem_cons_self _ _)), ?_, heoc, hcur⟩
    exact fun n hn => hflight n (by rw [hf]; exact Multiset.mem_cons_of_mem hn)
  | drop x f hf =>
    exact ⟨hfl, fun n hn => hflight n (by rw [hf]; exact Multiset.mem_cons_of_mem hn), heoc, hcur⟩
  | forget => exact ⟨hfl, hflight, heoc, fun _ h => by cases h⟩
  | writeNow sample b hw hev ha =>
    -- with no flush under way and no set open, nothing waits
    exfalso
    have hp := (hj.write sample b hw).2.2 hd
    have hnil : s.awaitingSns = [] := by
      unfold View.awaitingSns
      rw [hp]
      exact hi.idle hp ha
    have hsn : sn ∈ s.awaitingSns := hsn
    rw [hnil] at hsn
    cases hsn
  | beginSet b hp =>
    unfold beginCoherentSet
    split <;> exact ⟨hfl, hflight, heoc, hcur⟩
  | endSet e he hp => exact ⟨hfl, hflight, heoc, fun _ h => by cases h⟩
  | offer tagged n rest e hp =>
    refine ⟨hfl, hflight, heoc, ?_⟩
    rintro k ⟨⟩
    apply hoff
    unfold View.awaitingSns
    rw [hp]
    cases tagged <;> rfl
  | tag e hp =>
    obtain ⟨-, -, -, hf, -, he, -⟩ := s.writer.tagSet_rest e
    exact ⟨by rw [hf]; exact hfl, hflight, by rw [he]; exact heoc, hcur⟩
  | addMarker e m deferEoc hp hm => exact absurd hp hdone
  | flushMarker e n hp ha hlt => exact absurd hp hdone
  | finish tagged e hp ht => cases hsn
  | _ => exact ⟨hfl, hflight, heoc, hcur⟩

/-- The sample that goes out is one that was written. -/
theorem current_lt (h : Move sc s s') (hs : s.Sound) (hi : s.Holding) :
    ∀ n, s'.current = some n → n < s'.writer.cache.nextSn := by
  have hold : s'.current = s.current → ∀ n, s'.current = some n →
      n < s'.writer.cache.nextSn := by
    intro he n hn
    exact (hi.current n (he.symm.trans hn)).trans_le h.keeps.1
  cases h with
  | forget => exact fun _ h => nomatch h
  | endSet e he hp => exact fun _ h => nomatch h
  | writeNow sample b hw hev ha =>
    rintro n ⟨⟩
    obtain ⟨-, -, -, -, -, hn⟩ := s.writer.addSample_changes sample
    show _ < (s.writer.addSample sample).cache.nextSn
    rw [hn]
    exact lt_add_one _
  | offer tagged sn rest e hp =>
    rintro n ⟨⟩
    apply awaiting_lt hs hi
    unfold View.awaitingSns
    rw [hp]
    cases tagged <;> exact List.mem_cons_self
  | _ => exact hold rfl

/-- No number is written or sent before it is drawn. -/
theorem logged (h : Move sc s s') (hs : s.Sound) (hi : s.Holding) {sn : ℤ} {b : Bool}
    (hev : .wrote sn b ∈ s'.writer.log ∨ .offer sn b ∈ s'.writer.log) :
    sn < s'.writer.cache.nextSn := by
  have hold : (.wrote sn b ∈ s.writer.log ∨ .offer sn b ∈ s.writer.log) →
      sn < s'.writer.cache.nextSn :=
    fun hev => (hi.logged sn b hev).trans_le h.keeps.1
  rcases hev with hev | hev
  · rcases h.wrote_or_offer (.inl ⟨sn, b, rfl⟩) hev with hev | ⟨_, _, -, he, hlt, -⟩ |
      ⟨-, -, -, he⟩ | ⟨_, -, he⟩
    · exact hold (.inl hev)
    · cases he
      exact hlt
    · cases he
    · cases he
  · rcases h.wrote_or_offer (.inr ⟨sn, b, rfl⟩) hev with hev | ⟨_, _, -, he, -, -⟩ |
      ⟨-, -, hlt, he⟩ | ⟨n, hn, he⟩
    · exact hold (.inr hev)
    · cases he
    · cases he
      exact hlt
    · cases he
      exact (awaiting_lt hs hi hn).trans_le h.keeps.1

/-- A sample written under a suspension is not sent at once. -/
theorem not_offered (h : Move sc s s') (hi : s.Holding) (hj : sc.Steady s) {sn : ℤ}
    (hw : .wrote sn true ∈ s'.writer.log) : .offer sn true ∉ s'.writer.log := by
  intro ho
  rcases h.wrote_or_offer (.inl ⟨sn, true, rfl⟩) hw with hw | ⟨sample, b, hsc, he, -, -⟩ |
    ⟨-, -, -, he⟩ | ⟨_, -, he⟩
  · rcases h.wrote_or_offer (.inr ⟨sn, true, rfl⟩) ho with ho | ⟨_, _, -, he, -, -⟩ |
      ⟨-, -, -, he⟩ | ⟨_, -, he⟩
    · exact (hi.held sn hw).1 ho
    · cases he
    · cases he
      exact absurd (hi.logged _ true (.inl hw)) (lt_irrefl _)
    · cases he
  · cases he
    have ha := (hj.write sample true hsc).2.1 rfl
    rcases h.wrote_or_offer (.inr ⟨_, true, rfl⟩) ho with ho | ⟨_, _, -, he, -, -⟩ |
      ⟨hna, -, -, -⟩ | ⟨_, -, he⟩
    · exact absurd (hi.logged _ true (.inr ho)) (lt_irrefl _)
    · cases he
    · exact absurd (ha.symm.trans hna) (by decide)
    · cases he
  · cases he
  · cases he

/-- A sample written under a suspension waits or is sent by an `endCoherentSet`. -/
theorem offered_or_waits (h : Move sc s s') (hi : s.Holding) (hj : sc.Steady s) {sn : ℤ}
    (hw : .wrote sn true ∈ s'.writer.log) :
    .offer sn false ∈ s'.writer.log ∨ sn ∈ s'.awaitingSns := by
  rcases h.wrote_or_offer (.inl ⟨sn, true, rfl⟩) hw with hw | ⟨sample, b, hsc, he, -, hwait⟩ |
    ⟨-, -, -, he⟩ | ⟨_, -, he⟩
  · rcases (hi.held sn hw).2 with ho | hq
    · exact .inl (h.log_subset ho)
    · rcases h.awaiting_sent hi with ha | ⟨ha, -⟩ | ⟨n, ha, ho⟩
      · exact .inr (ha ▸ hq)
      · rw [ha]
        exact .inr (List.mem_append_left _ hq)
      · rw [ha] at hq
        rcases List.mem_cons.mp hq with rfl | hq
        · exact .inl ho
        · exact .inr hq
  · cases he
    right
    have ha := (hj.write sample true hsc).2.1 rfl
    rcases hwait ha with hq | hp
    · rw [hq]
      exact List.mem_append_right _ (List.mem_singleton.mpr rfl)
    · exact absurd (ha.symm.trans (hi.closed hp)) (by decide)
  · cases he
  · cases he

theorem holding (h : Move sc s s') (hs : s.Sound) (hi : s.Holding) (hj : sc.Steady s) :
    s'.Holding where
  toPhased := h.phased hi.toPhased
  sorted := by
    rcases h.awaiting_sent hi with ha | ⟨ha, -⟩ | ⟨n, ha, -⟩
    · rw [ha]
      exact hi.sorted
    · rw [ha, List.pairwise_append]
      refine ⟨hi.sorted, List.pairwise_singleton _ _, fun sn hsn k hk => ?_⟩
      rw [List.mem_singleton.mp hk]
      exact awaiting_lt hs hi hsn
    · have hsorted := hi.sorted
      rw [ha] at hsorted
      exact hsorted.of_cons
  cached := fun sn hsn => by
    rcases h.awaiting_mem hi hsn with hold | ⟨-, hch⟩
    · rcases h.stays (hi.cached sn hold) with hch | hev | ⟨hd, hle⟩
      · exact hch
      · exact absurd hev (hj.evicts sn hold)
      · exact absurd (hi.ahead hd sn hold).flushed (not_lt.mpr hle)
    · exact hch
  ahead := fun hd sn hsn => by
    rw [h.config] at hd
    have hb : s.FlushesBelow sn := by
      rcases h.awaiting_mem hi hsn with hold | ⟨rfl, -⟩
      · exact hi.ahead hd sn hold
      · exact ⟨hs.flushed_lt, fun n hn => hs.flight _ hn, hs.eoc_lt, hi.current⟩
    apply h.flushesBelow hi.toPhased hj hd hb hsn
    intro n hn
    have hsorted := hi.sorted
    rw [hn] at hsorted
    exact (List.pairwise_cons.mp hsorted).1 sn hsn
  current := h.current_lt hs hi
  logged := fun _ _ hev => h.logged hs hi hev
  held := fun _ hw => ⟨h.not_offered hi hj hw, h.offered_or_waits hi hj hw⟩

/-- Only an `endCoherentSet` closes the set. -/
theorem active (h : Move sc s s') (he : ¬ sc.endSet) :
    (s.writer.coherentActive = true → s'.writer.coherentActive = true) ∧
    (s.phase = none → s'.phase = none) := by
  cases h with
  | ready g isReady =>
    rw [(OnlySent.reportReady s.writer g isReady).coherentActive]
    exact ⟨id, id⟩
  | trim =>
    rcases s.writer.trimAckedLocked_cases with h | ⟨-, -, h⟩ <;>
    · rw [h]
      exact ⟨id, id⟩
  | retire =>
    rw [retireEndMarkersLocked_coherentActive]
    exact ⟨id, id⟩
  | beginSet b hp =>
    unfold beginCoherentSet
    split
    · exact ⟨id, id⟩
    · exact ⟨fun _ => rfl, id⟩
  | endSet e hend hp => exact absurd hend he
  | skip tagged sn rest e hp hn => exact ⟨id, fun h => absurd (hp.symm.trans h) (by rintro ⟨⟩)⟩
  | offer tagged sn rest e hp => exact ⟨id, fun h => absurd (hp.symm.trans h) (by rintro ⟨⟩)⟩
  | tag e hp =>
    refine ⟨fun h => ?_, fun h => absurd (hp.symm.trans h) (by rintro ⟨⟩)⟩
    rw [(tagSet_fields e).1]
    exact h
  | addMarker e m deferEoc hp hm =>
    refine ⟨fun h => ?_, id⟩
    rw [(addMarker_fields m deferEoc).1]
    exact h
  | finish tagged e hp ht => exact ⟨fun h => by simp [h], fun _ => rfl⟩
  | _ => exact ⟨id, id⟩

end Move

/-! ### Runs -/

namespace Machine

variable {c : Machine} {a : WriterAction}

end Machine

end Zzdds.Rtps
