import Zzdds.Rtps.Writer.Sound

/-! # Open coherent sets

Samples written inside a coherent set, or while publications are suspended, are in the history but
not to be seen before the set ends.  Live sends, repairs and scheduled replays ask for that; a
NACK_FRAG, the priming fragment of a replay and the resync of a best-effort reader do not, and the
HEARTBEAT behind a combined end marker announces all there is.  `Discreet` says of an action that it
takes none of these ways to a hidden sample, and `Machine.hides_open_set` that a run of such actions
never shows one. -/

namespace Zzdds.Rtps

/-! ### Showing a sample -/

/-- The message carries or announces `sn`. -/
def WriterMessage.Reveals (sn : ℤ) : WriterMessage → Prop
  | heartbeat _ _ firstSn lastSn _ _ _ => firstSn ≤ sn ∧ sn ≤ lastSn
  | data ch => ch.sequenceNumber = sn
  | dataFrag ch _ _ => ch.sequenceNumber = sn
  | heartbeatFrag n _ _ => n = sn
  | endMarker m => m.sn = sn
  | gap _ => False

/-- No message of the log shows a sample that was hidden when it was sent. -/
def Machine.HidesOpenSets (c : Machine) : Prop :=
  ∀ hidden kept g locs m, .send hidden kept g locs m ∈ c.writer.log →
    ∀ sn ∈ hidden, ¬ m.Reveals sn

/-- Where an action does not ask whether a sample is hidden, none of those it sends is: a NACK_FRAG
that is answered, the replay under the lock of a match or of a reader with a new connection, and the
HEARTBEAT that follows a combined end marker. -/
def WriterAction.Discreet (c : Machine) (a : WriterAction) : Prop :=
  (∀ sn ∈ c.writer.hiddenSns, ¬ (a.scope c).unfiltered sn) ∧
  ((a.scope c).announceAll → c.writer.hiddenSns = [])

/-! ### The invariant -/

/-- What is scheduled does not show `sn`, nor let it count as flushed. -/
def Packet.Spares (sn : ℤ) : Packet → Prop
  | message _ (.data ch) => ch.sequenceNumber ≠ sn
  | message _ m => m.topSn < sn
  | flushing n => n < sn

/-- All the writer has announced is below `sn`. -/
structure StatefulWriter.Below (w : StatefulWriter) (sn : ℤ) : Prop where
  flushed : w.lastFlushedSn < sn
  markers : ∀ m ∈ w.endMarkers, m.sn < sn
  eoc : ∀ n ∈ w.pendingEocSn, n < sn

/-- Samples are held back by an open set, or left to a flush under way. -/
structure View.Phased (s : View) : Prop where
  idle : s.phase = none → s.writer.coherentActive = false → s.writer.coherentPendingSns = []
  closed : s.phase ≠ none → s.writer.coherentActive = false

structure View.Secret (s : View) : Prop extends s.Phased where
  below : ∀ sn ∈ s.writer.hiddenSns, s.writer.Below sn
  flight : ∀ sn ∈ s.writer.hiddenSns, ∀ x ∈ s.flight, x.Spares sn
  log : ∀ hidden kept g locs m, .send hidden kept g locs m ∈ s.writer.log →
    ∀ sn ∈ hidden, ¬ m.Reveals sn

/-- The actions' condition, inside the action. -/
structure Scope.Discreet (sc : Scope) (s : View) : Prop where
  write : ∀ sample b, sc.write sample b → (∀ sn, ¬ sc.unfiltered sn) ∧ ¬ sc.announceAll
  unfiltered : ∀ sn ∈ s.writer.hiddenSns, ¬ sc.unfiltered sn
  announceAll : sc.announceAll → s.writer.hiddenSns = []

namespace StatefulWriter

variable {w : StatefulWriter} {sn : ℤ}

theorem hiddenSns_of_closed (h : w.coherentActive = false) : w.hiddenSns = [] := by
  rw [hiddenSns, h]
  rfl

theorem active_of_hidden (h : sn ∈ w.hiddenSns) :
    w.coherentActive = true ∧ sn ∈ w.coherentPendingSns := by
  unfold hiddenSns at h
  split at h
  next ha => exact ⟨ha, h⟩
  next => cases h

/-- What was sent is below what is hidden. -/
theorem lastSent_lt (h : sn ∈ w.hiddenSns) (hb : w.Below sn) : w.lastSentSnLocked < sn := by
  rw [lastSentSnLocked, if_pos (active_of_hidden h).1]
  exact (min_le_right _ _).trans_lt hb.flushed

theorem MaySend.ne {sc : Scope} {cur : Option ℤ} {ch : CacheChange} (hs : w.MaySend sc cur ch)
    (h : sn ∈ w.hiddenSns) (hb : w.Below sn) (hu : ¬ sc.unfiltered sn) :
    ch.sequenceNumber ≠ sn := by
  rintro rfl
  rcases hs.2.2 with hle | hp | hp
  · exact absurd (lastSent_lt h hb) (not_lt.mpr hle)
  · obtain ⟨ha, hm⟩ := active_of_hidden h
    rw [isCoherentPendingSn, ha, Bool.true_and, ← Bool.not_eq_true, List.contains_iff_mem] at hp
    exact hp hm
  · exact hu hp

theorem MaySendMarker.lt {n : ℤ} (hm : w.MaySendMarker n) (h : sn ∈ w.hiddenSns)
    (hb : w.Below sn) : n < sn := by
  rcases hm with ⟨m, hm, rfl⟩ | hm | ⟨ha, -⟩
  · exact hb.markers m hm
  · exact hb.eoc n hm
  · rw [hiddenSns_of_closed ha] at h
    cases h

end StatefulWriter

namespace Move

open StatefulWriter

variable {sc : Scope} {s s' : View}

/-- Only a write held back adds to what is hidden. -/
theorem hidden (h : Move sc s s') (hi : s.Phased) :
    (∀ sn ∈ s'.writer.hiddenSns, sn ∈ s.writer.hiddenSns) ∨
    (∃ sample b, sc.write sample b ∧ s'.writer.lastFlushedSn = s.writer.lastFlushedSn ∧
      s'.writer.endMarkers = s.writer.endMarkers ∧ s'.writer.pendingEocSn = s.writer.pendingEocSn ∧
      s'.flight = s.flight ∧ s'.writer.hiddenSns = s.writer.hiddenSns ++ [s.writer.cache.nextSn]) := by
  have hgone : ∀ {w : StatefulWriter}, w.coherentActive = false →
      ∀ sn ∈ w.hiddenSns, sn ∈ s.writer.hiddenSns := by
    intro w hw sn hsn
    rw [hiddenSns_of_closed hw] at hsn
    cases hsn
  cases h with
  | writeBuffered sample b hw hev ha =>
    right
    refine ⟨sample, b, hw, rfl, rfl, rfl, rfl, ?_⟩
    have ha' : ((s.writer.addSample sample).emit (.wrote s.writer.cache.nextSn b)).coherentActive =
      true := ha
    rw [hiddenSns, hiddenSns, ha]
    simp only [ha']
    rfl
  | ready g isReady =>
    have h := OnlySent.reportReady s.writer g isReady
    left
    rw [hiddenSns, hiddenSns, h.coherentActive, h.coherentPendingSns]
    exact fun _ h => h
  | trim =>
    left
    rcases s.writer.trimAckedLocked_cases with h | ⟨-, -, h⟩ <;>
    · rw [h]
      exact fun _ h => h
  | retire =>
    left
    have hp : s.writer.retireEndMarkersLocked.coherentPendingSns = s.writer.coherentPendingSns := by
      simp only [retireEndMarkersLocked]
    rw [hiddenSns, retireEndMarkersLocked_coherentActive, hp]
    exact fun _ h => h
  | writeNow sample b hw hev ha => exact .inl (hgone ha)
  | beginSet b hp =>
    left
    unfold beginCoherentSet
    split
    · exact fun _ h => h
    · intro sn hsn
      have hsn : sn ∈ s.writer.coherentPendingSns := hsn
      cases ha : s.writer.coherentActive with
      | true => rwa [hiddenSns, if_pos ha]
      | false =>
        rw [hi.idle hp ha] at hsn
        cases hsn
  | endSet e he hp => exact .inl (hgone rfl)
  | tag e hp =>
    refine .inl (hgone ?_)
    exact (tagSet_fields e).1.trans (hi.closed (by rw [hp]; exact Option.some_ne_none _))
  | addMarker e m deferEoc hp hm =>
    refine .inl (hgone ?_)
    exact (addMarker_fields m deferEoc).1.trans
      (hi.closed (by rw [hp]; exact Option.some_ne_none _))
  | finish tagged e hp ht =>
    left
    intro sn hsn
    cases (active_of_hidden hsn).2
  | _ => exact .inl fun _ h => h

theorem phased (h : Move sc s s') (hi : s.Phased) : s'.Phased := by
  refine ⟨?_, h.closed hi.closed⟩
  cases h with
  | ready g isReady =>
    have h := OnlySent.reportReady s.writer g isReady
    rw [h.coherentActive, h.coherentPendingSns]
    exact hi.idle
  | trim =>
    rcases s.writer.trimAckedLocked_cases with h | ⟨-, -, h⟩ <;>
    · rw [h]
      exact hi.idle
  | retire =>
    rw [retireEndMarkersLocked_rest]
    exact hi.idle
  | writeBuffered sample b hw hev ha => exact fun _ h => absurd (ha.symm.trans h) (by decide)
  | beginSet b hp =>
    unfold beginCoherentSet
    split
    next h => exact fun _ ha => hi.idle hp ha
    next => exact fun _ h => by cases h
  | endSet e he hp => exact fun h => by cases h
  | skip tagged sn rest e hp => exact fun h => by cases h
  | offer tagged sn rest e hp => exact fun h => by cases h
  | tag e hp => exact fun h => by cases h
  | addMarker e m deferEoc hp hm =>
    intro h
    rw [hp] at h
    cases h
  | finish tagged e hp ht => exact fun _ _ => rfl
  | _ => exact hi.idle

/-- What the writer announces stays below what is hidden. -/
theorem below (h : Move sc s s') (hs : s.Sound) (hi : s.Secret) :
    ∀ sn ∈ s'.writer.hiddenSns, s'.writer.Below sn := by
  rcases h.hidden hi.toPhased with hsub | ⟨sample, b, hw, hf, hm, he, -, hh⟩
  · intro sn hsn
    have hsn' := hsub sn hsn
    have hb := hi.below sn hsn'
    cases h with
    | ready g isReady =>
      have h := OnlySent.reportReady s.writer g isReady
      exact ⟨by rw [h.lastFlushedSn]; exact hb.flushed, by rw [h.endMarkers]; exact hb.markers,
        by rw [h.pendingEocSn]; exact hb.eoc⟩
    | trim =>
      rcases s.writer.trimAckedLocked_cases with h | ⟨-, -, h⟩ <;>
      · rw [h]
        exact ⟨hb.flushed, hb.markers, hb.eoc⟩
    | retire =>
      have hms := retireEndMarkersLocked_sublist (w := s.writer)
      rw [retireEndMarkersLocked_rest]
      generalize s.writer.retireEndMarkersLocked.endMarkers = ms at hms
      exact ⟨hb.flushed, fun m hm => hb.markers m (hms.subset hm), hb.eoc⟩
    | takeEoc n hn => exact ⟨hb.flushed, hb.markers, fun _ h => nomatch h⟩
    | flush n f hf =>
      have hn : n < sn := hi.flight sn hsn' (.flushing n) (by rw [hf]; exact Multiset.mem_cons_self _ _)
      exact ⟨max_lt hb.flushed hn, hb.markers, hb.eoc⟩
    | flushMarker e n hp ha hlt =>
      rw [hiddenSns_of_closed ha] at hsn'
      cases hsn'
    | beginSet b hp =>
      unfold beginCoherentSet
      split <;> exact ⟨hb.flushed, hb.markers, hb.eoc⟩
    | tag e hp =>
      obtain ⟨-, -, hm, hf, -, he, -⟩ := s.writer.tagSet_rest e
      exact ⟨by rw [hf]; exact hb.flushed, by rw [hm]; exact hb.markers,
        by rw [he]; exact hb.eoc⟩
    | addMarker e m deferEoc hp hm =>
      rw [hiddenSns_of_closed ((addMarker_fields m deferEoc).1.trans
        (hi.closed (by rw [hp]; exact Option.some_ne_none _)))] at hsn
      cases hsn
    | _ => exact ⟨hb.flushed, hb.markers, hb.eoc⟩
  · rw [hh]
    intro sn hsn
    rcases List.mem_append.mp hsn with hsn | hsn
    · have hb := hi.below sn hsn
      exact ⟨by rw [hf]; exact hb.flushed, by rw [hm]; exact hb.markers, by rw [he]; exact hb.eoc⟩
    · rw [List.mem_singleton.mp hsn]
      refine ⟨by rw [hf]; exact hs.flushed_lt, ?_, by rw [he]; exact hs.eoc_lt⟩
      rw [hm]
      exact fun m hm => hs.below _ (mem_keptSns_of_marker hm)

/-- What is scheduled spares what is hidden. -/
theorem spares (h : Move sc s s') (hs : s.Sound) (hi : s.Secret) (hd : sc.Discreet s) :
    ∀ sn ∈ s'.writer.hiddenSns, ∀ x ∈ s'.flight, x.Spares sn := by
  rcases h.hidden hi.toPhased with hsub | ⟨sample, b, hw, -, -, -, hfl, hh⟩
  · intro sn hsn x hx
    have hsn := hsub sn hsn
    have hb := hi.below sn hsn
    rcases h.scheduled hx with hx | hx
    · exact hi.flight sn hsn x hx
    · cases hx with
      | data g ch hm => exact hm.ne hsn hb (hd.unfiltered sn hsn)
      | marker g m hm => exact hm.lt hsn hb
      | heartbeat g startSn gaps firstSn lastSn final liveliness hu ho hl =>
        exact hl.trans_lt (lastSent_lt hsn hb)
      | flush n hf =>
        rw [hiddenSns_of_closed hf.1] at hsn
        cases hsn
      | eoc n hn => exact hb.eoc n hn
  · rw [hh, hfl]
    intro sn hsn x hx
    rcases List.mem_append.mp hsn with hsn | hsn
    · exact hi.flight sn hsn x hx
    · rw [List.mem_singleton.mp hsn]
      have hlt := hs.flight x hx
      cases x with
      | flushing n => exact hlt
      | message g m =>
        cases m with
        | data ch => exact hlt.ne
        | _ => exact hlt

/-- A message does not show what is hidden. -/
theorem conceals (hi : s.Secret) (hd : sc.Discreet s) {g : Guid} {m : WriterMessage}
    (hm : Sends sc s g m) : ∀ sn ∈ s.writer.hiddenSns, ¬ m.Reveals sn := by
  intro sn hsn hr
  have hb := hi.below sn hsn
  have hsend : ∀ {ch : CacheChange}, s.writer.MaySend sc s.current ch → ch.sequenceNumber ≠ sn :=
    fun hm => hm.ne hsn hb (hd.unfiltered sn hsn)
  cases hm with
  | heartbeat startSn gaps firstSn lastSn final liveliness hu hg ho hv hl =>
    rcases hl with hl | ⟨hall, -⟩
    · exact absurd (hl.trans_lt (lastSent_lt hsn hb)) (not_lt.mpr hr.2)
    · rw [hd.announceAll hall] at hsn
      cases hsn
  | heartbeatFrag ch numFrags hu hs => exact hsend hs hr
  | data ch hs => exact hsend hs hr
  | dataFrag ch fragNum withTs hs => exact hsend hs hr
  | marker m hm => exact (hm.lt hsn hb).ne hr
  | gap n hn => exact hr
  | land _ hf hl =>
    have hspare := hi.flight sn hsn _ hf
    cases m with
    | heartbeat startSn gaps firstSn lastSn count final liveliness =>
      exact absurd hspare (not_lt.mpr hr.2)
    | data ch => exact hspare hr
    | dataFrag ch fragNum withTs => exact (ne_of_lt hspare) hr
    | heartbeatFrag n numFrags count => exact (ne_of_lt hspare) hr
    | endMarker m => exact (ne_of_lt hspare) hr
    | gap n => exact hr

theorem secret (h : Move sc s s') (hs : s.Sound) (hi : s.Secret) (hd : sc.Discreet s) :
    s'.Secret where
  toPhased := h.phased hi.toPhased
  below := h.below hs hi
  flight := h.spares hs hi hd
  log := fun hidden kept g locs m hm => by
    rcases h.sent hm with hold | ⟨rfl, -, hnew⟩
    · exact hi.log _ _ _ _ _ hold
    · exact conceals hi hd hnew

theorem discreet (h : Move sc s s') (hi : s.Secret) (hd : sc.Discreet s) : sc.Discreet s' := by
  refine ⟨hd.write, ?_, ?_⟩ <;> rcases h.hidden hi.toPhased with hsub | ⟨sample, b, hw, -⟩
  · exact fun sn hsn => hd.unfiltered sn (hsub sn hsn)
  · exact fun sn _ => (hd.write sample b hw).1 sn
  · intro hall
    apply List.eq_nil_iff_forall_not_mem.mpr
    intro sn hsn
    have := hsub sn hsn
    rw [hd.announceAll hall] at this
    cases this
  · exact fun hall => absurd hall (hd.write sample b hw).2

end Move

/-! ### Runs -/

theorem WriterAction.scope_write (c : Machine) (a : WriterAction) {sample : StatefulWriter.Sample}
    {b : Bool} (h : (a.scope c).write sample b) : a = .write sample ∧ b = c.suspended := by
  cases a with
  | write s =>
    obtain ⟨rfl, rfl⟩ := h
    exact ⟨rfl, rfl⟩
  | addOrRefreshMatchedReader m gens isCurrent =>
    exfalso
    cases isCurrent with
    | false => exact h
    | true =>
      rw [scope, if_pos rfl, StatefulWriter.matchScope] at h
      split at h <;> exact h
  | task i =>
    exfalso
    rw [scope] at h
    split at h
    next t _ =>
      unfold Task.scope at h
      split at h <;> exact h
    next => exact h
  | _ => exact h.elim

namespace Machine

theorem scope_discreet {c : Machine} {a : WriterAction} (h : a.Discreet c) :
    (a.scope c).Discreet c.view where
  write := fun sample b hw => by
    obtain ⟨rfl, -⟩ := a.scope_write c hw
    exact ⟨fun _ => id, id⟩
  unfiltered := h.1
  announceAll := h.2

theorem init_secret (config : WriterConfig) (kind : HistoryKind) (depth : ℕ) (blocks : ℕ → Bool) :
    (init config kind depth blocks).view.Secret where
  idle := fun _ _ => rfl
  closed := fun h => absurd rfl h
  below := fun _ h => (List.not_mem_nil h).elim
  flight := fun _ h => (List.not_mem_nil h).elim
  log := fun _ _ _ _ _ h => (List.not_mem_nil h).elim

/-- A run of discreet actions never shows a hidden sample. -/
theorem hides_open_set (config : WriterConfig) (kind : HistoryKind) (depth : ℕ)
    (blocks : ℕ → Bool) (as : List WriterAction) (c : Machine)
    (hd : (init config kind depth blocks).RunMeets (fun c a => a.Discreet c) as)
    (h : (init config kind depth blocks).run as = some c) : c.HidesOpenSets := by
  have hinv := run_inv (I := fun s => s.Sound ∧ s.Secret) (fun sc s => sc.Discreet s)
    (fun c a _ _ hp => scope_discreet hp)
    (fun c a _ s s' hm hi hj => ⟨⟨hm.sound hi.1, hm.secret hi.1 hi.2 hj⟩, hm.discreet hi.2 hj⟩)
    as _ (init_wellPhased _ _ _ _) ⟨init_sound _ _ _ _, init_secret _ _ _ _⟩ hd h
  exact hinv.2.2.log

/-- A sample of a set, a HEARTBEAT while the set is open, and the end of the set. -/
theorem hides_open_set_flushed : ∃ c, (smallWriter .keepAll).RunMeets (fun c a => a.Discreet c)
      [.beginCoherentSet true, .write (smallSample [1]), .sendHeartbeat false false,
        .endCoherentSet { mode := .coherentOnly, resuspend := false }] ∧
    (smallWriter .keepAll).run [.beginCoherentSet true, .write (smallSample [1]),
      .sendHeartbeat false false,
      .endCoherentSet { mode := .coherentOnly, resuspend := false }] = some c ∧
    c.HidesOpenSets := by
  have hd : (smallWriter .keepAll).RunMeets (fun c a => a.Discreet c)
      [.beginCoherentSet true, .write (smallSample [1]), .sendHeartbeat false false,
        .endCoherentSet { mode := .coherentOnly, resuspend := false }] :=
    ⟨⟨fun _ _ => id, False.elim⟩, fun _ _ => ⟨⟨fun _ _ => id, False.elim⟩, fun _ _ =>
      ⟨⟨fun _ _ => id, False.elim⟩, fun _ _ => ⟨⟨fun _ _ => id, False.elim⟩,
        fun _ _ => trivial⟩⟩⟩⟩
  exact ⟨_, hd, rfl, hides_open_set smallConfig .keepAll 1 _ _ _ hd rfl⟩

/-- A NACK_FRAG for a sample of an open set is answered with its fragment. -/
theorem nackFrag_shows_open_set : ∃ c, (smallWriter .keepAll).run
    [.addOrRefreshMatchedReader (smallReader 2 true) (fun _ => 0) true, .beginCoherentSet true,
      .write (smallSample [1, 2, 3, 4, 5]),
      .handleNackFrag (smallGuid 2) 1 ⟨1, 1, Bitmap.zeroes.setBit 0⟩ 1] = some c ∧
    ¬ c.HidesOpenSets := by
  refine ⟨_, rfl, fun h => ?_⟩
  exact h [1] [1] (smallGuid 2) [.shmem 0 0] (.dataFrag _ 1 false)
    (List.mem_of_getElem? (i := 2) rfl) 1 (List.mem_singleton.mpr rfl) rfl

end Machine

end Zzdds.Rtps
