import Zzdds.Rtps.Writer.TaskMoves

/-! # The moves of an action

`endCoherentSet`, the combined send of end markers, the match of a reader and the steps of tasks
as moves, and from them every action of the machine: `Machine.step_moves`. -/

namespace Zzdds.Rtps

namespace StatefulWriter

/-! ### The end of a coherent set -/

/-- The readers matched, and whether a set is open, are the same. -/
structure Outside (w w' : StatefulWriter) : Prop where
  coherentActive : w'.coherentActive = w.coherentActive
  guids : w'.guids = w.guids

theorem OnlyReader.outside {g : Guid} {w w' : StatefulWriter} (h : OnlyReader g w w') :
    Outside w w' := ⟨h.coherentActive, h.guids⟩

theorem Outside.trans {w w' w'' : StatefulWriter} (h : Outside w w') (h' : Outside w' w'') :
    Outside w w'' := ⟨h'.coherentActive.trans h.coherentActive, h'.guids.trans h.guids⟩

/-- A stretch under the lock of an `endCoherentSet` in phase `ph`. -/
def Flushes (sc : Scope) (ph : Option Phase) (w : StatefulWriter)
    (r : StatefulWriter × Option Task) : Prop :=
  ∀ s : View, s.writer = w → s.phase = ph →
    ∃ u cur, Moves sc s ⟨r.1, u, packetsOf r.2 + s.flight, r.2.bind Task.phase, cur⟩

section Flush

variable {sc : Scope} {cur : Option ℤ} {w : StatefulWriter} {rp : ReaderProxy} {e : EndSet}

theorem lastAvailable_nonneg : 0 ≤ w.lastAvailableSnLocked := by
  have hcache : 0 ≤ max w.cache.maxSn w.trimmedThrough :=
    w.cache.maxSn_spec.1.trans (le_max_left _ _)
  unfold lastAvailableSnLocked
  dsimp only
  split
  · exact hcache
  · exact hcache.trans (le_max_left _ _)

/-- There is a reader that a HEARTBEAT to all reaches. -/
def HeartbeatsReader (w : StatefulWriter) : Prop :=
  ∃ rp ∈ w.readerProxies, rp.reliable = true ∧ rp.selectedLocators.isEmpty = false

theorem heartbeatAll_does {firstSnOverride : Option ℤ} (hg : ∀ g ∈ w.guids, sc.heartbeat g)
    (hov : ∀ sn ∈ firstSnOverride,
      sn = if 0 < w.firstAvailableSnLocked then w.firstAvailableSnLocked else 1)
    (hl : w.coherentActive = false ∨ (w.HeartbeatsReader → sc.announceAll)) :
    Does sc cur w (w.heartbeatAll firstSnOverride) := by
  have hlast : w.HeartbeatsReader → w.lastAvailableSnLocked ≤ w.lastSentSnLocked ∨
      (sc.announceAll ∧ w.lastAvailableSnLocked ≤ w.lastAvailableSnLocked) := by
    intro hr
    rcases hl with hl | hl
    · left
      unfold lastSentSnLocked
      rw [hl]
      exact le_rfl
    · exact .inr ⟨hl hr, le_rfl⟩
  unfold heartbeatAll
  apply Does.foldl (fun l w' => (∀ rp ∈ l, rp ∈ w.readerProxies) ∧ OnlySent w w')
  · rintro rp l w' ⟨hl', ho⟩
    have htail : ∀ rp' ∈ l, rp' ∈ w.readerProxies :=
      fun rp' h' => hl' rp' (List.mem_cons_of_mem _ h')
    split
    next hrel =>
      refine ⟨sendHeartbeatToProxyLockedWithLastSnAndFirstSn_does
        (hg _ (List.mem_map_of_mem (hl' rp List.mem_cons_self)))
        ((min_le_left _ _).trans lastAvailable_nonneg) ?_ ?_, htail,
        ho.trans (.sendHeartbeatToProxyLockedWithLastSnAndFirstSn _ _ _ _ _)⟩
      · rw [ho.toAlike.lastAvailable, ho.toAlike.firstAvailable]
        exact fun sn hsn => ⟨rfl, hov sn hsn⟩
      · rw [ho.toAlike.lastSent, ho.toAlike.lastAvailable]
        exact fun hlocs => hlast ⟨rp, hl' rp List.mem_cons_self, hrel, hlocs⟩
    · exact ⟨.refl _ _ _, htail, ho⟩
  · exact ⟨fun _ h => h, .refl w⟩

theorem sendLiveMarker_quiet (sc : Scope) (cur : Option ℤ) {m : EndMarker} (hm : rp ∈ w.readerProxies)
    (hs : w.MaySendMarker m.sn) :
    Quiet sc cur w (sendLiveMarker m w rp) ∧ OnlyReader rp.guid w (sendLiveMarker m w rp) := by
  have hidle : Quiet sc cur w w ∧ OnlyReader rp.guid w w :=
    ⟨.refl _ _ _, (OnlySent.refl w).onlyReader⟩
  unfold sendLiveMarker
  split_ifs with h₁ h₂ h₃
  · exact hidle
  · exact ⟨holdUnsentLocked_quiet hm, .setProxy rfl⟩
  · exact hidle
  · have hq : Quiet sc cur w (w.sendEndMarkerToProxyLocked rp m).1 :=
      sendEndMarkerToProxyLocked_quiet hs
    have ho : OnlySent w (w.sendEndMarkerToProxyLocked rp m).1 := .sendData _ _ _ _
    split
    next w' heq =>
      rw [heq] at hq ho
      exact ⟨hq, ho.onlyReader⟩
    next w' heq =>
      rw [heq] at hq ho
      have hm' : rp ∈ w'.readerProxies := by rw [ho.readerProxies]; exact hm
      exact ⟨hq.trans (holdUnsentLocked_quiet hm'), ho.onlyReader.trans (.setProxy rfl)⟩

theorem sendLiveMarkers_does (sc : Scope) (cur : Option ℤ) {m : EndMarker} (hs : w.MaySendMarker m.sn) :
    Does sc cur w (w.readerProxies.foldl (sendLiveMarker m) w) ∧
    Alike w (w.readerProxies.foldl (sendLiveMarker m) w) ∧
    Outside w (w.readerProxies.foldl (sendLiveMarker m) w) := by
  have hfold : ∀ (l : List ReaderProxy) (w' : StatefulWriter), Ahead l w' → Alike w w' →
      Outside w w' → Does sc cur w' (l.foldl (sendLiveMarker m) w') ∧
      Alike w (l.foldl (sendLiveMarker m) w') ∧ Outside w (l.foldl (sendLiveMarker m) w') := by
    intro l
    induction l with
    | nil => exact fun w' _ hw ho => ⟨.refl _ _ _, hw, ho⟩
    | cons rp l ih =>
      intro w' ha hw ho
      obtain ⟨hq, hr⟩ := sendLiveMarker_quiet sc cur
        (ha.1 rp List.mem_cons_self) (hw.maySendMarker hs)
      obtain ⟨hd, hw', ho'⟩ := ih _ (ha.tail hr.others) (hw.trans hr.toAlike) (ho.trans hr.outside)
      exact ⟨hq.does.trans hd, hw', ho'⟩
  exact hfold _ w (ahead_self w) (.refl w) ⟨rfl, rfl⟩

theorem addMarker_fields (m : EndMarker) (deferEoc : Bool) :
    (w.addMarker m deferEoc).coherentActive = w.coherentActive ∧
    (w.addMarker m deferEoc).guids = w.guids ∧
    (w.addMarker m deferEoc).cache.nextSn = w.cache.nextSn + 1 := by
  simp only [addMarker, retireEndMarkersLocked, guids, HistoryCache.allocSn, and_self]

theorem sendSetEnd_moves (hact : w.coherentActive = false)
    (hg : ∀ g ∈ w.guids, sc.heartbeat g) (s : View) (hw : s.writer = w)
    (hp : s.phase = some ⟨true, [], e⟩) :
    ∃ u, Moves sc s { s with writer := w.sendSetEnd e, addressed := u } := by
  unfold sendSetEnd
  split
  · exact heartbeatAll_does hg (fun _ h => (Option.not_mem_none _ h).elim) (.inl hact) s hw rfl
  · dsimp only
    have hadd : Moves sc s { s with writer := w.addMarker (newMarker e w.cache.nextSn) e.deferEoc } := by
      subst hw
      exact .single (.addMarker s e _ _ hp rfl)
    obtain ⟨ha₁, hg₁, hn₁⟩ := addMarker_fields (w := w) (newMarker e w.cache.nextSn) e.deferEoc
    have hsn : (newMarker e w.cache.nextSn).sn < w.cache.nextSn + 1 := lt_add_one _
    generalize hw₁ : w.addMarker (newMarker e w.cache.nextSn) e.deferEoc = w₁ at *
    generalize newMarker e w.cache.nextSn = m at *
    split
    · exact ⟨s.addressed, hadd⟩
    · have hm : w₁.MaySendMarker m.sn := .inr (.inr ⟨ha₁.trans hact, by rw [hn₁]; exact hsn⟩)
      obtain ⟨hd, hal, ho⟩ := sendLiveMarkers_does sc s.current hm
      have hflush : ∀ u, Moves sc
          { s with writer := w₁.readerProxies.foldl (sendLiveMarker m) w₁, addressed := u }
          { s with
            writer := (w₁.readerProxies.foldl (sendLiveMarker m) w₁).flushedThrough m.sn
            addressed := u } := by
        intro u
        refine .single (.flushMarker _ e m.sn hp (hal.coherentActive.trans (ha₁.trans hact)) ?_)
        show m.sn < (w₁.readerProxies.foldl (sendLiveMarker m) w₁).cache.nextSn
        rw [hal.cache, hn₁]
        exact hsn
      have hhb : Does sc s.current
          ((w₁.readerProxies.foldl (sendLiveMarker m) w₁).flushedThrough m.sn)
          (((w₁.readerProxies.foldl (sendLiveMarker m) w₁).flushedThrough m.sn).heartbeatAll
            none) := by
        apply heartbeatAll_does
        · intro g hmem
          apply hg
          rw [← hg₁, ← ho.guids]
          exact hmem
        · exact fun _ h => (Option.not_mem_none _ h).elim
        · left
          exact ho.coherentActive.trans (ha₁.trans hact)
      obtain ⟨u, h₁⟩ := hd { s with writer := w₁ } rfl rfl
      obtain ⟨u', h₂⟩ := hhb { s with
        writer := (w₁.readerProxies.foldl (sendLiveMarker m) w₁).flushedThrough m.sn
        addressed := u } rfl rfl
      exact ⟨u', ((hadd.trans h₁).trans (hflush u)).trans h₂⟩

theorem finishSet_flushes (tagged : Bool) (ht : tagged = true ∨ e.coherentSns = []) :
    Flushes sc (some ⟨tagged, [], e⟩) w (w.finishSet e) := by
  rintro s rfl hp
  refine ⟨s.addressed, s.current, ?_⟩
  have hnone : packetsOf (s.writer.finishSet e).2 = 0 ∧
      (s.writer.finishSet e).2.bind Task.phase = none := by
    unfold finishSet
    dsimp only
    split <;> exact ⟨rfl, rfl⟩
  rw [hnone.1, hnone.2, zero_add]
  exact .head (.finish s tagged e hp ht) (.single (.trim _))

/-- Flushes goes on after moves within the phase. -/
theorem Flushes.of_moves {ph : Option Phase} {r : StatefulWriter × Option Task}
    {w' : StatefulWriter} {ph' : Option Phase}
    (h : ∀ s : View, s.writer = w → s.phase = ph →
      ∃ u cur, Moves sc s ⟨w', u, s.flight, ph', cur⟩)
    (h' : Flushes sc ph' w' r) : Flushes sc ph w r := by
  rintro s hw hp
  obtain ⟨u, cur, hm⟩ := h s hw hp
  obtain ⟨u', cur', hm'⟩ := h' ⟨w', u, s.flight, ph', cur⟩ rfl rfl
  exact ⟨u', cur', hm.trans hm'⟩

/-- What a live send leaves of the writer. -/
theorem sendFragmented_outside (ch : CacheChange) (hs : w.MaySend sc cur ch) :
    Outside w (w.sendFragmented ch) := by
  have hfold : ∀ (l : List ReaderProxy) (w' : StatefulWriter), Ahead l w' → Alike w w' →
      Outside w w' → w'.hbCount = w.bumpHb.hbCount →
      Outside w (l.foldl (sendFragmentedTo ch w.bumpHb.hbCount) w') := by
    intro l
    induction l with
    | nil => exact fun w' _ _ ho _ => ho
    | cons rp l ih =>
      intro w' ha hw ho hc
      obtain ⟨-, hr, hc'⟩ := sendFragmentedTo_addresses (ha.1 rp List.mem_cons_self)
        (hw.maySend hs) hc.symm
      exact ih _ (ha.tail hr.others) (hw.trans hr.toAlike) (ho.trans hr.outside) (hc'.trans hc)
  exact (hfold _ w.bumpHb (ahead_self w) (OnlySent.bumpHb w).toAlike ⟨rfl, rfl⟩ rfl).trans
    ⟨rfl, rfl⟩

/-- One sample of a flush: `r` is what is left to do when it went out under the lock. -/
theorem offer_flushes {tagged trailingHb : Bool} {sn : ℤ} {rest : List ℤ} {ch : CacheChange}
    {ret : SendReturn} {r : StatefulWriter → StatefulWriter × Option Task}
    (hact : w.coherentActive = false) (hg : ∀ g ∈ w.guids, sc.heartbeat g)
    (hch : w.cache.getChange sn = some ch)
    (hret : ∀ snaps, (Task.sendChange ch snaps none [] ret).phase = some ⟨tagged, rest, e⟩)
    (hnow : ret.atOnce = false)
    (hr : ∀ w', w'.coherentActive = false → (∀ g ∈ w'.guids, sc.heartbeat g) →
      Flushes sc (some ⟨tagged, rest, e⟩) w' (r w')) :
    Flushes sc (some ⟨tagged, sn :: rest, e⟩) w
      (match w.sendChangeToAllLocked ch trailingHb ret with
        | (w, some task) => (w, some task)
        | (w, none) => r w) := by
  have hsn := sn_of_getChange hch
  subst hsn
  -- the sample becomes the one the action sends
  have hoffer : ∀ s : View, s.writer = w → s.phase = some ⟨tagged, ch.sequenceNumber :: rest, e⟩ →
      Moves sc s ⟨w.emit (.offer ch.sequenceNumber false), s.addressed, s.flight,
        some ⟨tagged, rest, e⟩, some ch.sequenceNumber⟩ := by
    rintro s rfl hp
    exact .single (.offer s tagged _ rest e hp)
  have hs : (w.emit (.offer ch.sequenceNumber false)).MaySend sc (some ch.sequenceNumber) ch := by
    refine ⟨mem_of_getChange hch, .inr rfl, .inr (.inl ?_)⟩
    unfold isCoherentPendingSn
    rw [show (w.emit (.offer ch.sequenceNumber false)).coherentActive = w.coherentActive from rfl,
      hact]
    rfl
  unfold sendChangeToAllLocked
  dsimp only
  rw [hnow]
  split
  next heq =>
    split at heq
    · cases heq
    · cases heq
      rintro s hw hp
      obtain ⟨u, hm⟩ := sendChange_launches trailingHb ret hs hact rfl
        ⟨w.emit (.offer ch.sequenceNumber false), s.addressed, s.flight, some ⟨tagged, rest, e⟩,
          some ch.sequenceNumber⟩ rfl rfl
      refine ⟨u, some ch.sequenceNumber, (hoffer s hw hp).trans ?_⟩
      rw [Option.bind_some, hret]
      exact hm
  next heq =>
    split at heq
    · cases heq
      have ho := sendFragmented_outside ch hs
      refine .of_moves ?_ (hr _ (ho.coherentActive.trans hact) (by rw [ho.guids]; exact hg))
      rintro s hw hp
      obtain ⟨u, hm⟩ := sendFragmented_does hs hact rfl
        ⟨w.emit (.offer ch.sequenceNumber false), s.addressed, s.flight, some ⟨tagged, rest, e⟩,
          some ch.sequenceNumber⟩ rfl rfl
      exact ⟨u, some ch.sequenceNumber, (hoffer s hw hp).trans hm⟩
    · cases heq

theorem skip_flushes {tagged : Bool} {sn : ℤ} {rest : List ℤ}
    {r : StatefulWriter × Option Task} (hn : w.cache.getChange sn = none)
    (h : Flushes sc (some ⟨tagged, rest, e⟩) w r) :
    Flushes sc (some ⟨tagged, sn :: rest, e⟩) w r := by
  refine .of_moves ?_ h
  rintro s rfl hp
  exact ⟨s.addressed, s.current, .single (.skip s tagged sn rest e hp hn)⟩

theorem flushWindow_flushes : ∀ (rest : List ℤ) (w : StatefulWriter),
    w.coherentActive = false → (∀ g ∈ w.guids, sc.heartbeat g) →
    Flushes sc (some ⟨true, rest, e⟩) w (w.flushWindow e rest)
  | [], w, hact, hg => by
      rw [flushWindow]
      refine .of_moves ?_ (finishSet_flushes true (.inl rfl))
      intro s hw hp
      obtain ⟨u, hm⟩ := sendSetEnd_moves (e := e) hact hg s hw hp
      rw [hp] at hm
      exact ⟨u, s.current, hm⟩
  | sn :: rest, w, hact, hg => by
      rw [flushWindow]
      split
      next hn => exact skip_flushes hn (flushWindow_flushes rest w hact hg)
      next ch hch =>
        exact offer_flushes hact hg hch (fun _ => rfl) rfl
          (fun w' ha' hg' => flushWindow_flushes rest w' ha' hg')

theorem tagSet_fields (e : EndSet) : (w.tagSet e).1.coherentActive = w.coherentActive ∧
    (w.tagSet e).1.guids = w.guids := by
  unfold tagSet
  split <;> exact ⟨rfl, rfl⟩

theorem closeSet_flushes (hact : w.coherentActive = false)
    (hg : ∀ g ∈ w.guids, sc.heartbeat g) :
    Flushes sc (some ⟨false, [], e⟩) w (w.closeSet e) := by
  obtain ⟨ha, hgu⟩ := tagSet_fields (w := w) e
  unfold closeSet
  split
  next h => exact finishSet_flushes false (.inr h.1)
  next =>
    refine .of_moves ?_ (flushWindow_flushes _ _ (ha.trans hact) (by rw [hgu]; exact hg))
    rintro s rfl hp
    exact ⟨s.addressed, s.current, .single (.tag s e hp)⟩

theorem flushPreWindow_flushes : ∀ (rest : List ℤ) (w : StatefulWriter),
    w.coherentActive = false → (∀ g ∈ w.guids, sc.heartbeat g) →
    Flushes sc (some ⟨false, rest, e⟩) w (w.flushPreWindow e rest)
  | [], w, hact, hg => closeSet_flushes hact hg
  | sn :: rest, w, hact, hg => by
      rw [flushPreWindow]
      split
      next hn => exact skip_flushes hn (flushPreWindow_flushes rest w hact hg)
      next ch hch =>
        exact offer_flushes hact hg hch (fun _ => rfl) rfl
          (fun w' ha' hg' => flushPreWindow_flushes rest w' ha' hg')

theorem endCoherentSet_flushes (hg : ∀ g ∈ w.guids, sc.heartbeat g) (he : sc.endSet) :
    Flushes sc none w (w.endCoherentSet e) := by
  unfold endCoherentSet
  dsimp only
  split
  next h =>
    refine .of_moves ?_ (finishSet_flushes false (.inr ?_))
    · rintro s rfl hp
      have hm : Move sc s _ := .endSet s e he hp
      have htake : s.writer.coherentPendingSns.take s.writer.coherentWindowStart = [] := by
        rw [h.1]
        exact List.take_nil
      rw [htake] at hm
      exact ⟨s.addressed, none, .single hm⟩
    · rw [h.1]
      exact List.drop_nil
  next =>
    refine .of_moves ?_ (flushPreWindow_flushes _ _ rfl hg)
    rintro s rfl hp
    exact ⟨s.addressed, none, .single (.endSet s e he hp)⟩

end Flush

/-! ### The combined send of end markers -/

section EndMarkers

variable {sc : Scope} {cur : Option ℤ} {w : StatefulWriter}

/-- The infos of one reader schedule its markers. -/
theorem takeEOCProxy_launches (sc : Scope) (cur : Option ℤ) {rp : ReaderProxy} {eocSn : ℤ}
    (group : Option GroupCoherentSet) (infos : List EOCProxyInfo) (hm : rp ∈ w.readerProxies) (hs : w.MaySendMarker eocSn) :
    ∃ P : List Packet,
      Launches sc cur w (takeEOCProxy eocSn group (w, infos) rp).1 (P : Multiset Packet) ∧
      (takeEOCProxy eocSn group (w, infos) rp).2.map (·.packet) = infos.map (·.packet) ++ P ∧
      OnlyReader rp.guid w (takeEOCProxy eocSn group (w, infos) rp).1 := by
  have hidle : Launches sc cur w w ([] : List Packet) := (Does.refl sc cur w).launches
  unfold takeEOCProxy
  dsimp only
  split_ifs
  · exact ⟨[], hidle, (List.append_nil _).symm, (OnlySent.refl w).onlyReader⟩
  · exact ⟨[], (holdUnsentLocked_quiet hm).does.launches, (List.append_nil _).symm, .setProxy rfl⟩
  · have hlocs : ∀ locs : List Locator, Launches sc cur w w (locs.map (fun _ =>
        Packet.message rp.guid (.endMarker ⟨eocSn, 0, 0, group⟩)) : List Packet) := by
      intro locs
      induction locs with
      | nil => exact hidle
      | cons loc locs ih =>
        rw [List.map_cons, ← Multiset.cons_coe, ← Multiset.singleton_add]
        exact ih.trans (launchMarker_launches hs)
    refine ⟨_, ?_, List.map_append, (OnlySent.refl w).onlyReader⟩
    rw [List.map_map]
    exact hlocs rp.selectedLocators

theorem takeEOCProxyInfos_launches :
    Launches sc cur w w.takeEOCProxyInfos.1
      (w.takeEOCProxyInfos.2.map (·.packet) : List Packet) := by
  unfold takeEOCProxyInfos
  split
  next => exact (Does.refl sc cur w).launches
  next eocSn hsome =>
    generalize (w.findEndMarkerLocked eocSn).bind (·.group) = group
    have hfold : ∀ (l : List ReaderProxy) (acc : StatefulWriter × List EOCProxyInfo),
        Ahead l acc.1 → Alike w acc.1 →
        Launches sc cur w acc.1 (acc.2.map (·.packet) : List Packet) →
        Launches sc cur w (l.foldl (takeEOCProxy eocSn group) acc).1
          ((l.foldl (takeEOCProxy eocSn group) acc).2.map (·.packet) : List Packet) := by
      intro l
      induction l with
      | nil => exact fun _ _ _ h => h
      | cons rp l ih =>
        rintro ⟨w', infos⟩ ha hw h
        obtain ⟨P, hP, hmap, ho⟩ := takeEOCProxy_launches sc cur group infos (ha.1 rp List.mem_cons_self)
          (hw.maySendMarker (.inr (.inl hsome)))
        refine ih _ (ha.tail ho.others) (hw.trans ho.toAlike) ?_
        rw [hmap, ← Multiset.coe_add, add_comm]
        exact h.trans hP
    exact hfold _ (w, []) (ahead_self w) (.refl w) (Does.refl sc cur w).launches

/-- Packets that are not sent after all. -/
theorem drop_moves (P : Multiset Packet) : ∀ {s : View} {f : Multiset Packet},
    s.flight = P + f → Moves sc s { s with flight := f } := by
  induction P using Multiset.induction_on with
  | empty =>
    rintro s f h
    rw [zero_add] at h
    subst h
    exact .refl
  | cons x P ih =>
    rintro s f h
    rw [Multiset.cons_add] at h
    exact .head (.drop s x (P + f) h) (ih rfl)

theorem resend_moves : ∀ (l : List EOCProxyInfo) (s : View),
    (∀ i ∈ l, i.packet ∈ s.flight) →
    Moves sc s { s with writer := l.foldl sendEOCMarker s.writer }
  | [], _, _ => .refl
  | i :: l, s, h =>
      .head (.resend s i.readerGuid [i.locator] i.marker (h i List.mem_cons_self))
        (resend_moves l { s with writer := s.writer.sendEOCMarker i }
          (fun i' h' => h i' (List.mem_cons_of_mem _ h')))

theorem sendCombined_moves (infos₀ : List EOCProxyInfo) :
    ∀ (dests : List (Locator × GuidPrefix)) (infos : List EOCProxyInfo) (s : View),
      infos.map (·.packet) = infos₀.map (·.packet) → (∀ i ∈ infos₀, i.packet ∈ s.flight) →
      Moves sc s { s with writer := (dests.foldl sendCombinedTo (s.writer, infos)).1 }
  | [], _, s, _, _ => .refl
  | dest :: dests, infos, s, hi, hf => by
      have hmem : ∀ i ∈ infos, i.packet ∈ s.flight := by
        intro i him
        have : i.packet ∈ infos₀.map (·.packet) := by
          rw [← hi]
          exact List.mem_map_of_mem him
        obtain ⟨i₀, hm₀, he⟩ := List.mem_map.mp this
        rw [← he]
        exact hf i₀ hm₀
      rw [List.foldl_cons]
      unfold sendCombinedTo
      dsimp only
      split
      · refine .head (.attempt s) (sendCombined_moves infos₀ dests _
          { s with writer := s.writer.countAttempt } ?_ hf)
        rw [← hi, List.map_map]
        apply List.map_congr_left
        intro i _
        dsimp only [Function.comp]
        split <;> rfl
      · refine .head (.attempt s) ((resend_moves (infos.filter (·.goesTo dest))
          { s with writer := s.writer.countAttempt }
          (fun i h => hmem i (List.mem_filter.mp h).1)).trans ?_)
        exact sendCombined_moves infos₀ dests infos _ hi hf

theorem flushGroupEOCHBOnly_does {unsent : List ReaderMatch}
    (hg : ∀ g ∈ w.guids, sc.heartbeat g) 
    (hall : w.pendingEocSn.isSome = true → w.HeartbeatsReader → sc.announceAll) :
    Does sc cur w (w.flushGroupEOCHBOnly unsent) := by
  unfold flushGroupEOCHBOnly
  split
  next => exact .refl _ _ _
  next eocSn hsome =>
    dsimp only
    -- hold the readers that the combined send did not reach
    have hfold : ∀ (l : List ReaderMatch) (w' : StatefulWriter),
        Quiet sc cur w' (l.foldl (fun w m => w.modifyMatch m (·.markUnsent eocSn)) w') ∧
        (l.foldl (fun w m => w.modifyMatch m (·.markUnsent eocSn)) w').guids = w'.guids ∧
        ((l.foldl (fun w m => w.modifyMatch m (·.markUnsent eocSn)) w').HeartbeatsReader →
          w'.HeartbeatsReader) := by
      intro l
      induction l with
      | nil => exact fun w' => ⟨.refl _ _ _, rfl, id⟩
      | cons m l ih =>
        intro w'
        have hq : Quiet sc cur w' (w'.modifyMatch m (·.markUnsent eocSn)) := by
          apply modifyMatch_quiet <;> exact fun _ => rfl
        have hgu : (w'.modifyMatch m (·.markUnsent eocSn)).guids = w'.guids := by
          unfold modifyMatch
          split
          · exact setProxy_guids _ _
          · rfl
        have hhr : (w'.modifyMatch m (·.markUnsent eocSn)).HeartbeatsReader →
            w'.HeartbeatsReader := by
          unfold modifyMatch
          split
          next rp hrp =>
            rintro ⟨rp', hm', hr⟩
            rcases mem_setProxy hm' with rfl | hm'
            · exact ⟨rp, mem_of_find (find_of_findMatch hrp), hr⟩
            · exact ⟨rp', hm', hr⟩
          next => exact id
        obtain ⟨hq', hgu', hhr'⟩ := ih (w'.modifyMatch m (·.markUnsent eocSn))
        exact ⟨hq.trans hq', hgu'.trans hgu, hhr ∘ hhr'⟩
    have hhold : ∀ (w' : StatefulWriter), ∃ w'',
        (if w'.config.resumeHeld then
          unsent.foldl (fun w m => w.modifyMatch m (·.markUnsent eocSn)) w' else w') = w'' ∧
        Quiet sc cur w' w'' ∧ w''.guids = w'.guids ∧
        (w''.HeartbeatsReader → w'.HeartbeatsReader) := by
      intro w'
      refine ⟨_, rfl, ?_⟩
      split
      · exact hfold unsent w'
      · exact ⟨.refl _ _ _, rfl, id⟩
    obtain ⟨w₂, hw₂, hq, hgu, hhr⟩ := hhold { w with pendingEocSn := none }
    rw [hw₂]
    have hhb : Does sc cur (w₂.flushedThrough eocSn) ((w₂.flushedThrough eocSn).heartbeatAll
        (some (if 0 < (w₂.flushedThrough eocSn).firstAvailableSnLocked then
          (w₂.flushedThrough eocSn).firstAvailableSnLocked else 1))) := by
      apply heartbeatAll_does
      · intro g hmem
        apply hg
        have : g ∈ w₂.guids := hmem
        rw [hgu] at this
        exact this
      · rintro sn ⟨⟩
        rfl
      · exact .inr fun hr => hall (by rw [hsome]; rfl) (hhr hr)
    rintro s rfl hc
    have h₁ : Moves sc s { s with
        writer := { s.writer with pendingEocSn := none }
        flight := .flushing eocSn ::ₘ s.flight } := .single (.takeEoc s eocSn hsome)
    have h₂ := hq { s with
      writer := { s.writer with pendingEocSn := none }
      flight := .flushing eocSn ::ₘ s.flight } rfl hc
    have h₃ : Moves sc { s with writer := w₂, flight := .flushing eocSn ::ₘ s.flight }
        { s with writer := w₂.flushedThrough eocSn } := .single (.flush _ eocSn s.flight rfl)
    obtain ⟨u, h₄⟩ := hhb { s with writer := w₂.flushedThrough eocSn } rfl hc
    exact ⟨u, ((h₁.trans h₂).trans h₃).trans h₄⟩

end EndMarkers

/-! ### Matching and writing -/

section Calls

variable {sc : Scope} {cur : Option ℤ} {w : StatefulWriter} {rp : ReaderProxy}

theorem replayHistoryToProxyUnlocked_spawns (hm : rp ∈ w.readerProxies)
    (hg : rp.reliable = true → sc.heartbeat rp.guid)
    (hr : rp.reliable = true → ∀ sn, w.ReplaysLocked rp sn → sc.sample sn ∧ sc.unfiltered sn)
    (hb : rp.reliable = false → ∀ sn, sc.sample sn) :
    Spawns sc cur w (w.replayHistoryToProxyUnlocked rp) := by
  unfold replayHistoryToProxyUnlocked
  split_ifs with h₁ h₂ h₃
  · exact (Does.refl _ _ _).spawns
  · exact reportReady_quiet.does.spawns
  · have ho := OnlySent.sendHeartbeatToProxyLockedWithLastSnAndFirstSn w rp false
      w.lastSentSnLocked none
    refine ((sendHeartbeatToProxyLocked_does (hg h₃)).trans
      (primeFragmented_does ?_)).spawns
    intro ch hch
    apply hr h₃
    unfold ReplaysLocked
    rw [if_pos h₃]
    refine ⟨Bool.eq_false_iff.mpr h₁, ch, ?_, rfl⟩
    rw [← ho.cache, ← ho.config]
    exact hch
  · have hset : Quiet sc cur w (w.setProxy { rp with suppressLiveData := true }) :=
      setProxy_quiet hm rfl rfl
    exact hset.does.trans_spawns (replayLoop_spawns (hb (Bool.eq_false_iff.mpr h₃)) _ _ _ _)

theorem greet_spawns (hm : rp ∈ w.readerProxies)
    (hg : (w.config.replayOnMatch && rp.wantsReplay) = true → rp.reliable = true →
      sc.heartbeat rp.guid)
    (hr : (w.config.replayOnMatch && rp.wantsReplay) = true → rp.reliable = true →
      ∀ sn, w.ReplaysLocked rp sn → sc.sample sn ∧ sc.unfiltered sn)
    (hb : (w.config.replayOnMatch && rp.wantsReplay) = true → rp.reliable = false →
      ∀ sn, sc.sample sn) :
    Spawns sc cur w (w.greet rp) := by
  unfold greet
  split_ifs with h₁ h₂
  · exact replayHistoryToProxyUnlocked_spawns hm (hg h₁) (hr h₁) (hb h₁)
  · unfold sendInitialHeartbeatUnlocked
    split
    · exact (Does.refl _ _ _).spawns
    · exact ⟨launchHeartbeat_launches rfl rfl (min_le_right _ _) le_rfl, rfl⟩
  · exact reportReady_quiet.does.spawns

theorem refreshMatch_does {m : MatchedReader} {gens : Locator → UInt32}
    (hm : rp ∈ w.readerProxies) {rp' : ReaderProxy}
    (he : rp' = { rp with
      selectedLocators := m.selectedLocators
      reliable := m.reliable
      wantsReplay := m.wantsReplay
      isLocal := m.isLocal })
    (hg : connectionGenerationSumLocked gens rp' ≠ rp'.lastSeenConnectionGeneration →
      rp'.reliable = true → sc.heartbeat rp'.guid)
    (hs : connectionGenerationSumLocked gens rp' ≠ rp'.lastSeenConnectionGeneration →
      ∀ sn, w.ReplaysLocked rp' sn → sc.sample sn ∧ sc.unfiltered sn) :
    Does sc cur w (w.refreshMatch rp m gens) := by
  unfold refreshMatch
  dsimp only
  rw [← he]
  have hguid : rp'.guid = rp.guid := by rw [he]
  have hset : Quiet sc cur w (w.setProxy rp') := setProxy_quiet hm hguid (by rw [he])
  refine hset.does.trans (resyncIfGenerationChangedLocked_does sc cur
    (mem_setProxy_self hm hguid) hg (fun hne sn hr => hs hne sn ?_)).1
  exact (Alike.setProxy w rp').replaysLocked.mp hr

theorem getChange_addSample (s : Sample) :
    ∃ ch, (w.addSample s).cache.getChange w.cache.nextSn = some ch := by
  rw [← Option.isSome_iff_exists, HistoryCache.getChange, List.find?_isSome]
  exact ⟨_, List.mem_append_right _ (List.mem_singleton.mpr rfl), beq_self_eq_true _⟩

theorem write_moves {sample : Sample} {b : Bool} (hw : sc.write sample b)
    (hev : ∀ sn, w.Evicts sample sn → sc.evicts sn) (s : View) (he : s.writer = w) :
    (∃ u cur', Moves sc s ⟨(w.write sample b).1, u, packetsOf (w.write sample b).2 + s.flight,
      s.phase, cur'⟩) ∧ (w.write sample b).2.bind Task.phase = none := by
  subst he
  obtain ⟨ch, hch⟩ := getChange_addSample (w := s.writer) sample
  have hsn := sn_of_getChange hch
  unfold write
  dsimp only
  split
  next ha =>
    refine ⟨⟨s.addressed, s.current, ?_⟩, rfl⟩
    rw [packetsOf, zero_add]
    exact .single (.writeBuffered s sample b hw hev ha)
  next ha =>
    have hact : s.writer.coherentActive = false := Bool.eq_false_iff.mpr ha
    have hch' : ((s.writer.addSample sample).emit
        (.wrote s.writer.cache.nextSn b)).cache.getChange s.writer.cache.nextSn = some ch := hch
    rw [hch']
    dsimp only
    -- the sample is the one the action sends
    have hnow : Move sc s ⟨((s.writer.addSample sample).emit (.wrote s.writer.cache.nextSn b)).emit
        (.offer ch.sequenceNumber true), s.addressed, s.flight, s.phase,
        some ch.sequenceNumber⟩ := by
      rw [hsn]
      exact .writeNow s sample b hw hev hact
    have hs : (((s.writer.addSample sample).emit (.wrote s.writer.cache.nextSn b)).emit
        (.offer ch.sequenceNumber true)).MaySend sc (some ch.sequenceNumber) ch := by
      refine ⟨mem_of_getChange hch, .inr rfl, .inr (.inl ?_)⟩
      unfold isCoherentPendingSn
      rw [show (((s.writer.addSample sample).emit (.wrote s.writer.cache.nextSn b)).emit
        (.offer ch.sequenceNumber true)).coherentActive = s.writer.coherentActive from rfl, hact]
      rfl
    unfold sendChangeToAllLocked
    dsimp only [SendReturn.atOnce]
    split
    next heq =>
      split at heq
      · cases heq
        obtain ⟨u, hm⟩ := (sendFragmented_does hs hact rfl).trans trimAckedLocked_quiet.does
          ⟨_, s.addressed, s.flight, s.phase, some ch.sequenceNumber⟩ rfl rfl
        refine ⟨⟨u, some ch.sequenceNumber, .head hnow ?_⟩, rfl⟩
        rw [packetsOf, zero_add]
        exact hm
      · cases heq
    next heq =>
      split at heq
      · cases heq
      · cases heq
        obtain ⟨u, hm⟩ := sendChange_launches true .write hs hact rfl
          ⟨_, s.addressed, s.flight, s.phase, some ch.sequenceNumber⟩ rfl rfl
        exact ⟨⟨u, _, .head hnow hm⟩, rfl⟩

end Calls

end StatefulWriter

/-! ### The steps of a task -/

/-- What a step of a task may do. -/
def Task.scope (w : StatefulWriter) : Task → Scope
  | sendChange _ _ (some (s, hb)) _ _ =>
      { land := fun g count => g = s.readerMatch.guid ∧ count = hb.count }
  | sendChange _ [] none _ (.preWindow _ _) => { heartbeat := (· ∈ w.guids) }
  | sendChange _ [] none _ (.window _ _) => { heartbeat := (· ∈ w.guids) }
  | sendChange _ _ none _ _ => {}
  | batch _ _ [] _ _ => { sample := fun _ => True }
  | batch _ _ (_ :: _) _ _ => {}
  | initialHeartbeat reader _ _ hb => { land := fun g count => g = reader ∧ count = hb.count }
  | takeEOC => {}
  | sendEOC _ => {}
  | flushEOC _ =>
      { heartbeat := (· ∈ w.guids)
        announceAll := w.pendingEocSn.isSome = true ∧ w.HeartbeatsReader }

/-- How the phase goes on when a task of phase `ph` leaves one of phase `ph'`. -/
def phaseAfter (all ph ph' : Option Phase) : Option Phase := if ph.isNone then all else ph'

namespace StatefulWriter

/-- A step of task `t`: it takes its packets from the flight and puts back those it leaves. -/
def StepsTask (sc : Scope) (t : Task) (w : StatefulWriter) (r : StatefulWriter × Option Task) :
    Prop :=
  (t.phase = none → r.2.bind Task.phase = none) ∧
  ∀ (s : View) (f : Multiset Packet), s.writer = w → s.flight = t.packets + f →
    (t.phase = none ∨ s.phase = t.phase) →
    ∃ u cur, Moves sc s
      ⟨r.1, u, packetsOf r.2 + f, phaseAfter s.phase t.phase (r.2.bind Task.phase), cur⟩

section Tasks

variable {sc : Scope} {w w' : StatefulWriter} {t t' : Task}

/-- A step that goes on in the same phase. -/
theorem stepsTask_same (hph : t'.phase = t.phase)
    (h : ∀ (s : View) (f : Multiset Packet), s.writer = w → s.flight = t.packets + f →
      Moves sc s { s with writer := w', flight := t'.packets + f }) :
    StepsTask sc t w (w', some t') := by
  refine ⟨fun hn => by rw [Option.bind_some, hph, hn], ?_⟩
  intro s f hw hf hp
  refine ⟨s.addressed, s.current, ?_⟩
  have : phaseAfter s.phase t.phase ((some t').bind Task.phase) = s.phase := by
    unfold phaseAfter
    rw [Option.bind_some, hph]
    split
    next => rfl
    next hn =>
      rcases hp with hp | hp
      · rw [hp] at hn
        exact absurd rfl hn
      · exact hp.symm
  rw [this]
  exact h s f hw hf

/-- A step of a task outside `endCoherentSet` that ends in a call. -/
theorem stepsTask_spawns {r : StatefulWriter × Option Task} (hn : t.phase = none)
    (hph : r.2.bind Task.phase = none)
    (h : ∀ (s : View) (f : Multiset Packet), s.writer = w → s.flight = t.packets + f →
      ∃ u cur, Moves sc s ⟨r.1, u, packetsOf r.2 + f, s.phase, cur⟩) :
    StepsTask sc t w r := by
  refine ⟨fun _ => hph, ?_⟩
  intro s f hw hf _
  obtain ⟨u, cur, hm⟩ := h s f hw hf
  refine ⟨u, cur, ?_⟩
  unfold phaseAfter
  rw [hn]
  exact hm

/-- A scheduled HEARTBEAT is sent, or dropped as malformed. -/
theorem sendHeartbeatUnlocked_moves {g : Guid} {startSn : ℤ} {locs : List Locator}
    {hb : HbSnapshot} (hl : sc.land g hb.count) {s : View} {f : Multiset Packet}
    (hf : s.flight = .message g (hb.message startSn) ::ₘ f) :
    Moves sc s { s with
      writer := s.writer.sendHeartbeatUnlocked g startSn locs false hb.lastSn hb.count hb.cacheFirst
      flight := f } := by
  have hdrop : Moves sc s { s with flight := f } := .single (.drop s _ f hf)
  unfold sendHeartbeatUnlocked
  dsimp only
  split
  · exact hdrop
  · split
    · exact hdrop
    next hv =>
      refine .single (.land s g locs (hb.message startSn) f hf ?_)
      rintro startSn' gaps firstSn lastSn count final liveliness he
      rw [HbSnapshot.message] at he
      cases he
      exact ⟨hl, fun hpos => not_lt.mp fun hlt => hv ⟨hpos, hlt⟩⟩

/-- A scheduled DATA is sent, or would block. -/
theorem sendData_moves {g : Guid} {locs : List Locator} {m : WriterMessage}
    (hm : ∀ startSn gaps firstSn lastSn count final liveliness,
      m ≠ .heartbeat startSn gaps firstSn lastSn count final liveliness)
    {s : View} {f : Multiset Packet}
    (hf : s.flight = .message g m ::ₘ f) :
    Moves sc s { s with writer := (s.writer.sendData g locs m).1, flight := f } := by
  have hdrop : Moves sc s { s with flight := f } := .single (.drop s _ f hf)
  unfold sendData
  split
  · exact hdrop
  · split
    · exact hdrop.tail (.attempt _)
    · refine .head (.attempt s) (.single (.land _ g locs m f hf ?_))
      rintro startSn gaps firstSn lastSn count final liveliness he
      exact absurd he (hm _ _ _ _ _ _ _)

theorem endSends_moves {sn : ℤ} {done : List ProxySnapshot} {s : View} {f : Multiset Packet}
    (hf : s.flight = .flushing sn ::ₘ f) :
    Moves sc s { s with writer := s.writer.endSends sn done, flight := f } := by
  have hfold : ∀ (l : List ProxySnapshot) (w : StatefulWriter),
      Quiet sc s.current w (l.foldl (endSendLocked sn) w) := by
    intro l
    induction l with
    | nil => exact fun w => .refl _ _ w
    | cons x l ih =>
      intro w
      have hq : Quiet sc s.current w (endSendLocked sn w x) := by
        apply modifyMatch_quiet <;>
        · intro rp
          dsimp only
          split <;> rfl
      exact hq.trans (ih _)
  refine .head (.flush s sn f hf) ?_
  unfold endSends
  dsimp only
  split
  · exact hfold done _ _ rfl rfl
  · exact .refl

theorem endSends_outside {sn : ℤ} {done : List ProxySnapshot} :
    Outside w (w.endSends sn done) := by
  have hfold : ∀ (l : List ProxySnapshot) (w : StatefulWriter),
      Outside w (l.foldl (endSendLocked sn) w) := by
    intro l
    induction l with
    | nil => exact fun w => ⟨rfl, rfl⟩
    | cons x l ih =>
      intro w
      have ho : Outside w (endSendLocked sn w x) := by
        unfold endSendLocked modifyMatch
        split
        · exact ⟨rfl, setProxy_guids _ _⟩
        · exact ⟨rfl, rfl⟩
      exact ho.trans (ih _)
  have hflush : Outside w (w.flushedThrough sn) := ⟨rfl, rfl⟩
  unfold endSends
  dsimp only
  split
  · exact hflush.trans (hfold done _)
  · exact hflush

theorem sendChange_owed_steps {ch : CacheChange} {todo done : List ProxySnapshot}
    {x : ProxySnapshot} {hb : HbSnapshot} {ret : SendReturn} :
    StepsTask ((Task.sendChange ch todo (some (x, hb)) done ret).scope w)
      (.sendChange ch todo (some (x, hb)) done ret) w
      (w.runTask (.sendChange ch todo (some (x, hb)) done ret)) := by
  rw [runTask]
  apply stepsTask_same
  · cases ret <;> rfl
  · rintro s f rfl hf
    have hf' : s.flight = .message x.readerMatch.guid (hb.message x.startSn) ::ₘ
        ((Task.sendChange ch todo none done ret).packets + f) := by
      rw [hf, Task.packets, Task.packets, owedPackets, owedPackets]
      simp only [zero_add, Multiset.cons_add, Multiset.singleton_add]
      rw [Multiset.cons_swap]
    have hl : ((Task.sendChange ch todo (some (x, hb)) done ret).scope s.writer).land
        x.readerMatch.guid hb.count := ⟨rfl, rfl⟩
    exact sendHeartbeatUnlocked_moves hl hf'

theorem sendChange_next_steps {ch : CacheChange} {todo done : List ProxySnapshot}
    {x : ProxySnapshot} {ret : SendReturn} :
    StepsTask ((Task.sendChange ch (x :: todo) none done ret).scope w)
      (.sendChange ch (x :: todo) none done ret) w
      (w.runTask (.sendChange ch (x :: todo) none done ret)) := by
  have hpk : ∀ (f : Multiset Packet), (Task.sendChange ch (x :: todo) none done ret).packets + f =
      .message x.readerMatch.guid (.data ch) ::ₘ (.flushing ch.sequenceNumber ::ₘ
        (owedPackets (x.hb.map (fun hb => (x, hb))) + (todo.map (·.packets ch)).sum) + f) := by
    intro f
    rw [Task.packets, List.map_cons, List.sum_cons, ProxySnapshot.packets]
    simp only [owedPackets, zero_add, Multiset.cons_add]
    rw [Multiset.cons_swap]
  have hdata : ∀ (s : View) (f : Multiset Packet), s.writer = w →
      s.flight = (Task.sendChange ch (x :: todo) none done ret).packets + f →
      ∀ sc : Scope, Moves sc s { s with
        writer := (w.sendData x.readerMatch.guid x.locs (.data ch)).1
        flight := .flushing ch.sequenceNumber ::ₘ (owedPackets (x.hb.map (fun hb => (x, hb))) + (todo.map (·.packets ch)).sum) + f } := by
    rintro s f rfl hf sc
    apply sendData_moves
    · intros
      exact WriterMessage.noConfusion
    · rw [hf, hpk]
  rw [runTask]
  split
  next w' heq =>
    apply stepsTask_same
    · cases ret <;> rfl
    · rintro s f hw hf
      have hm := hdata s f hw hf ((Task.sendChange ch (x :: todo) none done ret).scope w)
      rw [heq] at hm
      exact hm
  next w' heq =>
    apply stepsTask_same
    · cases ret <;> rfl
    · rintro s f hw hf
      have hm := hdata s f hw hf ((Task.sendChange ch (x :: todo) none done ret).scope w)
      rw [heq] at hm
      -- a reader that blocked gets no HEARTBEAT either
      refine hm.trans (drop_moves (owedPackets (x.hb.map (fun hb => (x, hb)))) ?_)
      rw [Task.packets]
      simp only [owedPackets, zero_add, Multiset.cons_add, Multiset.add_cons, add_assoc]

theorem sendChange_end_steps {ch : CacheChange} {done : List ProxySnapshot} {ret : SendReturn}
    (hact : (Task.sendChange ch [] none done ret).phase ≠ none → w.coherentActive = false) :
    StepsTask ((Task.sendChange ch [] none done ret).scope w)
      (.sendChange ch [] none done ret) w (w.runTask (.sendChange ch [] none done ret)) := by
  have hpk : ∀ (f : Multiset Packet), (Task.sendChange ch [] none done ret).packets + f =
      .flushing ch.sequenceNumber ::ₘ f := by
    intro f
    rw [Task.packets]
    simp only [owedPackets, List.map_nil, List.sum_nil, zero_add, Multiset.cons_add]
  have hend : ∀ (s : View) (f : Multiset Packet), s.writer = w →
      s.flight = (Task.sendChange ch [] none done ret).packets + f → ∀ sc : Scope,
      Moves sc s { s with writer := w.endSends ch.sequenceNumber done, flight := f } := by
    rintro s f rfl hf sc
    exact endSends_moves (hf.trans (hpk f))
  have ho : Outside w (w.endSends ch.sequenceNumber done) := endSends_outside
  rw [runTask]
  cases ret with
  | write =>
    apply stepsTask_spawns rfl rfl
    intro s f hw hf
    refine ⟨s.addressed, s.current, (hend s f hw hf _).trans ?_⟩
    rw [returnFromSend, packetsOf, zero_add]
    exact .single (.trim _)
  | preWindow rest e =>
    have hfl : Flushes ((Task.sendChange ch [] none done (.preWindow rest e)).scope w)
        (some ⟨false, rest, e⟩) (w.endSends ch.sequenceNumber done)
        ((w.endSends ch.sequenceNumber done).flushPreWindow e rest) :=
      flushPreWindow_flushes rest _ (ho.coherentActive.trans (hact (Option.some_ne_none _)))
        (by rw [ho.guids]; exact fun _ h => h)
    refine ⟨fun h => absurd h (Option.some_ne_none _), ?_⟩
    intro s f hw hf hp
    obtain ⟨u, cur, hm⟩ := hfl { s with writer := w.endSends ch.sequenceNumber done, flight := f }
      rfl (hp.resolve_left (Option.some_ne_none _))
    exact ⟨u, cur, (hend s f hw hf _).trans hm⟩
  | window rest e =>
    have hfl : Flushes ((Task.sendChange ch [] none done (.window rest e)).scope w)
        (some ⟨true, rest, e⟩) (w.endSends ch.sequenceNumber done)
        ((w.endSends ch.sequenceNumber done).flushWindow e rest) :=
      flushWindow_flushes rest _ (ho.coherentActive.trans (hact (Option.some_ne_none _)))
        (by rw [ho.guids]; exact fun _ h => h)
    refine ⟨fun h => absurd h (Option.some_ne_none _), ?_⟩
    intro s f hw hf hp
    obtain ⟨u, cur, hm⟩ := hfl { s with writer := w.endSends ch.sequenceNumber done, flight := f }
      rfl (hp.resolve_left (Option.some_ne_none _))
    exact ⟨u, cur, (hend s f hw hf _).trans hm⟩

theorem batch_next_steps {m : ReaderMatch} {locs : List Locator} {item : BatchItem}
    {todo : List BatchItem} {sent : Batch} {ret : BatchReturn} :
    StepsTask ((Task.batch m locs (item :: todo) sent ret).scope w)
      (.batch m locs (item :: todo) sent ret) w
      (w.runTask (.batch m locs (item :: todo) sent ret)) := by
  have hsend : ∀ (s : View) (f : Multiset Packet), s.writer = w →
      s.flight = (Task.batch m locs (item :: todo) sent ret).packets + f → ∀ sc : Scope,
      Moves sc s { s with
        writer := (w.sendData m.guid locs item.message).1
        flight := (todo.map (fun item => Packet.message m.guid item.message) : List Packet) + f } := by
    rintro s f rfl hf sc
    apply sendData_moves
    · intros
      cases item <;> exact WriterMessage.noConfusion
    · rw [hf, Task.packets, List.map_cons, ← Multiset.cons_coe, Multiset.cons_add]
  rw [runTask]
  split
  next w' heq =>
    apply stepsTask_same
    · rfl
    intro s f hw hf
    have hm := hsend s f hw hf ((Task.batch m locs (item :: todo) sent ret).scope w)
    rw [heq] at hm
    exact hm
  next w' heq =>
    apply stepsTask_same
    · rfl
    intro s f hw hf
    have hm := hsend s f hw hf ((Task.batch m locs (item :: todo) sent ret).scope w)
    rw [heq] at hm
    refine hm.trans (drop_moves (todo.map (fun item => Packet.message m.guid item.message) :
      List Packet) ?_)
    rw [Task.packets, List.map_nil, Multiset.coe_nil, zero_add]

/-- A step of a task is made of moves. -/
theorem runTask_steps (t : Task) (hact : t.phase ≠ none → w.coherentActive = false) :
    StepsTask (t.scope w) t w (w.runTask t) := by
  cases t with
  | sendChange ch todo owed done ret =>
    cases owed with
    | some o => exact sendChange_owed_steps
    | none =>
      cases todo with
      | cons x todo => exact sendChange_next_steps
      | nil => exact sendChange_end_steps hact
  | batch m locs todo sent ret =>
    cases todo with
    | cons item todo => exact batch_next_steps
    | nil =>
      obtain ⟨hla, hph⟩ : Spawns ((Task.batch m locs [] sent ret).scope w) none w
          (w.returnFromBatch m sent ret) := returnFromBatch_spawns (fun _ => trivial)
      apply stepsTask_spawns rfl hph
      intro s f hw hf
      rw [Task.packets, List.map_nil, Multiset.coe_nil, zero_add] at hf
      obtain ⟨u, hm⟩ := hla { s with addressed := Set.univ, current := none } hw rfl
      rw [← hf]
      exact ⟨u, none, .head (.forget s) hm⟩
  | initialHeartbeat reader startSn locs hb =>
    apply stepsTask_spawns rfl rfl
    rintro s f rfl hf
    rw [Task.packets, Multiset.singleton_add] at hf
    refine ⟨s.addressed, s.current, ?_⟩
    rw [runTask, packetsOf, zero_add]
    have hl : ((Task.initialHeartbeat reader startSn locs hb).scope s.writer).land reader
        hb.count := ⟨rfl, rfl⟩
    exact sendHeartbeatUnlocked_moves hl hf
  | takeEOC =>
    apply stepsTask_spawns rfl rfl
    intro s f hw hf
    rw [Task.packets, zero_add] at hf
    have hla : Launches (Task.scope w .takeEOC) s.current w w.takeEOCProxyInfos.1
        (w.takeEOCProxyInfos.2.map (·.packet) : List Packet) := takeEOCProxyInfos_launches
    obtain ⟨u, hm⟩ := hla s hw rfl
    rw [← hf]
    exact ⟨u, s.current, hm⟩
  | sendEOC infos =>
    apply stepsTask_spawns rfl rfl
    rintro s f rfl hf
    have hin : ∀ i ∈ infos, i.packet ∈ s.flight := by
      intro i hi
      rw [hf, Task.packets]
      exact Multiset.mem_add.mpr (.inl (Multiset.mem_coe.mpr (List.mem_map_of_mem hi)))
    refine ⟨s.addressed, s.current, (sendCombined_moves infos
      (infos.map (fun i => (i.locator, i.readerGuid.guidPrefix))).eraseDups infos s rfl
      hin).trans ?_⟩
    rw [runTask, packetsOf, Task.packets, zero_add]
    exact drop_moves _ hf
  | flushEOC infos =>
    apply stepsTask_spawns rfl rfl
    intro s f hw hf
    rw [Task.packets, zero_add] at hf
    have hd : Does ((Task.flushEOC infos).scope w) s.current w
        (w.flushGroupEOCHBOnly (unsentReaders infos)) :=
      flushGroupEOCHBOnly_does (fun _ h => h) (fun h₁ h₂ => ⟨h₁, h₂⟩)
    obtain ⟨u, hm⟩ := hd s hw rfl
    refine ⟨u, s.current, ?_⟩
    rw [runTask, packetsOf, zero_add, ← hf]
    exact hm

end Tasks

/-! ### The actions -/

/-- What a resync of a reader may do: nothing if its connection is the same. -/
def resyncScope (w : StatefulWriter) (gens : Locator → UInt32) (rp : ReaderProxy) : Scope where
  sample := fun sn => connectionGenerationSumLocked gens rp ≠ rp.lastSeenConnectionGeneration ∧
    w.ReplaysLocked rp sn
  unfiltered := fun sn => connectionGenerationSumLocked gens rp ≠ rp.lastSeenConnectionGeneration ∧
    w.ReplaysLocked rp sn
  heartbeat := fun g => connectionGenerationSumLocked gens rp ≠ rp.lastSeenConnectionGeneration ∧
    rp.reliable = true ∧ g = rp.guid

/-- What the match of a new reader may do. -/
def newMatchScope (w : StatefulWriter) (m : MatchedReader) (gens : Locator → UInt32) : Scope where
  sample sn := (w.config.replayOnMatch && m.wantsReplay) = true ∧
    (m.reliable = true → w.ReplaysLocked (w.newProxy m gens) sn)
  unfiltered sn := (w.config.replayOnMatch && m.wantsReplay) = true ∧
    m.reliable = true ∧ w.ReplaysLocked (w.newProxy m gens) sn
  heartbeat g := (w.config.replayOnMatch && m.wantsReplay) = true ∧
    m.reliable = true ∧ g = m.guid

/-- What the match of a reader, new or known, may do. -/
def matchScope (w : StatefulWriter) (m : MatchedReader) (gens : Locator → UInt32) : Scope :=
  match w.findReaderProxyLocked m.guid with
  | some rp => w.resyncScope gens { rp with
      selectedLocators := m.selectedLocators
      reliable := m.reliable
      wantsReplay := m.wantsReplay
      isLocal := m.isLocal }
  | none => w.newMatchScope m gens

theorem addOrRefreshMatchedReaderWith_spawns (w : StatefulWriter) (m : MatchedReader)
    (gens : Locator → UInt32) (isCurrent : Bool) :
    Spawns (w.matchScope m gens) none w (w.addOrRefreshMatchedReaderWith m gens isCurrent) := by
  unfold addOrRefreshMatchedReaderWith
  split
  · exact (Does.refl _ _ _).spawns
  · split
    next rp hrp =>
      have hsc : w.matchScope m gens = w.resyncScope gens { rp with
          selectedLocators := m.selectedLocators
          reliable := m.reliable
          wantsReplay := m.wantsReplay
          isLocal := m.isLocal } := by
        rw [matchScope, hrp]
      rw [hsc]
      refine Does.spawns (refreshMatch_does (mem_of_find hrp) rfl ?_ ?_)
      · exact fun hne hr => ⟨hne, hr, rfl⟩
      · exact fun hne sn hr => ⟨⟨hne, hr⟩, hne, hr⟩
    next hnone =>
      have hsc : w.matchScope m gens = w.newMatchScope m gens := by
        rw [matchScope, hnone]
      rw [hsc]
      have hadd : Quiet (w.newMatchScope m gens) none w
          { w.appendProxy (w.newProxy m gens) hnone with
            lastMatchId := w.lastMatchId + 1 } := by
        apply Quiet.of_move
        rintro ⟨w₀, u, f, ph, cur⟩ hw hcur
        obtain rfl : w₀ = w := hw
        exact .addReader _ (w₀.newProxy m gens) hnone rfl
      refine hadd.does.trans_spawns (greet_spawns ?_ ?_ ?_ ?_)
      · exact List.mem_append_right _ (List.mem_singleton.mpr rfl)
      · exact fun hr hrel => ⟨hr, hrel, rfl⟩
      · exact fun hr hrel sn hs => ⟨⟨hr, fun _ => hs⟩, hr, hrel, hs⟩
      · exact fun hr hrel sn => ⟨hr, fun h => by
          have : m.reliable = false := hrel
          rw [this] at h
          cases h⟩

end StatefulWriter

/-- What an action may do, by its input and the state before it. -/
def WriterAction.scope (c : Machine) : WriterAction → Scope
  | write s =>
      { write := fun s' b => s' = s ∧ b = c.suspended
        evicts := fun sn => c.writer.Evicts s sn }
  | sendHeartbeat _ liveliness =>
      { heartbeat := fun g => ∃ rp ∈ c.writer.readerProxies, rp.guid = g ∧
          (rp.reliable || liveliness) = true }
  | handleAckNack reader highestSn nackSet _ _ =>
      { sample := fun sn => nackSet.contains sn = true ∧ ∃ rp,
          c.writer.findReaderProxyLocked reader = some rp ∧ rp.reliable = true ∧ rp.startSn ≤ sn
        heartbeat := fun g => g = reader
        ack := fun g h => g = reader ∧ h = highestSn }
  | handleNackFrag reader writerSn _ count =>
      { sample := fun sn => sn = writerSn ∧ c.writer.AnswersNackFrag reader writerSn count
        unfiltered := fun sn => sn = writerSn ∧ c.writer.AnswersNackFrag reader writerSn count }
  | addOrRefreshMatchedReader m gens isCurrent =>
      if isCurrent then c.writer.matchScope m gens else {}
  | removeMatchedReader _ => {}
  | checkConnectionGenerations gens =>
      { sample := fun sn => ∃ rp ∈ c.writer.readerProxies, (c.writer.resyncScope gens rp).sample sn
        unfiltered := fun sn =>
          ∃ rp ∈ c.writer.readerProxies, (c.writer.resyncScope gens rp).unfiltered sn
        heartbeat := fun g =>
          ∃ rp ∈ c.writer.readerProxies, (c.writer.resyncScope gens rp).heartbeat g }
  | resumeHeld => { sample := fun _ => c.writer.Holds }
  | beginCoherentSet _ => {}
  | endCoherentSet _ => { heartbeat := (· ∈ c.writer.guids), endSet := True }
  | task i =>
      match c.tasks[i]? with
      | some t => t.scope c.writer
      | none => {}

namespace Machine

open StatefulWriter

variable {c c' : Machine}

/-- A call under the lock that leaves no task. -/
theorem moves_of_does {sc : Scope} {w : StatefulWriter} (h : Does sc none c.writer w) :
    Moves sc c.view { c with writer := w }.view := by
  obtain ⟨u, hm⟩ := h c.view rfl rfl
  exact hm.tail (.forget _)

/-- A call that leaves the phase alone. -/
theorem moves_of_launches {sc : Scope} {r : StatefulWriter × Option Task}
    (h : ∃ u cur, Moves sc c.view
      ⟨r.1, u, packetsOf r.2 + c.view.flight, c.view.phase, cur⟩)
    (hph : r.2.bind Task.phase = none) :
    (c.start r).phases = c.phases ∧ Moves sc c.view (c.start r).view := by
  have hphases : (c.start r).phases = c.phases := by
    unfold phases start
    rcases r with ⟨w, _ | t⟩
    · simp
    · have ht : t.phase = none := hph
      simp [ht]
  refine ⟨hphases, ?_⟩
  obtain ⟨u, cur, hm⟩ := h
  refine hm.tail ?_
  have hview : (c.start r).view =
      ⟨r.1, Set.univ, packetsOf r.2 + c.view.flight, c.view.phase, none⟩ := by
    unfold view
    rw [hphases]
    congr 1
    unfold start
    rcases r with ⟨w, _ | t⟩
    · simp [packetsOf]
    · simp [packetsOf, add_comm]
  rw [hview]
  exact .forget _

theorem publisherFree_phases (h : c.publisherFree = true) : c.phases = [] := by
  unfold phases
  rw [List.filterMap_eq_nil_iff]
  intro t ht
  have hf := List.all_eq_true.mp h t ht
  unfold Task.phase
  split
  · simp [Task.holdsPublisher] at hf
  · simp [Task.holdsPublisher] at hf
  · rfl

theorem moves_of_flushes {sc : Scope} {r : StatefulWriter × Option Task}
    (hfree : c.publisherFree = true) (h : Flushes sc none c.writer r) :
    (c.start r).phases.length ≤ 1 ∧ Moves sc c.view (c.start r).view := by
  have hnil := publisherFree_phases hfree
  have hphases : (c.start r).phases = (r.2.bind Task.phase).toList := by
    have hsplit : (c.start r).phases = c.phases ++ r.2.toList.filterMap Task.phase :=
      List.filterMap_append
    rw [hsplit, hnil]
    rcases r with ⟨w, _ | t⟩
    · rfl
    · cases ht : t.phase <;> simp [ht]
  constructor
  · rw [hphases]
    cases r.2.bind Task.phase <;> simp
  · have hp : c.view.phase = none := by
      unfold view
      rw [hnil]
      rfl
    obtain ⟨u, cur, hm⟩ := h c.view rfl hp
    refine hm.tail ?_
    have hview : (c.start r).view =
        ⟨r.1, Set.univ, packetsOf r.2 + c.view.flight, r.2.bind Task.phase, none⟩ := by
      have hhead : (c.start r).phases.head? = r.2.bind Task.phase := by
        rw [hphases]
        cases r.2.bind Task.phase <;> rfl
      unfold view
      rw [hhead]
      congr 1
      unfold start
      rcases r with ⟨w, _ | t⟩
      · simp [packetsOf]
      · simp [packetsOf, add_comm]
    rw [hview]
    exact .forget _

theorem moves_of_task {i : ℕ} {t : Task} (ht : c.tasks[i]? = some t)
    (hph : c.phases.length ≤ 1) (hact : c.phases ≠ [] → c.writer.coherentActive = false) :
    let c' : Machine := ⟨(c.writer.runTask t).1,
      c.tasks.take i ++ (c.writer.runTask t).2.toList ++ c.tasks.drop (i + 1)⟩
    c'.phases.length ≤ 1 ∧ Moves (t.scope c.writer) c.view c'.view := by
  dsimp only
  obtain ⟨hlt, hget⟩ := List.getElem?_eq_some_iff.mp ht
  have htasks : c.tasks = c.tasks.take i ++ t :: c.tasks.drop (i + 1) := by
    rw [← hget, List.getElem_cons_drop, List.take_append_drop]
  generalize hA : c.tasks.take i = A at htasks ⊢
  generalize hB : c.tasks.drop (i + 1) = B at htasks ⊢
  -- the phases and packets of the tasks, with those of `t` apart
  have hphases : c.phases = A.filterMap Task.phase ++ (t.phase.toList ++ B.filterMap Task.phase) := by
    unfold phases
    rw [htasks, List.filterMap_append]
    cases hp : t.phase <;> simp [hp]
  have hflight : c.view.flight = t.packets + ((A.map Task.packets).sum +
      (B.map Task.packets).sum) := by
    show (c.tasks.map Task.packets).sum = _
    rw [htasks, List.map_append, List.sum_append, List.map_cons, List.sum_cons]
    rw [add_left_comm]
  have hact' : t.phase ≠ none → c.writer.coherentActive = false := by
    intro hne
    apply hact
    rw [hphases]
    cases hp : t.phase with
    | none => exact absurd hp hne
    | some ph => simp
  obtain ⟨hnone, hsteps⟩ := runTask_steps t hact'
  generalize c.writer.runTask t = r at hnone hsteps ⊢
  have hphases' : (Machine.mk r.1 (A ++ r.2.toList ++ B)).phases =
      A.filterMap Task.phase ++ ((r.2.bind Task.phase).toList ++ B.filterMap Task.phase) := by
    unfold phases
    rw [List.append_assoc, List.filterMap_append, List.filterMap_append]
    rcases r with ⟨w, _ | t'⟩
    · rfl
    · cases hp : t'.phase <;> simp [hp]
  -- only `t` can hold the phase, if it has one
  have halone : t.phase ≠ none → A.filterMap Task.phase = [] ∧ B.filterMap Task.phase = [] := by
    intro hne
    rw [hphases] at hph
    cases hp : t.phase with
    | none => exact absurd hp hne
    | some ph =>
      rw [hp] at hph
      simp only [Option.toList_some, List.length_append, List.length_cons, List.length_nil] at hph
      exact ⟨List.length_eq_zero_iff.mp (by omega), List.length_eq_zero_iff.mp (by omega)⟩
  have hp : t.phase = none ∨ c.view.phase = t.phase := by
    cases hpt : t.phase with
    | none => exact .inl rfl
    | some ph =>
      right
      obtain ⟨h₁, h₂⟩ := halone (by rw [hpt]; exact Option.some_ne_none _)
      show c.phases.head? = some ph
      rw [hphases, h₁, h₂, hpt]
      rfl
  have hafter : (Machine.mk r.1 (A ++ r.2.toList ++ B)).phases.head? =
      phaseAfter c.view.phase t.phase (r.2.bind Task.phase) ∧
      (Machine.mk r.1 (A ++ r.2.toList ++ B)).phases.length ≤ 1 := by
    rw [hphases']
    unfold phaseAfter
    cases hpt : t.phase with
    | none =>
      rw [hnone hpt]
      rw [hphases, hpt] at hph
      refine ⟨?_, hph⟩
      show _ = c.phases.head?
      rw [hphases, hpt]
    | some ph =>
      obtain ⟨h₁, h₂⟩ := halone (by rw [hpt]; exact Option.some_ne_none _)
      rw [h₁, h₂]
      cases r.2.bind Task.phase <;> exact ⟨rfl, by simp⟩
  refine ⟨hafter.2, ?_⟩
  obtain ⟨u, cur, hm⟩ := hsteps c.view _ rfl hflight hp
  refine hm.tail ?_
  have hview : (Machine.mk r.1 (A ++ r.2.toList ++ B)).view = ⟨r.1, Set.univ,
      packetsOf r.2 + ((A.map Task.packets).sum + (B.map Task.packets).sum),
      phaseAfter c.view.phase t.phase (r.2.bind Task.phase), none⟩ := by
    rw [← hafter.1]
    unfold view
    congr 1
    rcases r with ⟨w, _ | t'⟩
    · simp [packetsOf]
    · simp [packetsOf, add_left_comm]
  rw [hview]
  exact .forget _

/-- At most one `endCoherentSet` is under way, and then no set is open. -/
structure WellPhased (c : Machine) : Prop where
  one : c.phases.length ≤ 1
  closed : c.view.phase ≠ none → c.writer.coherentActive = false

theorem WellPhased.closed' (h : WellPhased c) : c.phases ≠ [] → c.writer.coherentActive = false := by
  intro hne
  apply h.closed
  show c.phases.head? ≠ none
  rw [Ne, List.head?_eq_none_iff]
  exact hne

end Machine

theorem StatefulWriter.trimAckedLocked_coherentActive (w : StatefulWriter) :
    w.trimAckedLocked.coherentActive = w.coherentActive := by
  unfold StatefulWriter.trimAckedLocked
  split_ifs <;> rfl

theorem StatefulWriter.retireEndMarkersLocked_coherentActive (w : StatefulWriter) :
    w.retireEndMarkersLocked.coherentActive = w.coherentActive := by
  simp only [StatefulWriter.retireEndMarkersLocked]

/-- Under way, an `endCoherentSet` keeps its set closed. -/
theorem Move.closed {sc : Scope} {s s' : View} (h : Move sc s s')
    (hi : s.phase ≠ none → s.writer.coherentActive = false) :
    s'.phase ≠ none → s'.writer.coherentActive = false := by
  cases h with
  | trim => exact fun hp => (s.writer.trimAckedLocked_coherentActive).trans (hi hp)
  | retire => exact fun hp => (s.writer.retireEndMarkersLocked_coherentActive).trans (hi hp)
  | ready g isReady =>
    exact fun hp => ((StatefulWriter.OnlySent.reportReady _ _ _).coherentActive).trans (hi hp)
  | beginSet isCoherentWindow hp => exact fun hne => absurd hp hne
  | endSet => exact fun _ => rfl
  | skip tagged sn rest e hp => exact fun _ => hi (by rw [hp]; exact Option.some_ne_none _)
  | offer tagged sn rest e hp => exact fun _ => hi (by rw [hp]; exact Option.some_ne_none _)
  | tag e hp =>
    exact fun _ => ((StatefulWriter.tagSet_fields e).1).trans
      (hi (by rw [hp]; exact Option.some_ne_none _))
  | addMarker e m deferEoc hp =>
    exact fun hne => ((StatefulWriter.addMarker_fields m deferEoc).1).trans (hi hne)
  | finish => exact fun hne => absurd rfl hne
  | _ => exact hi

/-- What every move keeps, a sequence of moves keeps. -/
theorem Moves.inv {sc : Scope} {I : View → Prop} (hI : ∀ s s', Move sc s s' → I s → I s')
    {s s' : View} (h : Moves sc s s') (hi : I s) : I s' := by
  induction h with
  | refl => exact hi
  | tail _ hm ih => exact hI _ _ hm ih

namespace Machine

open StatefulWriter

variable {c c' : Machine} {a : WriterAction}

/-- Every action is a sequence of moves within its scope. -/
theorem step_moves (hc : c.WellPhased) (h : c.step a = some c') :
    c'.phases.length ≤ 1 ∧ Moves (a.scope c) c.view c'.view := by
  have hsame : ∀ {w : StatefulWriter}, Does (a.scope c) none c.writer w →
      ({ c with writer := w } : Machine).phases.length ≤ 1 ∧
      Moves (a.scope c) c.view { c with writer := w }.view :=
    fun hd => ⟨hc.one, moves_of_does hd⟩
  cases a with
  | write s =>
    cases h
    have hw : ((WriterAction.write s).scope c).write s c.suspended := ⟨rfl, rfl⟩
    obtain ⟨hm, hph⟩ := write_moves hw (fun _ h => h) c.view rfl
    obtain ⟨h₁, h₂⟩ := moves_of_launches hm hph
    exact ⟨h₁ ▸ hc.one, h₂⟩
  | sendHeartbeat final liveliness =>
    cases h
    exact hsame (sendHeartbeat_does fun rp hm hr => ⟨rp, hm, rfl, hr⟩)
  | handleAckNack reader highestSn nackSet count isFinal =>
    cases h
    exact hsame (handleAckNack_does rfl ⟨rfl, rfl⟩
      fun rp _ hrp hrel hle hsn => ⟨hsn, rp, hrp, hrel, hle⟩)
  | handleNackFrag reader writerSn fragSet count =>
    obtain ⟨w, hw, rfl⟩ := Option.map_eq_some_iff.mp h
    exact hsame (handleNackFrag_does (fun ha => ⟨⟨rfl, ha⟩, rfl, ha⟩) hw)
  | addOrRefreshMatchedReader m gens isCurrent =>
    cases h
    have hsp : Spawns ((WriterAction.addOrRefreshMatchedReader m gens isCurrent).scope c) none
        c.writer (c.writer.addOrRefreshMatchedReaderWith m gens isCurrent) := by
      cases isCurrent with
      | false => exact (Does.refl _ _ _).spawns
      | true => exact addOrRefreshMatchedReaderWith_spawns c.writer m gens true
    obtain ⟨hla, hph⟩ := hsp
    obtain ⟨u, hm⟩ := hla c.view rfl rfl
    obtain ⟨h₁, h₂⟩ := moves_of_launches ⟨u, none, hm⟩ hph
    exact ⟨h₁ ▸ hc.one, h₂⟩
  | removeMatchedReader guid =>
    cases h
    exact hsame removeMatchedReader_does
  | checkConnectionGenerations gens =>
    cases h
    exact hsame (checkConnectionGenerations_does
      (fun rp hm hne hr => ⟨rp, hm, hne, hr, rfl⟩)
      (fun rp hm hne sn hr => ⟨⟨rp, hm, hne, hr⟩, rp, hm, hne, hr⟩))
  | resumeHeld =>
    cases h
    obtain ⟨hla, hph⟩ : Spawns (WriterAction.resumeHeld.scope c) none c.writer
        c.writer.resumeHeldLocked := resumeFrom_spawns (fun hh _ => hh)
    obtain ⟨u, hm⟩ := hla c.view rfl rfl
    obtain ⟨h₁, h₂⟩ := moves_of_launches ⟨u, none, hm⟩ hph
    exact ⟨h₁ ▸ hc.one, h₂⟩
  | beginCoherentSet isCoherentWindow =>
    rw [step] at h
    split at h
    next hfree =>
      cases h
      have hp : c.view.phase = none := by
        show c.phases.head? = none
        rw [publisherFree_phases hfree]
        rfl
      exact ⟨hc.one, .single (.beginSet c.view isCoherentWindow hp)⟩
    next => cases h
  | endCoherentSet e =>
    rw [step] at h
    split at h
    next hfree =>
      cases h
      exact moves_of_flushes hfree (endCoherentSet_flushes (fun _ hg => hg) trivial)
    next => cases h
  | task i =>
    rw [step] at h
    split at h
    next => cases h
    next t ht =>
      cases h
      have hsc : (WriterAction.task i).scope c = t.scope c.writer := by
        rw [WriterAction.scope, ht]
      rw [hsc]
      exact moves_of_task ht hc.one hc.closed'

theorem WellPhased.step (hc : c.WellPhased) (h : c.step a = some c') : c'.WellPhased := by
  obtain ⟨hone, hm⟩ := step_moves hc h
  exact ⟨hone, hm.inv (fun _ _ hmove hi => hmove.closed hi) hc.closed⟩

end Machine

end Zzdds.Rtps
