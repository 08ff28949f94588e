import Zzdds.Rtps.Writer.Moves

/-! # The moves of the locked operations

Every operation made under the lock is a sequence of moves.  The lemmas follow the calls of
`writer_sm.zig`: one for each function, and none looks into the functions below its own. -/

namespace Zzdds.Rtps

namespace StatefulWriter

/-! ### What sending leaves alone -/

/-- Nothing that decides what can be sent differs. -/
structure Alike (w w' : StatefulWriter) : Prop where
  config : w'.config = w.config
  cache : w'.cache = w.cache
  coherentActive : w'.coherentActive = w.coherentActive
  coherentPendingSns : w'.coherentPendingSns = w.coherentPendingSns
  endMarkers : w'.endMarkers = w.endMarkers
  lastFlushedSn : w'.lastFlushedSn = w.lastFlushedSn
  trimmedThrough : w'.trimmedThrough = w.trimmedThrough
  pendingEocSn : w'.pendingEocSn = w.pendingEocSn

/-- Besides, the proxies are the same. -/
structure OnlySent (w w' : StatefulWriter) : Prop extends Alike w w' where
  readerProxies : w'.readerProxies = w.readerProxies

section Alike

variable {w w' w'' : StatefulWriter} {sc : Scope} {cur : Option ℤ} {ch : CacheChange} {sn : ℤ}

theorem Alike.refl (w : StatefulWriter) : Alike w w := ⟨rfl, rfl, rfl, rfl, rfl, rfl, rfl, rfl⟩

theorem Alike.trans (h : Alike w w') (h' : Alike w' w'') : Alike w w'' where
  config := h'.config.trans h.config
  cache := h'.cache.trans h.cache
  coherentActive := h'.coherentActive.trans h.coherentActive
  coherentPendingSns := h'.coherentPendingSns.trans h.coherentPendingSns
  endMarkers := h'.endMarkers.trans h.endMarkers
  lastFlushedSn := h'.lastFlushedSn.trans h.lastFlushedSn
  trimmedThrough := h'.trimmedThrough.trans h.trimmedThrough
  pendingEocSn := h'.pendingEocSn.trans h.pendingEocSn

theorem OnlySent.refl (w : StatefulWriter) : OnlySent w w := ⟨.refl w, rfl⟩

theorem OnlySent.trans (h : OnlySent w w') (h' : OnlySent w' w'') : OnlySent w w'' :=
  ⟨h.toAlike.trans h'.toAlike, h'.readerProxies.trans h.readerProxies⟩

theorem Alike.lastAvailable (h : Alike w w') :
    w'.lastAvailableSnLocked = w.lastAvailableSnLocked := by
  unfold lastAvailableSnLocked
  rw [h.cache, h.trimmedThrough, h.endMarkers]

theorem Alike.firstAvailable (h : Alike w w') :
    w'.firstAvailableSnLocked = w.firstAvailableSnLocked := by
  unfold firstAvailableSnLocked
  rw [h.cache, h.trimmedThrough, h.endMarkers]

theorem Alike.lastSent (h : Alike w w') : w'.lastSentSnLocked = w.lastSentSnLocked := by
  unfold lastSentSnLocked
  rw [h.lastAvailable, h.coherentActive, h.lastFlushedSn]

theorem Alike.isCoherentPendingSn (h : Alike w w') (sn : ℤ) :
    w'.isCoherentPendingSn sn = w.isCoherentPendingSn sn := by
  unfold StatefulWriter.isCoherentPendingSn
  rw [h.coherentActive, h.coherentPendingSns]

theorem Alike.maySend (h : Alike w w') (hs : w.MaySend sc cur ch) : w'.MaySend sc cur ch := by
  obtain ⟨hm, hr, hv⟩ := hs
  refine ⟨by rwa [h.cache], hr, ?_⟩
  rwa [h.lastSent, h.isCoherentPendingSn]

theorem Alike.maySendMarker (h : Alike w w') (hs : w.MaySendMarker sn) :
    w'.MaySendMarker sn := by
  unfold MaySendMarker
  rwa [h.endMarkers, h.pendingEocSn, h.coherentActive, h.cache]

theorem Alike.offers (h : Alike w w') {startSn firstSn lastSn : ℤ} {gaps : List (ℤ × ℤ)} :
    w'.Offers startSn gaps firstSn lastSn ↔ w.Offers startSn gaps firstSn lastSn := by
  unfold Offers
  rw [h.lastSent, h.lastAvailable, h.firstAvailable]

theorem OnlySent.send (w : StatefulWriter) (g : Guid) (locs : List Locator)
    (m : WriterMessage) : OnlySent w (w.send g locs m) :=
  ⟨⟨rfl, rfl, rfl, rfl, rfl, rfl, rfl, rfl⟩, rfl⟩

theorem OnlySent.bumpHb (w : StatefulWriter) : OnlySent w w.bumpHb :=
  ⟨⟨rfl, rfl, rfl, rfl, rfl, rfl, rfl, rfl⟩, rfl⟩

theorem OnlySent.countAttempt (w : StatefulWriter) : OnlySent w w.countAttempt :=
  ⟨⟨rfl, rfl, rfl, rfl, rfl, rfl, rfl, rfl⟩, rfl⟩

theorem OnlySent.reportReady (w : StatefulWriter) (g : Guid) (b : Bool) :
    OnlySent w (w.reportReady g b) := by
  unfold StatefulWriter.reportReady
  split
  · exact ⟨⟨rfl, rfl, rfl, rfl, rfl, rfl, rfl, rfl⟩, rfl⟩
  · exact .refl w

theorem Alike.setProxy (w : StatefulWriter) (rp : ReaderProxy) : Alike w (w.setProxy rp) :=
  ⟨rfl, rfl, rfl, rfl, rfl, rfl, rfl, rfl⟩

theorem OnlySent.sendData (w : StatefulWriter) (g : Guid) (locs : List Locator)
    (m : WriterMessage) : OnlySent w (w.sendData g locs m).1 := by
  unfold StatefulWriter.sendData
  split
  · exact .refl w
  · split
    · exact .countAttempt w
    · exact (OnlySent.countAttempt w).trans (.send _ g locs m)

end Alike

/-! ### Proxies -/

section Proxies

variable {w : StatefulWriter} {rp rp' : ReaderProxy} {g : Guid}

theorem mem_of_find (h : w.findReaderProxyLocked g = some rp) : rp ∈ w.readerProxies :=
  List.mem_of_find?_eq_some h

theorem guid_of_find (h : w.findReaderProxyLocked g = some rp) : rp.guid = g := by
  simpa using List.find?_some h

theorem find_of_findMatch {m : ReaderMatch} (h : w.findMatchLocked m = some rp) :
    w.findReaderProxyLocked m.guid = some rp := by
  unfold findMatchLocked at h
  exact Option.eq_some_of_filter_eq_some h

theorem mem_setProxy_self (hm : rp ∈ w.readerProxies) (hg : rp'.guid = rp.guid) :
    rp' ∈ (w.setProxy rp').readerProxies := by
  refine List.mem_map.mpr ⟨rp, hm, ?_⟩
  simp [hg]

theorem mem_setProxy_of_ne (hm : rp ∈ w.readerProxies) (hg : rp.guid ≠ rp'.guid) :
    rp ∈ (w.setProxy rp').readerProxies := by
  refine List.mem_map.mpr ⟨rp, hm, ?_⟩
  simp [hg]

/-- A proxy after `setProxy` is the one written, or was there before. -/
theorem mem_setProxy (h : rp ∈ (w.setProxy rp').readerProxies) :
    rp = rp' ∨ rp ∈ w.readerProxies := by
  obtain ⟨rp₀, hm, he⟩ := List.mem_map.mp h
  by_cases e : rp₀.guid = rp'.guid
  · simp only [e, if_true] at he
    exact .inl he.symm
  · simp only [e, if_false] at he
    exact .inr (he ▸ hm)

end Proxies

/-! ### Ways to move -/

/-- Moves that change nothing but the writer. -/
def Quiet (sc : Scope) (cur : Option ℤ) (w w' : StatefulWriter) : Prop :=
  ∀ s : View, s.writer = w → s.current = cur → Moves sc s { s with writer := w' }

/-- Moves that change the writer and who was addressed. -/
def Does (sc : Scope) (cur : Option ℤ) (w w' : StatefulWriter) : Prop :=
  ∀ s : View, s.writer = w → s.current = cur →
    ∃ u, Moves sc s { s with writer := w', addressed := u }

/-- Moves that may address `g`, if nothing was sent to it under this count. -/
def Addresses (sc : Scope) (cur : Option ℤ) (g : Guid) (w w' : StatefulWriter) : Prop :=
  ∀ s : View, s.writer = w → s.current = cur → g ∉ s.addressed →
    ∃ u, u ⊆ insert g s.addressed ∧ Moves sc s { s with writer := w', addressed := u }

section Ways

variable {sc : Scope} {cur : Option ℤ} {w w' w'' : StatefulWriter} {g : Guid}

theorem Quiet.refl (sc : Scope) (cur : Option ℤ) (w : StatefulWriter) : Quiet sc cur w w := by
  rintro s rfl rfl
  exact .refl

theorem Quiet.of_move (h : ∀ s : View, s.writer = w → s.current = cur →
    Move sc s { s with writer := w' }) : Quiet sc cur w w' :=
  fun s hw hc => .single (h s hw hc)

theorem Quiet.trans (h : Quiet sc cur w w') (h' : Quiet sc cur w' w'') : Quiet sc cur w w'' := by
  rintro s hw hc
  exact (h s hw hc).trans (h' { s with writer := w' } rfl hc)

theorem Quiet.addresses (h : Quiet sc cur w w') : Addresses sc cur g w w' := by
  rintro s hw hc _
  exact ⟨s.addressed, Set.subset_insert _ _, h s hw hc⟩

theorem Quiet.trans_addresses (h : Quiet sc cur w w') (h' : Addresses sc cur g w' w'') :
    Addresses sc cur g w w'' := by
  rintro s hw hc hu
  obtain ⟨u, hsub, hm⟩ := h' { s with writer := w' } rfl hc hu
  exact ⟨u, hsub, (h s hw hc).trans hm⟩

theorem Quiet.does (h : Quiet sc cur w w') : Does sc cur w w' :=
  fun s hw hc => ⟨s.addressed, h s hw hc⟩

theorem Does.refl (sc : Scope) (cur : Option ℤ) (w : StatefulWriter) : Does sc cur w w :=
  (Quiet.refl sc cur w).does

theorem Does.trans (h : Does sc cur w w') (h' : Does sc cur w' w'') : Does sc cur w w'' := by
  rintro s hw hc
  obtain ⟨u, hm⟩ := h s hw hc
  obtain ⟨u', hm'⟩ := h' { s with writer := w', addressed := u } rfl hc
  exact ⟨u', hm.trans hm'⟩

/-- Under a count just drawn, nobody was addressed yet. -/
theorem Addresses.bump (h : Addresses sc cur g w.bumpHb w') : Does sc cur w w' := by
  rintro s rfl hc
  obtain ⟨u, -, hm⟩ := h { s with writer := s.writer.bumpHb, addressed := ∅ } rfl hc
    (Set.notMem_empty g)
  exact ⟨u, .head (.bump s) hm⟩

/-- A fold of steps that each move, under an invariant of the fold. -/
theorem Does.foldl {α : Type*} {f : StatefulWriter → α → StatefulWriter}
    (I : List α → StatefulWriter → Prop)
    (hI : ∀ x l w, I (x :: l) w → Does sc cur w (f w x) ∧ I l (f w x)) :
    ∀ (l : List α) (w : StatefulWriter), I l w → Does sc cur w (l.foldl f w)
  | [], w, _ => .refl sc cur w
  | x :: l, w, h => (hI x l w h).1.trans (Does.foldl I hI l (f w x) (hI x l w h).2)

/-- A fold over readers that each get one message under a count. -/
theorem Addresses.foldl {f : StatefulWriter → ReaderProxy → StatefulWriter}
    (I : List ReaderProxy → StatefulWriter → Prop)
    (hI : ∀ rp l w, I (rp :: l) w → Addresses sc cur rp.guid w (f w rp) ∧ I l (f w rp)) :
    ∀ (l : List ReaderProxy) (w : StatefulWriter), I l w → (l.map (·.guid)).Nodup →
      ∀ s : View, s.writer = w → s.current = cur → (∀ rp ∈ l, rp.guid ∉ s.addressed) →
        ∃ u, Moves sc s { s with writer := l.foldl f w, addressed := u }
  | [], w, _, _, s, hw, _, _ => ⟨s.addressed, by subst hw; exact .refl⟩
  | rp :: l, w, h, hn, s, hw, hc, hu => by
      rw [List.map_cons, List.nodup_cons] at hn
      obtain ⟨ha, hI'⟩ := hI rp l w h
      obtain ⟨u, hsub, hm⟩ := ha s hw hc (hu rp List.mem_cons_self)
      obtain ⟨u', hm'⟩ := Addresses.foldl I hI l (f w rp) hI' hn.2
        { s with writer := f w rp, addressed := u } rfl hc (by
          intro rp' h' hmem
          rcases hsub hmem with he | hmem'
          · exact hn.1 (he ▸ List.mem_map_of_mem h')
          · exact hu rp' (List.mem_cons_of_mem _ h') hmem')
      exact ⟨u', hm.trans hm'⟩

/-- The same, from the drawing of the count on. -/
theorem Addresses.foldl_bump {f : StatefulWriter → ReaderProxy → StatefulWriter}
    (I : List ReaderProxy → StatefulWriter → Prop)
    (hI : ∀ rp l w, I (rp :: l) w → Addresses sc cur rp.guid w (f w rp) ∧ I l (f w rp))
    (h : I w.readerProxies w.bumpHb) : Does sc cur w (w.readerProxies.foldl f w.bumpHb) := by
  rintro s rfl hc
  obtain ⟨u, hm⟩ := Addresses.foldl I hI _ _ h s.writer.nodup
    { s with writer := s.writer.bumpHb, addressed := ∅ } rfl hc
    (fun rp _ => Set.notMem_empty rp.guid)
  exact ⟨u, .head (.bump s) hm⟩

/-- The proxies still to come are as they were. -/
def Ahead (l : List ReaderProxy) (w : StatefulWriter) : Prop :=
  (∀ rp ∈ l, rp ∈ w.readerProxies) ∧ (l.map (·.guid)).Nodup

theorem ahead_self (w : StatefulWriter) : Ahead w.readerProxies w := ⟨fun _ h => h, w.nodup⟩

theorem Ahead.tail {rp : ReaderProxy} {l : List ReaderProxy} (h : Ahead (rp :: l) w)
    (hk : ∀ rp' ∈ w.readerProxies, rp'.guid ≠ rp.guid → rp' ∈ w'.readerProxies) : Ahead l w' := by
  obtain ⟨hm, hn⟩ := h
  rw [List.map_cons, List.nodup_cons] at hn
  refine ⟨fun rp' h' => hk rp' (hm rp' (List.mem_cons_of_mem _ h')) ?_, hn.2⟩
  intro he
  exact hn.1 (he ▸ List.mem_map_of_mem h')

end Ways

/-! ### Messages -/

section Messages

variable {sc : Scope} {cur : Option ℤ} {w : StatefulWriter} {rp : ReaderProxy}
  {ch : CacheChange} {g : Guid} {locs : List Locator}

theorem send_data_quiet (hs : w.MaySend sc cur ch) :
    Quiet sc cur w (w.send g locs (.data ch)) := by
  apply Quiet.of_move
  rintro s rfl rfl
  exact .data s g locs ch hs

theorem send_dataFrag_quiet {fragNum : ℕ} {withTs : Bool} (hs : w.MaySend sc cur ch) :
    Quiet sc cur w (w.send g locs (.dataFrag ch fragNum withTs)) := by
  apply Quiet.of_move
  rintro s rfl rfl
  exact .dataFrag s g locs ch fragNum withTs hs

theorem send_endMarker_quiet {m : EndMarker} (hm : w.MaySendMarker m.sn) :
    Quiet sc cur w (w.send g locs (.endMarker m)) := by
  apply Quiet.of_move
  rintro s rfl rfl
  exact .marker s g locs m hm

theorem send_gap_quiet {sn : ℤ} (hn : sn ∉ w.keptSns) :
    Quiet sc cur w (w.send g locs (.gap sn)) := by
  apply Quiet.of_move
  rintro s rfl rfl
  exact .gap s g locs sn hn

theorem countAttempt_quiet : Quiet sc cur w w.countAttempt := by
  apply Quiet.of_move
  rintro s rfl rfl
  exact .attempt s

theorem reportReady_quiet {isReady : Bool} : Quiet sc cur w (w.reportReady g isReady) := by
  apply Quiet.of_move
  rintro s rfl rfl
  exact .ready s g isReady

theorem trimAckedLocked_quiet : Quiet sc cur w w.trimAckedLocked := by
  apply Quiet.of_move
  rintro s rfl rfl
  exact .trim s

theorem retireEndMarkersLocked_quiet : Quiet sc cur w w.retireEndMarkersLocked := by
  apply Quiet.of_move
  rintro s rfl rfl
  exact .retire s

/-- Change what a proxy records besides its acknowledged number. -/
theorem setProxy_quiet {rp' : ReaderProxy} (hm : rp ∈ w.readerProxies) (hg : rp'.guid = rp.guid)
    (ha : rp'.highestAckedSn = rp.highestAckedSn) : Quiet sc cur w (w.setProxy rp') := by
  apply Quiet.of_move
  rintro s rfl rfl
  exact .proxy s rp rp' hm hg (.inl ha)

theorem holdUnsentLocked_quiet {sn : ℤ} (hm : rp ∈ w.readerProxies) :
    Quiet sc cur w (w.holdUnsentLocked rp sn) :=
  setProxy_quiet hm rfl rfl

theorem send_heartbeatFrag_addresses {numFrags : ℕ} (hs : w.MaySend sc cur ch) :
    Addresses sc cur g w
      (w.send g locs (.heartbeatFrag ch.sequenceNumber numFrags w.hbCount)) := by
  rintro s rfl rfl hu
  exact ⟨_, subset_rfl, .single (.heartbeatFrag s g locs ch numFrags hu hs)⟩

theorem send_heartbeat_addresses {startSn firstSn lastSn : ℤ} {gaps : List (ℤ × ℤ)}
    {final liveliness : Bool} (hg : sc.heartbeat g)
    (ho : w.Offers startSn gaps firstSn lastSn) (hv : 0 < lastSn → firstSn ≤ lastSn + 1)
    (hl : lastSn ≤ w.lastSentSnLocked ∨ (sc.announceAll ∧ lastSn ≤ w.lastAvailableSnLocked)) :
    Addresses sc cur g w
      (w.send g locs (.heartbeat startSn gaps firstSn lastSn w.hbCount final liveliness)) := by
  rintro s rfl rfl hu
  exact ⟨_, subset_rfl,
    .single (.heartbeat s g locs startSn gaps firstSn lastSn final liveliness hu hg ho hv hl)⟩

theorem sendData_quiet {m : WriterMessage}
    (hq : Quiet sc cur w.countAttempt (w.countAttempt.send g locs m)) :
    Quiet sc cur w (w.sendData g locs m).1 := by
  unfold sendData
  split
  · exact .refl sc cur w
  · split
    · exact countAttempt_quiet
    · exact countAttempt_quiet.trans hq

theorem sendData_hbCount {m : WriterMessage} : (w.sendData g locs m).1.hbCount = w.hbCount := by
  unfold sendData
  split
  · rfl
  · split <;> rfl

/-! ### Fragments and markers -/

theorem sendFragsLoop_quiet (rp : ReaderProxy) :
    ∀ (n fragNum : ℕ) {w : StatefulWriter}, w.MaySend sc cur ch →
    Quiet sc cur w (w.sendFragsLoop rp ch n fragNum).1 ∧
    OnlySent w (w.sendFragsLoop rp ch n fragNum).1 ∧
    (w.sendFragsLoop rp ch n fragNum).1.hbCount = w.hbCount
  | 0, fragNum, w, _ => ⟨.refl sc cur w, .refl w, rfl⟩
  | n + 1, fragNum, w, hs => by
      have hq : Quiet sc cur w (w.sendData rp.guid rp.selectedLocators
          (.dataFrag ch fragNum (fragNum == 1))).1 :=
        sendData_quiet (send_dataFrag_quiet ((OnlySent.countAttempt w).toAlike.maySend hs))
      have ho := OnlySent.sendData w rp.guid rp.selectedLocators
        (.dataFrag ch fragNum (fragNum == 1))
      have hc : (w.sendData rp.guid rp.selectedLocators
          (.dataFrag ch fragNum (fragNum == 1))).1.hbCount = w.hbCount := sendData_hbCount
      rw [sendFragsLoop]
      rcases hd : w.sendData rp.guid rp.selectedLocators (.dataFrag ch fragNum (fragNum == 1))
        with ⟨w', took⟩
      rw [hd] at hq ho hc
      dsimp only at hq ho hc ⊢
      split
      · obtain ⟨hq', ho', hc'⟩ := sendFragsLoop_quiet rp n (fragNum + 1) (ho.toAlike.maySend hs)
        exact ⟨hq.trans hq', ho.trans ho', hc'.trans hc⟩
      · exact ⟨hq, ho, hc⟩

theorem sendFragsToProxyLocked_addresses {firstFrag : ℕ} (hs : w.MaySend sc cur ch) :
    Addresses sc cur rp.guid w (w.sendFragsToProxyLocked rp ch w.hbCount firstFrag).1 := by
  unfold sendFragsToProxyLocked
  split
  · exact (Quiet.refl sc cur w).addresses
  · obtain ⟨hq, ho, hc⟩ := sendFragsLoop_quiet rp (w.config.numFrags ch + 1 - firstFrag)
      firstFrag hs
    rcases hl : w.sendFragsLoop rp ch (w.config.numFrags ch + 1 - firstFrag) firstFrag
      with ⟨w', _ | frag⟩
    · rw [hl] at hq ho hc
      dsimp only at hq ho hc ⊢
      rw [← hc]
      exact hq.trans_addresses (send_heartbeatFrag_addresses (ho.toAlike.maySend hs))
    · rw [hl] at hq
      exact hq.addresses

theorem OnlySent.sendFragsToProxyLocked {firstFrag hbCount : ℕ} (hs : w.MaySend sc cur ch) :
    OnlySent w (w.sendFragsToProxyLocked rp ch hbCount firstFrag).1 := by
  unfold StatefulWriter.sendFragsToProxyLocked
  split
  · exact .refl w
  · obtain ⟨-, ho, -⟩ := sendFragsLoop_quiet rp (w.config.numFrags ch + 1 - firstFrag)
      firstFrag hs
    rcases hl : w.sendFragsLoop rp ch (w.config.numFrags ch + 1 - firstFrag) firstFrag
      with ⟨w', _ | frag⟩
    · rw [hl] at ho
      exact ho.trans (.send _ _ _ _)
    · rw [hl] at ho
      exact ho

theorem sendFrag1ToProxyLocked_addresses (hs : w.MaySend sc cur ch) :
    Addresses sc cur rp.guid w (w.sendFrag1ToProxyLocked rp ch w.hbCount).1 := by
  unfold sendFrag1ToProxyLocked
  split
  · exact (Quiet.refl sc cur w).addresses
  · have hq : Quiet sc cur w (w.sendData rp.guid rp.selectedLocators (.dataFrag ch 1 true)).1 :=
      sendData_quiet (send_dataFrag_quiet ((OnlySent.countAttempt w).toAlike.maySend hs))
    have ho := OnlySent.sendData w rp.guid rp.selectedLocators (.dataFrag ch 1 true)
    have hc : (w.sendData rp.guid rp.selectedLocators (.dataFrag ch 1 true)).1.hbCount =
        w.hbCount := sendData_hbCount
    rcases hd : w.sendData rp.guid rp.selectedLocators (.dataFrag ch 1 true) with ⟨w', took⟩
    rw [hd] at hq ho hc
    dsimp only at hq ho hc ⊢
    split
    · rw [← hc]
      exact hq.trans_addresses (send_heartbeatFrag_addresses (ho.toAlike.maySend hs))
    · exact hq.addresses

theorem OnlySent.sendFrag1ToProxyLocked (w : StatefulWriter) (rp : ReaderProxy)
    (ch : CacheChange) (hbCount : ℕ) :
    OnlySent w (w.sendFrag1ToProxyLocked rp ch hbCount).1 := by
  unfold StatefulWriter.sendFrag1ToProxyLocked
  split
  · exact .refl w
  · have ho := OnlySent.sendData w rp.guid rp.selectedLocators (.dataFrag ch 1 true)
    rcases hd : w.sendData rp.guid rp.selectedLocators (.dataFrag ch 1 true) with ⟨w', took⟩
    rw [hd] at ho
    dsimp only at ho ⊢
    split
    · exact ho.trans (.send _ _ _ _)
    · exact ho

theorem sendEndMarkerToProxyLocked_quiet {m : EndMarker} (hm : w.MaySendMarker m.sn) :
    Quiet sc cur w (w.sendEndMarkerToProxyLocked rp m).1 :=
  sendData_quiet (send_endMarker_quiet ((OnlySent.countAttempt w).toAlike.maySendMarker hm))

/-- Draw a count and send fragment 1 under it. -/
theorem frag1_does (hs : w.MaySend sc cur ch) :
    Does sc cur w (w.bumpHb.sendFrag1ToProxyLocked rp ch w.bumpHb.hbCount).1 :=
  (sendFrag1ToProxyLocked_addresses ((OnlySent.bumpHb w).toAlike.maySend hs)).bump

end Messages

/-! ### Heartbeats -/

section Heartbeats

variable {sc : Scope} {cur : Option ℤ} {w : StatefulWriter} {rp : ReaderProxy}

/-- A HEARTBEAT without an override, as the code makes it. -/
theorem offers_plain {startSn lastSn : ℤ} (hlo : min 0 w.lastSentSnLocked ≤ lastSn) :
    w.Offers startSn (evictedGap w.firstAvailableSnLocked startSn)
      (hbFirstSn w.firstAvailableSnLocked lastSn startSn none) lastSn :=
  ⟨hlo, none, fun _ h => (nomatch h), rfl, rfl⟩

theorem sendHeartbeatToProxyLockedWithLastSnAndFirstSn_does {final : Bool} {lastSn : ℤ}
    {firstSnOverride : Option ℤ} (hg : sc.heartbeat rp.guid)
    (hlo : min 0 w.lastSentSnLocked ≤ lastSn)
    (hov : ∀ sn ∈ firstSnOverride, lastSn = w.lastAvailableSnLocked ∧
      sn = if 0 < w.firstAvailableSnLocked then w.firstAvailableSnLocked else 1)
    (hl : rp.selectedLocators.isEmpty = false → lastSn ≤ w.lastSentSnLocked ∨
      (sc.announceAll ∧ lastSn ≤ w.lastAvailableSnLocked)) :
    Does sc cur w
      (w.sendHeartbeatToProxyLockedWithLastSnAndFirstSn rp final lastSn firstSnOverride) := by
  have hb := (OnlySent.bumpHb w).toAlike
  unfold sendHeartbeatToProxyLockedWithLastSnAndFirstSn
  dsimp only
  split
  · exact .refl sc cur w
  next hlocs =>
    split
    · exact ((Quiet.refl sc cur _).addresses (g := rp.guid)).bump
    next hv =>
      apply Addresses.bump (send_heartbeat_addresses hg ?_ ?_ _)
      · exact hb.offers.mpr ⟨hlo, firstSnOverride, hov, rfl, rfl⟩
      · exact fun hpos => not_lt.mp fun hlt => hv ⟨hpos, hlt⟩
      · rw [hb.lastSent, hb.lastAvailable]
        exact hl (Bool.eq_false_iff.mpr hlocs)

theorem OnlySent.sendHeartbeatToProxyLockedWithLastSnAndFirstSn (w : StatefulWriter)
    (rp : ReaderProxy) (final : Bool) (lastSn : ℤ) (firstSnOverride : Option ℤ) :
    OnlySent w
      (w.sendHeartbeatToProxyLockedWithLastSnAndFirstSn rp final lastSn firstSnOverride) := by
  unfold StatefulWriter.sendHeartbeatToProxyLockedWithLastSnAndFirstSn
  dsimp only
  split
  · exact .refl w
  · split
    · exact .bumpHb w
    · exact (OnlySent.bumpHb w).trans (.send _ _ _ _)

theorem sendHeartbeatToProxyLocked_does {final : Bool} (hg : sc.heartbeat rp.guid) :
    Does sc cur w (w.sendHeartbeatToProxyLocked rp final) :=
  sendHeartbeatToProxyLockedWithLastSnAndFirstSn_does hg (min_le_right _ _)
    (fun _ h => nomatch h) (fun _ => .inl le_rfl)

theorem sendHeartbeatToProxyLockedCapped_does {final : Bool} {cap : ℤ} (hcap : 0 ≤ cap)
    (hg : sc.heartbeat rp.guid) :
    Does sc cur w (w.sendHeartbeatToProxyLockedCapped rp final cap) := by
  apply sendHeartbeatToProxyLockedWithLastSnAndFirstSn_does hg
  · split
    · exact le_min (min_le_right _ _) ((min_le_left _ _).trans hcap)
    · exact min_le_right _ _
  · exact fun _ h => nomatch h
  · intro _
    left
    split
    · exact min_le_left _ _
    · exact le_rfl

theorem OnlySent.periodicHeartbeat {cacheFirst lastSn : ℤ} {final liveliness : Bool}
    (w : StatefulWriter) (rp : ReaderProxy) :
    OnlySent w (periodicHeartbeat cacheFirst lastSn final liveliness w rp) := by
  unfold StatefulWriter.periodicHeartbeat
  dsimp only
  split_ifs
  · exact .refl w
  · exact .refl w
  · exact .refl w
  · exact .refl w
  · exact .send _ _ _ _

theorem periodicHeartbeat_addresses {final liveliness : Bool}
    (hg : (rp.reliable || liveliness) = true → sc.heartbeat rp.guid) :
    Addresses sc cur rp.guid w (periodicHeartbeat w.firstAvailableSnLocked w.lastSentSnLocked
      final liveliness w rp) := by
  have hq := (Quiet.refl sc cur w).addresses (g := rp.guid)
  unfold periodicHeartbeat
  dsimp only
  split_ifs with h₁ h₂ h₃ h₄
  · exact hq
  · exact hq
  · exact hq
  · exact hq
  · refine send_heartbeat_addresses (hg ?_) (offers_plain (min_le_right _ _))
      (fun hpos => not_lt.mp fun hlt => h₄ ⟨hpos, hlt⟩) (.inl le_rfl)
    cases hr : rp.reliable <;> cases hv : liveliness <;> simp [hr, hv] at h₁ ⊢

theorem sendHeartbeat_does {final liveliness : Bool}
    (hg : ∀ rp ∈ w.readerProxies, (rp.reliable || liveliness) = true → sc.heartbeat rp.guid) :
    Does sc cur w (w.sendHeartbeat final liveliness) := by
  unfold sendHeartbeat
  apply Addresses.foldl_bump (fun l w' => (∀ rp ∈ l, rp ∈ w.readerProxies) ∧ OnlySent w w')
  · rintro rp l w' ⟨hl, ho⟩
    constructor
    · rw [← ho.toAlike.firstAvailable, ← ho.toAlike.lastSent]
      exact periodicHeartbeat_addresses (hg rp (hl rp List.mem_cons_self))
    · exact ⟨fun rp' h' => hl rp' (List.mem_cons_of_mem _ h'), ho.trans (.periodicHeartbeat w' rp)⟩
  · exact ⟨fun _ h => h, .bumpHb w⟩

end Heartbeats

/-! ### NACK_FRAG and ACKNACK -/

section Nacks

variable {sc : Scope} {cur : Option ℤ} {w : StatefulWriter} {rp : ReaderProxy}
  {ch : CacheChange} {sn : ℤ}

theorem mem_of_getChange {c : HistoryCache} (h : c.getChange sn = some ch) : ch ∈ c.changes :=
  List.mem_of_find?_eq_some h

theorem sn_of_getChange {c : HistoryCache} (h : c.getChange sn = some ch) :
    ch.sequenceNumber = sn := by
  simpa using List.find?_some h

/-- The fragments of a sample asked for by a NACK_FRAG. -/
theorem sendFrags_quiet (rp : ReaderProxy) (frags : List ℕ) (hs : w.MaySend sc cur ch) :
    Quiet sc cur w (frags.foldl (fun w fragNum =>
      w.send rp.guid rp.selectedLocators (.dataFrag ch fragNum false)) w) ∧
    OnlySent w (frags.foldl (fun w fragNum =>
      w.send rp.guid rp.selectedLocators (.dataFrag ch fragNum false)) w) := by
  induction frags generalizing w with
  | nil => exact ⟨.refl sc cur w, .refl w⟩
  | cons fragNum frags ih =>
    have ho := OnlySent.send w rp.guid rp.selectedLocators (.dataFrag ch fragNum false)
    obtain ⟨hq', ho'⟩ := ih (ho.toAlike.maySend hs)
    exact ⟨(send_dataFrag_quiet hs).trans hq', ho.trans ho'⟩

/-- A NACK_FRAG that is answered: the sample is there in fragments, the reader is matched and
has locators, and the count is new. -/
def AnswersNackFrag (w : StatefulWriter) (reader : Guid) (sn : ℤ) (count : Int32) : Prop :=
  ∃ ch rp, w.cache.getChange sn = some ch ∧ w.config.isFragmented ch = true ∧
    w.findReaderProxyLocked reader = some rp ∧ isNewerCount count rp.lastNackFragCount = true ∧
    rp.selectedLocators.isEmpty = false

theorem handleNackFrag_does {reader : Guid} {fragSet : FragmentNumberSet} {count : Int32}
    {w' : StatefulWriter}
    (hsample : w.AnswersNackFrag reader sn count → sc.sample sn ∧ sc.unfiltered sn)
    (h : w.handleNackFrag reader sn fragSet count = some w') : Does sc cur w w' := by
  unfold handleNackFrag at h
  split at h
  next => cases h; exact .refl sc cur w
  next ch hch =>
    have hsn := sn_of_getChange hch
    split at h
    · cases h; exact .refl sc cur w
    next hfrag =>
      split at h
      next => cases h; exact .refl sc cur w
      next rp hrp =>
        split at h
        · cases h; exact .refl sc cur w
        next hnew =>
          have hp : Quiet sc cur w (w.setProxy { rp with lastNackFragCount := some count }) :=
            setProxy_quiet (mem_of_find hrp) rfl rfl
          dsimp only at h
          split at h
          · cases h; exact hp.does
          next hlocs =>
            split at h
            · cases h
            · cases h
              obtain ⟨hs₁, hs₂⟩ := hsample ⟨ch, rp, hch, by simpa using hfrag, hrp,
                by simpa using hnew, Bool.eq_false_iff.mpr hlocs⟩
              have hs : w.MaySend sc cur ch := by
                refine ⟨mem_of_getChange hch, .inl ?_, .inr (.inr ?_)⟩ <;> rwa [hsn]
              obtain ⟨hq, ho⟩ := sendFrags_quiet rp
                (nackedFrags w.config ch fragSet) ((Alike.setProxy w _).maySend hs)
              refine (hp.trans hq).does.trans (Addresses.bump (g := rp.guid) ?_)
              rw [← hsn]
              exact send_heartbeatFrag_addresses ((ho.trans (.bumpHb _)).toAlike.maySend
                ((Alike.setProxy w _).maySend hs))

theorem retransmitChange_does {fragBudget : ℕ} (hs : w.MaySend sc cur ch) :
    Does sc cur w (w.retransmitChange rp ch fragBudget).1 := by
  unfold retransmitChange
  split_ifs
  · exact frag1_does hs
  · exact (send_heartbeatFrag_addresses ((OnlySent.bumpHb w).toAlike.maySend hs)).bump
  · exact (send_data_quiet hs).does

theorem OnlySent.retransmitChange (w : StatefulWriter) (rp : ReaderProxy) (ch : CacheChange)
    (fragBudget : ℕ) : OnlySent w (w.retransmitChange rp ch fragBudget).1 := by
  unfold StatefulWriter.retransmitChange
  split_ifs
  · exact (OnlySent.bumpHb w).trans (.sendFrag1ToProxyLocked _ _ _ _)
  · exact (OnlySent.bumpHb w).trans (.send _ _ _ _)
  · exact .send _ _ _ _

theorem mem_of_findEndMarker {m : EndMarker} (h : w.findEndMarkerLocked sn = some m) :
    m ∈ w.endMarkers :=
  List.mem_of_find?_eq_some h

theorem notMem_keptSns (hc : w.cache.getChange sn = none) (hm : w.findEndMarkerLocked sn = none) :
    sn ∉ w.keptSns := by
  rw [keptSns, List.mem_append, List.mem_map, List.mem_map]
  rintro (⟨ch, hch, he⟩ | ⟨m, hmem, he⟩)
  · exact List.find?_eq_none.mp hc ch hch (beq_iff_eq.mpr he)
  · exact List.find?_eq_none.mp hm m hmem (beq_iff_eq.mpr he)

theorem repairSn_does (sc : Scope) (cur : Option ℤ) (s : Repair) (hsample : rp.startSn ≤ sn → sc.sample sn) :
    Does sc cur s.writer (repairSn rp s sn).writer ∧
    OnlySent s.writer (repairSn rp s sn).writer := by
  unfold repairSn
  split_ifs with hstart hpend hnext
  · exact ⟨.refl _ _ _, .refl _⟩
  · exact ⟨.refl _ _ _, .refl _⟩
  · split
    next ch hch =>
      have hsn := sn_of_getChange hch
      refine ⟨retransmitChange_does ⟨mem_of_getChange hch, .inl ?_, .inr (.inl ?_)⟩,
        .retransmitChange _ _ _ _⟩
      · rw [hsn]
        exact hsample (not_lt.mp hstart)
      · rw [hsn]
        exact Bool.eq_false_iff.mpr hpend
    next hnone =>
      split
      next m hm =>
        exact ⟨(sendEndMarkerToProxyLocked_quiet (.inl ⟨m, mem_of_findEndMarker hm, rfl⟩)).does,
          .sendData _ _ _ _⟩
      next hm =>
        have hnot : sn ∉ s.writer.keptSns := notMem_keptSns hnone hm
        exact ⟨(send_gap_quiet hnot).does, .send _ _ _ _⟩
  · split
    next ch hch =>
      have hsn := sn_of_getChange hch
      refine ⟨retransmitChange_does ⟨mem_of_getChange hch, .inl ?_, .inr (.inl ?_)⟩,
        .retransmitChange _ _ _ _⟩
      · rw [hsn]
        exact hsample (not_lt.mp hstart)
      · rw [hsn]
        exact Bool.eq_false_iff.mpr hpend
    next => exact ⟨.refl _ _ _, .refl _⟩

theorem repair_does (sc : Scope) (cur : Option ℤ) : ∀ (sns : List ℤ) (s : Repair),
    (∀ sn ∈ sns, rp.startSn ≤ sn → sc.sample sn) →
    Does sc cur s.writer (sns.foldl (repairSn rp) s).writer ∧
    OnlySent s.writer (sns.foldl (repairSn rp) s).writer
  | [], s, _ => ⟨.refl _ _ _, .refl _⟩
  | sn :: sns, s, h => by
      obtain ⟨hd, ho⟩ := repairSn_does sc cur s (h sn List.mem_cons_self)
      obtain ⟨hd', ho'⟩ := repair_does sc cur sns (repairSn rp s sn)
        (fun sn' h' => h sn' (List.mem_cons_of_mem _ h'))
      exact ⟨hd.trans hd', ho.trans ho'⟩

theorem mem_nackedSns {nackSet : SequenceNumberSet} (h : sn ∈ nackedSns nackSet) :
    nackSet.contains sn = true :=
  (List.mem_filter.mp h).2

theorem answerNonFinal_does {base : ℤ} (hg : sc.heartbeat rp.guid) :
    Does sc cur w (w.answerNonFinal rp base) := by
  unfold answerNonFinal
  dsimp only
  split_ifs
  · exact sendHeartbeatToProxyLocked_does hg
  · exact .refl sc cur w
  · exact sendHeartbeatToProxyLockedCapped_does rp.historyFloor_nonneg hg
  · exact .refl sc cur w

theorem OnlySent.answerNonFinal (w : StatefulWriter) (rp : ReaderProxy) (base : ℤ) :
    OnlySent w (w.answerNonFinal rp base) := by
  unfold StatefulWriter.answerNonFinal
  dsimp only
  split_ifs
  · exact .sendHeartbeatToProxyLockedWithLastSnAndFirstSn _ _ _ _ _
  · exact .refl w
  · exact .sendHeartbeatToProxyLockedWithLastSnAndFirstSn _ _ _ _ _
  · exact .refl w

theorem followRepair_does {count : Int32} (hm : rp ∈ w.readerProxies)
    (hg : sc.heartbeat rp.guid) : Does sc cur w (w.followRepair rp count) := by
  have hp : Quiet sc cur w (w.setProxy { rp with lastAckNackCount := some count }) :=
    setProxy_quiet hm rfl rfl
  unfold followRepair
  dsimp only
  split
  · exact hp.does.trans (sendHeartbeatToProxyLockedCapped_does rp.historyFloor_nonneg hg)
  · exact hp.does.trans (sendHeartbeatToProxyLocked_does hg)

theorem answerAckNack_does {nackSet : SequenceNumberSet} {count : Int32} {isFinal : Bool}
    (hm : rp ∈ w.readerProxies) (hg : sc.heartbeat rp.guid)
    (hsample : ∀ sn, rp.startSn ≤ sn → nackSet.contains sn = true → sc.sample sn) :
    Does sc cur w (w.answerAckNack rp nackSet count isFinal) := by
  obtain ⟨hd, ho⟩ := repair_does sc cur (nackedSns nackSet) ⟨w, 1, 0⟩
    (fun sn h hle => hsample sn hle (mem_nackedSns h))
  -- the HEARTBEAT a non-final ACKNACK asks for
  have hnon : ∀ w', OnlySent w w' →
      Does sc cur w' (if isFinal then w' else w'.answerNonFinal rp nackSet.base) ∧
      OnlySent w (if isFinal then w' else w'.answerNonFinal rp nackSet.base) := by
    intro w' ho
    split
    · exact ⟨.refl _ _ _, ho⟩
    · exact ⟨answerNonFinal_does hg, ho.trans (.answerNonFinal _ _ _)⟩
  obtain ⟨hd', ho'⟩ := hnon _ ho
  unfold answerAckNack
  dsimp only
  by_cases hz : ((nackedSns nackSet).foldl (repairSn rp) ⟨w, 1, 0⟩).retransmitCount = 0
  · rw [if_pos hz]
    exact hd.trans hd'
  · rw [if_neg hz]
    refine (hd.trans hd').trans (followRepair_does ?_ hg)
    rw [ho'.readerProxies]
    exact hm

theorem trimAckedLocked_readerProxies : w.trimAckedLocked.readerProxies = w.readerProxies := by
  unfold trimAckedLocked
  split_ifs <;> rfl

theorem retireEndMarkersLocked_readerProxies :
    w.retireEndMarkersLocked.readerProxies = w.readerProxies := by
  simp only [retireEndMarkersLocked]

theorem handleAckNack_does {reader : Guid} {highestSn : ℤ} {nackSet : SequenceNumberSet}
    {count : Int32} {isFinal : Bool} (hg : sc.heartbeat reader) (hack : sc.ack reader highestSn)
    (hsample : ∀ rp sn, w.findReaderProxyLocked reader = some rp → rp.reliable = true →
      rp.startSn ≤ sn → nackSet.contains sn = true → sc.sample sn) :
    Does sc cur w (w.handleAckNack reader highestSn nackSet count isFinal) := by
  unfold handleAckNack
  split
  · exact .refl sc cur w
  · split
    next => exact .refl sc cur w
    next rp hrp =>
      have hguid := guid_of_find hrp
      split
      · exact .refl sc cur w
      next hrel =>
        split
        · exact .refl sc cur w
        · -- the acknowledgement, with the trim it allows
          have hack' : Quiet sc cur w
              (w.setProxy { rp with highestAckedSn := max rp.highestAckedSn highestSn }) := by
            apply Quiet.of_move
            rintro s rfl rfl
            exact .proxy s rp _ (mem_of_find hrp) rfl
              (.inr ⟨highestSn, by rw [hguid]; exact hack, rfl⟩)
          have hq := (hack'.trans trimAckedLocked_quiet).trans retireEndMarkersLocked_quiet
          have hm : { rp with highestAckedSn := max rp.highestAckedSn highestSn } ∈
              ((w.setProxy { rp with highestAckedSn := max rp.highestAckedSn highestSn
                }).trimAckedLocked.retireEndMarkersLocked).readerProxies := by
            rw [retireEndMarkersLocked_readerProxies, trimAckedLocked_readerProxies]
            exact mem_setProxy_self (mem_of_find hrp) rfl
          dsimp only
          generalize (w.setProxy { rp with highestAckedSn := max rp.highestAckedSn highestSn
            }).trimAckedLocked.retireEndMarkersLocked = w₁ at hq hm ⊢
          generalize hrp₁ : afterAck { rp with
            highestAckedSn := max rp.highestAckedSn highestSn } w₁.cache.minSn highestSn
            nackSet.base isFinal = rp₁
          have hguid₁ : rp₁.guid = rp.guid := by rw [← hrp₁]; rfl
          have hstart₁ : rp₁.startSn = rp.startSn := by rw [← hrp₁]; rfl
          have hacked₁ : rp₁.highestAckedSn = max rp.highestAckedSn highestSn := by
            rw [← hrp₁]; rfl
          have hset : Quiet sc cur w₁ (w₁.setProxy rp₁) := setProxy_quiet hm hguid₁ hacked₁
          have hans : Does sc cur (w₁.setProxy rp₁)
              (if rp₁.selectedLocators.isEmpty then w₁.setProxy rp₁
                else (w₁.setProxy rp₁).answerAckNack rp₁ nackSet count isFinal) := by
            split
            · exact .refl _ _ _
            · refine answerAckNack_does (mem_setProxy_self hm hguid₁) ?_
                (fun sn hle h => hsample rp sn hrp (by simpa using hrel) (hstart₁ ▸ hle) h)
              rw [hguid₁, hguid]
              exact hg
          have hall := (hq.trans hset).does.trans hans
          split
          · exact hall.trans reportReady_quiet.does
          · exact hall

end Nacks

end StatefulWriter

/-! ### Replay under the lock -/

theorem mem_mergeMarkers {item : BatchItem} : ∀ {chs : List CacheChange} {ms : List EndMarker},
    item ∈ mergeMarkers ms chs →
    (∃ ch ∈ chs, item = .sample ch) ∨ (∃ m ∈ ms, item = .marker m)
  | [], ms, h => by
      rw [mergeMarkers] at h
      obtain ⟨m, hm, rfl⟩ := List.mem_map.mp h
      exact .inr ⟨m, hm, rfl⟩
  | ch :: chs, ms, h => by
      rw [mergeMarkers] at h
      rcases List.mem_append.mp h with h' | h'
      · obtain ⟨m, hm, rfl⟩ := List.mem_map.mp h'
        exact .inr ⟨m, (List.takeWhile_sublist _).subset hm, rfl⟩
      · rcases List.mem_cons.mp h' with rfl | h''
        · exact .inl ⟨ch, List.mem_cons_self, rfl⟩
        · rcases mem_mergeMarkers h'' with ⟨ch', hc, rfl⟩ | ⟨m, hm, rfl⟩
          · exact .inl ⟨ch', List.mem_cons_of_mem _ hc, rfl⟩
          · exact .inr ⟨m, (List.dropWhile_sublist _).subset hm, rfl⟩

namespace StatefulWriter

/-- The samples a replay under the lock sends to a reader, hidden or not: the first fragmented
one to a reliable reader, all to a best-effort one that the writer does not hold. -/
def ReplaysLocked (w : StatefulWriter) (rp : ReaderProxy) (sn : ℤ) : Prop :=
  rp.selectedLocators.isEmpty = false ∧ if rp.reliable then
    ∃ ch, w.cache.changes.find? w.config.isFragmented = some ch ∧ ch.sequenceNumber = sn
  else w.config.resumeHeld = false ∧ ∃ ch ∈ w.cache.changes, ch.sequenceNumber = sn

section Replay

variable {sc : Scope} {cur : Option ℤ} {w w' : StatefulWriter} {rp : ReaderProxy}
  {gens : Locator → UInt32}

theorem Alike.replaysLocked (h : Alike w w') {sn : ℤ} :
    w'.ReplaysLocked rp sn ↔ w.ReplaysLocked rp sn := by
  unfold ReplaysLocked
  rw [h.cache, h.config]

theorem primeFragmented_does (h : ∀ ch, w.cache.changes.find? w.config.isFragmented = some ch →
    sc.sample ch.sequenceNumber ∧ sc.unfiltered ch.sequenceNumber) :
    Does sc cur w (w.primeFragmented rp) := by
  unfold primeFragmented
  split
  next => exact .refl sc cur w
  next ch hch =>
    obtain ⟨h₁, h₂⟩ := h ch hch
    exact frag1_does ⟨List.mem_of_find?_eq_some hch, .inl h₁, .inr (.inr h₂)⟩

theorem OnlySent.primeFragmented (w : StatefulWriter) (rp : ReaderProxy) :
    OnlySent w (w.primeFragmented rp) := by
  unfold StatefulWriter.primeFragmented
  split
  · exact .refl w
  · exact (OnlySent.bumpHb w).trans (.sendFrag1ToProxyLocked _ _ _ _)

theorem replayItem_does (rp : ReaderProxy) {item : BatchItem}
    (hs : ∀ ch, item = .sample ch → w.MaySend sc cur ch)
    (hm : ∀ m, item = .marker m → w.MaySendMarker m.sn) :
    Does sc cur w (replayItem rp w item) ∧ OnlySent w (replayItem rp w item) := by
  cases item with
  | marker m =>
    exact ⟨(sendEndMarkerToProxyLocked_quiet (hm m rfl)).does, .sendData _ _ _ _⟩
  | sample ch =>
    have hs' := (OnlySent.bumpHb w).toAlike.maySend (hs ch rfl)
    rw [replayItem]
    split
    · exact ⟨(sendFragsToProxyLocked_addresses hs').bump,
        (OnlySent.bumpHb w).trans (.sendFragsToProxyLocked hs')⟩
    · exact ⟨(send_data_quiet (hs ch rfl)).does, .send _ _ _ _⟩

theorem replayItems_does (sc : Scope) (cur : Option ℤ) (rp : ReaderProxy) :
    ∀ (items : List BatchItem) (w : StatefulWriter),
    (∀ item ∈ items, (∀ ch, item = .sample ch → w.MaySend sc cur ch) ∧
      (∀ m, item = .marker m → w.MaySendMarker m.sn)) →
    Does sc cur w (items.foldl (replayItem rp) w) ∧
    OnlySent w (items.foldl (replayItem rp) w)
  | [], w, _ => ⟨.refl _ _ _, .refl _⟩
  | item :: items, w, h => by
      obtain ⟨hs, hm⟩ := h item List.mem_cons_self
      obtain ⟨hd, ho⟩ := replayItem_does rp hs hm
      obtain ⟨hd', ho'⟩ := replayItems_does sc cur rp items (replayItem rp w item) (fun item' h' => by
        obtain ⟨hs', hm'⟩ := h item' (List.mem_cons_of_mem _ h')
        exact ⟨fun ch e => ho.toAlike.maySend (hs' ch e),
          fun m e => ho.toAlike.maySendMarker (hm' m e)⟩)
      exact ⟨hd.trans hd', ho.trans ho'⟩

/-- What an operation on one reader leaves of the rest. -/
structure OnlyReader (g : Guid) (w w' : StatefulWriter) : Prop extends Alike w w' where
  others : ∀ rp ∈ w.readerProxies, rp.guid ≠ g → rp ∈ w'.readerProxies
  guids : w'.guids = w.guids

theorem OnlySent.onlyReader {g : Guid} (h : OnlySent w w') : OnlyReader g w w' where
  toAlike := h.toAlike
  others := fun rp hm _ => by rw [h.readerProxies]; exact hm
  guids := by unfold StatefulWriter.guids; rw [h.readerProxies]

theorem OnlyReader.setProxy {g : Guid} (hg : rp.guid = g) : OnlyReader g w (w.setProxy rp) where
  toAlike := .setProxy w rp
  others := fun _ hm hne => mem_setProxy_of_ne hm (by rw [hg]; exact hne)
  guids := w.setProxy_guids rp

theorem OnlyReader.trans {g : Guid} {w'' : StatefulWriter} (h : OnlyReader g w w')
    (h' : OnlyReader g w' w'') : OnlyReader g w w'' where
  toAlike := h.toAlike.trans h'.toAlike
  others := fun rp hm hne => h'.others rp (h.others rp hm hne) hne
  guids := h'.guids.trans h.guids

theorem replayHistoryToProxyLocked_does (sc : Scope) (cur : Option ℤ) (hm : rp ∈ w.readerProxies)
    (hg : rp.reliable = true → sc.heartbeat rp.guid)
    (hs : ∀ sn, w.ReplaysLocked rp sn → sc.sample sn ∧ sc.unfiltered sn) :
    Does sc cur w (w.replayHistoryToProxyLocked rp) ∧
    OnlyReader rp.guid w (w.replayHistoryToProxyLocked rp) := by
  unfold replayHistoryToProxyLocked
  split_ifs with h₁ h₂ h₃ h₄
  · exact ⟨.refl _ _ _, (OnlySent.refl w).onlyReader⟩
  · have ho := OnlySent.sendHeartbeatToProxyLockedWithLastSnAndFirstSn w rp false
      w.lastSentSnLocked none
    refine ⟨(sendHeartbeatToProxyLocked_does (hg h₂)).trans (primeFragmented_does ?_),
      (ho.trans (.primeFragmented _ _)).onlyReader⟩
    intro ch hch
    apply hs
    unfold ReplaysLocked
    rw [if_pos h₂]
    refine ⟨Bool.eq_false_iff.mpr h₁, ch, ?_, rfl⟩
    rw [← ho.cache, ← ho.config]
    exact hch
  · exact ⟨(holdUnsentLocked_quiet hm).does, .setProxy rfl⟩
  · exact ⟨.refl _ _ _, (OnlySent.refl w).onlyReader⟩
  · obtain ⟨hd, ho⟩ := replayItems_does sc cur rp
      (mergeMarkers w.endMarkers w.cache.changes) w (by
        intro item hi
        rcases mem_mergeMarkers hi with ⟨ch, hch, rfl⟩ | ⟨m, hm', rfl⟩
        · refine ⟨?_, by rintro m ⟨⟩⟩
          rintro ch' ⟨⟩
          obtain ⟨hs₁, hs₂⟩ := hs ch.sequenceNumber (by
            unfold ReplaysLocked
            rw [if_neg h₂]
            exact ⟨Bool.eq_false_iff.mpr h₁, Bool.eq_false_iff.mpr h₃, ch, hch, rfl⟩)
          exact ⟨hch, .inl hs₁, .inr (.inr hs₂)⟩
        · refine ⟨by rintro ch ⟨⟩, ?_⟩
          rintro m' ⟨⟩
          exact .inl ⟨m, hm', rfl⟩)
    exact ⟨hd, ho.onlyReader⟩

theorem resyncIfGenerationChangedLocked_does (sc : Scope) (cur : Option ℤ) (hm : rp ∈ w.readerProxies)
    (hg : connectionGenerationSumLocked gens rp ≠ rp.lastSeenConnectionGeneration →
      rp.reliable = true → sc.heartbeat rp.guid)
    (hs : connectionGenerationSumLocked gens rp ≠ rp.lastSeenConnectionGeneration →
      ∀ sn, w.ReplaysLocked rp sn → sc.sample sn ∧ sc.unfiltered sn) :
    Does sc cur w (resyncIfGenerationChangedLocked gens w rp) ∧
    OnlyReader rp.guid w (resyncIfGenerationChangedLocked gens w rp) := by
  unfold resyncIfGenerationChangedLocked
  dsimp only
  split_ifs with h
  · exact ⟨.refl _ _ _, (OnlySent.refl w).onlyReader⟩
  · generalize hrp' : { rp with
      lastSeenConnectionGeneration := connectionGenerationSumLocked gens rp } = rp'
    have hguid : rp'.guid = rp.guid := by rw [← hrp']
    have hrel : rp'.reliable = rp.reliable := by rw [← hrp']
    have hlocs : rp'.selectedLocators = rp.selectedLocators := by rw [← hrp']
    have hset : Quiet sc cur w (w.setProxy rp') := setProxy_quiet hm hguid (by rw [← hrp'])
    have hone : OnlyReader rp.guid w (w.setProxy rp') := .setProxy hguid
    obtain ⟨hd, ho⟩ := replayHistoryToProxyLocked_does sc cur (mem_setProxy_self hm hguid)
      (by rw [hrel, hguid]; exact hg h) (by
        intro sn hr
        apply hs h sn
        rw [(Alike.setProxy w rp').replaysLocked] at hr
        unfold ReplaysLocked at hr ⊢
        rwa [hrel, hlocs] at hr)
    rw [hguid] at ho
    exact ⟨hset.does.trans hd, hone.trans ho⟩

theorem checkConnectionGenerations_does
    (hg : ∀ rp ∈ w.readerProxies,
      connectionGenerationSumLocked gens rp ≠ rp.lastSeenConnectionGeneration →
      rp.reliable = true → sc.heartbeat rp.guid)
    (hs : ∀ rp ∈ w.readerProxies,
      connectionGenerationSumLocked gens rp ≠ rp.lastSeenConnectionGeneration →
      ∀ sn, w.ReplaysLocked rp sn → sc.sample sn ∧ sc.unfiltered sn) :
    Does sc cur w (w.checkConnectionGenerations gens) := by
  unfold checkConnectionGenerations
  apply Does.foldl (fun l w' => (∀ rp ∈ l, rp ∈ w.readerProxies) ∧ Ahead l w' ∧ Alike w w')
  · rintro rp l w' ⟨hl, ha, hw⟩
    have hrp := hl rp List.mem_cons_self
    obtain ⟨hd, ho⟩ := resyncIfGenerationChangedLocked_does sc cur
      (ha.1 rp List.mem_cons_self) (hg rp hrp)
      (fun hne sn hr => hs rp hrp hne sn (hw.replaysLocked.mp hr))
    exact ⟨hd, fun rp' h' => hl rp' (List.mem_cons_of_mem _ h'), ha.tail ho.others,
      hw.trans ho.toAlike⟩
  · exact ⟨fun _ h => h, ahead_self w, .refl w⟩

theorem removeMatchedReader_does {guid : Guid} :
    Does sc cur w (w.removeMatchedReader guid) := by
  unfold removeMatchedReader
  split
  next => exact .refl sc cur w
  next rp hrp =>
    have hq : Quiet sc cur w (w.removeProxy guid).trimAckedLocked := by
      refine Quiet.trans (Quiet.of_move ?_) trimAckedLocked_quiet
      rintro s rfl rfl
      exact .removeReader s guid
    dsimp only
    split
    · exact (hq.trans reportReady_quiet).does
    · exact hq.does

end Replay

end StatefulWriter

end Zzdds.Rtps
