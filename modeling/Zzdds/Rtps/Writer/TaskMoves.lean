import Mathlib.Data.List.TakeWhile
import Zzdds.Rtps.Writer.SendMoves

/-! # The moves of the machine

What the tasks of a machine have still to send is the flight of its view, and the task of an
`endCoherentSet` is the view's phase.  Each action of the machine is a sequence of moves within
the scope of that action. -/

namespace Zzdds.Rtps

/-! ### The view of a machine -/

/-- The HEARTBEAT of a snapshot. -/
def HbSnapshot.message (hb : HbSnapshot) (startSn : ℤ) : WriterMessage :=
  .heartbeat startSn (StatefulWriter.evictedGap hb.cacheFirst startSn)
    (StatefulWriter.hbFirstSn hb.cacheFirst hb.lastSn startSn none) hb.lastSn hb.count false false

/-- The HEARTBEAT a live send owes a reader. -/
def owedPackets : Option (ProxySnapshot × HbSnapshot) → Multiset Packet
  | some (s, hb) => {.message s.readerMatch.guid (hb.message s.startSn)}
  | none => 0

/-- What a live send has still to send to the reader of a snapshot. -/
def ProxySnapshot.packets (ch : CacheChange) (s : ProxySnapshot) : Multiset Packet :=
  .message s.readerMatch.guid (.data ch) ::ₘ owedPackets (s.hb.map (fun hb => (s, hb)))

def EOCProxyInfo.packet (i : EOCProxyInfo) : Packet :=
  .message i.readerGuid (.endMarker i.marker)

def Task.packets : Task → Multiset Packet
  | sendChange ch todo owed _ _ =>
      .flushing ch.sequenceNumber ::ₘ (owedPackets owed + (todo.map (·.packets ch)).sum)
  | batch m _ todo _ _ => (todo.map (fun item => Packet.message m.guid item.message) : List Packet)
  | initialHeartbeat reader startSn _ hb => {.message reader (hb.message startSn)}
  | takeEOC => 0
  | sendEOC infos => (infos.map (·.packet) : List Packet)
  | flushEOC _ => 0

def Task.phase : Task → Option Phase
  | sendChange _ _ _ _ (.preWindow rest e) => some ⟨false, rest, e⟩
  | sendChange _ _ _ _ (.window rest e) => some ⟨true, rest, e⟩
  | _ => none

/-- What the task of a call, if it leaves one, has still to send. -/
def packetsOf : Option Task → Multiset Packet
  | some t => t.packets
  | none => 0

namespace Machine

def phases (c : Machine) : List Phase := c.tasks.filterMap Task.phase

def view (c : Machine) : View where
  writer := c.writer
  addressed := Set.univ
  flight := (c.tasks.map Task.packets).sum
  phase := c.phases.head?
  current := none

end Machine

namespace StatefulWriter

/-! ### More ways to move -/

/-- Moves that schedule `P`. -/
def Launches (sc : Scope) (cur : Option ℤ) (w w' : StatefulWriter) (P : Multiset Packet) : Prop :=
  ∀ s : View, s.writer = w → s.current = cur →
    ∃ u, Moves sc s { s with writer := w', addressed := u, flight := P + s.flight }

/-- A call that leaves the phase alone. -/
def Spawns (sc : Scope) (cur : Option ℤ) (w : StatefulWriter) (r : StatefulWriter × Option Task) :
    Prop :=
  Launches sc cur w r.1 (packetsOf r.2) ∧ r.2.bind Task.phase = none

section Ways

variable {sc : Scope} {cur : Option ℤ} {w w' w'' : StatefulWriter} {g : Guid}
  {P P' : Multiset Packet} {r : StatefulWriter × Option Task}

theorem Does.launches (h : Does sc cur w w') : Launches sc cur w w' 0 := by
  rintro s hw hc
  obtain ⟨u, hm⟩ := h s hw hc
  exact ⟨u, by rwa [zero_add]⟩

theorem Launches.trans (h : Launches sc cur w w' P) (h' : Launches sc cur w' w'' P') :
    Launches sc cur w w'' (P' + P) := by
  rintro s hw hc
  obtain ⟨u, hm⟩ := h s hw hc
  obtain ⟨u', hm'⟩ := h' { s with writer := w', addressed := u, flight := P + s.flight } rfl hc
  refine ⟨u', hm.trans ?_⟩
  rwa [add_assoc]

theorem Does.trans_launches (h : Does sc cur w w') (h' : Launches sc cur w' w'' P) :
    Launches sc cur w w'' P := by
  have := h.launches.trans h'
  rwa [add_zero] at this

theorem Launches.trans_does (h : Launches sc cur w w' P) (h' : Does sc cur w' w'') :
    Launches sc cur w w'' P := by
  have := h.trans h'.launches
  rwa [zero_add] at this

theorem Does.spawns (h : Does sc cur w w') : Spawns sc cur w (w', none) := ⟨h.launches, rfl⟩

theorem Does.trans_spawns (h : Does sc cur w w') (h' : Spawns sc cur w' r) :
    Spawns sc cur w r :=
  ⟨h.trans_launches h'.1, h'.2⟩

theorem Addresses.trans_quiet (h : Addresses sc cur g w w') (h' : Quiet sc cur w' w'') :
    Addresses sc cur g w w'' := by
  rintro s hw hc hu
  obtain ⟨u, hsub, hm⟩ := h s hw hc hu
  exact ⟨u, hsub, hm.trans (h' { s with writer := w', addressed := u } rfl hc)⟩

theorem launches_of_move {x : Packet} (h : ∀ s : View, s.writer = w → s.current = cur →
    Move sc s { s with flight := x ::ₘ s.flight }) : Launches sc cur w w {x} := by
  rintro s rfl hc
  refine ⟨s.addressed, .single ?_⟩
  rw [Multiset.singleton_add]
  exact h s rfl hc

theorem launchFlush_launches {sn : ℤ} (hf : w.MayFlush cur sn) :
    Launches sc cur w w {.flushing sn} := by
  apply launches_of_move
  rintro s rfl rfl
  exact .launchFlush s sn hf

theorem launchData_launches {ch : CacheChange} (hs : w.MaySend sc cur ch) :
    Launches sc cur w w {.message g (.data ch)} := by
  apply launches_of_move
  rintro s rfl rfl
  exact .launchData s g ch hs

theorem launchMarker_launches {m : EndMarker} (hm : w.MaySendMarker m.sn) :
    Launches sc cur w w {.message g (.endMarker m)} := by
  apply launches_of_move
  rintro s rfl _
  exact .launchMarker s g m hm

/-- A HEARTBEAT scheduled under a count just drawn. -/
theorem launchHeartbeat_launches {hb : HbSnapshot} {startSn : ℤ}
    (hc : hb.count = w.bumpHb.hbCount) (hf : hb.cacheFirst = w.firstAvailableSnLocked)
    (hlo : min 0 w.lastSentSnLocked ≤ hb.lastSn) (hl : hb.lastSn ≤ w.lastSentSnLocked) :
    Launches sc cur w w.bumpHb {.message g (hb.message startSn)} := by
  rintro s rfl _
  have hbump := (OnlySent.bumpHb s.writer).toAlike
  refine ⟨insert g ∅, .head (.bump s) (.single ?_)⟩
  rw [Multiset.singleton_add, HbSnapshot.message, hc, hf]
  refine .launchHeartbeat { s with writer := s.writer.bumpHb, addressed := ∅ } g _ _ _ _ false
    false (Set.notMem_empty g) ?_ ?_
  · exact hbump.offers.mpr (offers_plain hlo)
  · rw [hbump.lastSent]
    exact hl

/-- Number `sn` comes to count as flushed. -/
theorem flushedThrough_quiet {sn : ℤ} (hf : w.MayFlush cur sn) :
    Quiet sc cur w (w.flushedThrough sn) := by
  rintro s rfl rfl
  exact .head (.launchFlush s sn hf)
    (.single (.flush { s with flight := .flushing sn ::ₘ s.flight } sn s.flight rfl))

theorem Alike.mayFlush (h : Alike w w') {sn : ℤ} (hf : w.MayFlush cur sn) :
    w'.MayFlush cur sn := by
  unfold MayFlush
  rwa [h.coherentActive, h.cache]

end Ways

/-! ### The live send -/

section LiveSend

variable {sc : Scope} {cur : Option ℤ} {w : StatefulWriter} {rp : ReaderProxy}
  {ch : CacheChange} {hbCount : ℕ}

theorem sendFrag1ToProxyLocked_hbCount :
    (w.sendFrag1ToProxyLocked rp ch hbCount).1.hbCount = w.hbCount := by
  unfold sendFrag1ToProxyLocked
  split
  · rfl
  · have hc : (w.sendData rp.guid rp.selectedLocators (.dataFrag ch 1 true)).1.hbCount =
        w.hbCount := sendData_hbCount
    rcases hd : w.sendData rp.guid rp.selectedLocators (.dataFrag ch 1 true) with ⟨w', took⟩
    rw [hd] at hc
    dsimp only at hc ⊢
    split <;> exact hc

theorem sendFragsToProxyLocked_hbCount {firstFrag : ℕ} (hs : w.MaySend sc cur ch) :
    (w.sendFragsToProxyLocked rp ch hbCount firstFrag).1.hbCount = w.hbCount := by
  unfold sendFragsToProxyLocked
  split
  · rfl
  · obtain ⟨-, -, hc⟩ := sendFragsLoop_quiet rp (w.config.numFrags ch + 1 - firstFrag)
      firstFrag hs
    rcases hl : w.sendFragsLoop rp ch (w.config.numFrags ch + 1 - firstFrag) firstFrag
      with ⟨w', _ | frag⟩ <;>
    · rw [hl] at hc
      exact hc

/-- The fragmented branch of the live send, for one reader. -/
theorem sendFragmentedTo_addresses (hm : rp ∈ w.readerProxies) (hs : w.MaySend sc cur ch)
    (hc : hbCount = w.hbCount) :
    Addresses sc cur rp.guid w (sendFragmentedTo ch hbCount w rp) ∧
    OnlyReader rp.guid w (sendFragmentedTo ch hbCount w rp) ∧
    (sendFragmentedTo ch hbCount w rp).hbCount = w.hbCount := by
  subst hc
  have hidle : Addresses sc cur rp.guid w w ∧ OnlyReader rp.guid w w ∧ w.hbCount = w.hbCount :=
    ⟨(Quiet.refl sc cur w).addresses, (OnlySent.refl w).onlyReader, rfl⟩
  unfold sendFragmentedTo
  split_ifs with h₁ h₂ h₃ h₄
  · exact hidle
  · exact ⟨(holdUnsentLocked_quiet hm).addresses, .setProxy rfl, rfl⟩
  · exact hidle
  · have ha : Addresses sc cur rp.guid w (w.sendFrag1ToProxyLocked rp ch w.hbCount).1 :=
      sendFrag1ToProxyLocked_addresses hs
    have ho := OnlySent.sendFrag1ToProxyLocked w rp ch w.hbCount
    have hc : (w.sendFrag1ToProxyLocked rp ch w.hbCount).1.hbCount = w.hbCount :=
      sendFrag1ToProxyLocked_hbCount
    rcases hd : w.sendFrag1ToProxyLocked rp ch w.hbCount with ⟨w', took⟩
    rw [hd] at ha ho hc
    cases took with
    | true => exact ⟨ha, ho.onlyReader, hc⟩
    | false =>
      have hm' : rp ∈ w'.readerProxies := by rw [ho.readerProxies]; exact hm
      exact ⟨ha.trans_quiet (holdUnsentLocked_quiet hm'), ho.onlyReader.trans (.setProxy rfl), hc⟩
  · have ha : Addresses sc cur rp.guid w (w.sendFragsToProxyLocked rp ch w.hbCount 1).1 :=
      sendFragsToProxyLocked_addresses hs
    have ho : OnlySent w (w.sendFragsToProxyLocked rp ch w.hbCount 1).1 :=
      .sendFragsToProxyLocked hs
    have hc : (w.sendFragsToProxyLocked rp ch w.hbCount 1).1.hbCount = w.hbCount :=
      sendFragsToProxyLocked_hbCount hs
    rcases hd : w.sendFragsToProxyLocked rp ch w.hbCount 1 with ⟨w', _ | frag⟩
    · rw [hd] at ha ho hc
      exact ⟨ha, ho.onlyReader, hc⟩
    · rw [hd] at ha ho hc
      have hm' : rp ∈ w'.readerProxies := by rw [ho.readerProxies]; exact hm
      exact ⟨ha.trans_quiet (setProxy_quiet hm' rfl rfl), ho.onlyReader.trans (.setProxy rfl), hc⟩

theorem sendFragmented_does (hs : w.MaySend sc cur ch) (hact : w.coherentActive = false)
    (hcur : cur = some ch.sequenceNumber) :
    Does sc cur w (w.sendFragmented ch) := by
  have hb := (OnlySent.bumpHb w).toAlike
  let I : List ReaderProxy → StatefulWriter → Prop :=
    fun l w' => Ahead l w' ∧ Alike w w' ∧ w'.hbCount = w.bumpHb.hbCount
  have hstep : ∀ rp l w', I (rp :: l) w' →
      Addresses sc cur rp.guid w' (sendFragmentedTo ch w.bumpHb.hbCount w' rp) ∧
      I l (sendFragmentedTo ch w.bumpHb.hbCount w' rp) := by
    rintro rp l w' ⟨ha, hw, hc⟩
    obtain ⟨h₁, h₂, h₃⟩ := sendFragmentedTo_addresses (ha.1 rp List.mem_cons_self)
      (hw.maySend hs) hc.symm
    exact ⟨h₁, ha.tail h₂.others, hw.trans h₂.toAlike, h₃.trans hc⟩
  have hfold : ∀ (l : List ReaderProxy) (w' : StatefulWriter), I l w' →
      Alike w (l.foldl (sendFragmentedTo ch w.bumpHb.hbCount) w') := by
    intro l
    induction l with
    | nil => exact fun w' h => h.2.1
    | cons rp l ih => exact fun w' h => ih _ (hstep rp l w' h).2
  have hstart : I w.readerProxies w.bumpHb := ⟨ahead_self w, hb, rfl⟩
  refine (Addresses.foldl_bump I hstep hstart).trans (flushedThrough_quiet ?_).does
  exact (hfold _ _ hstart).mayFlush ⟨hact, hcur, ch, hs.1, rfl⟩

/-- The snapshot of one reader schedules its packets. -/
theorem snapshotProxy_launches (trailingHb : Bool) {cacheLast cacheFirst : ℤ}
    (snaps : List ProxySnapshot) (hm : rp ∈ w.readerProxies) (hs : w.MaySend sc cur ch)
    (hf : cacheFirst = w.firstAvailableSnLocked) (hl : cacheLast = w.lastSentSnLocked) :
    ∃ P, Launches sc cur w (snapshotProxy ch trailingHb cacheLast cacheFirst (w, snaps) rp).1 P ∧
      ((snapshotProxy ch trailingHb cacheLast cacheFirst (w, snaps) rp).2.map (·.packets ch)).sum =
        P + (snaps.map (·.packets ch)).sum ∧
      OnlyReader rp.guid w (snapshotProxy ch trailingHb cacheLast cacheFirst (w, snaps) rp).1 := by
  have hidle : Launches sc cur w w 0 := (Does.refl sc cur w).launches
  unfold snapshotProxy
  dsimp only
  split_ifs with h₁ h₂ h₃ h₄ h₅ h₆
  · exact ⟨0, hidle, (zero_add _).symm, (OnlySent.refl w).onlyReader⟩
  · exact ⟨0, (holdUnsentLocked_quiet hm).does.launches, (zero_add _).symm, .setProxy rfl⟩
  · exact ⟨0, hidle, (zero_add _).symm, (OnlySent.refl w).onlyReader⟩
  all_goals
    refine ⟨_, ?_, by
      rw [List.map_append, List.sum_append, List.map_singleton, List.sum_singleton, add_comm], ?_⟩
  -- with a HEARTBEAT, and the reader marked as being sent to
  · have hb := OnlySent.bumpHb w
    have hset : Quiet sc cur w.bumpHb (w.bumpHb.setProxy { rp with
        sendingSn := some ch.sequenceNumber }) := setProxy_quiet hm rfl rfl
    have hdata : Launches sc cur (w.bumpHb.setProxy { rp with
          sendingSn := some ch.sequenceNumber }) (w.bumpHb.setProxy { rp with
          sendingSn := some ch.sequenceNumber }) {.message rp.guid (.data ch)} :=
      launchData_launches ((hb.toAlike.trans (.setProxy _ _)).maySend hs)
    exact ((launchHeartbeat_launches rfl hf ((min_le_right _ _).trans hl.ge) hl.le).trans_does
      hset.does).trans hdata
  · exact (OnlySent.bumpHb w).onlyReader.trans (.setProxy rfl)
  · have hdata : Launches sc cur w.bumpHb w.bumpHb {.message rp.guid (.data ch)} :=
      launchData_launches ((OnlySent.bumpHb w).toAlike.maySend hs)
    exact (launchHeartbeat_launches rfl hf ((min_le_right _ _).trans hl.ge) hl.le).trans hdata
  · exact (OnlySent.bumpHb w).onlyReader
  -- without one
  · have hset : Quiet sc cur w (w.setProxy { rp with
        sendingSn := some ch.sequenceNumber }) := setProxy_quiet hm rfl rfl
    exact hset.does.trans_launches (launchData_launches ((Alike.setProxy w _).maySend hs))
  · exact .setProxy rfl
  · exact launchData_launches hs
  · exact (OnlySent.refl w).onlyReader

theorem snapshotProxies_launches (trailingHb : Bool) (hs : w.MaySend sc cur ch)
    (hact : w.coherentActive = false) :
    Launches sc cur w (w.snapshotProxies ch trailingHb).1
      (((w.snapshotProxies ch trailingHb).2.map (·.packets ch)).sum) ∧
    Alike w (w.snapshotProxies ch trailingHb).1 := by
  have hlast : w.lastAvailableSnLocked = w.lastSentSnLocked := by
    unfold lastSentSnLocked
    rw [hact]
    rfl
  have hfold : ∀ (l : List ReaderProxy) (acc : StatefulWriter × List ProxySnapshot),
      Ahead l acc.1 → Alike w acc.1 →
      Launches sc cur w acc.1 ((acc.2.map (·.packets ch)).sum) →
      Launches sc cur w (l.foldl (snapshotProxy ch trailingHb w.lastAvailableSnLocked
        w.firstAvailableSnLocked) acc).1 (((l.foldl (snapshotProxy ch trailingHb
        w.lastAvailableSnLocked w.firstAvailableSnLocked) acc).2.map (·.packets ch)).sum) ∧
      Alike w (l.foldl (snapshotProxy ch trailingHb w.lastAvailableSnLocked
        w.firstAvailableSnLocked) acc).1 := by
    intro l
    induction l with
    | nil => exact fun acc _ hw hla => ⟨hla, hw⟩
    | cons rp l ih =>
      rintro ⟨w', snaps⟩ ha hw hla
      obtain ⟨P, hla', hsum, ho⟩ := snapshotProxy_launches trailingHb snaps
        (ha.1 rp List.mem_cons_self) (hw.maySend hs) hw.firstAvailable.symm
        (hlast.trans hw.lastSent.symm)
      refine ih _ (ha.tail ho.others) (hw.trans ho.toAlike) ?_
      rw [hsum]
      exact hla.trans hla'
  exact hfold _ (w, []) (ahead_self w) (.refl w) (Does.refl sc cur w).launches

/-- The live send of a sample that leaves the phase to its caller. -/
theorem sendChange_launches (trailingHb : Bool) (ret : SendReturn) (hs : w.MaySend sc cur ch)
    (hact : w.coherentActive = false) (hcur : cur = some ch.sequenceNumber) :
    Launches sc cur w (w.snapshotProxies ch trailingHb).1
      (Task.sendChange ch (w.snapshotProxies ch trailingHb).2 none [] ret).packets := by
  obtain ⟨hla, hw⟩ := snapshotProxies_launches trailingHb hs hact
  have := hla.trans (launchFlush_launches (hw.mayFlush ⟨hact, hcur, ch, hs.1, rfl⟩))
  rw [Task.packets, owedPackets]
  rwa [zero_add, ← Multiset.singleton_add]

end LiveSend

/-! ### Replay and resume -/

section Replay

variable {sc : Scope} {cur : Option ℤ} {w w' : StatefulWriter} {rp : ReaderProxy}

/-- Change the proxy of a match, but not its acknowledged number. -/
theorem modifyMatch_quiet {m : ReaderMatch} {f : ReaderProxy → ReaderProxy}
    (hg : ∀ rp, (f rp).guid = rp.guid) (ha : ∀ rp, (f rp).highestAckedSn = rp.highestAckedSn) :
    Quiet sc cur w (w.modifyMatch m f) := by
  unfold modifyMatch
  split
  next rp hrp => exact setProxy_quiet (mem_of_find (find_of_findMatch hrp)) (hg rp) (ha rp)
  next => exact .refl sc cur w

theorem batchItems_maySend (cur : Option ℤ) {after : ℤ} {item : BatchItem} (hs : ∀ sn, sc.sample sn)
    (h : item ∈ w.batchItems after) :
    (∀ ch, item = .sample ch → w.MaySend sc cur ch) ∧
    (∀ m, item = .marker m → w.MaySendMarker m.sn) := by
  rcases mem_mergeMarkers h with ⟨ch, hch, rfl⟩ | ⟨m, hm, rfl⟩
  · refine ⟨?_, by rintro m ⟨⟩⟩
    rintro ch' ⟨⟩
    have hle := List.mem_takeWhile_imp hch
    have hmem := (List.mem_filter.mp ((List.takeWhile_sublist _).subset hch)).1
    exact ⟨hmem, .inl (hs _), .inl (by simpa using hle)⟩
  · refine ⟨by rintro ch ⟨⟩, ?_⟩
    rintro m' ⟨⟩
    have hmem := (List.dropWhile_sublist _).subset ((List.takeWhile_sublist _).subset hm)
    exact .inl ⟨m, hmem, rfl⟩

theorem items_launches (g : Guid) : ∀ items : List BatchItem,
    (∀ item ∈ items, (∀ ch, item = .sample ch → w.MaySend sc cur ch) ∧
      (∀ m, item = .marker m → w.MaySendMarker m.sn)) →
    Launches sc cur w w (items.map (fun item => Packet.message g item.message) : List Packet)
  | [], _ => (Does.refl sc cur w).launches
  | item :: items, h => by
      obtain ⟨hs, hm⟩ := h item List.mem_cons_self
      have ih := items_launches g items (fun item' h' => h item' (List.mem_cons_of_mem _ h'))
      rw [List.map_cons, ← Multiset.cons_coe, ← Multiset.singleton_add]
      refine ih.trans ?_
      cases item with
      | sample ch => exact launchData_launches (hs ch rfl)
      | marker m => exact launchMarker_launches (hm m rfl)

theorem sendBatchFragmented_does {ch : CacheChange} {after : ℤ} (hs : w.MaySend sc cur ch) :
    Does sc cur w (w.sendBatchFragmented rp ch after).1 := by
  have hs' := (OnlySent.bumpHb w).toAlike.maySend hs
  unfold sendBatchFragmented
  dsimp only
  split
  · have hd : Does sc cur w (w.bumpHb.sendFrag1ToProxyLocked rp ch w.bumpHb.hbCount).1 :=
      frag1_does hs
    split <;> next heq => rw [heq] at hd; exact hd
  · generalize (if rp.unsentFromSn = some ch.sequenceNumber then rp.unsentFrag else 1) = firstFrag
    have hd : Does sc cur w
        (w.bumpHb.sendFragsToProxyLocked rp ch w.bumpHb.hbCount firstFrag).1 :=
      (sendFragsToProxyLocked_addresses hs').bump
    split <;> next heq => rw [heq] at hd; exact hd

theorem replayBatchUnlocked_sent {after : ℤ} {n : ℕ} {batch : Batch} (hs : ∀ sn, sc.sample sn)
    (h : w.replayBatchUnlocked rp after n = .sent w' batch) : Does sc cur w w' := by
  have hmay : ∀ item ∈ w.batchItems after, (∀ ch, item = .sample ch → w.MaySend sc cur ch) ∧
      (∀ m, item = .marker m → w.MaySendMarker m.sn) := fun _ => batchItems_maySend cur hs
  unfold replayBatchUnlocked at h
  split at h
  · cases h
  · split at h
    next => cases h
    next ch rest heq =>
      rw [heq] at hmay
      split at h
      · cases h
        exact sendBatchFragmented_does ((hmay _ List.mem_cons_self).1 ch rfl)
      · cases h
    next => cases h

/-- The items a batch sends are items it may send. -/
theorem take_batch_subset {item : BatchItem} {rest : List BatchItem} {cfg : WriterConfig}
    {n : ℕ} : ∀ x ∈ (item :: rest.takeWhile (isWhole cfg)).take n, x ∈ item :: rest := by
  intro x hx
  rcases List.mem_cons.mp (List.mem_of_mem_take hx) with rfl | hx'
  · exact List.mem_cons_self
  · exact List.mem_cons_of_mem _ ((List.takeWhile_sublist _).subset hx')

theorem replayBatchUnlocked_release {after : ℤ} {n : ℕ} {items : List BatchItem}
    (after' : ℤ) (ret : BatchReturn) (hs : ∀ sn, sc.sample sn) (hm : rp ∈ w.readerProxies)
    (h : w.replayBatchUnlocked rp after n = .release w' items) :
    Launches sc cur w w' (batchTask rp after' items ret).packets := by
  have hmay : ∀ item ∈ w.batchItems after, (∀ ch, item = .sample ch → w.MaySend sc cur ch) ∧
      (∀ m, item = .marker m → w.MaySendMarker m.sn) := fun _ => batchItems_maySend cur hs
  -- the reader is marked, and then the items are scheduled
  have hgo : ∀ (sn : ℤ) (item : BatchItem) (rest : List BatchItem),
      w.batchItems after = item :: rest →
      Launches sc cur w (if w.config.resumeHeld then
        w.setProxy { rp with sendingSn := some sn } else w)
        (batchTask rp after' ((item :: rest.takeWhile (isWhole w.config)).take n) ret).packets := by
    intro sn item rest heq
    rw [heq] at hmay
    have hset : Quiet sc cur w (w.setProxy { rp with sendingSn := some sn }) :=
      setProxy_quiet hm rfl rfl
    split
    · refine hset.does.trans_launches (items_launches rp.guid _ fun x hx => ?_)
      obtain ⟨h₁, h₂⟩ := hmay x (take_batch_subset x hx)
      exact ⟨fun ch e => (Alike.setProxy w _).maySend (h₁ ch e),
        fun m e => (Alike.setProxy w _).maySendMarker (h₂ m e)⟩
    · exact items_launches rp.guid _ fun x hx => hmay x (take_batch_subset x hx)
  unfold replayBatchUnlocked at h
  split at h
  · cases h
  · split at h
    next => cases h
    next ch rest heq =>
      split at h
      · cases h
      · cases h
        exact hgo _ _ _ heq
    next m rest heq =>
      cases h
      exact hgo _ _ _ heq

theorem holdReplay_quiet {m : ReaderMatch} {sent : Batch} :
    Quiet sc cur w (w.holdReplay m sent) := by
  apply modifyMatch_quiet <;>
  · intro rp
    dsimp only
    split <;> rfl

theorem replayLoop_spawns {m : ReaderMatch} {historyThrough : ℤ} (hs : ∀ sn, sc.sample sn) :
    ∀ (fuel : ℕ) (w : StatefulWriter) (sentThrough : ℤ) (catchUpRounds : ℕ),
      Spawns sc cur w (replayLoop m historyThrough fuel w sentThrough catchUpRounds)
  | 0, w, _, _ => (Does.refl sc cur w).spawns
  | fuel + 1, w, sentThrough, catchUpRounds => by
      rw [replayLoop]
      split
      next => exact reportReady_quiet.does.spawns
      next rp hrp =>
        have hm := mem_of_find (find_of_findMatch hrp)
        have hlive : Quiet sc cur w (w.setProxy { rp with suppressLiveData := false }) :=
          setProxy_quiet hm rfl rfl
        dsimp only
        split
        · exact (hlive.trans reportReady_quiet).does.spawns
        · split
          next => exact (hlive.trans reportReady_quiet).does.spawns
          next w' sent hsent =>
            have hd : Does sc cur w w' := replayBatchUnlocked_sent hs hsent
            split
            · exact (hd.trans (holdReplay_quiet.trans reportReady_quiet).does).spawns
            · exact hd.trans_spawns (replayLoop_spawns hs fuel w' _ _)
          next w' items hrel =>
            exact ⟨replayBatchUnlocked_release sentThrough (.replay historyThrough catchUpRounds)
              hs hm hrel, rfl⟩

theorem afterReplayBatch_spawns {m : ReaderMatch} {sent : Batch} {historyThrough : ℤ}
    {catchUpRounds : ℕ} (hs : ∀ sn, sc.sample sn) :
    Spawns sc cur w (w.afterReplayBatch m sent historyThrough catchUpRounds) := by
  unfold afterReplayBatch
  split
  · exact (holdReplay_quiet.trans reportReady_quiet).does.spawns
  · exact replayLoop_spawns hs _ _ _ _

theorem resumeAt_quiet {m : ReaderMatch} {held through : ℤ} {nextFrag : ℕ} :
    Quiet sc cur w (w.modifyMatch m (·.resumeAt held through nextFrag)) := by
  apply modifyMatch_quiet <;>
  · intro rp
    unfold ReaderProxy.resumeAt
    split <;> rfl

/-- Some reader is held. -/
def Holds (w : StatefulWriter) : Prop := ∃ rp ∈ w.readerProxies, rp.unsentFromSn.isSome = true

theorem resumeLoop_spawns : ∀ (fuel : ℕ) (w : StatefulWriter) (i : ℕ) (m : ReaderMatch)
    (budget : ℕ), (w.Holds → ∀ sn, sc.sample sn) →
      Spawns sc cur w (resumeLoop fuel w i m budget)
  | 0, w, _, _, _, _ => trimAckedLocked_quiet.does.spawns
  | fuel + 1, w, i, m, budget, hs => by
      have hnext : ∀ (w' : StatefulWriter) (b : ℕ), Does sc cur w w' →
          (w'.Holds → ∀ sn, sc.sample sn) →
          Spawns sc cur w (resumeNext fuel w' i b) := by
        intro w' b hd hs'
        unfold resumeNext
        split
        · exact (hd.trans trimAckedLocked_quiet.does).spawns
        · exact hd.trans_spawns (resumeLoop_spawns fuel _ _ _ _ hs')
      rw [resumeLoop]
      dsimp only
      split
      next => exact hnext w budget (.refl _ _ _) hs
      next rp hrp =>
        have hm := mem_of_find (find_of_findMatch hrp)
        split
        next => exact hnext w budget (.refl _ _ _) hs
        next held hheld =>
          have hs : ∀ sn, sc.sample sn := hs ⟨rp, hm, by rw [hheld]; rfl⟩
          split
          · exact hnext w budget (.refl _ _ _) (fun _ => hs)
          · split
            · exact trimAckedLocked_quiet.does.spawns
            · split
              next =>
                have hset : Quiet sc cur w (w.setProxy { rp with unsentFromSn := none }) :=
                  setProxy_quiet hm rfl rfl
                exact hnext _ budget hset.does (fun _ => hs)
              next w' sent hsent =>
                have hd : Does sc cur w w' := replayBatchUnlocked_sent hs hsent
                have hd' : Does sc cur w
                    (w'.modifyMatch m (·.resumeAt held sent.through sent.nextFrag)) :=
                  hd.trans resumeAt_quiet.does
                split
                · exact hnext _ _ hd' (fun _ => hs)
                · exact hd'.trans_spawns (resumeLoop_spawns fuel _ _ _ _ (fun _ => hs))
              next w' items hrel =>
                exact ⟨replayBatchUnlocked_release (held - 1) (.resume i held budget) hs hm hrel,
                  rfl⟩

theorem resumeFrom_spawns {i budget : ℕ} (hs : w.Holds → ∀ sn, sc.sample sn) :
    Spawns sc cur w (w.resumeFrom i budget) := by
  unfold resumeFrom
  split
  · exact trimAckedLocked_quiet.does.spawns
  · exact resumeLoop_spawns _ _ _ _ _ hs

theorem afterResumeBatch_spawns {m : ReaderMatch} {sent : Batch} {i budget : ℕ} {held : ℤ}
    (hs : ∀ sn, sc.sample sn) : Spawns sc cur w (w.afterResumeBatch m sent i held budget) := by
  unfold afterResumeBatch
  split
  next => exact resumeFrom_spawns (fun _ => hs)
  next p hp =>
    have hset : Quiet sc cur w (w.setProxy (p.resumeAt held sent.through sent.nextFrag)) := by
      apply setProxy_quiet (mem_of_find (find_of_findMatch hp)) <;>
      · unfold ReaderProxy.resumeAt
        split <;> rfl
    dsimp only
    split
    · exact hset.does.trans_spawns (resumeFrom_spawns (fun _ => hs))
    · exact hset.does.trans_spawns (resumeLoop_spawns _ _ _ _ _ (fun _ => hs))

theorem returnFromBatch_spawns {m : ReaderMatch} {sent : Batch} {ret : BatchReturn}
    (hs : ∀ sn, sc.sample sn) : Spawns sc cur w (w.returnFromBatch m sent ret) := by
  have hback : Does sc cur w (if w.config.resumeHeld then
      w.modifyMatch m (fun rp => { rp with sendingSn := none }) else w) := by
    split
    · apply Quiet.does
      apply modifyMatch_quiet <;> exact fun _ => rfl
    · exact .refl _ _ _
  unfold returnFromBatch
  cases ret with
  | replay historyThrough catchUpRounds => exact hback.trans_spawns (afterReplayBatch_spawns hs)
  | resume i held budget => exact hback.trans_spawns (afterResumeBatch_spawns hs)

end Replay

end StatefulWriter

end Zzdds.Rtps
