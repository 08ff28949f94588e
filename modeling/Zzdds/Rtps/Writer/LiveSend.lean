import Zzdds.Rtps.Writer.Sound

/-! # What a write sends

What `write` sends to a reader it does not hold back, when its call runs to its end with no other
thread in between: the sample and the HEARTBEAT behind it or, of a sample beyond the fragment size,
fragment 1 and a HEARTBEAT_FRAG (`sendsTo_write`).  `SendsTo g ms` is the frame of the steps on the
way: they send `ms` to the reader `g`. -/

namespace Zzdds.Rtps

/-- The message a reader is sent. -/
def WriterEvent.messageTo (g : Guid) : WriterEvent → Option WriterMessage
  | send _ _ reader _ m => if reader = g then some m else none
  | _ => none

namespace StatefulWriter

/-- The messages a reader was sent, in order. -/
def messagesTo (w : StatefulWriter) (g : Guid) : List WriterMessage :=
  w.log.filterMap (·.messageTo g)

/-- A call runs to its end. -/
inductive Completes : StatefulWriter × Option Task → StatefulWriter → Prop
  | done (w : StatefulWriter) : Completes (w, none) w
  | step {w w' : StatefulWriter} {t : Task} (h : Completes (w.runTask t) w') :
      Completes (w, some t) w'

/-- Samples go out to the reader at once. -/
structure Live (w : StatefulWriter) (rp : ReaderProxy) : Prop where
  mem : rp ∈ w.readerProxies
  reliable : rp.reliable = true
  selectedLocators : rp.selectedLocators ≠ []
  suppressLiveData : rp.suppressLiveData = false
  unsentFromSn : rp.unsentFromSn = none
  sendingSn : rp.sendingSn = none
  coherentActive : w.coherentActive = false
  blocks : ∀ n, w.blocks n = false

/-- The reader `g` is sent `ms`. -/
structure SendsTo (g : Guid) (ms : List WriterMessage) (w w' : StatefulWriter) : Prop where
  messages : w'.messagesTo g = w.messagesTo g ++ ms
  blocks : w'.blocks = w.blocks
  config : w'.config = w.config

variable {g : Guid} {ms ms' : List WriterMessage} {w w' w'' : StatefulWriter} {rp : ReaderProxy}
  {ch : CacheChange}

namespace SendsTo

theorem refl (g : Guid) (w : StatefulWriter) : SendsTo g [] w w :=
  ⟨(List.append_nil _).symm, rfl, rfl⟩

theorem trans (h : SendsTo g ms w w') (h' : SendsTo g ms' w' w'') :
    SendsTo g (ms ++ ms') w w'' := by
  constructor
  · rw [h'.messages, h.messages, List.append_assoc]
  · rw [h'.blocks, h.blocks]
  · rw [h'.config, h.config]

/-- A step that sends nothing to the reader comes first. -/
theorem after (h : SendsTo g [] w w') (h' : SendsTo g ms w' w'') : SendsTo g ms w w'' :=
  h.trans h'

/-- Or last. -/
theorem before (h : SendsTo g ms w w') (h' : SendsTo g [] w' w'') : SendsTo g ms w w'' := by
  have := h.trans h'
  rwa [List.append_nil] at this

/-- The log, the transport and the configuration are all there is to it. -/
theorem of_log (hl : w'.log = w.log) (hb : w'.blocks = w.blocks) (hc : w'.config = w.config) :
    SendsTo g [] w w' :=
  ⟨by rw [messagesTo, hl, List.append_nil, messagesTo], hb, hc⟩

theorem setProxy (g : Guid) (w : StatefulWriter) (rp : ReaderProxy) :
    SendsTo g [] w (w.setProxy rp) := of_log rfl rfl rfl

theorem modifyMatch (g : Guid) (w : StatefulWriter) (m : ReaderMatch)
    (f : ReaderProxy → ReaderProxy) : SendsTo g [] w (w.modifyMatch m f) := by
  unfold StatefulWriter.modifyMatch
  split
  · exact setProxy g w _
  · exact refl g w

theorem emit (w : StatefulWriter) {ev : WriterEvent} (h : ev.messageTo g = none) :
    SendsTo g [] w (w.emit ev) := by
  refine ⟨?_, rfl, rfl⟩
  simp [messagesTo, StatefulWriter.emit, h]

theorem send (w : StatefulWriter) (g : Guid) (locs : List Locator) (m : WriterMessage) :
    SendsTo g [m] w (w.send g locs m) := by
  refine ⟨?_, rfl, rfl⟩
  simp [messagesTo, StatefulWriter.send, StatefulWriter.emit, WriterEvent.messageTo]

theorem send_other (w : StatefulWriter) {g' : Guid} (h : g' ≠ g) (locs : List Locator)
    (m : WriterMessage) : SendsTo g [] w (w.send g' locs m) :=
  emit w (by simp [WriterEvent.messageTo, h])

/-- On a transport that takes everything, a DATA goes out. -/
theorem sendData (hb : ∀ n, w.blocks n = false) {locs : List Locator} (hl : locs ≠ [])
    (m : WriterMessage) :
    (w.sendData g locs m).2 = true ∧ SendsTo g [m] w (w.sendData g locs m).1 := by
  have hne : locs.isEmpty = false := by simpa using hl
  simp only [StatefulWriter.sendData, hne, hb, Bool.false_eq_true, if_false, true_and]
  exact (of_log rfl rfl rfl : SendsTo g [] w w.countAttempt).after (send _ g locs m)

theorem sendData_other (w : StatefulWriter) {g' : Guid} (h : g' ≠ g) (locs : List Locator)
    (m : WriterMessage) : SendsTo g [] w (w.sendData g' locs m).1 := by
  unfold StatefulWriter.sendData
  split
  · exact refl g w
  · split
    · exact of_log rfl rfl rfl
    · exact (of_log rfl rfl rfl : SendsTo g [] w w.countAttempt).after (send_other _ h locs m)

theorem trimAckedLocked (g : Guid) (w : StatefulWriter) : SendsTo g [] w w.trimAckedLocked := by
  rcases w.trimAckedLocked_cases with h | ⟨-, -, h⟩
  · rw [h]
    exact refl g w
  · rw [h]
    exact (of_log rfl rfl rfl : SendsTo g [] w { w with
      cache := w.cache.removeWriterChangesUpTo w.trimFloor
      trimmedThrough := w.trimFloor }).after (emit _ rfl)

/-- Steps on each proxy in turn, of which only one sends to the reader. -/
theorem foldl {f : StatefulWriter → ReaderProxy → StatefulWriter}
    (hother : ∀ w rp', rp'.guid ≠ rp.guid → SendsTo rp.guid [] w (f w rp'))
    (hown : ∀ w', w'.blocks = w.blocks → w'.config = w.config → SendsTo rp.guid ms w' (f w' rp)) :
    ∀ (l : List ReaderProxy) {w' : StatefulWriter}, (l.map (·.guid)).Nodup → rp ∈ l →
      w'.blocks = w.blocks → w'.config = w.config → SendsTo rp.guid ms w' (l.foldl f w') := by
  have hrest : ∀ (l : List ReaderProxy) (w' : StatefulWriter),
      (∀ rp' ∈ l, rp'.guid ≠ rp.guid) → SendsTo rp.guid [] w' (l.foldl f w') := by
    intro l
    induction l with
    | nil => exact fun w' _ => refl _ w'
    | cons rp' l ih =>
      intro w' hne
      exact (hother w' rp' (hne rp' List.mem_cons_self)).after
        (ih _ fun x hx => hne x (List.mem_cons_of_mem _ hx))
  intro l
  induction l with
  | nil => exact fun _ hm => absurd hm List.not_mem_nil
  | cons rp' l ih =>
    intro w' hnd hm hb hc
    simp only [List.map_cons, List.nodup_cons] at hnd
    rcases List.mem_cons.mp hm with rfl | hm
    · refine (hown w' hb hc).before (hrest l _ fun x hx e => hnd.1 ?_)
      exact e ▸ List.mem_map_of_mem hx
    · have hne : rp'.guid ≠ rp.guid := fun e => hnd.1 (e ▸ List.mem_map_of_mem hm)
      have hstep := hother w' rp' hne
      exact hstep.after (ih hnd.2 hm (hstep.blocks.trans hb) (hstep.config.trans hc))

end SendsTo

/-! ### A fragmented sample -/

theorem sendsTo_sendFrag1_other (w : StatefulWriter) (h : rp.guid ≠ g) (ch : CacheChange)
    (hbCount : ℕ) : SendsTo g [] w (w.sendFrag1ToProxyLocked rp ch hbCount).1 := by
  unfold sendFrag1ToProxyLocked
  split
  · exact .refl g w
  · have hdata := SendsTo.sendData_other w h rp.selectedLocators (.dataFrag ch 1 true)
    simp only
    split
    · exact hdata.after (.send_other _ h _ _)
    · exact hdata

theorem sendsTo_sendFragsLoop_other (h : rp.guid ≠ g) (ch : CacheChange) :
    ∀ (n fragNum : ℕ) (w : StatefulWriter), SendsTo g [] w (w.sendFragsLoop rp ch n fragNum).1
  | 0, _, w => .refl g w
  | n + 1, fragNum, w => by
      have hdata := SendsTo.sendData_other w h rp.selectedLocators
        (.dataFrag ch fragNum (fragNum == 1))
      unfold sendFragsLoop
      simp only
      split
      · exact hdata.after (sendsTo_sendFragsLoop_other h ch n (fragNum + 1) _)
      · exact hdata

theorem sendsTo_sendFrags_other (w : StatefulWriter) (h : rp.guid ≠ g) (ch : CacheChange)
    (hbCount firstFrag : ℕ) :
    SendsTo g [] w (w.sendFragsToProxyLocked rp ch hbCount firstFrag).1 := by
  unfold sendFragsToProxyLocked
  split
  · exact .refl g w
  · have hloop := sendsTo_sendFragsLoop_other h ch (w.config.numFrags ch + 1 - firstFrag)
      firstFrag w
    split
    next heq =>
      rw [heq] at hloop
      exact hloop
    next heq =>
      rw [heq] at hloop
      exact hloop.after (.send_other _ h _ _)

theorem sendsTo_sendFragmentedTo_other (w : StatefulWriter) (h : rp.guid ≠ g) (ch : CacheChange)
    (hbCount : ℕ) : SendsTo g [] w (sendFragmentedTo ch hbCount w rp) := by
  unfold sendFragmentedTo
  split
  · exact .refl g w
  split
  · exact .setProxy g w _
  split
  · exact .refl g w
  split
  · have hfrag := sendsTo_sendFrag1_other w h ch hbCount
    split
    next heq =>
      rw [heq] at hfrag
      exact hfrag
    next heq =>
      rw [heq] at hfrag
      exact hfrag.after (.setProxy g _ _)
  · have hfrags := sendsTo_sendFrags_other w h ch hbCount 1
    split
    next heq =>
      rw [heq] at hfrags
      exact hfrags
    next heq =>
      rw [heq] at hfrags
      exact hfrags.after (.setProxy g _ _)

/-- Of a fragmented sample, a reliable reader is sent fragment 1. -/
theorem sendsTo_sendFragmented (hl : w.Live rp) (ch : CacheChange) :
    SendsTo rp.guid [.dataFrag ch 1 true,
        .heartbeatFrag ch.sequenceNumber (w.config.numFrags ch) (w.hbCount + 1)]
      w (w.sendFragmented ch) := by
  have hbump : SendsTo rp.guid [] w w.bumpHb := .of_log rfl rfl rfl
  have hloop : SendsTo rp.guid [.dataFrag ch 1 true,
      .heartbeatFrag ch.sequenceNumber (w.config.numFrags ch) (w.hbCount + 1)] w.bumpHb
      (w.readerProxies.foldl (sendFragmentedTo ch w.bumpHb.hbCount) w.bumpHb) := by
    refine SendsTo.foldl (w := w.bumpHb) (fun w' rp' hne =>
      sendsTo_sendFragmentedTo_other w' hne ch _) (fun w' hb hc => ?_) w.readerProxies w.nodup
      hl.mem rfl rfl
    have hblocks : ∀ n, w'.blocks n = false := by
      rw [hb]
      exact hl.blocks
    have hne : rp.selectedLocators.isEmpty = false := by simpa using hl.selectedLocators
    obtain ⟨htook, hdata⟩ := SendsTo.sendData (g := rp.guid) hblocks hl.selectedLocators
      (.dataFrag ch 1 true)
    simp only [sendFragmentedTo, hl.suppressLiveData, hl.unsentFromSn, hl.sendingSn, hne,
      hl.reliable, sendFrag1ToProxyLocked, htook, Option.isSome_none, Bool.or_false,
      Bool.false_eq_true, if_false, if_true]
    have hcfg : (w'.sendData rp.guid rp.selectedLocators (.dataFrag ch 1 true)).1.config.numFrags ch =
        w.config.numFrags ch := by
      rw [hdata.config, hc]
      rfl
    rw [hcfg]
    exact hdata.trans (.send _ _ _ _)
  exact hbump.after (hloop.before (.of_log rfl rfl rfl))

/-! ### A sample sent whole -/

theorem sendsTo_snapshotProxy (g : Guid) (ch : CacheChange) (trailingHb : Bool)
    (cacheLast cacheFirst : ℤ) (acc : StatefulWriter × List ProxySnapshot) (rp : ReaderProxy) :
    SendsTo g [] acc.1 (snapshotProxy ch trailingHb cacheLast cacheFirst acc rp).1 := by
  obtain ⟨w, snaps⟩ := acc
  unfold snapshotProxy
  simp only
  split
  · exact .refl g w
  split
  · exact .setProxy g w _
  split
  · exact .refl g w
  · have hbump : SendsTo g [] w (if (rp.reliable && trailingHb) = true then w.bumpHb else w) := by
      split
      · exact .of_log rfl rfl rfl
      · exact .refl g w
    refine hbump.after ?_
    generalize (if (rp.reliable && trailingHb) = true then w.bumpHb else w) = w₁
    dsimp only
    split
    · exact .setProxy g w₁ _
    · exact .refl g w₁

/-- A snapshot is added for its own reader only, at some locator. -/
theorem snapshotProxy_snaps (ch : CacheChange) (trailingHb : Bool) (cacheLast cacheFirst : ℤ)
    (acc : StatefulWriter × List ProxySnapshot) (rp : ReaderProxy) :
    ∃ new, (snapshotProxy ch trailingHb cacheLast cacheFirst acc rp).2 = acc.2 ++ new ∧
      ∀ s ∈ new, s.readerMatch.guid = rp.guid ∧ s.locs ≠ [] := by
  obtain ⟨w, snaps⟩ := acc
  unfold snapshotProxy
  simp only
  split
  · exact ⟨[], by simp, by simp⟩
  split
  · exact ⟨[], by simp, by simp⟩
  split
  · exact ⟨[], by simp, by simp⟩
  next hl =>
    refine ⟨_, rfl, fun s hs => ?_⟩
    rw [List.mem_singleton.mp hs]
    refine ⟨rfl, fun hnil => hl ?_⟩
    rcases List.take_eq_nil_iff.mp hnil with h | h
    · cases h
    · rw [h]
      rfl

/-- The snapshot of a reader that is not held back. -/
theorem snapshotProxy_live (hl : w.Live rp) (ch : CacheChange) (cacheLast cacheFirst : ℤ)
    (acc : StatefulWriter × List ProxySnapshot) : ∃ n,
    (snapshotProxy ch true cacheLast cacheFirst acc rp).2 = acc.2 ++ [{
      readerMatch := rp.readerMatch
      startSn := rp.startSn
      locs := rp.selectedLocators.take 8
      hb := some ⟨cacheLast, cacheFirst, n⟩ }] := by
  obtain ⟨w', snaps⟩ := acc
  have hne : rp.selectedLocators.isEmpty = false := by simpa using hl.selectedLocators
  simp only [snapshotProxy, hl.suppressLiveData, hl.unsentFromSn, hl.sendingSn, hne, hl.reliable,
    Option.isSome_none, Bool.or_false, Bool.false_eq_true, if_false, Bool.and_self, if_true]
  exact ⟨_, rfl⟩

/-- The snapshots of a live send: one for the reader. -/
theorem snapshotProxies_live (hl : w.Live rp) (ch : CacheChange) :
    SendsTo rp.guid [] w (w.snapshotProxies ch true).1 ∧
      (∀ s ∈ (w.snapshotProxies ch true).2, s.locs ≠ []) ∧
      ∃ n, (w.snapshotProxies ch true).2.filter (fun s => s.readerMatch.guid == rp.guid) = [{
        readerMatch := rp.readerMatch
        startSn := rp.startSn
        locs := rp.selectedLocators.take 8
        hb := some ⟨w.lastAvailableSnLocked, w.firstAvailableSnLocked, n⟩ }] := by
  have hfold : ∀ (l : List ReaderProxy) (acc : StatefulWriter × List ProxySnapshot),
      (∀ s ∈ acc.2, s.locs ≠ []) →
      SendsTo rp.guid [] acc.1 (l.foldl (snapshotProxy ch true w.lastAvailableSnLocked
        w.firstAvailableSnLocked) acc).1 ∧
      (∀ s ∈ (l.foldl (snapshotProxy ch true w.lastAvailableSnLocked
        w.firstAvailableSnLocked) acc).2, s.locs ≠ []) := by
    intro l
    induction l with
    | nil => exact fun acc hacc => ⟨.refl _ _, hacc⟩
    | cons rp' l ih =>
      intro acc hacc
      obtain ⟨new, hnew, hs⟩ := snapshotProxy_snaps ch true w.lastAvailableSnLocked
        w.firstAvailableSnLocked acc rp'
      have hrest := ih (snapshotProxy ch true w.lastAvailableSnLocked
        w.firstAvailableSnLocked acc rp') (fun s hm => by
          rw [hnew] at hm
          rcases List.mem_append.mp hm with hm | hm
          · exact hacc s hm
          · exact (hs s hm).2)
      exact ⟨(sendsTo_snapshotProxy rp.guid ch true _ _ acc rp').after hrest.1, hrest.2⟩
  have hother : ∀ (l : List ReaderProxy) (acc : StatefulWriter × List ProxySnapshot),
      (∀ rp' ∈ l, rp'.guid ≠ rp.guid) →
      (l.foldl (snapshotProxy ch true w.lastAvailableSnLocked w.firstAvailableSnLocked) acc).2.filter
        (fun s => s.readerMatch.guid == rp.guid) =
      acc.2.filter (fun s => s.readerMatch.guid == rp.guid) := by
    intro l
    induction l with
    | nil => exact fun acc _ => rfl
    | cons rp' l ih =>
      intro acc hne
      obtain ⟨new, hnew, hs⟩ := snapshotProxy_snaps ch true w.lastAvailableSnLocked
        w.firstAvailableSnLocked acc rp'
      have hnil : new.filter (fun s => s.readerMatch.guid == rp.guid) = [] := by
        rw [List.filter_eq_nil_iff]
        intro s hm
        rw [(hs s hm).1]
        simpa using hne rp' List.mem_cons_self
      rw [List.foldl_cons, ih _ fun x hx => hne x (List.mem_cons_of_mem _ hx), hnew,
        List.filter_append, hnil, List.append_nil]
  have hown : ∀ (l : List ReaderProxy) (acc : StatefulWriter × List ProxySnapshot),
      (l.map (·.guid)).Nodup → rp ∈ l → acc.2.filter (fun s => s.readerMatch.guid == rp.guid) = [] →
      ∃ n, (l.foldl (snapshotProxy ch true w.lastAvailableSnLocked w.firstAvailableSnLocked)
        acc).2.filter (fun s => s.readerMatch.guid == rp.guid) = [{
          readerMatch := rp.readerMatch
          startSn := rp.startSn
          locs := rp.selectedLocators.take 8
          hb := some ⟨w.lastAvailableSnLocked, w.firstAvailableSnLocked, n⟩ }] := by
    intro l
    induction l with
    | nil => exact fun _ _ hm => absurd hm List.not_mem_nil
    | cons rp' l ih =>
      intro acc hnd hm hacc
      simp only [List.map_cons, List.nodup_cons] at hnd
      rcases List.mem_cons.mp hm with rfl | hm
      · obtain ⟨n, hn⟩ := snapshotProxy_live hl ch w.lastAvailableSnLocked
          w.firstAvailableSnLocked acc
        refine ⟨n, ?_⟩
        rw [List.foldl_cons, hother l _ fun x hx e => hnd.1 (e ▸ List.mem_map_of_mem hx), hn,
          List.filter_append, hacc, List.nil_append]
        exact List.filter_cons_of_pos (beq_self_eq_true _)
      · have hne : rp'.guid ≠ rp.guid := fun e => hnd.1 (e ▸ List.mem_map_of_mem hm)
        refine ih _ hnd.2 hm ?_
        have hone := hother [rp'] acc (by simpa using hne)
        exact hone.trans hacc
  have hboth := hfold w.readerProxies (w, []) (fun s hm => absurd hm List.not_mem_nil)
  exact ⟨hboth.1, hboth.2, hown w.readerProxies (w, []) w.nodup hl.mem rfl⟩

/-- The end of a live send tells the reader nothing more. -/
theorem sendsTo_endSends (g : Guid) (w : StatefulWriter) (sn : ℤ) (done : List ProxySnapshot) :
    SendsTo g [] w (w.endSends sn done) := by
  have hloop : ∀ (done : List ProxySnapshot) (w : StatefulWriter),
      SendsTo g [] w (done.foldl (endSendLocked sn) w) := by
    intro done
    induction done with
    | nil => exact fun w => .refl g w
    | cons s done ih => exact fun w => (SendsTo.modifyMatch g w _ _).after (ih _)
  have hflushed : SendsTo g [] w (w.flushedThrough sn) := .of_log rfl rfl rfl
  unfold endSends
  simp only
  split
  · exact hflushed.after (hloop done _)
  · exact hflushed

/-- The HEARTBEAT of a snapshot. -/
def snapshotHeartbeat (s : ProxySnapshot) (hb : HbSnapshot) : List WriterMessage :=
  let firstSn := hbFirstSn hb.cacheFirst hb.lastSn s.startSn none
  if 0 < hb.lastSn ∧ hb.lastSn + 1 < firstSn then []
  else [.heartbeat s.startSn (evictedGap hb.cacheFirst s.startSn) firstSn hb.lastSn hb.count
    false false]

/-- What a snapshot's reader is sent. -/
def snapshotMessages (ch : CacheChange) (s : ProxySnapshot) : List WriterMessage :=
  .data ch :: (s.hb.map (snapshotHeartbeat s)).getD []

theorem sendsTo_sendHeartbeatUnlocked (g : Guid) (w : StatefulWriter) {s : ProxySnapshot}
    (hl : s.locs ≠ []) (hb : HbSnapshot) :
    SendsTo g (if s.readerMatch.guid = g then snapshotHeartbeat s hb else []) w
      (w.sendHeartbeatUnlocked s.readerMatch.guid s.startSn s.locs false hb.lastSn hb.count
        hb.cacheFirst) := by
  have hne : s.locs.isEmpty = false := by simpa using hl
  simp only [sendHeartbeatUnlocked, hne, Bool.false_eq_true, if_false, snapshotHeartbeat]
  by_cases e : s.readerMatch.guid = g
  · subst e
    rw [if_pos rfl]
    split
    · exact .refl _ w
    · exact .send w _ _ _
  · rw [if_neg e]
    split
    · exact .refl _ w
    · exact .send_other w e _ _

/-- A whole sample on a transport that takes everything. -/
theorem sendsTo_sendChange (g : Guid) (ch : CacheChange) : ∀ (todo : List ProxySnapshot)
    {w w' : StatefulWriter} {done : List ProxySnapshot}, (∀ n, w.blocks n = false) →
      (∀ s ∈ todo, s.locs ≠ []) → Completes (w, some (.sendChange ch todo none done .write)) w' →
      SendsTo g ((todo.filter (fun s => s.readerMatch.guid == g)).flatMap (snapshotMessages ch)) w w'
  | [], w, w', done, _, _, h => by
      cases h with
      | step h =>
        cases h
        exact (sendsTo_endSends g w ch.sequenceNumber done).after (.trimAckedLocked g _)
  | s :: todo, w, w', done, hb, hl, h => by
      have hls := hl s List.mem_cons_self
      have hlt : ∀ s ∈ todo, s.locs ≠ [] := fun s hm => hl s (List.mem_cons_of_mem _ hm)
      obtain ⟨htook, hown⟩ := SendsTo.sendData (g := s.readerMatch.guid) hb hls (.data ch)
      have hdata : SendsTo g (if s.readerMatch.guid = g then [.data ch] else []) w
          (w.sendData s.readerMatch.guid s.locs (.data ch)).1 := by
        split
        next e => exact e ▸ hown
        next e => exact .sendData_other w e _ _
      have hrun : w.runTask (.sendChange ch (s :: todo) none done .write) =
          ((w.sendData s.readerMatch.guid s.locs (.data ch)).1,
            some (.sendChange ch todo (s.hb.map (fun hb => (s, hb))) (done ++ [s]) .write)) := by
        have heq : w.sendData s.readerMatch.guid s.locs (.data ch) =
            ((w.sendData s.readerMatch.guid s.locs (.data ch)).1, true) := Prod.ext rfl htook
        rw [runTask, heq]
      generalize (w.sendData s.readerMatch.guid s.locs (.data ch)).1 = w₁ at hdata hrun
      have hb₁ : ∀ n, w₁.blocks n = false := by
        rw [hdata.blocks]
        exact hb
      cases h with
      | step h =>
        rw [hrun] at h
        have hhead : ∃ w₂ hbs, (s.hb.map (snapshotHeartbeat s)).getD [] = hbs ∧
            SendsTo g (if s.readerMatch.guid = g then hbs else []) w₁ w₂ ∧
            Completes (w₂, some (.sendChange ch todo none (done ++ [s]) .write)) w' := by
          cases hhb : s.hb with
          | none =>
            rw [hhb] at h
            exact ⟨w₁, [], rfl, by simpa using SendsTo.refl g w₁, h⟩
          | some hb =>
            rw [hhb] at h
            cases h with
            | step h => exact ⟨_, _, rfl, sendsTo_sendHeartbeatUnlocked g w₁ hls hb, h⟩
        obtain ⟨w₂, hbs, hhbs, hsends, hcomp⟩ := hhead
        have hb₂ : ∀ n, w₂.blocks n = false := by
          rw [hsends.blocks]
          exact hb₁
        have hrest := sendsTo_sendChange g ch todo hb₂ hlt hcomp
        have hall := (hdata.trans hsends).trans hrest
        by_cases e : s.readerMatch.guid = g
        · rw [List.filter_cons_of_pos (by simpa using e), List.flatMap_cons, snapshotMessages, hhbs]
          simpa [e] using hall
        · rw [List.filter_cons_of_neg (by simpa using e)]
          simpa [e] using hall

/-- A send to all readers runs to its end. -/
theorem completes_sendChange (ch : CacheChange) : ∀ (todo : List ProxySnapshot) (w : StatefulWriter)
    (done : List ProxySnapshot), ∃ w', Completes (w, some (.sendChange ch todo none done .write)) w'
  | [], _, _ => ⟨_, .step (.done _)⟩
  | s :: todo, w, done => by
      rcases hd : w.sendData s.readerMatch.guid s.locs (.data ch) with ⟨w₁, _ | _⟩
      · have hrun : w.runTask (.sendChange ch (s :: todo) none done .write) =
            (w₁, some (.sendChange ch todo none (done ++ [{ s with blocked := true }]) .write)) := by
          rw [runTask, hd]
        obtain ⟨w', h⟩ := completes_sendChange ch todo w₁ (done ++ [{ s with blocked := true }])
        exact ⟨w', .step (hrun ▸ h)⟩
      · have hrun : w.runTask (.sendChange ch (s :: todo) none done .write) =
            (w₁, some (.sendChange ch todo (s.hb.map (fun hb => (s, hb))) (done ++ [s]) .write)) := by
          rw [runTask, hd]
        cases hhb : s.hb with
        | none =>
          rw [hhb] at hrun
          obtain ⟨w', h⟩ := completes_sendChange ch todo w₁ (done ++ [s])
          exact ⟨w', .step (hrun ▸ h)⟩
        | some hb =>
          rw [hhb] at hrun
          obtain ⟨w', h⟩ := completes_sendChange ch todo (w₁.sendHeartbeatUnlocked
            s.readerMatch.guid s.startSn s.locs false hb.lastSn hb.count hb.cacheFirst) (done ++ [s])
          exact ⟨w', .step (hrun ▸ .step h)⟩

/-! ### The write -/

/-- A write runs to its end. -/
theorem completes_write (w : StatefulWriter) (s : Sample) (suspended : Bool) :
    ∃ w', Completes (w.write s suspended) w' := by
  simp only [write, sendChangeToAllLocked]
  split
  · exact ⟨_, .done _⟩
  split
  · exact ⟨_, .done _⟩
  split
  · exact ⟨_, .done _⟩
  next heq =>
    split at heq
    · cases heq
    · cases heq
      exact completes_sendChange _ _ _ _

/-- The change a write adds. -/
def written (w : StatefulWriter) (s : Sample) : CacheChange where
  kind := s.kind
  writerGuid := w.config.guid
  sequenceNumber := w.cache.nextSn
  sourceTimestamp := s.sourceTimestamp
  instanceHandle := s.instanceHandle
  keyHash := s.keyHash
  data := s.data

theorem getChange_written (ho : w.Ordered) (s : Sample) :
    (w.addSample s).cache.getChange w.cache.nextSn = some (w.written s) := by
  have hch : (w.addSample s).cache.changes =
      ({ w.cache with nextSn := w.cache.nextSn + 1 }.trimForKeepLast s.instanceHandle).changes ++
        [w.written s] := rfl
  rw [HistoryCache.getChange, hch, List.find?_append]
  have hnone : ({ w.cache with nextSn := w.cache.nextSn + 1 }.trimForKeepLast
      s.instanceHandle).changes.find?
        (fun ch : CacheChange => ch.sequenceNumber == w.cache.nextSn) = none := by
    rw [List.find?_eq_none]
    intro ch hm
    have hold := (HistoryCache.trimForKeepLast_sublist _ _).subset hm
    have := ho.below ch.sequenceNumber (mem_keptSns_of_change hold)
    simp only [beq_iff_eq]
    omega
  rw [hnone, Option.none_or]
  simp [written]

/-- The change just added is the last the writer has. -/
theorem lastAvailable_addSample (ho : w.Ordered) (s : Sample) :
    (w.addSample s).lastAvailableSnLocked = w.cache.nextSn := by
  have hlt := lastAvailable_lt (ho.addSample s)
  have hnext : (w.addSample s).cache.nextSn = w.cache.nextSn + 1 := by
    obtain ⟨-, -, -, -, -, hnext⟩ := w.addSample_changes s
    exact hnext
  have hmem : w.written s ∈ (w.addSample s).cache.changes :=
    List.mem_of_find?_eq_some (getChange_written ho s)
  have hcache : w.cache.nextSn ≤ max (w.addSample s).cache.maxSn (w.addSample s).trimmedThrough :=
    ((w.addSample s).cache.maxSn_spec.2 _ hmem).trans (le_max_left _ _)
  have hle : w.cache.nextSn ≤ (w.addSample s).lastAvailableSnLocked := by
    unfold lastAvailableSnLocked
    dsimp only
    split
    · exact hcache
    · exact hcache.trans (le_max_left _ _)
  omega

/-- A HEARTBEAT that declares gone nothing beyond `sn`. -/
def Trails (sn : ℤ) : WriterMessage → Prop
  | .heartbeat _ gaps firstSn _ _ _ _ => firstSn ≤ sn + 1 ∧
      ∀ gap ∈ gaps, 0 < gap.1 ∧ gap.2 ≤ sn + 1
  | _ => False

theorem trails_snapshotHeartbeat {s : ProxySnapshot} {hb : HbSnapshot} (hlast : 0 < hb.lastSn) :
    ∀ m ∈ snapshotHeartbeat s hb, Trails hb.lastSn m := by
  intro m hm
  simp only [snapshotHeartbeat] at hm
  split at hm
  · cases hm
  next hvalid =>
    rw [List.mem_singleton.mp hm]
    have hfirst : hbFirstSn hb.cacheFirst hb.lastSn s.startSn none ≤ hb.lastSn + 1 := by
      by_contra h
      exact hvalid ⟨hlast, by omega⟩
    refine ⟨hfirst, fun gap hgap => ?_⟩
    unfold evictedGap at hgap
    split at hgap
    next h =>
      rw [List.mem_singleton.mp hgap]
      refine ⟨h.2.1, le_trans ?_ hfirst⟩
      rw [hbFirstSn]
      simp only
      rw [if_neg (by omega), if_neg (by omega)]
      exact le_max_left _ _
    · cases hgap

/-- What a write sends to a reader that is not held back. -/
theorem sendsTo_write (ho : w.Ordered) (hl : w.Live rp) {s : Sample} {suspended : Bool}
    (h : Completes (w.write s suspended) w') :
    if w.config.isFragmented (w.written s) then
      SendsTo rp.guid [.dataFrag (w.written s) 1 true, .heartbeatFrag w.cache.nextSn
        (w.config.numFrags (w.written s)) (w.hbCount + 1)] w w'
    else ∃ hbs, (∀ m ∈ hbs, Trails w.cache.nextSn m) ∧
      SendsTo rp.guid (.data (w.written s) :: hbs) w w' := by
  -- the writer when the sample goes out
  let offered := ((w.addSample s).emit (.wrote w.cache.nextSn suspended)).emit
    (.offer w.cache.nextSn true)
  have hadded : SendsTo rp.guid [] w (w.addSample s) := .of_log rfl rfl rfl
  have hstart : SendsTo rp.guid [] w offered :=
    (hadded.after (.emit _ rfl)).after (.emit _ rfl)
  have hlive : offered.Live rp := { hl with }
  have hactive : ((w.addSample s).emit (.wrote w.cache.nextSn suspended)).coherentActive = false :=
    hl.coherentActive
  have hget : ((w.addSample s).emit (.wrote w.cache.nextSn suspended)).cache.getChange
      w.cache.nextSn = some (w.written s) := getChange_written ho s
  simp only [write, hactive, Bool.false_eq_true, if_false, hget] at h
  split
  next hfrag =>
    have hsend : sendChangeToAllLocked ((w.addSample s).emit (.wrote w.cache.nextSn suspended))
        (w.written s) true .write = (offered.sendFragmented (w.written s), none) := by
      rw [sendChangeToAllLocked]
      exact if_pos hfrag
    rw [hsend] at h
    cases h
    exact (hstart.after (sendsTo_sendFragmented hlive (w.written s))).before
      (.trimAckedLocked _ _)
  next hfrag =>
    have hsend : sendChangeToAllLocked ((w.addSample s).emit (.wrote w.cache.nextSn suspended))
        (w.written s) true .write = ((offered.snapshotProxies (w.written s) true).1,
          some (.sendChange (w.written s) (offered.snapshotProxies (w.written s) true).2 none []
            .write)) := by
      rw [sendChangeToAllLocked]
      exact if_neg hfrag
    obtain ⟨hsnap, hlocs, n, hone⟩ := snapshotProxies_live hlive (w.written s)
    have hblocks : ∀ n, (offered.snapshotProxies (w.written s) true).1.blocks n = false := by
      rw [hsnap.blocks]
      exact hl.blocks
    rw [hsend] at h
    have hsends := sendsTo_sendChange rp.guid (w.written s) _ hblocks hlocs h
    rw [hone] at hsends
    have hlast : offered.lastAvailableSnLocked = w.cache.nextSn := lastAvailable_addSample ho s
    have htrails : ∀ m ∈ snapshotHeartbeat {
        readerMatch := rp.readerMatch
        startSn := rp.startSn
        locs := rp.selectedLocators.take 8
        hb := some ⟨offered.lastAvailableSnLocked, offered.firstAvailableSnLocked, n⟩ }
        ⟨offered.lastAvailableSnLocked, offered.firstAvailableSnLocked, n⟩,
        Trails offered.lastAvailableSnLocked m :=
      trails_snapshotHeartbeat (hlast.symm ▸ ho.next_pos)
    rw [hlast] at htrails
    exact ⟨_, htrails, hstart.after (hsnap.after (by simpa [snapshotMessages, hlast] using hsends))⟩

end StatefulWriter

end Zzdds.Rtps
