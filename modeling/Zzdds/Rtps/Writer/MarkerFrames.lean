import Zzdds.Rtps.Writer.Sound

/-! # What leaves the end markers alone

Only an ACKNACK and the end of a coherent set change the end markers the writer keeps; every other
operation of `writer_sm.zig` leaves them as they are. -/

namespace Zzdds.Rtps

namespace StatefulWriter

variable {w : StatefulWriter}

/-! ### Folds -/

theorem foldl_endMarkers {α : Type*} {f : StatefulWriter → α → StatefulWriter}
    (h : ∀ w x, (f w x).endMarkers = w.endMarkers) (l : List α) (w : StatefulWriter) :
    (l.foldl f w).endMarkers = w.endMarkers := by
  induction l generalizing w with
  | nil => rfl
  | cons x l ih => exact (ih (f w x)).trans (h w x)

theorem foldl_fst_endMarkers {α β : Type*} {f : StatefulWriter × β → α → StatefulWriter × β}
    (h : ∀ r x, (f r x).1.endMarkers = r.1.endMarkers) (l : List α) (r : StatefulWriter × β) :
    (l.foldl f r).1.endMarkers = r.1.endMarkers := by
  induction l generalizing r with
  | nil => rfl
  | cons x l ih => exact (ih (f r x)).trans (h r x)

/-! ### Messages and proxies -/

@[simp]
theorem bumpHb_endMarkers : w.bumpHb.endMarkers = w.endMarkers := rfl

@[simp]
theorem send_endMarkers (g : Guid) (locs : List Locator) (m : WriterMessage) :
    (w.send g locs m).endMarkers = w.endMarkers := rfl

@[simp]
theorem emit_endMarkers (ev : WriterEvent) : (w.emit ev).endMarkers = w.endMarkers := rfl

@[simp]
theorem flushedThrough_endMarkers (sn : ℤ) : (w.flushedThrough sn).endMarkers = w.endMarkers := rfl

@[simp]
theorem setProxy_endMarkers (rp : ReaderProxy) : (w.setProxy rp).endMarkers = w.endMarkers := rfl

@[simp]
theorem removeProxy_endMarkers (g : Guid) : (w.removeProxy g).endMarkers = w.endMarkers := rfl

@[simp]
theorem sendData_endMarkers (g : Guid) (locs : List Locator) (m : WriterMessage) :
    (w.sendData g locs m).1.endMarkers = w.endMarkers :=
  (OnlySent.sendData w g locs m).endMarkers

@[simp]
theorem reportReady_endMarkers (g : Guid) (b : Bool) :
    (w.reportReady g b).endMarkers = w.endMarkers :=
  (OnlySent.reportReady w g b).endMarkers

@[simp]
theorem modifyMatch_endMarkers (m : ReaderMatch) (f : ReaderProxy → ReaderProxy) :
    (w.modifyMatch m f).endMarkers = w.endMarkers := by
  unfold modifyMatch
  split <;> rfl

@[simp]
theorem trimAckedLocked_endMarkers : w.trimAckedLocked.endMarkers = w.endMarkers := by
  unfold trimAckedLocked
  split_ifs <;> rfl

@[simp]
theorem heartbeat_endMarkers (rp : ReaderProxy) (final : Bool) (lastSn : ℤ)
    (firstSnOverride : Option ℤ) :
    (w.sendHeartbeatToProxyLockedWithLastSnAndFirstSn rp final lastSn firstSnOverride).endMarkers =
      w.endMarkers :=
  (OnlySent.sendHeartbeatToProxyLockedWithLastSnAndFirstSn w rp final lastSn
    firstSnOverride).endMarkers

@[simp]
theorem heartbeatAll_endMarkers (firstSnOverride : Option ℤ) :
    (w.heartbeatAll firstSnOverride).endMarkers = w.endMarkers := by
  unfold heartbeatAll
  apply foldl_endMarkers
  intro w' rp
  split
  · exact heartbeat_endMarkers rp false _ firstSnOverride
  · rfl

@[simp]
theorem sendHeartbeatUnlocked_endMarkers (g : Guid) (startSn : ℤ) (locs : List Locator)
    (final : Bool) (lastSn : ℤ) (count : ℕ) (cacheFirst : ℤ) :
    (w.sendHeartbeatUnlocked g startSn locs final lastSn count cacheFirst).endMarkers =
      w.endMarkers := by
  unfold sendHeartbeatUnlocked
  dsimp only
  split_ifs <;> rfl

theorem sendHeartbeat_endMarkers (final liveliness : Bool) :
    (w.sendHeartbeat final liveliness).endMarkers = w.endMarkers := by
  unfold sendHeartbeat
  exact foldl_endMarkers (fun _ _ => (OnlySent.periodicHeartbeat _ _).endMarkers) _ _

/-! ### Samples -/

theorem OnlySent.sendFragsLoop (rp : ReaderProxy) (ch : CacheChange) :
    ∀ (n fragNum : ℕ) (w : StatefulWriter), OnlySent w (w.sendFragsLoop rp ch n fragNum).1
  | 0, _, w => .refl w
  | n + 1, fragNum, w => by
      rw [StatefulWriter.sendFragsLoop]
      have hd := OnlySent.sendData w rp.guid rp.selectedLocators
        (.dataFrag ch fragNum (fragNum == 1))
      rcases he : w.sendData rp.guid rp.selectedLocators (.dataFrag ch fragNum (fragNum == 1))
        with ⟨w', took⟩
      rw [he] at hd
      cases took with
      | true => exact hd.trans (OnlySent.sendFragsLoop rp ch n (fragNum + 1) w')
      | false => exact hd

theorem OnlySent.sendFrags (w : StatefulWriter) (rp : ReaderProxy) (ch : CacheChange)
    (hbCount firstFrag : ℕ) :
    OnlySent w (w.sendFragsToProxyLocked rp ch hbCount firstFrag).1 := by
  unfold StatefulWriter.sendFragsToProxyLocked
  split
  · exact .refl w
  · have hl := OnlySent.sendFragsLoop rp ch (w.config.numFrags ch + 1 - firstFrag) firstFrag w
    split
    next heq =>
      rw [heq] at hl
      exact hl
    next heq =>
      rw [heq] at hl
      exact hl.trans (.send _ _ _ _)

theorem Alike.foldl {α : Type*} {f : StatefulWriter → α → StatefulWriter}
    (h : ∀ w x, Alike w (f w x)) (l : List α) (w : StatefulWriter) : Alike w (l.foldl f w) := by
  induction l generalizing w with
  | nil => exact .refl w
  | cons x l ih => exact (h w x).trans (ih (f w x))

theorem Alike.sendFragmentedTo (ch : CacheChange) (hbCount : ℕ) (w : StatefulWriter)
    (rp : ReaderProxy) : Alike w (sendFragmentedTo ch hbCount w rp) := by
  unfold StatefulWriter.sendFragmentedTo
  split_ifs
  · exact .refl w
  · exact .setProxy w _
  · exact .refl w
  · have h := (OnlySent.sendFrag1ToProxyLocked w rp ch hbCount).toAlike
    split
    next heq =>
      rw [heq] at h
      exact h
    next heq =>
      rw [heq] at h
      exact h.trans (.setProxy _ _)
  · have h := (OnlySent.sendFrags w rp ch hbCount 1).toAlike
    split
    next heq =>
      rw [heq] at h
      exact h
    next heq =>
      rw [heq] at h
      exact h.trans (.setProxy _ _)

/-- A sample that goes out leaves the history and the markers alone. -/
theorem sendFragmented_rest (ch : CacheChange) :
    (w.sendFragmented ch).cache = w.cache ∧ (w.sendFragmented ch).endMarkers = w.endMarkers := by
  have h := (OnlySent.bumpHb w).toAlike.trans
    (Alike.foldl (Alike.sendFragmentedTo ch w.bumpHb.hbCount) w.readerProxies w.bumpHb)
  exact ⟨h.cache, h.endMarkers⟩

theorem snapshotProxies_alike (ch : CacheChange) (trailingHb : Bool) :
    Alike w (w.snapshotProxies ch trailingHb).1 := by
  have hfold : ∀ (l : List ReaderProxy) (r : StatefulWriter × List ProxySnapshot),
      Alike w r.1 → Alike w (l.foldl (snapshotProxy ch trailingHb w.lastAvailableSnLocked
        w.firstAvailableSnLocked) r).1 := by
    intro l
    induction l with
    | nil => exact fun r h => h
    | cons rp l ih =>
      rintro ⟨w', snaps⟩ h
      rw [List.foldl_cons]
      apply ih
      refine h.trans ?_
      unfold snapshotProxy
      dsimp only
      split_ifs
      · exact .refl w'
      · exact .setProxy w' _
      · exact .refl w'
      · exact (OnlySent.bumpHb w').toAlike.trans (.setProxy _ _)
      · exact (OnlySent.bumpHb w').toAlike
      · exact .setProxy w' _
      · exact .refl w'
  exact hfold w.readerProxies (w, []) (.refl w)

theorem sendChangeToAllLocked_rest (ch : CacheChange) (trailingHb : Bool) (ret : SendReturn) :
    (w.sendChangeToAllLocked ch trailingHb ret).1.cache = w.cache ∧
    (w.sendChangeToAllLocked ch trailingHb ret).1.endMarkers = w.endMarkers := by
  unfold sendChangeToAllLocked
  dsimp only
  split
  · exact sendFragmented_rest ch
  · have h := snapshotProxies_alike (w := w.emit (.offer ch.sequenceNumber ret.atOnce)) ch
      trailingHb
    exact ⟨h.cache, h.endMarkers⟩

theorem endSends_rest (sn : ℤ) (done : List ProxySnapshot) :
    (w.endSends sn done).cache = w.cache ∧ (w.endSends sn done).endMarkers = w.endMarkers := by
  unfold endSends
  dsimp only
  split
  · have hstep : ∀ w s, Alike w (endSendLocked sn w s) := by
      intro w s
      unfold endSendLocked modifyMatch
      split
      · exact .setProxy w _
      · exact .refl w
    have h := Alike.foldl hstep done (w.flushedThrough sn)
    exact ⟨h.cache, h.endMarkers⟩
  · exact ⟨rfl, rfl⟩

theorem write_endMarkers (s : Sample) (suspended : Bool) :
    (w.write s suspended).1.endMarkers = w.endMarkers := by
  unfold write
  dsimp only
  split
  · rfl
  · split
    · rfl
    · next ch _ =>
      have h := (sendChangeToAllLocked_rest
        (w := (w.addSample s).emit (.wrote w.cache.nextSn suspended)) ch true .write).2
      split
      next heq =>
        rw [heq] at h
        exact trimAckedLocked_endMarkers.trans h
      next heq =>
        rw [heq] at h
        exact h

theorem beginCoherentSet_endMarkers (isCoherentWindow : Bool) :
    (w.beginCoherentSet isCoherentWindow).endMarkers = w.endMarkers := by
  unfold beginCoherentSet
  split <;> rfl

/-! ### Requests -/

theorem handleNackFrag_endMarkers {reader : Guid} {writerSn : ℤ} {fragSet : FragmentNumberSet}
    {count : Int32} {w' : StatefulWriter}
    (h : w.handleNackFrag reader writerSn fragSet count = some w') :
    w'.endMarkers = w.endMarkers := by
  unfold handleNackFrag at h
  split at h
  · cases h
    rfl
  · split at h
    · cases h
      rfl
    · split at h
      · cases h
        rfl
      · split at h
        · cases h
          rfl
        · dsimp only at h
          split at h
          · cases h
            rfl
          · split at h
            · cases h
            · cases h
              rw [send_endMarkers, bumpHb_endMarkers]
              exact foldl_endMarkers (fun w' _ => send_endMarkers (w := w') _ _ _) _ _

/-! ### Replay and resume -/

@[simp]
theorem primeFragmented_endMarkers (rp : ReaderProxy) :
    (w.primeFragmented rp).endMarkers = w.endMarkers :=
  (OnlySent.primeFragmented w rp).endMarkers

theorem replayItem_endMarkers (rp : ReaderProxy) (item : BatchItem) :
    (replayItem rp w item).endMarkers = w.endMarkers := by
  cases item with
  | marker m => exact sendData_endMarkers _ _ _
  | sample ch =>
    unfold replayItem
    dsimp only
    split
    · exact (OnlySent.sendFrags w.bumpHb rp ch _ 1).endMarkers
    · rfl

theorem replayHistoryToProxyLocked_endMarkers (rp : ReaderProxy) :
    (w.replayHistoryToProxyLocked rp).endMarkers = w.endMarkers := by
  unfold replayHistoryToProxyLocked
  split_ifs
  · rfl
  · exact (primeFragmented_endMarkers rp).trans (heartbeat_endMarkers rp false _ none)
  · rfl
  · rfl
  · exact foldl_endMarkers (fun _ => replayItem_endMarkers rp) _ _

theorem resyncIfGenerationChangedLocked_endMarkers (gens : Locator → UInt32) (rp : ReaderProxy) :
    (resyncIfGenerationChangedLocked gens w rp).endMarkers = w.endMarkers := by
  unfold resyncIfGenerationChangedLocked
  dsimp only
  split
  · rfl
  · exact replayHistoryToProxyLocked_endMarkers _

theorem checkConnectionGenerations_endMarkers (gens : Locator → UInt32) :
    (w.checkConnectionGenerations gens).endMarkers = w.endMarkers :=
  foldl_endMarkers (fun _ => resyncIfGenerationChangedLocked_endMarkers gens) _ _

theorem removeMatchedReader_endMarkers (g : Guid) :
    (w.removeMatchedReader g).endMarkers = w.endMarkers := by
  unfold removeMatchedReader
  split
  · rfl
  · dsimp only
    split <;> simp

/-- The writer a batch leaves when it starts. -/
def BatchStart.writer (w : StatefulWriter) : BatchStart → StatefulWriter
  | .nothing => w
  | .sent w _ => w
  | .release w _ => w

theorem sendBatchFragmented_endMarkers (rp : ReaderProxy) (ch : CacheChange) (after : ℤ) :
    (w.sendBatchFragmented rp ch after).1.endMarkers = w.endMarkers := by
  unfold sendBatchFragmented
  dsimp only
  split
  · have h := (OnlySent.sendFrag1ToProxyLocked w.bumpHb rp ch w.bumpHb.hbCount).endMarkers
    split
    next heq =>
      rw [heq] at h
      exact h
    next heq =>
      rw [heq] at h
      exact h
  · have h := (OnlySent.sendFrags w.bumpHb rp ch w.bumpHb.hbCount
      (if rp.unsentFromSn = some ch.sequenceNumber then rp.unsentFrag else 1)).endMarkers
    split
    next heq =>
      rw [heq] at h
      exact h
    next heq =>
      rw [heq] at h
      exact h

theorem replayBatchUnlocked_endMarkers (rp : ReaderProxy) (after : ℤ) (maxChanges : ℕ) :
    ((w.replayBatchUnlocked rp after maxChanges).writer w).endMarkers = w.endMarkers := by
  unfold replayBatchUnlocked
  split
  · rfl
  · split
    · rfl
    · split
      · exact sendBatchFragmented_endMarkers rp _ after
      · show (if w.config.resumeHeld then _ else w).endMarkers = w.endMarkers
        split <;> rfl
    · show (if w.config.resumeHeld then _ else w).endMarkers = w.endMarkers
      split <;> rfl

theorem holdReplay_endMarkers (m : ReaderMatch) (sent : Batch) :
    (w.holdReplay m sent).endMarkers = w.endMarkers :=
  modifyMatch_endMarkers m _

theorem replayLoop_endMarkers (m : ReaderMatch) (historyThrough : ℤ) :
    ∀ (fuel : ℕ) (w : StatefulWriter) (sentThrough : ℤ) (catchUpRounds : ℕ),
      (replayLoop m historyThrough fuel w sentThrough catchUpRounds).1.endMarkers = w.endMarkers
  | 0, w, _, _ => rfl
  | fuel + 1, w, sentThrough, catchUpRounds => by
      rw [replayLoop]
      split
      · exact reportReady_endMarkers m.guid true
      next rp _ =>
        dsimp only
        split
        · exact reportReady_endMarkers m.guid true
        · have hb := replayBatchUnlocked_endMarkers (w := w) rp sentThrough (2 ^ 64 - 1)
          split
          · exact reportReady_endMarkers m.guid true
          next w' sent heq =>
            rw [heq] at hb
            split
            · exact (reportReady_endMarkers m.guid true).trans
                ((holdReplay_endMarkers m sent).trans hb)
            · exact (replayLoop_endMarkers m historyThrough fuel w' sent.through _).trans hb
          next w' items heq =>
            rw [heq] at hb
            exact hb

theorem afterReplayBatch_endMarkers (m : ReaderMatch) (sent : Batch) (historyThrough : ℤ)
    (catchUpRounds : ℕ) :
    (w.afterReplayBatch m sent historyThrough catchUpRounds).1.endMarkers = w.endMarkers := by
  unfold afterReplayBatch
  split
  · exact (reportReady_endMarkers m.guid true).trans (holdReplay_endMarkers m sent)
  · exact replayLoop_endMarkers m historyThrough _ w sent.through catchUpRounds

theorem replayHistoryToProxyUnlocked_endMarkers (rp : ReaderProxy) :
    (w.replayHistoryToProxyUnlocked rp).1.endMarkers = w.endMarkers := by
  unfold replayHistoryToProxyUnlocked
  split
  · dsimp only
    split <;> simp
  · split
    · exact (primeFragmented_endMarkers rp).trans (heartbeat_endMarkers rp false _ none)
    · exact replayLoop_endMarkers rp.readerMatch w.lastSentSnLocked w.replayFuel _ 0 0

theorem resumeLoop_endMarkers :
    ∀ (fuel : ℕ) (w : StatefulWriter) (i : ℕ) (m : ReaderMatch) (budget : ℕ),
      (resumeLoop fuel w i m budget).1.endMarkers = w.endMarkers
  | 0, w, _, _, _ => trimAckedLocked_endMarkers
  | fuel + 1, w, i, m, budget => by
      have hnext : ∀ (w' : StatefulWriter) (budget : ℕ),
          (resumeNext fuel w' i budget).1.endMarkers = w'.endMarkers := by
        intro w' budget
        unfold resumeNext
        split
        · exact trimAckedLocked_endMarkers
        · exact resumeLoop_endMarkers fuel w' (i + 1) _ budget
      rw [resumeLoop]
      dsimp only
      split
      · exact hnext w budget
      next rp _ =>
        split
        · exact hnext w budget
        next held _ =>
          split_ifs
          · exact hnext w budget
          · exact trimAckedLocked_endMarkers
          · have hb := replayBatchUnlocked_endMarkers (w := w) rp (held - 1) budget
            split
            · exact hnext (w.setProxy _) budget
            next w' sent heq =>
              rw [heq] at hb
              split
              · exact (hnext (w'.modifyMatch m _) _).trans ((modifyMatch_endMarkers m _).trans hb)
              · exact (resumeLoop_endMarkers fuel (w'.modifyMatch m _) i m _).trans
                  ((modifyMatch_endMarkers m _).trans hb)
            next w' items heq =>
              rw [heq] at hb
              exact hb

theorem resumeFrom_endMarkers (i budget : ℕ) :
    (w.resumeFrom i budget).1.endMarkers = w.endMarkers := by
  unfold resumeFrom
  split
  · exact trimAckedLocked_endMarkers
  · exact resumeLoop_endMarkers _ w i _ budget

theorem afterResumeBatch_endMarkers (m : ReaderMatch) (sent : Batch) (i : ℕ) (held : ℤ)
    (budget : ℕ) : (w.afterResumeBatch m sent i held budget).1.endMarkers = w.endMarkers := by
  unfold afterResumeBatch
  split
  · exact resumeFrom_endMarkers (i + 1) budget
  · dsimp only
    split
    · exact resumeFrom_endMarkers (i + 1) _
    · exact resumeLoop_endMarkers _ _ i m _

theorem returnFromBatch_endMarkers (m : ReaderMatch) (sent : Batch) (ret : BatchReturn) :
    (w.returnFromBatch m sent ret).1.endMarkers = w.endMarkers := by
  have hdone : (if w.config.resumeHeld then
      w.modifyMatch m (fun rp => { rp with sendingSn := none }) else w).endMarkers =
      w.endMarkers := by
    split
    · exact modifyMatch_endMarkers m _
    · rfl
  cases ret with
  | replay historyThrough catchUpRounds =>
    exact (afterReplayBatch_endMarkers m sent historyThrough catchUpRounds).trans hdone
  | resume i held budget => exact (afterResumeBatch_endMarkers m sent i held budget).trans hdone

/-! ### Matching a reader -/

theorem addOrRefreshMatchedReaderWith_endMarkers (m : MatchedReader) (gens : Locator → UInt32)
    (isCurrent : Bool) :
    (w.addOrRefreshMatchedReaderWith m gens isCurrent).1.endMarkers = w.endMarkers := by
  unfold addOrRefreshMatchedReaderWith
  split
  · rfl
  · split
    · exact resyncIfGenerationChangedLocked_endMarkers gens _
    · dsimp only
      unfold greet
      split_ifs
      · exact replayHistoryToProxyUnlocked_endMarkers _
      · unfold sendInitialHeartbeatUnlocked
        split <;> rfl
      · exact reportReady_endMarkers _ _

/-! ### The combined send of end markers -/

theorem takeEOCProxyInfos_endMarkers : w.takeEOCProxyInfos.1.endMarkers = w.endMarkers := by
  unfold takeEOCProxyInfos
  split
  · rfl
  · apply foldl_fst_endMarkers
    rintro ⟨w', infos⟩ rp
    unfold takeEOCProxy
    dsimp only
    split_ifs <;> rfl

theorem sendCombinedEOCData_endMarkers (infos : List EOCProxyInfo) :
    (w.sendCombinedEOCData infos).1.endMarkers = w.endMarkers := by
  unfold sendCombinedEOCData
  apply foldl_fst_endMarkers
  rintro ⟨w', infos'⟩ dest
  unfold sendCombinedTo
  dsimp only
  split
  · rfl
  · exact foldl_endMarkers (fun w' _ => send_endMarkers (w := w') _ _ _) _ _

theorem flushGroupEOCHBOnly_endMarkers (unsent : List ReaderMatch) :
    (w.flushGroupEOCHBOnly unsent).endMarkers = w.endMarkers := by
  unfold flushGroupEOCHBOnly
  split
  · rfl
  · dsimp only
    rw [heartbeatAll_endMarkers, flushedThrough_endMarkers]
    split
    · exact foldl_endMarkers (fun w' m => modifyMatch_endMarkers (w := w') m _) _ _
    · rfl

end StatefulWriter

end Zzdds.Rtps
