import Zzdds.Rtps.Writer.Growth
import Zzdds.Rtps.Writer.MarkerFrames

/-! # The end markers a writer keeps

`retireEndMarkersLocked` of `writer_sm.zig` runs after every acknowledgement and at every set end.
Its first pass drops the markers nothing needs, its second the oldest of those over
`MAX_END_MARKERS`.  The second spares a marker whose set is cached and the one of the combined
send, but not one that a held reader is still to be sent. -/

namespace Zzdds.Rtps

/-- In a sorted history the bisection finds a change of the range if there is one. -/
theorem HistoryCache.hasWriterChangeIn_iff {c : HistoryCache}
    (hs : (c.changes.map (·.sequenceNumber)).Pairwise (· < ·)) (first last : ℤ) :
    c.hasWriterChangeIn first last = true ↔
      ∃ ch ∈ c.changes, first ≤ ch.sequenceNumber ∧ ch.sequenceNumber ≤ last := by
  have hlow : ∀ ch ∈ c.changes, first ≤ ch.sequenceNumber →
      ch ∈ c.changes.dropWhile (fun ch => ch.sequenceNumber < first) := by
    intro ch hch hle
    rw [← List.takeWhile_append_dropWhile (p := fun ch => decide (ch.sequenceNumber < first))
      (l := c.changes), List.mem_append] at hch
    rcases hch with hch | hch
    · have hlt := List.mem_takeWhile_imp hch
      simp only [decide_eq_true_eq] at hlt
      exact absurd hle (not_le.mpr hlt)
    · exact hch
  have hsub : (c.changes.dropWhile (fun ch => decide (ch.sequenceNumber < first))).Sublist
      c.changes := List.dropWhile_sublist _
  unfold hasWriterChangeIn
  split
  next hlt =>
    refine ⟨fun h => (nomatch h), ?_⟩
    rintro ⟨ch, -, hf, hl⟩
    exact absurd hlt (not_lt.mpr (hf.trans hl))
  next =>
    split
    next hd =>
      refine ⟨fun h => (nomatch h), ?_⟩
      rintro ⟨ch, hch, hf, -⟩
      have hmem := hlow ch hch hf
      rw [hd] at hmem
      cases hmem
    next ch₀ rest hd =>
      rw [hd] at hsub
      have hfirst : first ≤ ch₀.sequenceNumber := by
        have hnot := List.head?_dropWhile_not
          (fun ch : CacheChange => decide (ch.sequenceNumber < first)) c.changes
        rw [hd] at hnot
        simpa using hnot
      constructor
      · intro hle
        exact ⟨ch₀, hsub.subset List.mem_cons_self, hfirst, by simpa using hle⟩
      · rintro ⟨ch, hch, hf, hl⟩
        have hmem := hlow ch hch hf
        rw [hd] at hmem
        rcases List.mem_cons.mp hmem with rfl | hmem
        · simpa using hl
        · have hpair := hs.sublist (hsub.map _)
          rw [List.map_cons, List.pairwise_cons] at hpair
          have hlt := hpair.1 _ (List.mem_map_of_mem hmem)
          simpa using hlt.le.trans hl

namespace StatefulWriter

variable {w : StatefulWriter} {m : EndMarker}

/-! ### One retirement -/

/-- The marker's set is cached, or the marker is to go out with those of the other writers. -/
def protectsMarker (w : StatefulWriter) (m : EndMarker) : Bool :=
  w.cache.hasWriterChangeIn m.firstSn m.lastSn || some m.sn == w.pendingEocSn

/-- What the first pass leaves. -/
def keptMarkers (w : StatefulWriter) : List EndMarker :=
  w.endMarkers.filter (fun m =>
    w.protectsMarker m || !w.allProxiesAckedLocked m.sn || w.holdsLocked m.sn)

/-- What the second pass takes out of the markers `ms`. -/
def excessOf (w : StatefulWriter) : ℕ → List EndMarker → List EndMarker
  | 0, _ => []
  | _ + 1, [] => []
  | excess + 1, m :: ms =>
      if w.protectsMarker m then w.excessOf (excess + 1) ms else m :: w.excessOf excess ms

/-- The markers the second pass drops. -/
def excessMarkers (w : StatefulWriter) : List EndMarker :=
  w.excessOf (w.keptMarkers.length - MAX_END_MARKERS) w.keptMarkers

theorem retireEndMarkersLocked_endMarkers : w.retireEndMarkersLocked.endMarkers =
    w.dropExcessMarkers (w.keptMarkers.length - MAX_END_MARKERS) w.keptMarkers := by
  simp only [retireEndMarkersLocked, keptMarkers, protectsMarker]

theorem dropExcessMarkers_cons (excess : ℕ) (m : EndMarker) (ms : List EndMarker) :
    w.dropExcessMarkers (excess + 1) (m :: ms) =
      if w.protectsMarker m then m :: w.dropExcessMarkers (excess + 1) ms
      else w.dropExcessMarkers excess ms := by
  rw [dropExcessMarkers]
  rfl

/-- The second pass parts the markers into what it leaves and what it takes out. -/
theorem dropExcessMarkers_perm : ∀ (excess : ℕ) (ms : List EndMarker),
    (w.dropExcessMarkers excess ms ++ w.excessOf excess ms).Perm ms
  | 0, ms => by rw [dropExcessMarkers, excessOf, List.append_nil]
  | _ + 1, [] => by rw [dropExcessMarkers, excessOf, List.append_nil]
  | excess + 1, m :: ms => by
      rw [dropExcessMarkers_cons, excessOf]
      split
      · exact (dropExcessMarkers_perm (excess + 1) ms).cons m
      · exact List.perm_middle.trans ((dropExcessMarkers_perm excess ms).cons m)

theorem not_protects_of_excess : ∀ (excess : ℕ) (ms : List EndMarker), m ∈ w.excessOf excess ms →
    w.protectsMarker m = false
  | 0, _, h => by
      rw [excessOf] at h
      cases h
  | _ + 1, [], h => by
      rw [excessOf] at h
      cases h
  | excess + 1, m' :: ms, h => by
      rw [excessOf] at h
      split at h
      · exact not_protects_of_excess (excess + 1) ms h
      next hp =>
        rcases List.mem_cons.mp h with rfl | h
        · simpa using hp
        · exact not_protects_of_excess excess ms h

/-- The second pass takes out as many as it is to, or leaves only protected ones. -/
theorem excessOf_length : ∀ (excess : ℕ) (ms : List EndMarker),
    (w.excessOf excess ms).length = excess ∨
      ∀ m ∈ w.dropExcessMarkers excess ms, w.protectsMarker m = true
  | 0, _ => by
      left
      rw [excessOf]
      rfl
  | _ + 1, [] => by
      right
      rw [dropExcessMarkers]
      exact fun _ h => by cases h
  | excess + 1, m :: ms => by
      rw [dropExcessMarkers_cons, excessOf]
      split
      next hp =>
        refine (excessOf_length (excess + 1) ms).imp_right fun h m' hm' => ?_
        rcases List.mem_cons.mp hm' with rfl | hm'
        · exact hp
        · exact h m' hm'
      next => exact (excessOf_length excess ms).imp_left fun h => by rw [List.length_cons, h]

/-- After a retirement at most `MAX_END_MARKERS` markers are left, unless all are protected. -/
theorem retireEndMarkersLocked_bound (w : StatefulWriter) :
    w.retireEndMarkersLocked.endMarkers.length ≤ MAX_END_MARKERS ∨
      ∀ m ∈ w.retireEndMarkersLocked.endMarkers, w.protectsMarker m = true := by
  rw [retireEndMarkersLocked_endMarkers]
  refine (excessOf_length (w.keptMarkers.length - MAX_END_MARKERS) w.keptMarkers).imp_left ?_
  intro h
  have hp := (dropExcessMarkers_perm (w := w) (w.keptMarkers.length - MAX_END_MARKERS)
    w.keptMarkers).length_eq
  rw [List.length_append, h] at hp
  omega

theorem mem_retire_of_kept (hm : m ∈ w.keptMarkers) :
    m ∈ w.retireEndMarkersLocked.endMarkers ∨ m ∈ w.excessMarkers := by
  rw [retireEndMarkersLocked_endMarkers, ← List.mem_append]
  exact (dropExcessMarkers_perm _ _).mem_iff.mpr hm

/-- A marker stays unless nothing needs it or it is in excess. -/
theorem mem_retire_of_needed (hm : m ∈ w.endMarkers)
    (hn : w.protectsMarker m = true ∨ w.holdsLocked m.sn = true) :
    m ∈ w.retireEndMarkersLocked.endMarkers ∨ m ∈ w.excessMarkers := by
  refine mem_retire_of_kept (List.mem_filter.mpr ⟨hm, ?_⟩)
  rcases hn with hn | hn <;> simp [hn]

/-- A protected marker stays. -/
theorem mem_retire_of_protects (hm : m ∈ w.endMarkers) (hp : w.protectsMarker m = true) :
    m ∈ w.retireEndMarkersLocked.endMarkers := by
  rcases mem_retire_of_needed hm (.inl hp) with h | h
  · exact h
  · rw [not_protects_of_excess _ _ h] at hp
    cases hp

/-! ### Where an action retires markers -/

/-- The writer as it goes over its markers, and the marker it has just made. -/
structure Retirement where
  writer : StatefulWriter
  made : Option EndMarker

/-- `addMarker`, before it goes over the markers. -/
def withMarker (w : StatefulWriter) (m : EndMarker) (deferEoc : Bool) : StatefulWriter :=
  { w with
    cache := w.cache.allocSn.2
    endMarkers := w.endMarkers ++ [m]
    pendingEocSn := if deferEoc then some m.sn else w.pendingEocSn }

theorem addMarker_eq (deferEoc : Bool) :
    w.addMarker m deferEoc = (w.withMarker m deferEoc).retireEndMarkersLocked := rfl

/-- The retirement of `sendSetEnd`. -/
def setEndRetirement (w : StatefulWriter) (e : EndSet) : Option Retirement :=
  if e.mode ≠ .coherentOnly ∧ e.mode ≠ .full then none
  else some ⟨w.withMarker (newMarker e w.cache.nextSn) e.deferEoc, newMarker e w.cache.nextSn⟩

/-- The retirement of `flushWindow`, if it comes to the set's end. -/
def windowRetirement (w : StatefulWriter) (e : EndSet) : List ℤ → Option Retirement
  | [] => w.setEndRetirement e
  | sn :: rest =>
      match w.cache.getChange sn with
      | none => w.windowRetirement e rest
      | some ch =>
          match w.sendChangeToAllLocked ch false (.window rest e) with
          | (_, some _) => none
          | (w, none) => w.windowRetirement e rest

def closeRetirement (w : StatefulWriter) (e : EndSet) : Option Retirement :=
  if e.coherentSns = [] ∧ !e.endsGroupSet then none
  else (w.tagSet e).1.windowRetirement (w.tagSet e).2 (w.tagSet e).2.coherentSns

def preWindowRetirement (w : StatefulWriter) (e : EndSet) : List ℤ → Option Retirement
  | [] => w.closeRetirement e
  | sn :: rest =>
      match w.cache.getChange sn with
      | none => w.preWindowRetirement e rest
      | some ch =>
          match w.sendChangeToAllLocked ch true (.preWindow rest e) with
          | (_, some _) => none
          | (w, none) => w.preWindowRetirement e rest

/-- The retirement of `endCoherentSet`. -/
def endRetirement (w : StatefulWriter) (e : EndSet) : Option Retirement :=
  let allSns := w.coherentPendingSns
  let e := { e with coherentSns := allSns.drop w.coherentWindowStart }
  if allSns = [] ∧ !e.endsGroupSet then none
  else { w with coherentActive := false, coherentWindowStart := 0 }.preWindowRetirement e
    (allSns.take w.coherentWindowStart)

/-- The retirement of `handleAckNack`. -/
def ackRetirement (w : StatefulWriter) (reader : Guid) (highestSn : ℤ)
    (nackSet : SequenceNumberSet) (count : Int32) : Option Retirement :=
  if nackSet.base < 0 ∨ 256 < nackSet.numBits then none
  else
    match w.findReaderProxyLocked reader with
    | none => none
    | some rp =>
        if !rp.reliable then none
        else if !rp.suppressLiveData && !isNewerCount count rp.lastAckNackCount then none
        else some ⟨(w.setProxy
          { rp with highestAckedSn := max rp.highestAckedSn highestSn }).trimAckedLocked, none⟩

/-- The retirement of a task's step. -/
def taskRetirement (w : StatefulWriter) : Task → Option Retirement
  | .sendChange ch [] none done (.preWindow rest e) =>
      (w.endSends ch.sequenceNumber done).preWindowRetirement e rest
  | .sendChange ch [] none done (.window rest e) =>
      (w.endSends ch.sequenceNumber done).windowRetirement e rest
  | _ => none

/-! ### What follows a retirement -/

/-- The reader is sent a live marker. -/
def takesLive (rp : ReaderProxy) : Bool :=
  !(rp.suppressLiveData || rp.unsentFromSn.isSome) && !rp.selectedLocators.isEmpty

/-- A live marker would reach each reader it is for at once: none waits behind a send under way,
and the transport takes each of the sends. -/
structure SendsAtOnce (w : StatefulWriter) : Prop where
  idle : ∀ rp ∈ w.readerProxies, rp.suppressLiveData = false → rp.unsentFromSn = none →
    rp.sendingSn = none
  takes : w.config.resumeHeld = true → ∀ i < (w.readerProxies.filter takesLive).length,
    w.blocks (w.attempts + i) = false

/-- What becomes of the markers, the samples and the holds of a retirement's writer. -/
structure Retirement.LeadsTo (r : Retirement) (w' : StatefulWriter) : Prop where
  markers : w'.endMarkers = r.writer.retireEndMarkersLocked.endMarkers
  changes : ∀ ch ∈ w'.cache.changes, ch ∈ r.writer.cache.changes
  holds : ∀ sn, (∀ m ∈ r.made, sn < m.sn ∨ r.writer.SendsAtOnce) → w'.holdsLocked sn = true →
    r.writer.holdsLocked sn = true

/-- What became of `w` up to a retirement. -/
structure Retirement.ComesOf (r : Retirement) (w : StatefulWriter) : Prop where
  markers : r.writer.endMarkers = w.endMarkers ++ r.made.toList
  changes : (r.writer.cache.changes.map (·.sequenceNumber)).Sublist
    (w.cache.changes.map (·.sequenceNumber))
  made : ∀ m ∈ r.made, m.sn = w.cache.nextSn

/-- `w'` comes of `w`, by way of a retirement if there is one. -/
def Retires (w w' : StatefulWriter) : Option Retirement → Prop
  | none => w'.endMarkers = w.endMarkers
  | some r => r.ComesOf w ∧ r.LeadsTo w'

theorem holdsLocked_iff (w : StatefulWriter) (sn : ℤ) : w.holdsLocked sn = true ↔
    ∃ rp ∈ w.readerProxies, (∃ held ∈ rp.unsentFromSn, held ≤ sn) ∨
      ∃ held ∈ rp.sendingSn, held ≤ sn := by
  simp [holdsLocked, Option.any_eq_true]

theorem OnlySent.holdsLocked {w' : StatefulWriter} (h : OnlySent w w') (sn : ℤ) :
    w'.holdsLocked sn = w.holdsLocked sn := by
  rw [StatefulWriter.holdsLocked, StatefulWriter.holdsLocked, h.readerProxies]

/-- A proxy written back that holds from no earlier adds no hold. -/
theorem holdsLocked_setProxy {rp rp' : ReaderProxy} {sn : ℤ} (hm : rp ∈ w.readerProxies)
    (hu : ∀ held ∈ rp'.unsentFromSn, held ≤ sn → ∃ held ∈ rp.unsentFromSn, held ≤ sn)
    (hs : rp'.sendingSn = rp.sendingSn) (h : (w.setProxy rp').holdsLocked sn = true) :
    w.holdsLocked sn = true := by
  rw [holdsLocked_iff] at h ⊢
  obtain ⟨rp₀, hm₀, hold⟩ := h
  rcases mem_setProxy hm₀ with rfl | hm₀
  · refine ⟨rp, hm, ?_⟩
    rw [← hs]
    rcases hold with ⟨held, hh, hle⟩ | hold
    · exact .inl (hu held hh hle)
    · exact .inr hold
  · exact ⟨rp₀, hm₀, hold⟩

/-- A proxy written back with its hold as it was adds none. -/
theorem holdsLocked_setProxy_same {rp : ReaderProxy} (rp' : ReaderProxy) {sn : ℤ}
    (hm : rp ∈ w.readerProxies) (hu : rp'.unsentFromSn = rp.unsentFromSn)
    (hs : rp'.sendingSn = rp.sendingSn) (h : (w.setProxy rp').holdsLocked sn = true) :
    w.holdsLocked sn = true :=
  holdsLocked_setProxy hm (fun held hh hle => ⟨held, by rwa [hu] at hh, hle⟩) hs h

/-- Lowering the held start to `sn'` adds no hold below it. -/
theorem holdsLocked_markUnsent {rp : ReaderProxy} {sn sn' : ℤ} (hm : rp ∈ w.readerProxies)
    (hlt : sn < sn') (h : (w.setProxy (rp.markUnsent sn')).holdsLocked sn = true) :
    w.holdsLocked sn = true := by
  have hu : ∀ held ∈ (rp.markUnsent sn').unsentFromSn, held ≤ sn →
      ∃ held ∈ rp.unsentFromSn, held ≤ sn := by
    intro held hh hle
    rw [ReaderProxy.markUnsent] at hh
    cases hu : rp.unsentFromSn with
    | none =>
      rw [hu] at hh
      obtain rfl : sn' = held := Option.some.inj hh
      exact absurd hle (not_le.mpr hlt)
    | some cur =>
      rw [hu] at hh
      obtain rfl : min cur sn' = held := Option.some.inj hh
      exact ⟨cur, rfl, by omega⟩
  exact holdsLocked_setProxy hm hu rfl h

theorem sendLiveMarker_cases (m : EndMarker) (w : StatefulWriter) (rp : ReaderProxy) :
    ∃ w₁, OnlySent w w₁ ∧ (sendLiveMarker m w rp = w₁ ∨
      sendLiveMarker m w rp = w₁.setProxy (rp.markUnsent m.sn)) := by
  unfold sendLiveMarker
  split_ifs
  · exact ⟨w, .refl w, .inl rfl⟩
  · exact ⟨w, .refl w, .inr rfl⟩
  · exact ⟨w, .refl w, .inl rfl⟩
  · have ho : OnlySent w (w.sendEndMarkerToProxyLocked rp m).1 := .sendData _ _ _ _
    split
    next w' heq =>
      rw [heq] at ho
      exact ⟨w', ho, .inl rfl⟩
    next w' heq =>
      rw [heq] at ho
      exact ⟨w', ho, .inr rfl⟩

/-- The live sends of a marker add no hold below it. -/
theorem sendLiveMarkers_holds {sn : ℤ} (hlt : sn < m.sn) :
    ∀ (l : List ReaderProxy) (w : StatefulWriter), Ahead l w →
      (l.foldl (sendLiveMarker m) w).holdsLocked sn = true → w.holdsLocked sn = true
  | [], _, _, h => h
  | rp :: l, w, ha, h => by
      obtain ⟨w₁, ho, hw | hw⟩ := sendLiveMarker_cases m w rp
      · rw [List.foldl_cons, hw] at h
        have ha' : Ahead l w₁ := ha.tail fun rp' hm _ => by rwa [ho.readerProxies]
        rw [← ho.holdsLocked]
        exact sendLiveMarkers_holds hlt l w₁ ha' h
      · rw [List.foldl_cons, hw] at h
        have hm : rp ∈ w₁.readerProxies := by
          rw [ho.readerProxies]
          exact ha.1 rp List.mem_cons_self
        have ha' : Ahead l (w₁.setProxy (rp.markUnsent m.sn)) := by
          refine ha.tail fun rp' hm' hne => mem_setProxy_of_ne ?_ hne
          rwa [ho.readerProxies]
        rw [← ho.holdsLocked]
        exact holdsLocked_markUnsent hm hlt (sendLiveMarkers_holds hlt l _ ha' h)

/-- A send the transport takes counts as one attempt. -/
theorem sendData_took (g : Guid) {locs : List Locator} (msg : WriterMessage)
    (hl : locs.isEmpty = false)
    (hb : w.config.resumeHeld = true → w.blocks w.attempts = false) :
    ∃ w₁, w.sendData g locs msg = (w₁, true) ∧ OnlySent w w₁ ∧
      w₁.blocks = w.blocks ∧ w₁.attempts = w.attempts + 1 := by
  have ho := OnlySent.sendData w g locs msg
  unfold sendData at ho ⊢
  simp only [hl, Bool.false_eq_true, if_false] at ho ⊢
  split at ho
  next hblock =>
    rw [if_pos hblock]
    cases hr : w.config.resumeHeld with
    | true =>
      rw [hb hr] at hblock
      cases hblock
    | false => exact ⟨_, rfl, ho, rfl, rfl⟩
  next hblock =>
    rw [if_neg hblock]
    exact ⟨_, rfl, ho, rfl, rfl⟩

/-- If every reader takes the marker at once, no proxy changes. -/
theorem sendLiveMarkers_atOnce : ∀ (l : List ReaderProxy) (w : StatefulWriter),
    (∀ rp ∈ l, rp.suppressLiveData = false → rp.unsentFromSn = none → rp.sendingSn = none) →
    (w.config.resumeHeld = true → ∀ i < (l.filter takesLive).length,
      w.blocks (w.attempts + i) = false) →
    OnlySent w (l.foldl (sendLiveMarker m) w)
  | [], w, _, _ => .refl w
  | rp :: l, w, hidle, htake => by
      have hidle' : ∀ rp' ∈ l, rp'.suppressLiveData = false → rp'.unsentFromSn = none →
          rp'.sendingSn = none := fun rp' hm => hidle rp' (List.mem_cons_of_mem _ hm)
      rw [List.foldl_cons]
      by_cases ht : takesLive rp = true
      · rw [List.filter_cons_of_pos ht, List.length_cons] at htake
        simp only [takesLive, Bool.and_eq_true, Bool.not_eq_true', Bool.or_eq_false_iff,
          Option.isSome_eq_false_iff, Option.isNone_iff_eq_none] at ht
        obtain ⟨⟨hsup, hun⟩, hlocs⟩ := ht
        have hnone := hidle rp List.mem_cons_self hsup hun
        obtain ⟨w₁, hsend, ho, hblocks, hatt⟩ := sendData_took (w := w) rp.guid (.endMarker m)
          hlocs fun hr => htake hr 0 (Nat.succ_pos _)
        have hw : sendLiveMarker m w rp = w₁ := by
          simp only [sendLiveMarker, sendEndMarkerToProxyLocked, hsup, hun, hnone, hlocs, hsend,
            Option.isSome_none, Bool.or_self, Bool.false_eq_true, if_false]
        rw [hw]
        refine ho.trans (sendLiveMarkers_atOnce l w₁ hidle' ?_)
        intro hr i hi
        rw [ho.config] at hr
        rw [hblocks, hatt, Nat.add_assoc, Nat.add_comm 1 i]
        exact htake hr (i + 1) (Nat.succ_lt_succ hi)
      · rw [List.filter_cons_of_neg ht] at htake
        have hw : sendLiveMarker m w rp = w := by
          unfold sendLiveMarker
          split_ifs with h₁ h₂ h₃
          · rfl
          · rw [Bool.or_eq_true, not_or, Bool.not_eq_true, Bool.not_eq_true,
              Option.isSome_eq_false_iff, Option.isNone_iff_eq_none] at h₁
            rw [hidle rp List.mem_cons_self h₁.1 h₁.2] at h₂
            cases h₂
          · rfl
          · simp only [takesLive, Bool.and_eq_true, Bool.not_eq_true', not_and] at ht
            exact absurd (by simpa using h₃) (ht (by simpa using h₁))
        rw [hw]
        exact sendLiveMarkers_atOnce l w hidle' htake

theorem OnlySent.heartbeatAll (w : StatefulWriter) (firstSnOverride : Option ℤ) :
    OnlySent w (w.heartbeatAll firstSnOverride) := by
  have hfold : ∀ (l : List ReaderProxy) (w' : StatefulWriter), OnlySent w w' →
      OnlySent w (l.foldl (fun w' rp =>
        if rp.reliable then w'.sendHeartbeatToProxyLockedWithLastSnAndFirstSn rp false
          w.lastAvailableSnLocked firstSnOverride
        else w') w') := by
    intro l
    induction l with
    | nil => exact fun w' h => h
    | cons rp l ih =>
      intro w' h
      rw [List.foldl_cons]
      apply ih
      split
      · exact h.trans (.sendHeartbeatToProxyLockedWithLastSnAndFirstSn _ _ _ _ _)
      · exact h
  exact hfold w.readerProxies w (.refl w)

theorem finishSet_endMarkers (e : EndSet) : (w.finishSet e).1.endMarkers = w.endMarkers :=
  trimAckedLocked_endMarkers

theorem finishSet_changes (e : EndSet) :
    (w.finishSet e).1.cache.changes.Sublist w.cache.changes :=
  trimAckedLocked_changes _

theorem finishSet_readerProxies (e : EndSet) :
    (w.finishSet e).1.readerProxies = w.readerProxies :=
  trimAckedLocked_readerProxies

theorem SendsAtOnce.retire (h : w.SendsAtOnce) : w.retireEndMarkersLocked.SendsAtOnce := by
  rw [retireEndMarkersLocked_rest]
  exact ⟨h.idle, h.takes⟩

theorem holdsLocked_congr {w' : StatefulWriter} (h : w'.readerProxies = w.readerProxies) (sn : ℤ) :
    w'.holdsLocked sn = w.holdsLocked sn := by
  rw [holdsLocked, holdsLocked, h]

theorem finishSet_retires (e : EndSet) : Retires w (w.finishSet e).1 none :=
  finishSet_endMarkers e

/-- What leads to `w'` leads to what the end of the set makes of it. -/
theorem Retirement.LeadsTo.finishSet {r : Retirement} {w' : StatefulWriter} (h : r.LeadsTo w')
    (e : EndSet) : r.LeadsTo (w'.finishSet e).1 where
  markers := (finishSet_endMarkers e).trans h.markers
  changes := fun ch hch => h.changes ch ((finishSet_changes e).subset hch)
  holds := fun sn hsn hh => by
    rw [holdsLocked_congr (finishSet_readerProxies e)] at hh
    exact h.holds sn hsn hh

/-- The marker of a set, made and gone over with the others. -/
theorem withMarker_leadsTo (w : StatefulWriter) (m : EndMarker) (deferEoc : Bool) :
    (⟨w.withMarker m deferEoc, m⟩ : Retirement).LeadsTo
      (w.withMarker m deferEoc).retireEndMarkersLocked where
  markers := rfl
  changes := fun _ hch => by rwa [retireEndMarkersLocked_cache] at hch
  holds := fun sn _ hh => by rwa [holdsLocked_congr retireEndMarkersLocked_readerProxies] at hh

/-- The marker goes out to the live readers. -/
theorem Retirement.LeadsTo.live {v : StatefulWriter} {m : EndMarker} {firstSnOverride : Option ℤ}
    (h : (⟨v, m⟩ : Retirement).LeadsTo v.retireEndMarkersLocked) :
    (⟨v, m⟩ : Retirement).LeadsTo
      (((v.retireEndMarkersLocked.readerProxies.foldl (sendLiveMarker m)
        v.retireEndMarkersLocked).flushedThrough m.sn).heartbeatAll firstSnOverride) := by
  have hlive : ∀ w' : StatefulWriter,
      Alike v.retireEndMarkersLocked w' →
      (∀ sn, (sn < m.sn ∨ v.SendsAtOnce) → w'.holdsLocked sn = true → v.holdsLocked sn = true) →
      (⟨v, m⟩ : Retirement).LeadsTo ((w'.flushedThrough m.sn).heartbeatAll firstSnOverride) := by
    intro w' hal hholds
    have ho := OnlySent.heartbeatAll (w'.flushedThrough m.sn) firstSnOverride
    exact {
      markers := ho.endMarkers.trans (hal.endMarkers.trans h.markers)
      changes := fun ch hch => by
        rw [ho.cache] at hch
        refine h.changes ch ?_
        rw [← hal.cache]
        exact hch
      holds := fun sn hsn hh => by
        rw [ho.holdsLocked] at hh
        exact hholds sn (hsn m rfl) hh }
  have hal : Alike v.retireEndMarkersLocked (v.retireEndMarkersLocked.readerProxies.foldl
      (sendLiveMarker m) v.retireEndMarkersLocked) := by
    have hfold : ∀ (l : List ReaderProxy) (w' : StatefulWriter),
        Alike v.retireEndMarkersLocked w' →
        Alike v.retireEndMarkersLocked (l.foldl (sendLiveMarker m) w') := by
      intro l
      induction l with
      | nil => exact fun w' h => h
      | cons rp l ih =>
        intro w' hw
        rw [List.foldl_cons]
        apply ih
        obtain ⟨w₁, ho, he | he⟩ := sendLiveMarker_cases m w' rp
        · rw [he]
          exact hw.trans ho.toAlike
        · rw [he]
          exact (hw.trans ho.toAlike).trans (.setProxy _ _)
    exact hfold _ _ (.refl _)
  refine hlive _ hal ?_
  intro sn hsn hh
  have hsame : v.retireEndMarkersLocked.holdsLocked sn = v.holdsLocked sn :=
    holdsLocked_congr retireEndMarkersLocked_readerProxies sn
  rw [← hsame]
  rcases hsn with hlt | honce
  · exact sendLiveMarkers_holds hlt _ _ (ahead_self _) hh
  · rwa [(sendLiveMarkers_atOnce _ _ honce.retire.idle honce.retire.takes).holdsLocked] at hh

theorem sendSetEnd_retires (e : EndSet) :
    Retires w ((w.sendSetEnd e).finishSet e).1 (w.setEndRetirement e) := by
  unfold sendSetEnd setEndRetirement
  by_cases hmode : e.mode ≠ .coherentOnly ∧ e.mode ≠ .full
  · rw [if_pos hmode, if_pos hmode]
    exact (finishSet_endMarkers e).trans (heartbeatAll_endMarkers none)
  · rw [if_neg hmode, if_neg hmode]
    refine ⟨⟨rfl, .refl _, ?_⟩, ?_⟩
    · rintro m ⟨⟩
      rfl
    dsimp only
    rw [addMarker_eq]
    have h := withMarker_leadsTo w (newMarker e w.cache.nextSn) e.deferEoc
    split
    · exact h.finishSet e
    · exact h.live.finishSet e

theorem Retires.of_rest {w' w'' : StatefulWriter} {o : Option Retirement} (h : Retires w' w'' o)
    (hc : w'.cache.changes.map (·.sequenceNumber) = w.cache.changes.map (·.sequenceNumber))
    (hn : w'.cache.nextSn = w.cache.nextSn) (he : w'.endMarkers = w.endMarkers) :
    Retires w w'' o := by
  cases o with
  | none => exact h.trans he
  | some r =>
    obtain ⟨hr, hlead⟩ := h
    exact ⟨⟨by rw [hr.markers, he], by rw [← hc]; exact hr.changes,
      by rw [← hn]; exact hr.made⟩, hlead⟩

/-- One sample of a flush: `r` is what follows when it went out under the lock. -/
theorem offer_retires {ch : CacheChange} {trailingHb : Bool} {ret : SendReturn}
    {r : StatefulWriter → StatefulWriter × Option Task} {o : StatefulWriter → Option Retirement}
    (hr : ∀ w', Retires w' (r w').1 (o w')) :
    Retires w
      (match w.sendChangeToAllLocked ch trailingHb ret with
        | (w, some task) => (w, some task)
        | (w, none) => r w).1
      (match w.sendChangeToAllLocked ch trailingHb ret with
        | (_, some _) => none
        | (w, none) => o w) := by
  obtain ⟨hc, hm⟩ := sendChangeToAllLocked_rest (w := w) ch trailingHb ret
  rcases he : w.sendChangeToAllLocked ch trailingHb ret with ⟨w', _ | task⟩
  · rw [he] at hc hm
    exact (hr w').of_rest (by rw [hc]) (by rw [hc]) hm
  · rw [he] at hm
    exact hm

theorem flushWindow_retires (e : EndSet) : ∀ (rest : List ℤ) (w : StatefulWriter),
    Retires w (w.flushWindow e rest).1 (w.windowRetirement e rest)
  | [], w => by
      rw [flushWindow, windowRetirement]
      exact sendSetEnd_retires e
  | sn :: rest, w => by
      rw [flushWindow, windowRetirement]
      cases w.cache.getChange sn with
      | none => exact flushWindow_retires e rest w
      | some ch => exact offer_retires (flushWindow_retires e rest)

theorem closeSet_retires (e : EndSet) :
    Retires w (w.closeSet e).1 (w.closeRetirement e) := by
  unfold closeSet closeRetirement
  split
  · exact finishSet_retires e
  · obtain ⟨hc, hn, hm, -⟩ := w.tagSet_rest e
    exact (flushWindow_retires (w.tagSet e).2 _ (w.tagSet e).1).of_rest hc hn hm

theorem flushPreWindow_retires (e : EndSet) : ∀ (rest : List ℤ) (w : StatefulWriter),
    Retires w (w.flushPreWindow e rest).1 (w.preWindowRetirement e rest)
  | [], w => closeSet_retires e
  | sn :: rest, w => by
      rw [flushPreWindow, preWindowRetirement]
      cases w.cache.getChange sn with
      | none => exact flushPreWindow_retires e rest w
      | some ch => exact offer_retires (flushPreWindow_retires e rest)

theorem endCoherentSet_retires (e : EndSet) :
    Retires w (w.endCoherentSet e).1 (w.endRetirement e) := by
  unfold endCoherentSet endRetirement
  dsimp only
  split
  · exact finishSet_endMarkers _
  · exact (flushPreWindow_retires _ _ _).of_rest rfl rfl rfl

/-- What decides which markers stay is as it was, and no hold was added. -/
structure Settled (w w' : StatefulWriter) : Prop extends Alike w w' where
  holds : ∀ sn, w'.holdsLocked sn = true → w.holdsLocked sn = true

theorem OnlySent.settled {w' : StatefulWriter} (h : OnlySent w w') : Settled w w' :=
  ⟨h.toAlike, fun sn hh => by rwa [h.holdsLocked] at hh⟩

theorem Settled.trans {w' w'' : StatefulWriter} (h : Settled w w') (h' : Settled w' w'') :
    Settled w w'' :=
  ⟨h.toAlike.trans h'.toAlike, fun sn hh => h.holds sn (h'.holds sn hh)⟩

/-- A proxy is written back with its hold as it was. -/
theorem Settled.setProxy {rp : ReaderProxy} (rp' : ReaderProxy) (hm : rp ∈ w.readerProxies)
    (hu : rp'.unsentFromSn = rp.unsentFromSn) (hs : rp'.sendingSn = rp.sendingSn) :
    Settled w (w.setProxy rp') :=
  ⟨.setProxy w rp', fun _ h => holdsLocked_setProxy_same rp' hm hu hs h⟩

theorem Retirement.LeadsTo.settled {r : Retirement} {w' w'' : StatefulWriter} (h : r.LeadsTo w')
    (hs : Settled w' w'') : r.LeadsTo w'' where
  markers := hs.endMarkers.trans h.markers
  changes := fun ch hch => h.changes ch (by rwa [hs.cache] at hch)
  holds := fun sn hsn hh => h.holds sn hsn (hs.holds sn hh)

theorem answerAckNack_settled {rp : ReaderProxy} (hm : rp ∈ w.readerProxies)
    (nackSet : SequenceNumberSet) (count : Int32) (isFinal : Bool) :
    Settled w (w.answerAckNack rp nackSet count isFinal) := by
  have hrepair : OnlySent w ((nackedSns nackSet).foldl (repairSn rp) ⟨w, 1, 0⟩).writer :=
    (repair_does { sample := fun _ => True } none (nackedSns nackSet) ⟨w, 1, 0⟩
      fun _ _ _ => trivial).2
  unfold answerAckNack
  dsimp only
  generalize (nackedSns nackSet).foldl (repairSn rp) ⟨w, 1, 0⟩ = s at hrepair ⊢
  have hanswer : OnlySent w
      (if isFinal = true then s.writer else s.writer.answerNonFinal rp nackSet.base) := by
    split
    · exact hrepair
    · exact hrepair.trans (.answerNonFinal _ _ _)
  generalize (if isFinal = true then s.writer else s.writer.answerNonFinal rp nackSet.base) = w₁
    at hanswer ⊢
  split
  · exact hanswer.settled
  · have hm' : rp ∈ w₁.readerProxies := by rwa [hanswer.readerProxies]
    refine hanswer.settled.trans
      ((Settled.setProxy { rp with lastAckNackCount := some count } hm' rfl rfl).trans ?_)
    unfold followRepair sendHeartbeatToProxyLockedCapped sendHeartbeatToProxyLocked
      sendHeartbeatToProxyLockedWithLastSn
    dsimp only
    split
    · exact (OnlySent.sendHeartbeatToProxyLockedWithLastSnAndFirstSn _ _ _ _ _).settled
    · exact (OnlySent.sendHeartbeatToProxyLockedWithLastSnAndFirstSn _ _ _ _ _).settled

theorem retire_leadsTo (w : StatefulWriter) :
    (⟨w, none⟩ : Retirement).LeadsTo w.retireEndMarkersLocked where
  markers := rfl
  changes := fun _ hch => by rwa [retireEndMarkersLocked_cache] at hch
  holds := fun sn _ hh => by rwa [holdsLocked_congr retireEndMarkersLocked_readerProxies] at hh

theorem handleAckNack_retires (reader : Guid) (highestSn : ℤ) (nackSet : SequenceNumberSet)
    (count : Int32) (isFinal : Bool) :
    Retires w (w.handleAckNack reader highestSn nackSet count isFinal)
      (w.ackRetirement reader highestSn nackSet count) := by
  unfold handleAckNack ackRetirement
  split
  · rfl
  cases hf : w.findReaderProxyLocked reader with
  | none => rfl
  | some rp =>
    dsimp only
    split
    · rfl
    split
    · rfl
    refine ⟨⟨trimAckedLocked_endMarkers.trans (List.append_nil _).symm,
      (trimAckedLocked_changes _).map _, fun _ h => (by cases h)⟩, ?_⟩
    generalize hacked :
      ({ rp with highestAckedSn := max rp.highestAckedSn highestSn } : ReaderProxy) = acked
    have hm : acked ∈ (w.setProxy acked).trimAckedLocked.retireEndMarkersLocked.readerProxies := by
      rw [retireEndMarkersLocked_readerProxies, trimAckedLocked_readerProxies]
      refine mem_setProxy_self (mem_of_find hf) ?_
      rw [← hacked]
    generalize (w.setProxy acked).trimAckedLocked = v at hm ⊢
    generalize hafter : afterAck acked v.retireEndMarkersLocked.cache.minSn highestSn nackSet.base
      isFinal = rp'
    have hset : Settled v.retireEndMarkersLocked (v.retireEndMarkersLocked.setProxy rp') :=
      Settled.setProxy rp' hm (by rw [← hafter]; rfl) (by rw [← hafter]; rfl)
    have hm' : rp' ∈ (v.retireEndMarkersLocked.setProxy rp').readerProxies :=
      mem_setProxy_self hm (by rw [← hafter]; rfl)
    refine (retire_leadsTo v).settled (hset.trans ?_)
    have hanswer : Settled (v.retireEndMarkersLocked.setProxy rp')
        (if rp'.selectedLocators.isEmpty then v.retireEndMarkersLocked.setProxy rp'
          else (v.retireEndMarkersLocked.setProxy rp').answerAckNack rp' nackSet count
            isFinal) := by
      split
      · exact (OnlySent.refl _).settled
      · exact answerAckNack_settled hm' nackSet count isFinal
    split
    · exact hanswer.trans (OnlySent.reportReady _ reader true).settled
    · exact hanswer

/-- A marker spans samples of its set, or none. -/
def EndsSamples (m : EndMarker) (sns : List ℤ) : Prop := m.lastSn < m.firstSn ∨ m.lastSn ∈ sns

theorem setEndRetirement_made {e : EndSet} {r : Retirement} (h : w.setEndRetirement e = some r) :
    ∀ m ∈ r.made, EndsSamples m e.coherentSns := by
  unfold setEndRetirement at h
  split at h
  · cases h
  · cases h
    rintro m ⟨⟩
    unfold EndsSamples newMarker
    cases hl : e.coherentSns.getLast? with
    | none =>
      rw [List.getLast?_eq_none_iff.mp hl]
      exact .inl (sub_one_lt _)
    | some sn => exact .inr (List.mem_of_getLast? hl)

theorem windowRetirement_made {e : EndSet} {r : Retirement} :
    ∀ (rest : List ℤ) (w : StatefulWriter), w.windowRetirement e rest = some r →
      ∀ m ∈ r.made, EndsSamples m e.coherentSns
  | [], w, h => setEndRetirement_made (by rwa [windowRetirement] at h)
  | sn :: rest, w, h => by
      rw [windowRetirement] at h
      split at h
      · exact windowRetirement_made rest w h
      · split at h
        · cases h
        · exact windowRetirement_made rest _ h

theorem closeRetirement_made {e : EndSet} {r : Retirement} (h : w.closeRetirement e = some r) :
    ∀ m ∈ r.made, EndsSamples m e.coherentSns := by
  unfold closeRetirement at h
  split at h
  · cases h
  · have hmade := windowRetirement_made _ _ h
    rwa [tagSet_coherentSns] at hmade

theorem preWindowRetirement_made {e : EndSet} {r : Retirement} :
    ∀ (rest : List ℤ) (w : StatefulWriter), w.preWindowRetirement e rest = some r →
      ∀ m ∈ r.made, EndsSamples m e.coherentSns
  | [], w, h => closeRetirement_made (by rwa [preWindowRetirement] at h)
  | sn :: rest, w, h => by
      rw [preWindowRetirement] at h
      split at h
      · exact preWindowRetirement_made rest w h
      · split at h
        · cases h
        · exact preWindowRetirement_made rest _ h

theorem endRetirement_made {e : EndSet} {r : Retirement} (h : w.endRetirement e = some r) :
    ∀ m ∈ r.made, EndsSamples m (w.coherentPendingSns.drop w.coherentWindowStart) := by
  unfold endRetirement at h
  dsimp only at h
  split at h
  · cases h
  · exact preWindowRetirement_made _ _ h

theorem taskRetirement_made {t : Task} {r : Retirement} (h : w.taskRetirement t = some r) :
    ∃ ph, t.phase = some ph ∧ ∀ m ∈ r.made, EndsSamples m ph.set.coherentSns := by
  unfold taskRetirement at h
  split at h
  · exact ⟨_, rfl, preWindowRetirement_made _ _ h⟩
  · exact ⟨_, rfl, windowRetirement_made _ _ h⟩
  · cases h

theorem ackRetirement_made {reader : Guid} {highestSn : ℤ} {nackSet : SequenceNumberSet}
    {count : Int32} {r : Retirement}
    (h : w.ackRetirement reader highestSn nackSet count = some r) : r.made = none := by
  unfold ackRetirement at h
  split at h
  · cases h
  · split at h
    · cases h
    · split at h
      · cases h
      · split at h
        · cases h
        · cases h
          rfl

/-- A step of a task. -/
theorem runTask_retires (t : Task) :
    Retires w (w.runTask t).1 (w.taskRetirement t) := by
  cases t with
  | sendChange ch todo owed done ret =>
    cases owed with
    | some o =>
      obtain ⟨s, hb⟩ := o
      cases todo <;> exact sendHeartbeatUnlocked_endMarkers _ _ _ _ _ _ _
    | none =>
      cases todo with
      | cons s todo =>
        rw [runTask]
        have h := sendData_endMarkers (w := w) s.readerMatch.guid s.locs (.data ch)
        split
        next heq =>
          rw [heq] at h
          exact h
        next heq =>
          rw [heq] at h
          exact h
      | nil =>
        rw [runTask]
        obtain ⟨hc, hm⟩ := endSends_rest (w := w) ch.sequenceNumber done
        cases ret with
        | write => exact trimAckedLocked_endMarkers.trans hm
        | preWindow rest e =>
          exact (flushPreWindow_retires e rest _).of_rest (by rw [hc]) (by rw [hc]) hm
        | window rest e =>
          exact (flushWindow_retires e rest _).of_rest (by rw [hc]) (by rw [hc]) hm
  | batch m locs todo sent ret =>
    cases todo with
    | cons item todo =>
      rw [runTask]
      have h := sendData_endMarkers (w := w) m.guid locs item.message
      split
      next heq =>
        rw [heq] at h
        exact h
      next heq =>
        rw [heq] at h
        exact h
    | nil => exact returnFromBatch_endMarkers m sent ret
  | initialHeartbeat reader startSn locs hb => exact sendHeartbeatUnlocked_endMarkers _ _ _ _ _ _ _
  | takeEOC => exact takeEOCProxyInfos_endMarkers
  | sendEOC infos => exact sendCombinedEOCData_endMarkers infos
  | flushEOC infos => exact flushGroupEOCHBOnly_endMarkers _

end StatefulWriter

namespace Machine

open StatefulWriter

variable {c c' : Machine} {a : WriterAction}

/-- Where an action goes over the markers. -/
def retirement (c : Machine) : WriterAction → Option Retirement
  | .handleAckNack reader highestSn nackSet count _ =>
      c.writer.ackRetirement reader highestSn nackSet count
  | .endCoherentSet e => if c.publisherFree then c.writer.endRetirement e else none
  | .task i => c.tasks[i]?.bind c.writer.taskRetirement
  | _ => none

/-- Every action changes the markers by its retirement only. -/
theorem step_retires (h : c.step a = some c') : Retires c.writer c'.writer (c.retirement a) := by
  cases a with
  | write s =>
    cases h
    exact write_endMarkers s c.suspended
  | sendHeartbeat final liveliness =>
    cases h
    exact sendHeartbeat_endMarkers final liveliness
  | handleAckNack reader highestSn nackSet count isFinal =>
    cases h
    exact handleAckNack_retires reader highestSn nackSet count isFinal
  | handleNackFrag reader writerSn fragSet count =>
    obtain ⟨w, hw, rfl⟩ := Option.map_eq_some_iff.mp h
    exact handleNackFrag_endMarkers hw
  | addOrRefreshMatchedReader m gens isCurrent =>
    cases h
    exact addOrRefreshMatchedReaderWith_endMarkers m gens isCurrent
  | removeMatchedReader guid =>
    cases h
    exact removeMatchedReader_endMarkers guid
  | checkConnectionGenerations gens =>
    cases h
    exact checkConnectionGenerations_endMarkers gens
  | resumeHeld =>
    cases h
    exact resumeFrom_endMarkers 0 RESUME_BUDGET
  | beginCoherentSet isCoherentWindow =>
    rw [step] at h
    split at h
    · cases h
      exact beginCoherentSet_endMarkers isCoherentWindow
    · cases h
  | endCoherentSet e =>
    rw [step] at h
    rw [retirement]
    split at h
    next hfree =>
      cases h
      rw [if_pos hfree]
      exact endCoherentSet_retires e
    · cases h
  | task i =>
    rw [step] at h
    rw [retirement]
    split at h
    · cases h
    next t ht =>
      cases h
      rw [ht]
      exact runTask_retires t

end Machine

end Zzdds.Rtps
