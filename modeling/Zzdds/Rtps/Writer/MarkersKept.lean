import Zzdds.Rtps.Writer.EndMarkers

/-! # End markers live as long as they are needed

In every run the markers are sorted, and a marker stays while its set has a cached sample and while
it is to go out in the combined send.  One that a held reader is still to be sent stays too, except
where a retirement drops it: in excess of `MAX_END_MARKERS`, or just made and then blocked on its
way out. -/

namespace Zzdds.Rtps

open StatefulWriter

/-! ### What the markers' invariants build on -/

/-- Of the markers and sets of a view: the marker of the combined send is kept, and the
set of a flush under way was written before. -/
structure View.MarkerSound (s : View) : Prop extends s.Sound where
  eoc : ∀ sn ∈ s.writer.pendingEocSn, ∃ m ∈ s.writer.endMarkers, m.sn = sn
  set : ∀ ph ∈ s.phase, ∀ sn ∈ ph.set.coherentSns, sn < s.writer.cache.nextSn

/-- A retirement keeps the marker of the combined send. -/
theorem StatefulWriter.retire_keeps_eoc {w : StatefulWriter}
    (h : ∀ sn ∈ w.pendingEocSn, ∃ m ∈ w.endMarkers, m.sn = sn) :
    ∀ sn ∈ w.retireEndMarkersLocked.pendingEocSn,
      ∃ m ∈ w.retireEndMarkersLocked.endMarkers, m.sn = sn := by
  intro sn hsn
  have hp : w.retireEndMarkersLocked.pendingEocSn = w.pendingEocSn := by
    rw [retireEndMarkersLocked_rest]
  rw [hp] at hsn
  obtain ⟨m, hm, rfl⟩ := h sn hsn
  refine ⟨m, mem_retire_of_protects hm ?_, rfl⟩
  simp [protectsMarker, Option.mem_def.mp hsn]

namespace Move

variable {sc : Scope} {s s' : View}

theorem eoc (h : Move sc s s') (hs : s.MarkerSound) :
    ∀ sn ∈ s'.writer.pendingEocSn, ∃ m ∈ s'.writer.endMarkers, m.sn = sn := by
  cases h with
  | ready g isReady =>
    have ho := OnlySent.reportReady s.writer g isReady
    show ∀ sn ∈ (s.writer.reportReady g isReady).pendingEocSn,
      ∃ m ∈ (s.writer.reportReady g isReady).endMarkers, m.sn = sn
    rw [ho.pendingEocSn, ho.endMarkers]
    exact hs.eoc
  | trim =>
    show ∀ sn ∈ s.writer.trimAckedLocked.pendingEocSn,
      ∃ m ∈ s.writer.trimAckedLocked.endMarkers, m.sn = sn
    rw [trimAckedLocked_endMarkers]
    rcases s.writer.trimAckedLocked_cases with h | ⟨-, -, h⟩ <;> rw [h] <;> exact hs.eoc
  | retire => exact retire_keeps_eoc hs.eoc
  | takeEoc sn hsn => exact fun _ h => nomatch h
  | beginSet b =>
    unfold beginCoherentSet
    split <;> exact hs.eoc
  | tag e hp =>
    obtain ⟨-, -, hm, -, -, he, -⟩ := s.writer.tagSet_rest e
    show ∀ sn ∈ (s.writer.tagSet e).1.pendingEocSn,
      ∃ m ∈ (s.writer.tagSet e).1.endMarkers, m.sn = sn
    rw [hm, he]
    exact hs.eoc
  | addMarker e m deferEoc hp hm =>
    refine retire_keeps_eoc (w := s.writer.withMarker m deferEoc) ?_
    cases deferEoc with
    | true =>
      rintro sn ⟨⟩
      exact ⟨m, List.mem_append_right _ (List.mem_singleton_self m), rfl⟩
    | false =>
      intro sn hsn
      obtain ⟨m', hm', he⟩ := hs.eoc sn hsn
      exact ⟨m', List.mem_append_left _ hm', he⟩
  | _ => exact hs.eoc

theorem set_lt (h : Move sc s s') (hs : s.MarkerSound) :
    ∀ ph ∈ s'.phase, ∀ sn ∈ ph.set.coherentSns, sn < s'.writer.cache.nextSn := by
  have hold : ∀ ph ∈ s.phase, ∀ sn ∈ ph.set.coherentSns, sn < s'.writer.cache.nextSn :=
    fun ph hph sn hsn => (hs.set ph hph sn hsn).trans_le h.grows.nextSn
  cases h with
  | endSet e he hp =>
    rintro ph ⟨⟩ sn hsn
    exact hs.pending sn (List.mem_of_mem_drop hsn)
  | skip tagged sn rest e hp hn =>
    rintro ph ⟨⟩
    exact hold ⟨tagged, sn :: rest, e⟩ hp
  | offer tagged sn rest e hp =>
    rintro ph ⟨⟩
    exact hold ⟨tagged, sn :: rest, e⟩ hp
  | tag e hp =>
    rintro ph ⟨⟩ sn hsn
    rw [tagSet_coherentSns] at hsn
    exact hold _ hp sn hsn
  | finish => exact fun _ h => nomatch h
  | _ => exact hold

theorem markerSound (h : Move sc s s') (hs : s.MarkerSound) : s'.MarkerSound :=
  ⟨h.sound hs.toSound, h.eoc hs, h.set_lt hs⟩

end Move

theorem Machine.init_markerSound (config : WriterConfig) (kind : HistoryKind) (depth : ℕ)
    (blocks : ℕ → Bool) : (Machine.init config kind depth blocks).view.MarkerSound :=
  ⟨init_sound config kind depth blocks, fun _ h => (nomatch h), fun _ h => (nomatch h)⟩

/-- Some sample of the marker's set is in the history. -/
def StatefulWriter.SetCached (w : StatefulWriter) (m : EndMarker) : Prop :=
  ∃ ch ∈ w.cache.changes, m.firstSn ≤ ch.sequenceNumber ∧ ch.sequenceNumber ≤ m.lastSn

namespace Machine

variable {c c' : Machine} {a : WriterAction}

/-! ### What a run makes, and what it asks of each retirement -/

/-- The marker an action makes. -/
def made (c : Machine) (a : WriterAction) : Option EndMarker := (c.retirement a).bind (·.made)

/-- The markers a run makes. -/
def madeMarkers (c : Machine) : List WriterAction → List EndMarker
  | [] => []
  | a :: as =>
      (c.made a).toList ++
        match c.step a with
        | some c' => c'.madeMarkers as
        | none => []

/-- The action's retirement takes no marker from a reader that is still to be sent it: none that
is in excess has a reader held for it, and the marker just made stays or reaches its readers at
once. -/
def SparesMarkers (c : Machine) (a : WriterAction) : Prop :=
  ∀ r ∈ c.retirement a, (∀ m ∈ r.writer.excessMarkers, r.writer.holdsLocked m.sn = false) ∧
    ∀ m ∈ r.made, (m ∈ r.writer.keptMarkers ∧ m ∉ r.writer.excessMarkers) ∨ r.writer.SendsAtOnce

/-- The markers of `c'`, to which `a` leads from `c`, after a run that made the markers `made`. -/
structure KeepsMarkers (made : List EndMarker) (c : Machine) (a : WriterAction) (c' : Machine) :
    Prop where
  sorted : (c'.writer.endMarkers.map (·.sn)).Pairwise (· < ·)
  cached : ∀ m ∈ made, c'.writer.SetCached m → m ∈ c'.writer.endMarkers
  eoc : ∀ sn ∈ c'.writer.pendingEocSn, ∃ m ∈ c'.writer.endMarkers, m.sn = sn
  /-- A marker that was there, or is made now, stays while a proxy is still to be sent it. -/
  held : ∀ m, m ∈ c.writer.endMarkers ∨ m ∈ c.made a → c'.writer.holdsLocked m.sn = true →
    m ∈ c'.writer.endMarkers
  /-- More than the bound are left of a retirement only if it had to keep them all. -/
  bound : ∀ r ∈ c.retirement a, c'.writer.endMarkers.length ≤ MAX_END_MARKERS ∨
    ∀ m ∈ c'.writer.endMarkers, r.writer.SetCached m ∨ some m.sn = r.writer.pendingEocSn

/-- A marker that a run made, and the samples it spans. -/
def Spans (c : Machine) (m : EndMarker) : Prop :=
  m.lastSn < m.firstSn ∨ m.lastSn < c.writer.cache.nextSn

theorem Spans.step {m : EndMarker} (h : c.Spans m) (hg : c.writer.GrowsTo c'.writer) :
    c'.Spans m :=
  h.imp_right fun hlt => hlt.trans_le hg.nextSn

theorem phase_of_task {t : Task} {i : ℕ} {ph : Phase} (hc : c.WellPhased)
    (ht : c.tasks[i]? = some t) (hph : t.phase = some ph) : c.view.phase = some ph := by
  have hmem : ph ∈ c.phases := List.mem_filterMap.mpr ⟨t, List.mem_of_getElem? ht, hph⟩
  have hone := hc.one
  show c.phases.head? = some ph
  match hp : c.phases with
  | [] =>
    rw [hp] at hmem
    cases hmem
  | [ph'] =>
    rw [hp] at hmem
    rw [List.mem_singleton.mp hmem]
    rfl
  | _ :: _ :: _ =>
    rw [hp] at hone
    simp at hone

/-- The marker of an action spans samples written before. -/
theorem made_spans (hc : c.WellPhased) (hs : c.view.MarkerSound) {m : EndMarker}
    (hm : m ∈ c.made a) : c.Spans m := by
  obtain ⟨r, hr, hmade⟩ := Option.bind_eq_some_iff.mp hm
  cases a with
  | handleAckNack reader highestSn nackSet count isFinal =>
    rw [ackRetirement_made hr] at hmade
    cases hmade
  | endCoherentSet e =>
    rw [retirement] at hr
    split at hr
    · exact (endRetirement_made hr m hmade).imp_right fun h => hs.pending _ (List.mem_of_mem_drop h)
    · cases hr
  | task i =>
    obtain ⟨t, ht, hr⟩ := Option.bind_eq_some_iff.mp hr
    obtain ⟨ph, hph, hspan⟩ := taskRetirement_made hr
    exact (hspan m hmade).imp_right fun h => hs.set ph (phase_of_task hc ht hph) _ h
  | _ => cases hr

/-- A marker that a retirement finds with its set cached stays. -/
theorem cached_stays {w w' : StatefulWriter} {r : Retirement} {m : EndMarker} (ho : w.Ordered)
    (hr : r.ComesOf w) (hlead : r.LeadsTo w') (hm : m ∈ r.writer.endMarkers)
    (hc : w'.SetCached m) : m ∈ w'.endMarkers := by
  obtain ⟨ch, hch, hrange⟩ := hc
  rw [hlead.markers]
  refine mem_retire_of_protects hm ?_
  have hin := (HistoryCache.hasWriterChangeIn_iff (ho.changes.sublist hr.changes) m.firstSn
    m.lastSn).mpr ⟨ch, hlead.changes ch hch, hrange⟩
  rw [protectsMarker, hin, Bool.true_or]

/-- A step keeps the markers whose sets are cached. -/
theorem step_cached {made : List EndMarker} (hc : c.WellPhased) (hs : c.view.MarkerSound)
    (hspan : ∀ m ∈ made, c.Spans m)
    (hold : ∀ m ∈ made, c.writer.SetCached m → m ∈ c.writer.endMarkers)
    (h : c.step a = some c') :
    ∀ m ∈ made ++ (c.made a).toList, c'.writer.SetCached m → m ∈ c'.writer.endMarkers := by
  have hret := step_retires h
  have hkeep : ∀ m, m ∈ c.writer.endMarkers ∨ m ∈ c.made a → c'.writer.SetCached m →
      m ∈ c'.writer.endMarkers := by
    intro m hm hcached
    cases hr : c.retirement a with
    | none =>
      rw [hr] at hret
      rcases hm with hm | hm
      · rw [hret]
        exact hm
      · rw [Machine.made, hr] at hm
        cases hm
    | some r =>
      rw [hr] at hret
      obtain ⟨hcomes, hlead⟩ := hret
      refine cached_stays hs.toOrdered hcomes hlead ?_ hcached
      rw [hcomes.markers, List.mem_append, Option.mem_toList]
      exact hm.imp_right fun hm => by rwa [Machine.made, hr] at hm
  intro m hm hcached
  rcases List.mem_append.mp hm with hm | hm
  · rcases hspan m hm with hlt | hlt
    · obtain ⟨ch, -, hf, hl⟩ := hcached
      exact absurd (hf.trans hl) (not_le.mpr hlt)
    · exact hkeep m (.inl (hold m hm ((step_grows hc h).cached hlt hcached))) hcached
  · exact hkeep m (.inr (Option.mem_toList.mp hm)) hcached

/-- In every run a marker whose set is cached is there. -/
theorem run_cached (made : List EndMarker) :
    ∀ (as : List WriterAction) (c : Machine), c.WellPhased → c.view.MarkerSound →
      (∀ m ∈ made, c.Spans m) →
      (∀ m ∈ made, c.writer.SetCached m → m ∈ c.writer.endMarkers) → c.run as = some c' →
      ∀ m ∈ made ++ c.madeMarkers as, c'.writer.SetCached m → m ∈ c'.writer.endMarkers
  | [], c, _, _, _, hold, h => by
      cases h
      rw [madeMarkers, List.append_nil]
      exact hold
  | a :: as, c, hc, hs, hspan, hold, h => by
      obtain ⟨c₁, h₁, h₂⟩ := Option.bind_eq_some_iff.mp h
      have hs₁ : c₁.view.MarkerSound :=
        (step_moves hc h₁).2.inv (fun _ _ hm hi => hm.markerSound hi) hs
      have hspan₁ : ∀ m ∈ made ++ (c.made a).toList, c₁.Spans m := by
        intro m hm
        rcases List.mem_append.mp hm with hm | hm
        · exact (hspan m hm).step (step_grows hc h₁)
        · exact (made_spans hc hs (Option.mem_toList.mp hm)).step (step_grows hc h₁)
      have hrest := run_cached _ as c₁ (hc.step h₁) hs₁ hspan₁ (step_cached hc hs hspan hold h₁) h₂
      rw [madeMarkers, h₁, ← List.append_assoc]
      exact hrest

/-- A step that spares the markers keeps those that a proxy is still to be sent. -/
theorem step_held (hs : c.view.Sound) (h : c.step a = some c') (hspare : c.SparesMarkers a)
    {m : EndMarker} (hm : m ∈ c.writer.endMarkers ∨ m ∈ c.made a)
    (hheld : c'.writer.holdsLocked m.sn = true) : m ∈ c'.writer.endMarkers := by
  have hret := step_retires h
  cases hr : c.retirement a with
  | none =>
    rw [hr] at hret
    rcases hm with hm | hm
    · rw [hret]
      exact hm
    · rw [made, hr] at hm
      cases hm
  | some r =>
    rw [hr] at hret
    obtain ⟨hcomes, hlead⟩ := hret
    obtain ⟨hexcess, hmade⟩ := hspare r hr
    have hmem : m ∈ r.writer.endMarkers := by
      rw [hcomes.markers, List.mem_append, Option.mem_toList]
      exact hm.imp_right fun hm => by rwa [made, hr] at hm
    -- held at the retirement already, the marker is not among those it drops
    have hstays : r.writer.holdsLocked m.sn = true → m ∈ c'.writer.endMarkers := by
      intro hat
      rw [hlead.markers]
      rcases mem_retire_of_needed hmem (.inr hat) with hstays | hin
      · exact hstays
      · rw [hexcess m hin] at hat
        cases hat
    have hbefore : m ∈ c.writer.endMarkers → m ∈ c'.writer.endMarkers := by
      intro hm
      refine hstays (hlead.holds m.sn (fun m' hm' => .inl ?_) hheld)
      rw [hcomes.made m' hm']
      exact hs.below _ (mem_keptSns_of_marker hm)
    rcases hm with hm | hm
    · exact hbefore hm
    · have hm' : m ∈ r.made := by rwa [made, hr] at hm
      rcases hmade m hm' with ⟨hkept, hnot⟩ | honce
      · rw [hlead.markers]
        exact (mem_retire_of_kept hkept).resolve_right hnot
      · exact hstays (hlead.holds m.sn (fun _ _ => .inr honce) hheld)

/-! ### Runs -/

theorem RunMeets.last {P : Machine → WriterAction → Prop} :
    ∀ (as : List WriterAction) (c : Machine), c.RunMeets P (as ++ [a]) → c.run as = some c' →
      P c' a
  | [], c, hp, h => by
      cases h
      exact hp.1
  | a' :: as, c, hp, h => by
      obtain ⟨c₁, h₁, h₂⟩ := Option.bind_eq_some_iff.mp h
      exact RunMeets.last as c₁ (hp.2 c₁ h₁) h₂

theorem run_append (c : Machine) (as : List WriterAction) :
    c.run (as ++ [a]) = (c.run as).bind (·.step a) := by
  induction as generalizing c with
  | nil =>
    show (c.step a).bind _ = c.step a
    cases c.step a <;> rfl
  | cons a' as ih =>
    show (c.step a').bind _ = ((c.step a').bind _).bind _
    cases c.step a' with
    | none => rfl
    | some c₁ => exact ih c₁

/-- **End markers live as long as they are needed**, in every run whose retirements all spare
them. -/
theorem markers_kept (config : WriterConfig) (kind : HistoryKind) (depth : ℕ) (blocks : ℕ → Bool)
    (as : List WriterAction) (a : WriterAction) {c c' : Machine}
    (hrun : (init config kind depth blocks).run as = some c) (hstep : c.step a = some c')
    (hspare : (init config kind depth blocks).RunMeets SparesMarkers (as ++ [a])) :
    KeepsMarkers ((init config kind depth blocks).madeMarkers (as ++ [a])) c a c' := by
  have hinit := init_wellPhased config kind depth blocks
  obtain ⟨hc, hs⟩ := run_inv (I := View.MarkerSound) (P := fun _ _ => True) (fun _ _ => True)
    (fun _ _ _ _ _ => trivial) (fun _ _ _ _ _ hm hi _ => ⟨hm.markerSound hi, trivial⟩) as _
    hinit (init_markerSound config kind depth blocks) (runMeets_true _ as) hrun
  have hs' : c'.view.MarkerSound :=
    (step_moves hc hstep).2.inv (fun _ _ hm hi => hm.markerSound hi) hs
  have hrun' : (init config kind depth blocks).run (as ++ [a]) = some c' := by
    rw [run_append, hrun]
    exact hstep
  exact {
    sorted := hs'.markers
    cached := run_cached [] (as ++ [a]) _ hinit (init_markerSound config kind depth blocks)
      (fun _ h => (nomatch h)) (fun _ h => (nomatch h)) hrun'
    eoc := hs'.eoc
    held := fun m hm hheld => step_held hs.toSound hstep (RunMeets.last as _ hspare hrun) hm hheld
    bound := by
      intro r hr
      have hret := step_retires hstep
      rw [Option.mem_def.mp hr] at hret
      obtain ⟨hcomes, hlead⟩ := hret
      rw [hlead.markers]
      refine r.writer.retireEndMarkersLocked_bound.imp_right fun hall m hm => ?_
      have hp := hall m hm
      rw [protectsMarker, Bool.or_eq_true] at hp
      refine hp.imp (fun hin => ?_) (fun he => beq_iff_eq.mp he)
      exact (HistoryCache.hasWriterChangeIn_iff (hs.toOrdered.changes.sublist hcomes.changes)
        m.firstSn m.lastSn).mp hin }

/-- A coherent set of one fragmented sample. -/
def oneSet : List WriterAction :=
  [.beginCoherentSet true, .write (smallSample [1, 2, 3, 4, 5])]

theorem markers_kept_oneSet : ∃ c c', (smallWriter .keepAll).run oneSet = some c ∧
    c.step (.endCoherentSet { mode := .coherentOnly, resuspend := false }) = some c' ∧
    c'.writer.endMarkers.map (·.sn) = [2] ∧
    KeepsMarkers ((smallWriter .keepAll).madeMarkers
      (oneSet ++ [.endCoherentSet { mode := .coherentOnly, resuspend := false }])) c
      (.endCoherentSet { mode := .coherentOnly, resuspend := false }) c' := by
  refine ⟨_, _, rfl, rfl, rfl,
    markers_kept smallConfig .keepAll 1 (fun _ => false) oneSet _ rfl rfl ?_⟩
  refine ⟨fun _ h => (nomatch h), fun c₁ h₁ => ⟨?_, fun c₂ h₂ => ⟨?_, fun _ _ => trivial⟩⟩⟩
  · exact fun _ h => (nomatch h)
  · cases h₁
    cases h₂
    rintro r ⟨⟩
    refine ⟨fun _ h => (nomatch h), ?_⟩
    rintro m ⟨⟩
    exact .inl ⟨List.mem_singleton_self _, fun h => (nomatch h)⟩

/-! ### A marker that is lost

A writer that holds readers ends a group set it wrote nothing in.  Nothing needs the marker as it
is made, so it is dropped at once; then the send to a best-effort reader blocks, and that reader is
held for a marker that is gone. -/

/-- Nothing this writer sends gets through. -/
def blockedWriter : Machine :=
  .init { smallConfig with replayOnMatch := false, resumeHeld := true } .keepAll 0 (fun _ => true)

/-- A best-effort reader, and a group set. -/
def groupSet : List WriterAction :=
  [.addOrRefreshMatchedReader (smallReader 2 false) (fun _ => 0) true, .beginCoherentSet true]

/-- The end of the set. -/
def groupSetEnd : WriterAction :=
  .endCoherentSet {
    mode := .full
    resuspend := false
    group := some ⟨1, 2, Lib.Bytes.zeroes 4⟩ }

theorem marker_lost : ∃ c c', blockedWriter.run groupSet = some c ∧
    c.step groupSetEnd = some c' ∧
    ¬ KeepsMarkers (blockedWriter.madeMarkers (groupSet ++ [groupSetEnd])) c groupSetEnd c' := by
  refine ⟨_, _, rfl, rfl, fun h => ?_⟩
  have hlost := h.held ⟨1, 1, 0, some ⟨1, 2, Lib.Bytes.zeroes 4⟩⟩ (.inr rfl) rfl
  cases hlost

end Machine

end Zzdds.Rtps
