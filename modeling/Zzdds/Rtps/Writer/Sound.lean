import Zzdds.Rtps.Writer.StepMoves

/-! # What holds of the writer in every run

`Machine.run_inv` is the rule for runs: what every move keeps, within the scope of an action that
meets a condition, holds in every state of a run whose actions all meet it.  `View.Sound` is the
invariant the others build on: the numbers of samples and markers ascend from 1 to below the next
number, what counts as flushed and what was trimmed stay below it, and so does all that is in
flight. -/

namespace Zzdds.Rtps

/-! ### Runs -/

namespace Machine

/-- A writer without readers and without history. -/
def init (config : WriterConfig) (kind : HistoryKind) (depth : ℕ) (blocks : ℕ → Bool) : Machine where
  writer :=
    { config := config, cache := .init kind depth, blocks := blocks, readerProxies := [],
      nodup := List.nodup_nil }

/-- Every action of a run meets a condition on the action and the state before it. -/
def RunMeets (P : Machine → WriterAction → Prop) (c : Machine) : List WriterAction → Prop
  | [] => True
  | a :: as => P c a ∧ ∀ c', c.step a = some c' → c'.RunMeets P as

variable {c c' : Machine}

theorem init_wellPhased (config : WriterConfig) (kind : HistoryKind) (depth : ℕ)
    (blocks : ℕ → Bool) : (init config kind depth blocks).WellPhased :=
  ⟨Nat.zero_le 1, fun h => absurd rfl h⟩

/-- What the moves of an action keep, the action keeps. -/
theorem step_inv {I J : View → Prop} {a : WriterAction}
    (hmove : ∀ s s', Move (a.scope c) s s' → I s → J s → I s' ∧ J s')
    (hc : c.WellPhased) (hi : I c.view) (hj : J c.view) (h : c.step a = some c') : I c'.view := by
  have hm := (step_moves hc h).2
  have hboth := hm.inv (fun s s' hmv hij => hmove s s' hmv hij.1 hij.2) (I := fun s => I s ∧ J s)
    ⟨hi, hj⟩
  exact hboth.1

/-- What every action keeps under its condition holds at the end of a run. -/
theorem run_inv {I : View → Prop} {P : Machine → WriterAction → Prop} (J : Scope → View → Prop)
    (hstart : ∀ c a, c.WellPhased → I c.view → P c a → J (a.scope c) c.view)
    (hmove : ∀ c a, P c a → ∀ s s', Move (WriterAction.scope c a) s s' → I s → J (a.scope c) s →
      I s' ∧ J (a.scope c) s') :
    ∀ (as : List WriterAction) (c : Machine), c.WellPhased → I c.view → c.RunMeets P as →
      c.run as = some c' → c'.WellPhased ∧ I c'.view
  | [], c, hc, hi, _, h => by
      cases h
      exact ⟨hc, hi⟩
  | a :: as, c, hc, hi, hp, h => by
      obtain ⟨hpa, hrest⟩ := hp
      obtain ⟨c₁, h₁, h₂⟩ := Option.bind_eq_some_iff.mp h
      exact run_inv J hstart hmove as c₁ (hc.step h₁)
        (step_inv (hmove c a hpa) hc hi (hstart c a hc hi hpa) h₁) (hrest c₁ h₁) h₂

theorem runMeets_true (c : Machine) : ∀ as : List WriterAction, c.RunMeets (fun _ _ => True) as := by
  intro as
  induction as generalizing c with
  | nil => exact trivial
  | cons a as ih => exact ⟨trivial, fun c' _ => ih c'⟩

/-- What every move keeps holds at the end of every run. -/
theorem run_inv' {I : View → Prop} (hmove : ∀ sc s s', Move sc s s' → I s → I s')
    (as : List WriterAction) (hc : c.WellPhased) (hi : I c.view) (h : c.run as = some c') :
    I c'.view :=
  (run_inv (fun _ _ => True) (fun _ _ _ _ _ => trivial)
    (fun _ _ _ s s' hm hi _ => ⟨hmove _ s s' hm hi, trivial⟩) as c hc hi (runMeets_true c as) h).2

end Machine

/-! ### A small writer

The runs that witness a theorem, or refute a statement, are runs of these. -/

def smallGuid (n : UInt8) : Guid := ⟨GuidPrefix.unknown, ⟨Lib.Bytes.zeroes 3, n⟩⟩

/-- It sends more than four octets in fragments, and replays its history. -/
def smallConfig : WriterConfig where
  guid := smallGuid 1
  fragSize := 4
  replayOnMatch := true
  resumeHeld := false
  dropAcked := false
  keyed := false
  fragSize_pos := by decide

def smallWriter (kind : HistoryKind) : Machine := .init smallConfig kind 1 (fun _ => false)

def smallReader (n : UInt8) (reliable : Bool) : MatchedReader where
  guid := smallGuid n
  selectedLocators := [.shmem 0 0]
  reliable := reliable

def smallSample (data : List UInt8) : StatefulWriter.Sample where
  kind := .alive
  sourceTimestamp := ⟨0, 0⟩
  instanceHandle := INSTANCE_HANDLE_NIL
  keyHash := Lib.Bytes.zeroes 16
  data := data

/-! ### What a move sends and schedules -/

/-- A message a move may send, by the view before it. -/
inductive Sends (sc : Scope) (s : View) (g : Guid) : WriterMessage → Prop
  | heartbeat (startSn : ℤ) (gaps : List (ℤ × ℤ)) (firstSn lastSn : ℤ) (final liveliness : Bool)
      (hu : g ∉ s.addressed) (hg : sc.heartbeat g)
      (ho : s.writer.Offers startSn gaps firstSn lastSn) (hv : 0 < lastSn → firstSn ≤ lastSn + 1)
      (hl : lastSn ≤ s.writer.lastSentSnLocked ∨
        (sc.announceAll ∧ lastSn ≤ s.writer.lastAvailableSnLocked)) :
      Sends sc s g (.heartbeat startSn gaps firstSn lastSn s.writer.hbCount final liveliness)
  | heartbeatFrag (ch : CacheChange) (numFrags : ℕ) (hu : g ∉ s.addressed)
      (hs : s.writer.MaySend sc s.current ch) :
      Sends sc s g (.heartbeatFrag ch.sequenceNumber numFrags s.writer.hbCount)
  | data (ch : CacheChange) (hs : s.writer.MaySend sc s.current ch) : Sends sc s g (.data ch)
  | dataFrag (ch : CacheChange) (fragNum : ℕ) (withTs : Bool)
      (hs : s.writer.MaySend sc s.current ch) : Sends sc s g (.dataFrag ch fragNum withTs)
  | marker (m : EndMarker) (hm : s.writer.MaySendMarker m.sn) : Sends sc s g (.endMarker m)
  | gap (sn : ℤ) (hn : sn ∉ s.writer.keptSns) : Sends sc s g (.gap sn)
  | land (m : WriterMessage) (hf : .message g m ∈ s.flight)
      (hl : ∀ startSn gaps firstSn lastSn count final liveliness,
        m = .heartbeat startSn gaps firstSn lastSn count final liveliness →
        sc.land g count ∧ (0 < lastSn → firstSn ≤ lastSn + 1)) : Sends sc s g m

/-- What a move may schedule, by the view before it. -/
inductive Schedules (sc : Scope) (s : View) : Packet → Prop
  | data (g : Guid) (ch : CacheChange) (hs : s.writer.MaySend sc s.current ch) :
      Schedules sc s (.message g (.data ch))
  | marker (g : Guid) (m : EndMarker) (hm : s.writer.MaySendMarker m.sn) :
      Schedules sc s (.message g (.endMarker m))
  | heartbeat (g : Guid) (startSn : ℤ) (gaps : List (ℤ × ℤ)) (firstSn lastSn : ℤ)
      (final liveliness : Bool) (hu : g ∉ s.addressed)
      (ho : s.writer.Offers startSn gaps firstSn lastSn)
      (hl : lastSn ≤ s.writer.lastSentSnLocked) :
      Schedules sc s (.message g
        (.heartbeat startSn gaps firstSn lastSn s.writer.hbCount final liveliness))
  | flush (sn : ℤ) (hf : s.writer.MayFlush s.current sn) : Schedules sc s (.flushing sn)
  | eoc (sn : ℤ) (hs : s.writer.pendingEocSn = some sn) : Schedules sc s (.flushing sn)

/-- The count of a HEARTBEAT or HEARTBEAT_FRAG. -/
def WriterMessage.count? : WriterMessage → Option ℕ
  | heartbeat _ _ _ _ count _ _ => some count
  | heartbeatFrag _ _ count => some count
  | _ => none

/-- The event is a message. -/
def WriterEvent.isSend : WriterEvent → Bool
  | send _ _ _ _ _ => true
  | _ => false

namespace Move

variable {sc : Scope} {s s' : View}

/-- A move logs one message, or events that are none.  A message with a count is one that was
scheduled, or has the last count drawn, which its reader was not sent before. -/
theorem log (h : Move sc s s') :
    (∃ g locs m, Sends sc s g m ∧ s'.writer.log =
      s.writer.log ++ [.send s.writer.hiddenSns s.writer.keptSns g locs m] ∧
      ∀ n, m.count? = some n → s.flight = .message g m ::ₘ s'.flight ∨
        (n = s.writer.hbCount ∧ g ∉ s.addressed ∧ g ∈ s'.addressed)) ∨
    (∃ evs, s'.writer.log = s.writer.log ++ evs ∧ ∀ ev ∈ evs, ev.isSend = false) := by
  have hnone : s.writer.log = s.writer.log ++ [] := (List.append_nil _).symm
  cases h with
  | heartbeat g locs startSn gaps firstSn lastSn final liveliness hu hg ho hv hl =>
    exact .inl ⟨g, locs, _, .heartbeat startSn gaps firstSn lastSn final liveliness hu hg ho hv hl,
      rfl, by
      rintro _ ⟨⟩
      exact .inr ⟨rfl, hu, Set.mem_insert _ _⟩⟩
  | heartbeatFrag g locs ch numFrags hu hs =>
    exact .inl ⟨g, locs, _, .heartbeatFrag ch numFrags hu hs, rfl,
      by
      rintro _ ⟨⟩
      exact .inr ⟨rfl, hu, Set.mem_insert _ _⟩⟩
  | data g locs ch hs => exact .inl ⟨g, locs, _, .data ch hs, rfl, fun _ h => nomatch h⟩
  | dataFrag g locs ch fragNum withTs hs =>
    exact .inl ⟨g, locs, _, .dataFrag ch fragNum withTs hs, rfl, fun _ h => nomatch h⟩
  | marker g locs m hm => exact .inl ⟨g, locs, _, .marker m hm, rfl, fun _ h => nomatch h⟩
  | gap g locs sn hn => exact .inl ⟨g, locs, _, .gap sn hn, rfl, fun _ h => nomatch h⟩
  | land g locs m f hf hl =>
    have hm : .message g m ∈ s.flight := by
      rw [hf]
      exact Multiset.mem_cons_self _ _
    exact .inl ⟨g, locs, m, .land m hm hl, rfl, fun _ _ => .inl hf⟩
  | resend g locs m hf =>
    exact .inl ⟨g, locs, _, .land _ hf (by rintro _ _ _ _ _ _ _ ⟨⟩), rfl, fun _ h => nomatch h⟩
  | ready g isReady =>
    right
    unfold StatefulWriter.reportReady
    split
    · exact ⟨[_], rfl, fun ev h => by rw [List.mem_singleton.mp h]; rfl⟩
    · exact ⟨[], hnone, fun _ h => nomatch h⟩
  | trim =>
    right
    unfold StatefulWriter.trimAckedLocked
    split_ifs
    · exact ⟨[], hnone, fun _ h => nomatch h⟩
    · exact ⟨[], hnone, fun _ h => nomatch h⟩
    · exact ⟨[_], rfl, fun ev h => by rw [List.mem_singleton.mp h]; rfl⟩
  | retire =>
    right
    simp only [StatefulWriter.retireEndMarkersLocked]
    exact ⟨[], hnone, fun _ h => nomatch h⟩
  | writeBuffered sample b hw hev ha =>
    exact .inr ⟨[_], rfl, fun ev h => by rw [List.mem_singleton.mp h]; rfl⟩
  | writeNow sample b hw hev ha =>
    refine .inr ⟨[_, _], List.append_assoc _ [_] [_], fun ev h => ?_⟩
    rcases List.mem_pair.mp h with rfl | rfl <;> rfl
  | beginSet b =>
    right
    unfold StatefulWriter.beginCoherentSet
    split <;> exact ⟨[], hnone, fun _ h => nomatch h⟩
  | offer tagged sn rest e hp =>
    exact .inr ⟨[_], rfl, fun ev h => by rw [List.mem_singleton.mp h]; rfl⟩
  | tag e hp =>
    right
    dsimp only
    unfold StatefulWriter.tagSet
    split
    · exact ⟨[], hnone, fun _ h => nomatch h⟩
    · exact ⟨[_], rfl, fun ev h => by rw [List.mem_singleton.mp h]; rfl⟩
  | addMarker e m deferEoc hp hm =>
    right
    simp only [StatefulWriter.addMarker, StatefulWriter.retireEndMarkersLocked]
    exact ⟨[], hnone, fun _ h => nomatch h⟩
  | _ => exact .inr ⟨[], hnone, fun _ h => nomatch h⟩

/-- A message logged after a move was there before it, or the move sends it. -/
theorem sent (h : Move sc s s') {hidden kept : List ℤ} {g : Guid} {locs : List Locator}
    {m : WriterMessage} (hm : .send hidden kept g locs m ∈ s'.writer.log) :
    .send hidden kept g locs m ∈ s.writer.log ∨
    (hidden = s.writer.hiddenSns ∧ kept = s.writer.keptSns ∧ Sends sc s g m) := by
  rcases h.log with ⟨g', locs', m', hs, hlog, -⟩ | ⟨evs, hlog, hno⟩
  · rw [hlog, List.mem_append, List.mem_singleton] at hm
    rcases hm with hm | hm
    · exact .inl hm
    · cases hm
      exact .inr ⟨rfl, rfl, hs⟩
  · rw [hlog, List.mem_append] at hm
    rcases hm with hm | hm
    · exact .inl hm
    · cases hno _ hm

/-- What is in flight after a move was there before it, or the move schedules it. -/
theorem scheduled (h : Move sc s s') {x : Packet} (hx : x ∈ s'.flight) :
    x ∈ s.flight ∨ Schedules sc s x := by
  have hless : ∀ {y : Packet} {f : Multiset Packet}, s.flight = y ::ₘ f → x ∈ f → x ∈ s.flight :=
    fun hf hx => by rw [hf]; exact Multiset.mem_cons_of_mem hx
  have hmore : ∀ {y : Packet}, x ∈ y ::ₘ s.flight → Schedules sc s y →
      x ∈ s.flight ∨ Schedules sc s x := by
    intro y hx hy
    rcases Multiset.mem_cons.mp hx with rfl | hx
    · exact .inr hy
    · exact .inl hx
  cases h with
  | launchData g ch hs => exact hmore hx (.data g ch hs)
  | launchMarker g m hm => exact hmore hx (.marker g m hm)
  | launchHeartbeat g startSn gaps firstSn lastSn final liveliness hu ho hl =>
    exact hmore hx (.heartbeat g startSn gaps firstSn lastSn final liveliness hu ho hl)
  | launchFlush sn hf => exact hmore hx (.flush sn hf)
  | takeEoc sn hs => exact hmore hx (.eoc sn hs)
  | land g locs m f hf hl => exact .inl (hless hf hx)
  | flush sn f hf => exact .inl (hless hf hx)
  | drop y f hf => exact .inl (hless hf hx)
  | _ => exact .inl hx

end Move

/-! ### What a writer keeps -/

/-- The highest number a message speaks of. -/
def WriterMessage.topSn : WriterMessage → ℤ
  | heartbeat _ _ _ lastSn _ _ _ => lastSn
  | data ch => ch.sequenceNumber
  | dataFrag ch _ _ => ch.sequenceNumber
  | heartbeatFrag sn _ _ => sn
  | endMarker m => m.sn
  | gap sn => sn

def Packet.topSn : Packet → ℤ
  | message _ m => m.topSn
  | flushing sn => sn

/-- The numbers of a history without readers, flight or phase. -/
structure StatefulWriter.Ordered (w : StatefulWriter) : Prop where
  changes : (w.cache.changes.map (·.sequenceNumber)).Pairwise (· < ·)
  markers : (w.endMarkers.map (·.sn)).Pairwise (· < ·)
  positive : ∀ sn ∈ w.keptSns, 0 < sn
  below : ∀ sn ∈ w.keptSns, sn < w.cache.nextSn
  next_pos : 0 < w.cache.nextSn
  trimmed_nonneg : 0 ≤ w.trimmedThrough
  trimmed_le : w.trimmedThrough ≤ w.lastFlushedSn
  flushed_lt : w.lastFlushedSn < w.cache.nextSn
  eoc_lt : ∀ sn ∈ w.pendingEocSn, sn < w.cache.nextSn

/-- The numbers of a view. -/
structure View.Sound (s : View) : Prop extends s.writer.Ordered where
  flight : ∀ x ∈ s.flight, x.topSn < s.writer.cache.nextSn
  pending : ∀ sn ∈ s.writer.coherentPendingSns, sn < s.writer.cache.nextSn

namespace StatefulWriter

variable {w w' : StatefulWriter}

theorem Ordered.congr (ho : w.Ordered) (hc : w'.cache = w.cache)
    (hm : w'.endMarkers = w.endMarkers) (hf : w'.lastFlushedSn = w.lastFlushedSn)
    (ht : w'.trimmedThrough = w.trimmedThrough) (hp : w'.pendingEocSn = w.pendingEocSn) :
    w'.Ordered := by
  have hk : w'.keptSns = w.keptSns := by rw [keptSns, keptSns, hc, hm]
  exact {
    changes := by rw [hc]; exact ho.changes
    markers := by rw [hm]; exact ho.markers
    positive := by rw [hk]; exact ho.positive
    below := by rw [hk, hc]; exact ho.below
    next_pos := by rw [hc]; exact ho.next_pos
    trimmed_nonneg := by rw [ht]; exact ho.trimmed_nonneg
    trimmed_le := by rw [ht, hf]; exact ho.trimmed_le
    flushed_lt := by rw [hf, hc]; exact ho.flushed_lt
    eoc_lt := by rw [hp, hc]; exact ho.eoc_lt }

theorem mem_keptSns_of_change {ch : CacheChange} (h : ch ∈ w.cache.changes) :
    ch.sequenceNumber ∈ w.keptSns :=
  List.mem_append_left _ (List.mem_map_of_mem h)

theorem mem_keptSns_of_marker {m : EndMarker} (h : m ∈ w.endMarkers) : m.sn ∈ w.keptSns :=
  List.mem_append_right _ (List.mem_map_of_mem h)

/-- What is left of the samples and markers is in order. -/
theorem Ordered.sublist (ho : w.Ordered) (w' : StatefulWriter)
    (hch : (w'.cache.changes.map (·.sequenceNumber)).Sublist (w.cache.changes.map (·.sequenceNumber)))
    (hm : (w'.endMarkers.map (·.sn)).Sublist (w.endMarkers.map (·.sn))) :
    (w'.cache.changes.map (·.sequenceNumber)).Pairwise (· < ·) ∧
    (w'.endMarkers.map (·.sn)).Pairwise (· < ·) ∧ ∀ sn ∈ w'.keptSns, sn ∈ w.keptSns :=
  ⟨ho.changes.sublist hch, ho.markers.sublist hm, fun _ h => (hch.append hm).subset h⟩

theorem capFloor_le (floor : ℤ) (rp : ReaderProxy) : capFloor floor rp ≤ floor ∧
    (rp.reliable = true → capFloor floor rp ≤ rp.highestAckedSn) ∧
    (∀ held ∈ rp.unsentFromSn, capFloor floor rp < held) ∧
    (∀ sn ∈ rp.sendingSn, capFloor floor rp < sn) := by
  unfold capFloor
  cases rp.unsentFromSn <;> cases rp.sendingSn <;> cases rp.reliable <;> simp

theorem capFloor_mono {floor floor' : ℤ} (h : floor ≤ floor') (rp : ReaderProxy) :
    capFloor floor rp ≤ capFloor floor' rp := by
  unfold capFloor
  cases rp.unsentFromSn <;> cases rp.sendingSn <;> cases rp.reliable <;>
    simp only [Bool.false_eq_true, if_true, if_false] <;> omega

theorem foldl_capFloor_le : ∀ (l : List ReaderProxy) (floor : ℤ),
    l.foldl capFloor floor ≤ floor ∧ ∀ rp ∈ l, l.foldl capFloor floor ≤ capFloor floor rp
  | [], floor => ⟨le_rfl, fun _ h => by cases h⟩
  | rp :: l, floor => by
      obtain ⟨h₁, h₂⟩ := foldl_capFloor_le l (capFloor floor rp)
      refine ⟨h₁.trans (capFloor_le floor rp).1, fun rp' hm => ?_⟩
      rcases List.mem_cons.mp hm with rfl | hm
      · exact h₁
      · exact (h₂ rp' hm).trans (capFloor_mono (capFloor_le floor rp).1 rp')

theorem trimFloor_le : w.trimFloor ≤ w.lastFlushedSn :=
  (foldl_capFloor_le w.readerProxies w.lastFlushedSn).1

/-- The fields of a writer after a trim. -/
theorem trimAckedLocked_cases (w : StatefulWriter) : w.trimAckedLocked = w ∨
    (w.config.dropAcked = true ∧ w.trimmedThrough < w.trimFloor ∧
      w.trimAckedLocked = { w with
        cache := w.cache.removeWriterChangesUpTo w.trimFloor
        trimmedThrough := w.trimFloor }.emit
          (.trim w.trimmedSns w.lastFlushedSn w.readerProxies)) := by
  unfold trimAckedLocked
  split_ifs with h₁ h₂
  · exact .inl rfl
  · exact .inl rfl
  · refine .inr ⟨by simpa using h₁, not_le.mp h₂, rfl⟩

theorem dropExcessMarkers_sublist (w : StatefulWriter) : ∀ (excess : ℕ) (ms : List EndMarker),
    (w.dropExcessMarkers excess ms).Sublist ms
  | 0, ms => by rw [dropExcessMarkers]
  | _ + 1, [] => by rw [dropExcessMarkers]
  | excess + 1, m :: ms => by
      rw [dropExcessMarkers]
      split
      · exact (w.dropExcessMarkers_sublist (excess + 1) ms).cons_cons m
      · exact (w.dropExcessMarkers_sublist excess ms).cons m

theorem retireEndMarkersLocked_sublist :
    w.retireEndMarkersLocked.endMarkers.Sublist w.endMarkers := by
  simp only [retireEndMarkersLocked]
  exact (w.dropExcessMarkers_sublist _ _).trans List.filter_sublist

theorem retireEndMarkersLocked_cache : w.retireEndMarkersLocked.cache = w.cache := by
  simp only [retireEndMarkersLocked]

theorem retireEndMarkersLocked_keptSns {sn : ℤ} (h : sn ∈ w.retireEndMarkersLocked.keptSns) :
    sn ∈ w.keptSns := by
  rw [keptSns, retireEndMarkersLocked_cache] at h
  exact ((List.Sublist.refl _).append (retireEndMarkersLocked_sublist.map _)).subset h

/-- Retiring markers changes nothing else. -/
theorem retireEndMarkersLocked_rest : w.retireEndMarkersLocked =
    { w with endMarkers := w.retireEndMarkersLocked.endMarkers } := by
  simp only [retireEndMarkersLocked]

theorem Ordered.trim (ho : w.Ordered) : w.trimAckedLocked.Ordered := by
  rcases w.trimAckedLocked_cases with h | ⟨-, hlt, h⟩
  · rw [h]
    exact ho
  · rw [h]
    obtain ⟨hc, hm, hk⟩ := ho.sublist { w with
        cache := w.cache.removeWriterChangesUpTo w.trimFloor
        trimmedThrough := w.trimFloor }
      ((List.dropWhile_sublist _).map _) (List.Sublist.refl _)
    exact {
      changes := hc
      markers := hm
      positive := fun sn h => ho.positive sn (hk sn h)
      below := fun sn h => ho.below sn (hk sn h)
      next_pos := ho.next_pos
      trimmed_nonneg := ho.trimmed_nonneg.trans hlt.le
      trimmed_le := trimFloor_le
      flushed_lt := ho.flushed_lt
      eoc_lt := ho.eoc_lt }

/-- Fewer markers are in order too. -/
theorem Ordered.fewerMarkers (ho : w.Ordered) {ms : List EndMarker}
    (h : ms.Sublist w.endMarkers) : { w with endMarkers := ms }.Ordered := by
  obtain ⟨hc, hm, hk⟩ := ho.sublist { w with endMarkers := ms } (List.Sublist.refl _)
    (h.map _)
  exact {
    changes := hc
    markers := hm
    positive := fun sn h => ho.positive sn (hk sn h)
    below := fun sn h => ho.below sn (hk sn h)
    next_pos := ho.next_pos
    trimmed_nonneg := ho.trimmed_nonneg
    trimmed_le := ho.trimmed_le
    flushed_lt := ho.flushed_lt
    eoc_lt := ho.eoc_lt }

theorem Ordered.retire (ho : w.Ordered) : w.retireEndMarkersLocked.Ordered := by
  rw [retireEndMarkersLocked_rest]
  exact ho.fewerMarkers retireEndMarkersLocked_sublist

/-- A sample is added behind what KEEP_LAST leaves of the history. -/
theorem addSample_changes (w : StatefulWriter) (sample : Sample) :
    ∃ old ch, old.Sublist w.cache.changes ∧ ch.sequenceNumber = w.cache.nextSn ∧
      (w.addSample sample).cache.changes = old ++ [ch] ∧
      (w.addSample sample).cache.nextSn = w.cache.nextSn + 1 := by
  refine ⟨_, _, HistoryCache.trimForKeepLast_sublist { w.cache with nextSn := w.cache.nextSn + 1 }
    sample.instanceHandle, ?_, rfl, ?_⟩
  · rfl
  · unfold addSample HistoryCache.addWriterChange HistoryCache.trimForKeepLast
    dsimp only
    split <;> rfl

/-- A sample added to the history is its newest. -/
theorem addSample_keptSns {sample : Sample} {sn : ℤ} (h : sn ∈ (w.addSample sample).keptSns) :
    sn ∈ w.keptSns ∨ sn = w.cache.nextSn := by
  obtain ⟨old, new, hsub, hnew, hch, -⟩ := w.addSample_changes sample
  rw [keptSns, hch, List.map_append] at h
  rcases List.mem_append.mp h with h | h
  · rcases List.mem_append.mp h with h | h
    · exact .inl (List.mem_append_left _ ((hsub.map _).subset h))
    · exact .inr ((List.mem_singleton.mp h).trans hnew)
  · exact .inl (List.mem_append_right _ h)

theorem Ordered.addSample (ho : w.Ordered) (sample : Sample) : (w.addSample sample).Ordered := by
  obtain ⟨old, new, hsub, hnew, hch, hnext⟩ := w.addSample_changes sample
  have hlt : ∀ sn, sn < w.cache.nextSn → sn < (w.addSample sample).cache.nextSn := by
    rw [hnext]
    exact fun sn h => h.trans (lt_add_one _)
  refine {
    changes := ?_
    markers := ho.markers
    positive := ?_
    below := ?_
    next_pos := hlt 0 ho.next_pos
    trimmed_nonneg := ho.trimmed_nonneg
    trimmed_le := ho.trimmed_le
    flushed_lt := hlt _ ho.flushed_lt
    eoc_lt := fun sn h => hlt sn (ho.eoc_lt sn h) }
  · rw [hch, List.map_append, List.pairwise_append]
    refine ⟨ho.changes.sublist (hsub.map _), List.pairwise_singleton _ _, ?_⟩
    intro sn hsn sn' hsn'
    obtain rfl : sn' = new.sequenceNumber := List.mem_singleton.mp hsn'
    rw [hnew]
    exact ho.below sn (List.mem_append_left _ ((hsub.map _).subset hsn))
  · intro sn hsn
    rcases addSample_keptSns hsn with hsn | rfl
    · exact ho.positive sn hsn
    · exact ho.next_pos
  · intro sn hsn
    rcases addSample_keptSns hsn with hsn | rfl
    · exact hlt sn (ho.below sn hsn)
    · rw [hnext]
      exact lt_add_one _

theorem Ordered.flushedThrough (ho : w.Ordered) {sn : ℤ} (h : sn < w.cache.nextSn) :
    (w.flushedThrough sn).Ordered where
  changes := ho.changes
  markers := ho.markers
  positive := ho.positive
  below := ho.below
  next_pos := ho.next_pos
  trimmed_nonneg := ho.trimmed_nonneg
  trimmed_le := ho.trimmed_le.trans (le_max_left _ _)
  flushed_lt := max_lt ho.flushed_lt h
  eoc_lt := ho.eoc_lt

/-- A number taken for a marker is the newest. -/
theorem addMarker_keptSns {m : EndMarker} {deferEoc : Bool} {sn : ℤ}
    (h : sn ∈ (w.addMarker m deferEoc).keptSns) : sn ∈ w.keptSns ∨ sn = m.sn := by
  unfold addMarker at h
  have h := retireEndMarkersLocked_keptSns h
  rw [keptSns, List.map_append, ← List.append_assoc] at h
  rcases List.mem_append.mp h with h | h
  · exact .inl h
  · exact .inr (List.mem_singleton.mp h)

theorem Ordered.addMarker (ho : w.Ordered) {m : EndMarker} (hm : m.sn = w.cache.nextSn)
    (deferEoc : Bool) : (w.addMarker m deferEoc).Ordered := by
  unfold StatefulWriter.addMarker
  apply Ordered.retire
  have hlt : ∀ sn, sn < w.cache.nextSn → sn < w.cache.nextSn + 1 := fun sn h => h.trans (lt_add_one _)
  have hkept : ∀ sn ∈ w.cache.changes.map (·.sequenceNumber) ++ (w.endMarkers ++ [m]).map (·.sn),
      sn ∈ w.keptSns ∨ sn = w.cache.nextSn := by
    intro sn h
    rw [List.map_append, ← List.append_assoc] at h
    rcases List.mem_append.mp h with h | h
    · exact .inl h
    · exact .inr ((List.mem_singleton.mp h).trans hm)
  exact {
    changes := ho.changes
    markers := by
      show ((w.endMarkers ++ [m]).map (·.sn)).Pairwise (· < ·)
      rw [List.map_append, List.pairwise_append]
      refine ⟨ho.markers, List.pairwise_singleton _ _, ?_⟩
      intro sn hsn sn' hsn'
      obtain rfl : sn' = m.sn := List.mem_singleton.mp hsn'
      rw [hm]
      exact ho.below sn (List.mem_append_right _ hsn)
    positive := fun sn h => by
      rcases hkept sn h with h | rfl
      · exact ho.positive sn h
      · exact ho.next_pos
    below := fun sn h => by
      rcases hkept sn h with h | rfl
      · exact hlt sn (ho.below sn h)
      · exact lt_add_one _
    next_pos := hlt 0 ho.next_pos
    trimmed_nonneg := ho.trimmed_nonneg
    trimmed_le := ho.trimmed_le
    flushed_lt := hlt _ ho.flushed_lt
    eoc_lt := fun sn h => by
      cases deferEoc with
      | true =>
        obtain rfl : m.sn = sn := Option.some.inj h
        rw [hm]
        exact lt_add_one _
      | false => exact hlt sn (ho.eoc_lt sn h) }

/-- Tagging leaves the numbers as they are. -/
theorem tagChange_sn (e : EndSet) (baseGsn : ℤ) (ch : CacheChange) :
    (tagChange e baseGsn ch).sequenceNumber = ch.sequenceNumber := by
  unfold tagChange
  dsimp only
  split_ifs <;> first | rfl | (cases e.group <;> rfl)

/-- What tagging the samples of a set leaves alone. -/
theorem tagSet_rest (w : StatefulWriter) (e : EndSet) :
    (w.tagSet e).1.cache.changes.map (·.sequenceNumber) =
      w.cache.changes.map (·.sequenceNumber) ∧
    (w.tagSet e).1.cache.nextSn = w.cache.nextSn ∧
    (w.tagSet e).1.endMarkers = w.endMarkers ∧
    (w.tagSet e).1.lastFlushedSn = w.lastFlushedSn ∧
    (w.tagSet e).1.trimmedThrough = w.trimmedThrough ∧
    (w.tagSet e).1.pendingEocSn = w.pendingEocSn ∧
    (w.tagSet e).1.coherentPendingSns = w.coherentPendingSns := by
  unfold tagSet
  split
  · exact ⟨rfl, rfl, rfl, rfl, rfl, rfl, rfl⟩
  · refine ⟨?_, rfl, rfl, rfl, rfl, rfl, rfl⟩
    show (w.cache.changes.map _).map _ = _
    rw [List.map_map]
    exact List.map_congr_left fun ch _ => tagChange_sn _ _ ch

theorem ownGroup_fields (w : StatefulWriter) (e : EndSet) (baseGsn : ℤ) :
    (w.ownGroup e baseGsn).coherentSns = e.coherentSns ∧ (w.ownGroup e baseGsn).mode = e.mode ∧
    ((w.ownGroup e baseGsn).mode = .full → (w.ownGroup e baseGsn).group.isSome = true) := by
  unfold ownGroup
  split
  next => exact ⟨rfl, rfl, fun _ => rfl⟩
  next h =>
    refine ⟨rfl, rfl, fun hm => ?_⟩
    rw [← Option.ne_none_iff_isSome]
    exact fun hg => h ⟨hm, hg⟩

theorem tagSet_coherentSns (w : StatefulWriter) (e : EndSet) :
    (w.tagSet e).2.coherentSns = e.coherentSns := by
  unfold tagSet
  split
  · rfl
  · exact (w.ownGroup_fields e _).1

theorem tagSet_keptSns (w : StatefulWriter) (e : EndSet) :
    (w.tagSet e).1.keptSns = w.keptSns := by
  obtain ⟨hch, -, hm, -⟩ := w.tagSet_rest e
  unfold keptSns
  rw [hch, hm]

theorem Ordered.tagSet (ho : w.Ordered) (e : EndSet) : (w.tagSet e).1.Ordered := by
  obtain ⟨hch, hn, hm, hf, ht, hp, -⟩ := w.tagSet_rest e
  have hk := w.tagSet_keptSns e
  exact {
    changes := by rw [hch]; exact ho.changes
    markers := by rw [hm]; exact ho.markers
    positive := by rw [hk]; exact ho.positive
    below := by rw [hk, hn]; exact ho.below
    next_pos := by rw [hn]; exact ho.next_pos
    trimmed_nonneg := by rw [ht]; exact ho.trimmed_nonneg
    trimmed_le := by rw [ht, hf]; exact ho.trimmed_le
    flushed_lt := by rw [hf, hn]; exact ho.flushed_lt
    eoc_lt := by rw [hp, hn]; exact ho.eoc_lt }

theorem lastAvailable_lt (ho : w.Ordered) : w.lastAvailableSnLocked < w.cache.nextSn := by
  have hmax : ∀ (l : List ℤ) (n : ℤ), n < w.cache.nextSn → (∀ sn ∈ l, sn < w.cache.nextSn) →
      l.foldl max n < w.cache.nextSn := by
    intro l
    induction l with
    | nil => exact fun n h _ => h
    | cons a l ih =>
      exact fun n h hl => ih (max n a) (max_lt h (hl a List.mem_cons_self))
        (fun sn h' => hl sn (List.mem_cons_of_mem _ h'))
  have hcache : max w.cache.maxSn w.trimmedThrough < w.cache.nextSn :=
    max_lt (hmax _ 0 ho.next_pos fun sn h => ho.below sn (List.mem_append_left _ h))
      (ho.trimmed_le.trans_lt ho.flushed_lt)
  unfold lastAvailableSnLocked
  dsimp only
  split
  · exact hcache
  next m hm =>
    exact max_lt hcache (ho.below _ (mem_keptSns_of_marker (List.mem_of_getLast? hm)))

theorem lastSent_le : w.lastSentSnLocked ≤ w.lastAvailableSnLocked := by
  unfold lastSentSnLocked
  split
  · exact min_le_left _ _
  · exact le_rfl

end StatefulWriter

namespace Move

variable {sc : Scope} {s s' : View}

open StatefulWriter

theorem config (h : Move sc s s') : s'.writer.config = s.writer.config := by
  cases h with
  | ready g isReady => exact (OnlySent.reportReady s.writer g isReady).config
  | trim =>
    rcases s.writer.trimAckedLocked_cases with h | ⟨-, -, h⟩
    · rw [h]
    · rw [h]
      rfl
  | retire => simp only [retireEndMarkersLocked]
  | beginSet b =>
    unfold beginCoherentSet
    split <;> rfl
  | tag e hp =>
    dsimp only
    unfold tagSet
    split <;> rfl
  | addMarker e m deferEoc hp hm => simp only [StatefulWriter.addMarker, retireEndMarkersLocked]
  | _ => rfl

/-- Numbers are taken in order, and what is kept afterwards was kept before or is new. -/
theorem keeps (h : Move sc s s') : s.writer.cache.nextSn ≤ s'.writer.cache.nextSn ∧
    ∀ sn ∈ s'.writer.keptSns, sn ∈ s.writer.keptSns ∨ s.writer.cache.nextSn ≤ sn := by
  have hsame : ∀ {w : StatefulWriter}, w.cache = s.writer.cache →
      w.endMarkers = s.writer.endMarkers → s.writer.cache.nextSn ≤ w.cache.nextSn ∧
      ∀ sn ∈ w.keptSns, sn ∈ s.writer.keptSns ∨ s.writer.cache.nextSn ≤ sn := by
    intro w hc hm
    rw [keptSns, hc, hm]
    exact ⟨le_rfl, fun sn h => .inl h⟩
  have hadd : ∀ (sample : Sample) {w : StatefulWriter},
      w.cache = (s.writer.addSample sample).cache → w.endMarkers = s.writer.endMarkers →
      s.writer.cache.nextSn ≤ w.cache.nextSn ∧
      ∀ sn ∈ w.keptSns, sn ∈ s.writer.keptSns ∨ s.writer.cache.nextSn ≤ sn := by
    intro sample w hc hm
    obtain ⟨-, -, -, -, -, hnext⟩ := s.writer.addSample_changes sample
    rw [keptSns, hc, hm, hnext]
    exact ⟨(lt_add_one _).le, fun sn h => (addSample_keptSns h).imp_right ge_of_eq⟩
  cases h with
  | ready g isReady =>
    have ho := OnlySent.reportReady s.writer g isReady
    exact hsame ho.cache ho.endMarkers
  | trim =>
    rcases s.writer.trimAckedLocked_cases with h | ⟨-, -, h⟩
    · rw [h]
      exact ⟨le_rfl, fun sn h => .inl h⟩
    · rw [h]
      refine ⟨le_rfl, fun sn h => .inl ?_⟩
      exact (((List.dropWhile_sublist _).map _).append (List.Sublist.refl _)).subset h
  | retire =>
    refine ⟨?_, fun sn h => .inl (retireEndMarkersLocked_keptSns h)⟩
    show _ ≤ s.writer.retireEndMarkersLocked.cache.nextSn
    rw [retireEndMarkersLocked_cache]
  | writeBuffered sample b hw hev ha => exact hadd sample rfl rfl
  | writeNow sample b hw hev ha => exact hadd sample rfl rfl
  | tag e hp =>
    obtain ⟨-, hn, -⟩ := s.writer.tagSet_rest e
    show _ ≤ (s.writer.tagSet e).1.cache.nextSn ∧ ∀ sn ∈ (s.writer.tagSet e).1.keptSns, _
    rw [hn, tagSet_keptSns]
    exact ⟨le_rfl, fun sn h => .inl h⟩
  | addMarker e m deferEoc hp hm =>
    obtain ⟨-, -, hn⟩ := addMarker_fields (w := s.writer) m deferEoc
    refine ⟨?_, fun sn h => (addMarker_keptSns h).imp_right fun he => (he.trans hm).ge⟩
    show _ ≤ (s.writer.addMarker m deferEoc).cache.nextSn
    rw [hn]
    exact (lt_add_one _).le
  | beginSet b =>
    unfold beginCoherentSet
    split <;> exact hsame rfl rfl
  | _ => exact hsame rfl rfl

theorem ordered (h : Move sc s s') (hs : s.Sound) : s'.writer.Ordered := by
  have ho := hs.toOrdered
  cases h with
  | ready g isReady =>
    have h := OnlySent.reportReady s.writer g isReady
    exact ho.congr h.cache h.endMarkers h.lastFlushedSn h.trimmedThrough h.pendingEocSn
  | trim => exact ho.trim
  | retire => exact ho.retire
  | takeEoc sn hsn => exact { ho with eoc_lt := fun _ h => nomatch h }
  | flush sn f hf =>
    have hlt := hs.flight (.flushing sn) (by rw [hf]; exact Multiset.mem_cons_self _ _)
    exact ho.flushedThrough hlt
  | writeBuffered sample b hw hev ha => exact (ho.addSample sample).congr rfl rfl rfl rfl rfl
  | writeNow sample b hw hev ha => exact (ho.addSample sample).congr rfl rfl rfl rfl rfl
  | beginSet b =>
    unfold beginCoherentSet
    split <;> exact ho.congr rfl rfl rfl rfl rfl
  | tag e hp => exact ho.tagSet e
  | addMarker e m deferEoc hp hm => exact ho.addMarker hm deferEoc
  | flushMarker e sn hp ha hlt => exact ho.flushedThrough hlt
  | _ => exact ho.congr rfl rfl rfl rfl rfl

/-- What comes into flight is below the next number. -/
theorem flight_lt (h : Move sc s s') (hs : s.Sound) :
    ∀ x ∈ s'.flight, x.topSn < s'.writer.cache.nextSn := by
  have ho := hs.toOrdered
  intro x hx
  refine lt_of_lt_of_le ?_ h.keeps.1
  rcases h.scheduled hx with hx | hx
  · exact hs.flight x hx
  · cases hx with
    | data g ch hm => exact ho.below _ (mem_keptSns_of_change hm.1)
    | marker g m hm =>
      show m.sn < _
      rcases hm with ⟨m', hm', he⟩ | hm | hm
      · rw [← he]
        exact ho.below _ (mem_keptSns_of_marker hm')
      · exact ho.eoc_lt _ hm
      · exact hm.2
    | heartbeat g startSn gaps firstSn lastSn final liveliness hu hof hl =>
      exact (hl.trans lastSent_le).trans_lt (lastAvailable_lt ho)
    | flush sn hf =>
      obtain ⟨-, -, ch, hch, rfl⟩ := hf
      exact ho.below _ (mem_keptSns_of_change hch)
    | eoc sn hsn => exact ho.eoc_lt sn hsn

/-- Writes held back queue up, until the set they belong to ends. -/
theorem pending (h : Move sc s s') : s'.writer.coherentPendingSns = s.writer.coherentPendingSns ∨
    (s'.writer.coherentPendingSns = s.writer.coherentPendingSns ++ [s.writer.cache.nextSn] ∧
      s'.writer.cache.nextSn = s.writer.cache.nextSn + 1) ∨
    s'.writer.coherentPendingSns = [] := by
  cases h with
  | ready g isReady => exact .inl (OnlySent.reportReady s.writer g isReady).coherentPendingSns
  | trim =>
    left
    rcases s.writer.trimAckedLocked_cases with h | ⟨-, -, h⟩
    · rw [h]
    · rw [h]
      rfl
  | retire =>
    left
    simp only [retireEndMarkersLocked]
  | writeBuffered sample b hw hev ha =>
    obtain ⟨-, -, -, -, -, hnext⟩ := s.writer.addSample_changes sample
    exact .inr (.inl ⟨rfl, hnext⟩)
  | beginSet b =>
    left
    unfold beginCoherentSet
    split <;> rfl
  | tag e hp =>
    obtain ⟨-, -, -, -, -, -, hq⟩ := s.writer.tagSet_rest e
    exact .inl hq
  | addMarker e m deferEoc hp hm =>
    left
    simp only [StatefulWriter.addMarker, retireEndMarkersLocked]
  | finish => exact .inr (.inr rfl)
  | _ => exact .inl rfl

theorem pending_lt (h : Move sc s s') (hs : s.Sound) :
    ∀ sn ∈ s'.writer.coherentPendingSns, sn < s'.writer.cache.nextSn := by
  have hold : ∀ sn ∈ s.writer.coherentPendingSns, sn < s'.writer.cache.nextSn :=
    fun sn hsn => (hs.pending sn hsn).trans_le h.keeps.1
  rcases h.pending with hp | ⟨hp, hn⟩ | hp
  · rwa [hp]
  · rw [hp]
    intro sn hsn
    rcases List.mem_append.mp hsn with hsn | hsn
    · exact hold sn hsn
    · rw [List.mem_singleton.mp hsn, hn]
      exact lt_add_one _
  · rw [hp]
    exact fun _ h => nomatch h

theorem sound (h : Move sc s s') (hs : s.Sound) : s'.Sound where
  toOrdered := h.ordered hs
  flight := h.flight_lt hs
  pending := h.pending_lt hs

end Move

theorem Machine.init_sound (config : WriterConfig) (kind : HistoryKind) (depth : ℕ)
    (blocks : ℕ → Bool) : (Machine.init config kind depth blocks).view.Sound where
  changes := List.Pairwise.nil
  markers := List.Pairwise.nil
  positive := fun _ h => nomatch h
  below := fun _ h => nomatch h
  next_pos := one_pos
  trimmed_nonneg := le_rfl
  trimmed_le := le_rfl
  flushed_lt := one_pos
  eoc_lt := fun _ h => nomatch h
  flight := fun _ h => absurd h (Multiset.notMem_zero _)
  pending := fun _ h => nomatch h

end Zzdds.Rtps
