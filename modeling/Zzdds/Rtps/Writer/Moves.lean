import Mathlib.Data.Multiset.AddSub
import Mathlib.Data.Set.Insert
import Mathlib.Logic.Relation
import Zzdds.Rtps.Writer.Machine

/-! # What the writer's steps are made of

A `View` is the machine as its invariants see it: the writer, the messages its tasks have still
to send, and how far an `endCoherentSet` has come.  A `Move` is one elementary change of a view,
with all that the code checks before it makes the change.  Every action of the machine is a
sequence of moves (`Machine.step_moves`), so an invariant of the moves is an invariant of the
machine.

What an action may do beyond that is its `Scope`: the samples it may send, the readers it may
send a HEARTBEAT, the acknowledgement it brings. -/

namespace Zzdds.Rtps

/-- What one action may do. -/
structure Scope where
  /-- Samples it may send or schedule. -/
  sample : ℤ → Prop := fun _ => False
  /-- Samples it sends without asking whether they are hidden. -/
  unfiltered : ℤ → Prop := fun _ => False
  /-- It announces all the writer has, hidden or not. -/
  announceAll : Prop := False
  /-- Readers it may send a HEARTBEAT, under the lock. -/
  heartbeat : Guid → Prop := fun _ => False
  /-- A HEARTBEAT scheduled before that it may send. -/
  land : Guid → ℕ → Prop := fun _ _ => False
  ack : Guid → ℤ → Prop := fun _ _ => False
  write : StatefulWriter.Sample → Bool → Prop := fun _ _ => False
  /-- Samples its write takes out of the history. -/
  evicts : ℤ → Prop := fun _ => False
  /-- It may end a coherent set. -/
  endSet : Prop := False

/-- What a task has still to do with its lock released. -/
inductive Packet where
  | message (reader : Guid) (m : WriterMessage)
  /-- A sample that counts as flushed once the task has the lock again. -/
  | flushing (sn : ℤ)

/-- How far an `endCoherentSet` has come: `rest` is still to be sent of the samples before the
window, or, once these are tagged, of the window. -/
structure Phase where
  tagged : Bool
  rest : List ℤ
  set : EndSet

structure View where
  writer : StatefulWriter
  /-- Readers that were sent a HEARTBEAT or HEARTBEAT_FRAG under the present count. -/
  addressed : Set Guid
  flight : Multiset Packet
  phase : Option Phase
  /-- The sample the present action sends to all readers. -/
  current : Option ℤ

namespace StatefulWriter

/-- An action may send a sample: it is in the history, asked for, and not hidden. -/
def MaySend (w : StatefulWriter) (sc : Scope) (current : Option ℤ) (ch : CacheChange) : Prop :=
  ch ∈ w.cache.changes ∧
  (sc.sample ch.sequenceNumber ∨ current = some ch.sequenceNumber) ∧
  (ch.sequenceNumber ≤ w.lastSentSnLocked ∨ w.isCoherentPendingSn ch.sequenceNumber = false ∨
    sc.unfiltered ch.sequenceNumber)

/-- A marker that may be sent: a kept one, the one of the combined send, or any outside a
coherent set. -/
def MaySendMarker (w : StatefulWriter) (sn : ℤ) : Prop :=
  (∃ m ∈ w.endMarkers, m.sn = sn) ∨ w.pendingEocSn = some sn ∨
    (w.coherentActive = false ∧ sn < w.cache.nextSn)

/-- A sample that may come to count as flushed: the one the action sends to all readers. -/
def MayFlush (w : StatefulWriter) (current : Option ℤ) (sn : ℤ) : Prop :=
  w.coherentActive = false ∧ current = some sn ∧ ∃ ch ∈ w.cache.changes, ch.sequenceNumber = sn

/-- A write of `sample` takes the sample `sn` out of the history. -/
def Evicts (w : StatefulWriter) (sample : Sample) (sn : ℤ) : Prop :=
  (∃ ch ∈ w.cache.changes, ch.sequenceNumber = sn) ∧
  ∀ ch ∈ (w.addSample sample).cache.changes, ch.sequenceNumber ≠ sn

/-- The bounds and GAPs of a HEARTBEAT up to `lastSn`, for a reader served from `startSn`.  Only
one that announces all the writer has may override its first number. -/
def Offers (w : StatefulWriter) (startSn : ℤ) (gaps : List (ℤ × ℤ)) (firstSn lastSn : ℤ) : Prop :=
  min 0 w.lastSentSnLocked ≤ lastSn ∧ ∃ firstSnOverride : Option ℤ,
    (∀ sn ∈ firstSnOverride, lastSn = w.lastAvailableSnLocked ∧
      sn = if 0 < w.firstAvailableSnLocked then w.firstAvailableSnLocked else 1) ∧
    firstSn = hbFirstSn w.firstAvailableSnLocked lastSn startSn firstSnOverride ∧
    gaps = preMatchGap startSn firstSnOverride ++ evictedGap w.firstAvailableSnLocked startSn

end StatefulWriter

inductive Move (sc : Scope) : View → View → Prop
  /-- Draw a HEARTBEAT count. -/
  | bump (s : View) : Move sc s { s with writer := s.writer.bumpHb, addressed := ∅ }
  | heartbeat (s : View) (g : Guid) (locs : List Locator) (startSn : ℤ) (gaps : List (ℤ × ℤ))
      (firstSn lastSn : ℤ) (final liveliness : Bool)
      (hu : g ∉ s.addressed) (hg : sc.heartbeat g)
      (ho : s.writer.Offers startSn gaps firstSn lastSn) (hv : 0 < lastSn → firstSn ≤ lastSn + 1)
      (hl : lastSn ≤ s.writer.lastSentSnLocked ∨
        (sc.announceAll ∧ lastSn ≤ s.writer.lastAvailableSnLocked)) :
      Move sc s { s with
        writer := s.writer.send g locs
          (.heartbeat startSn gaps firstSn lastSn s.writer.hbCount final liveliness)
        addressed := insert g s.addressed }
  | heartbeatFrag (s : View) (g : Guid) (locs : List Locator) (ch : CacheChange) (numFrags : ℕ)
      (hu : g ∉ s.addressed) (hs : s.writer.MaySend sc s.current ch) :
      Move sc s { s with
        writer := s.writer.send g locs
          (.heartbeatFrag ch.sequenceNumber numFrags s.writer.hbCount)
        addressed := insert g s.addressed }
  | data (s : View) (g : Guid) (locs : List Locator) (ch : CacheChange)
      (hs : s.writer.MaySend sc s.current ch) :
      Move sc s { s with writer := s.writer.send g locs (.data ch) }
  | dataFrag (s : View) (g : Guid) (locs : List Locator) (ch : CacheChange) (fragNum : ℕ)
      (withTs : Bool) (hs : s.writer.MaySend sc s.current ch) :
      Move sc s { s with writer := s.writer.send g locs (.dataFrag ch fragNum withTs) }
  | marker (s : View) (g : Guid) (locs : List Locator) (m : EndMarker)
      (hm : s.writer.MaySendMarker m.sn) :
      Move sc s { s with writer := s.writer.send g locs (.endMarker m) }
  | gap (s : View) (g : Guid) (locs : List Locator) (sn : ℤ) (hn : sn ∉ s.writer.keptSns) :
      Move sc s { s with writer := s.writer.send g locs (.gap sn) }
  | attempt (s : View) : Move sc s { s with writer := s.writer.countAttempt }
  | ready (s : View) (g : Guid) (isReady : Bool) :
      Move sc s { s with writer := s.writer.reportReady g isReady }
  | trim (s : View) : Move sc s { s with writer := s.writer.trimAckedLocked }
  | retire (s : View) : Move sc s { s with writer := s.writer.retireEndMarkersLocked }
  /-- Change a proxy; its acknowledged number only as the action's ACKNACK says. -/
  | proxy (s : View) (rp rp' : ReaderProxy) (hm : rp ∈ s.writer.readerProxies)
      (hg : rp'.guid = rp.guid)
      (ha : rp'.highestAckedSn = rp.highestAckedSn ∨
        ∃ h, sc.ack rp.guid h ∧ rp'.highestAckedSn = max rp.highestAckedSn h) :
      Move sc s { s with writer := s.writer.setProxy rp' }
  | addReader (s : View) (rp : ReaderProxy)
      (h : s.writer.findReaderProxyLocked rp.guid = none) (ha : rp.highestAckedSn = 0) :
      Move sc s { s with
        writer := { s.writer.appendProxy rp h with lastMatchId := s.writer.lastMatchId + 1 } }
  | removeReader (s : View) (g : Guid) : Move sc s { s with writer := s.writer.removeProxy g }
  | launchData (s : View) (g : Guid) (ch : CacheChange)
      (hs : s.writer.MaySend sc s.current ch) :
      Move sc s { s with flight := .message g (.data ch) ::ₘ s.flight }
  | launchMarker (s : View) (g : Guid) (m : EndMarker) (hm : s.writer.MaySendMarker m.sn) :
      Move sc s { s with flight := .message g (.endMarker m) ::ₘ s.flight }
  | launchHeartbeat (s : View) (g : Guid) (startSn : ℤ) (gaps : List (ℤ × ℤ))
      (firstSn lastSn : ℤ) (final liveliness : Bool) (hu : g ∉ s.addressed)
      (ho : s.writer.Offers startSn gaps firstSn lastSn)
      (hl : lastSn ≤ s.writer.lastSentSnLocked) :
      Move sc s { s with
        addressed := insert g s.addressed
        flight := .message g
          (.heartbeat startSn gaps firstSn lastSn s.writer.hbCount final liveliness) ::ₘ s.flight }
  | launchFlush (s : View) (sn : ℤ) (hf : s.writer.MayFlush s.current sn) :
      Move sc s { s with flight := .flushing sn ::ₘ s.flight }
  /-- The marker of the combined send is out. -/
  | takeEoc (s : View) (sn : ℤ) (hs : s.writer.pendingEocSn = some sn) :
      Move sc s { s with
        writer := { s.writer with pendingEocSn := none }
        flight := .flushing sn ::ₘ s.flight }
  /-- Send what was scheduled. -/
  | land (s : View) (g : Guid) (locs : List Locator) (m : WriterMessage) (f : Multiset Packet)
      (hf : s.flight = .message g m ::ₘ f)
      (hl : ∀ startSn gaps firstSn lastSn count final liveliness,
        m = .heartbeat startSn gaps firstSn lastSn count final liveliness →
        sc.land g count ∧ (0 < lastSn → firstSn ≤ lastSn + 1)) :
      Move sc s { s with writer := s.writer.send g locs m, flight := f }
  /-- Send what was scheduled, one of several times. -/
  | resend (s : View) (g : Guid) (locs : List Locator) (m : EndMarker)
      (hf : Packet.message g (.endMarker m) ∈ s.flight) :
      Move sc s { s with writer := s.writer.send g locs (.endMarker m) }
  | flush (s : View) (sn : ℤ) (f : Multiset Packet) (hf : s.flight = .flushing sn ::ₘ f) :
      Move sc s { s with writer := s.writer.flushedThrough sn, flight := f }
  | drop (s : View) (x : Packet) (f : Multiset Packet) (hf : s.flight = x ::ₘ f) :
      Move sc s { s with flight := f }
  | forget (s : View) : Move sc s { s with addressed := Set.univ, current := none }
  /-- A write that a coherent set or a suspension holds back. -/
  | writeBuffered (s : View) (sample : StatefulWriter.Sample) (b : Bool)
      (hw : sc.write sample b) (hev : ∀ sn, s.writer.Evicts sample sn → sc.evicts sn)
      (ha : s.writer.coherentActive = true) :
      Move sc s { s with writer :=
        { (s.writer.addSample sample).emit (.wrote s.writer.cache.nextSn b) with
          coherentPendingSns := s.writer.coherentPendingSns ++ [s.writer.cache.nextSn] } }
  | writeNow (s : View) (sample : StatefulWriter.Sample) (b : Bool)
      (hw : sc.write sample b) (hev : ∀ sn, s.writer.Evicts sample sn → sc.evicts sn)
      (ha : s.writer.coherentActive = false) :
      Move sc s { s with
        writer := ((s.writer.addSample sample).emit (.wrote s.writer.cache.nextSn b)).emit
          (.offer s.writer.cache.nextSn true)
        current := some s.writer.cache.nextSn }
  | beginSet (s : View) (isCoherentWindow : Bool) (hp : s.phase = none) :
      Move sc s { s with writer := s.writer.beginCoherentSet isCoherentWindow }
  | endSet (s : View) (e : EndSet) (he : sc.endSet) (hp : s.phase = none) :
      Move sc s { s with
        writer := { s.writer with coherentActive := false, coherentWindowStart := 0 }
        phase := some ⟨false, s.writer.coherentPendingSns.take s.writer.coherentWindowStart,
          { e with coherentSns :=
              s.writer.coherentPendingSns.drop s.writer.coherentWindowStart }⟩
        current := none }
  /-- A sample that has left the history is passed over. -/
  | skip (s : View) (tagged : Bool) (sn : ℤ) (rest : List ℤ) (e : EndSet)
      (hp : s.phase = some ⟨tagged, sn :: rest, e⟩) (hn : s.writer.cache.getChange sn = none) :
      Move sc s { s with phase := some ⟨tagged, rest, e⟩ }
  | offer (s : View) (tagged : Bool) (sn : ℤ) (rest : List ℤ) (e : EndSet)
      (hp : s.phase = some ⟨tagged, sn :: rest, e⟩) :
      Move sc s { s with
        writer := s.writer.emit (.offer sn false)
        phase := some ⟨tagged, rest, e⟩
        current := some sn }
  | tag (s : View) (e : EndSet) (hp : s.phase = some ⟨false, [], e⟩) :
      Move sc s { s with
        writer := (s.writer.tagSet e).1
        phase := some ⟨true, (s.writer.tagSet e).2.coherentSns, (s.writer.tagSet e).2⟩ }
  | addMarker (s : View) (e : EndSet) (m : EndMarker) (deferEoc : Bool)
      (hp : s.phase = some ⟨true, [], e⟩) (hm : m.sn = s.writer.cache.nextSn) :
      Move sc s { s with writer := s.writer.addMarker m deferEoc }
  /-- The marker is out. -/
  | flushMarker (s : View) (e : EndSet) (sn : ℤ) (hp : s.phase = some ⟨true, [], e⟩)
      (ha : s.writer.coherentActive = false) (hlt : sn < s.writer.cache.nextSn) :
      Move sc s { s with writer := s.writer.flushedThrough sn }
  | finish (s : View) (tagged : Bool) (e : EndSet) (hp : s.phase = some ⟨tagged, [], e⟩)
      (ht : tagged = true ∨ e.coherentSns = []) :
      Move sc s { s with
        writer := { s.writer with
          coherentPendingSns := []
          coherentActive := s.writer.coherentActive || e.resuspend }
        phase := none }

abbrev Moves (sc : Scope) : View → View → Prop := Relation.ReflTransGen (Move sc)

end Zzdds.Rtps
