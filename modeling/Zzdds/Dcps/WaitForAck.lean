import Zzdds.Dcps.DataReader
import Zzdds.Lib.Run
import Zzdds.Rtps.Acknowledged

/-! # Waiting for acknowledgements

`wait_for_acknowledgments` of a writer waits until every reliable reader has acknowledged the
number in `last_sn`; that of a publisher polls its writers, each for the number it then finds
there.  `writeRaw` stores the number of its sample in `last_sn` once the protocol writer has
returned, without a lock, and `disposeRaw` and `unregisterRaw` do not store theirs.  An
`AckSystem` is the writers of a publisher with the calls under way: each stretch of a call between
two accesses to what the threads share is an action of its own.

`AckSystem.returned_acked`: a wait that returned OK has its calls acknowledged, if each load of
`last_sn` it made found the numbers of these calls stored. -/

namespace Zzdds.Dcps

open Rtps

/-! ### The calls that write -/

inductive WriteCall where
  | writeRaw (s : StatefulWriter.Sample)
  | disposeRaw (sourceTimestamp : RtpsTimestamp) (instanceHandle : InstanceHandle)
      (keyHash : KeyHash)
  | unregisterRaw (sourceTimestamp : RtpsTimestamp) (instanceHandle : InstanceHandle)
      (keyHash : KeyHash)

namespace WriteCall

/-- What the call has the protocol writer write. -/
def sample (autodispose : Bool) : WriteCall → StatefulWriter.Sample
  | writeRaw s => s
  | disposeRaw ts ih kh => ⟨.notAliveDisposed, ts, ih, kh, []⟩
  | unregisterRaw ts ih kh =>
      ⟨if autodispose then .notAliveDisposed else .notAliveUnregistered, ts, ih, kh, []⟩

/-- The call stores the number of its sample in `last_sn`. -/
def storesSn : WriteCall → Bool
  | writeRaw _ => true
  | disposeRaw _ _ _ => false
  | unregisterRaw _ _ _ => false

end WriteCall

/-- Where a call stands. -/
inductive RunningCall where
  /-- Past its checks. -/
  | admitted (c : WriteCall)
  /-- Written, with `last_sn` still to store. -/
  | wrote (sn : ℤ)
  | returning (sn : ℤ)

/-- The number of the call's sample, once it has one. -/
def RunningCall.sn? : RunningCall → Option ℤ
  | admitted _ => none
  | wrote sn => some sn
  | returning sn => some sn

/-- A `DataWriterImpl`.  A call may be taken to go on before its send has ended, which the code
does not let it; `finished` and `acks` are for the record: the numbers of the calls that have
returned, and the ACKNACKs that have come, each with the number it acknowledges up to. -/
structure DataWriter where
  reliable : Bool
  limits : ResourceLimits
  autodispose : Bool
  enabled : Bool := false
  proto : Machine
  lastSn : ℤ := 0
  running : List RunningCall := []
  finished : List ℤ := []
  acks : List (Guid × ℤ) := []

/-- The reader and the number of an ACKNACK. -/
def ackOf : WriterAction → Option (Guid × ℤ)
  | .handleAckNack reader highestSn _ _ _ => some (reader, highestSn)
  | _ => none

namespace DataWriter

variable (w : DataWriter)

/-- How many samples a write may find in the history, 0 for any number. -/
def maxCached : ℤ :=
  let ms := w.limits.maxSamples
  let msi := w.limits.maxSamplesPerInstance
  if 0 < ms ∧ 0 < msi then min ms msi else if 0 < ms then ms else if 0 < msi then msi else 0

/-- A call passes its checks.  A best-effort `writeRaw` fails at the limit and a reliable one waits
for the history to fall below it, so either goes on below it only. -/
def admits : WriteCall → Bool
  | .writeRaw _ => w.enabled &&
      (decide (w.maxCached ≤ 0) || decide ((w.proto.writer.cache.changes.length : ℤ) < w.maxCached))
  | .disposeRaw _ _ _ => true
  | .unregisterRaw _ _ _ => true

/-- The `k`-th call goes on. -/
def advance (k : ℕ) : Option DataWriter :=
  match w.running[k]? with
  | none => none
  | some (.admitted c) =>
      let sn := w.proto.writer.cache.nextSn
      (w.proto.step (.write (c.sample w.autodispose))).map fun proto => { w with
        proto := proto
        running := w.running.set k (if c.storesSn then .wrote sn else .returning sn) }
  | some (.wrote sn) => some { w with lastSn := sn, running := w.running.set k (.returning sn) }
  | some (.returning sn) => some { w with
      running := w.running.eraseIdx k
      finished := w.finished ++ [sn] }

/-- Whatever else the protocol writer does; only calls write. -/
def protocol : WriterAction → Option DataWriter
  | .write _ => none
  | a => (w.proto.step a).map fun proto => { w with
      proto := proto
      acks := w.acks ++ (ackOf a).toList }

/-- The number `vtWaitForAck` waits for, 0 where it returns OK at once. -/
def awaitedSn : ℤ := if w.reliable then w.lastSn else 0

/-- The reader is matched, as a reliable one. -/
def matchesReliably (g : Guid) : Bool :=
  w.proto.writer.readerProxies.any (fun rp => decide (rp.guid = g) && rp.reliable)

def reliableReaders : List Guid :=
  (w.proto.writer.readerProxies.filter (·.reliable)).map (·.guid)

/-- The reader has sent the writer an ACKNACK that acknowledges `sn`. -/
def AckedBy (g : Guid) (sn : ℤ) : Prop := ∃ a ∈ w.acks, a.1 = g ∧ sn ≤ a.2

end DataWriter

/-! ### The calls that wait -/

inductive WaitStage where
  /-- In `waitAllAcked` of the `i`-th writer. -/
  | writer (i : ℕ) (target : ℤ)
  /-- In `allWritersAcked`, at the `i`-th writer, whose `last_sn` may be loaded. -/
  | publisher (i : ℕ) (loaded : Option ℤ)

/-- The writer whose `last_sn` is loaded next. -/
def WaitStage.loads : WaitStage → Option ℕ
  | writer _ _ => none
  | publisher i none => some i
  | publisher _ (some _) => none

/-- A `wait_for_acknowledgments`.  For the record: the numbers, each with its reliable writer, of
the calls that had returned when it started, and the reliable readers matched ever since. -/
structure Wait where
  stage : WaitStage
  covers : List (ℕ × ℤ)
  readers : List (ℕ × Guid)

structure AckSystem where
  writers : List DataWriter := []
  waits : List Wait := []
  /-- The waits that returned OK. -/
  returned : List Wait := []

inductive AckAction where
  | create (reliable : Bool) (limits : ResourceLimits) (autodispose : Bool) (config : WriterConfig)
      (kind : HistoryKind) (depth : ℕ) (blocks : ℕ → Bool)
  | enable (i : ℕ)
  | setQos (i : ℕ) (autodispose : Bool)
  | protocol (i : ℕ) (a : WriterAction)
  | call (i : ℕ) (c : WriteCall)
  | advance (i k : ℕ)
  /-- The writer's wait starts; it loads `last_sn`. -/
  | waitForAck (i : ℕ)
  | waitForAllAcks
  /-- The `j`-th wait looks again. -/
  | poll (j : ℕ)
  | timeOut (j : ℕ)

namespace AckSystem

variable (s : AckSystem)

/-- Put a writer back after a step of its own. -/
def withWriter (i : ℕ) (f : DataWriter → Option DataWriter) : Option AckSystem :=
  match s.writers[i]? with
  | none => none
  | some w => (f w).map fun w' => { s with writers := s.writers.set i w' }

/-- What a wait on some of the writers covers. -/
def covered (on : ℕ → Bool) : List (ℕ × ℤ) :=
  s.writers.zipIdx.flatMap fun x =>
    if on x.2 && x.1.reliable then x.1.finished.map (fun sn => (x.2, sn)) else []

def matched (on : ℕ → Bool) : List (ℕ × Guid) :=
  s.writers.zipIdx.flatMap fun x =>
    if on x.2 then x.1.reliableReaders.map (fun g => (x.2, g)) else []

def addWait (stage : WaitStage) (on : ℕ → Bool) : AckSystem :=
  { s with waits := s.waits ++ [⟨stage, s.covered on, s.matched on⟩] }

def setStage (j : ℕ) (wt : Wait) (stage : WaitStage) : AckSystem :=
  { s with waits := s.waits.set j { wt with stage := stage } }

def returnOk (j : ℕ) (wt : Wait) : AckSystem :=
  { s with waits := s.waits.eraseIdx j, returned := s.returned ++ [wt] }

/-- A wait looks again: a writer's at all readers of its writer, a publisher's first at `last_sn`
of the writer it has come to and then at the readers.  A writer's wait that finds a reader behind
waits on. -/
def poll (j : ℕ) (wt : Wait) : Option AckSystem :=
  match wt.stage with
  | .writer i target =>
      match s.writers[i]? with
      | none => none
      | some w =>
          if w.proto.writer.allProxiesAckedLocked target then some (s.returnOk j wt) else none
  | .publisher i loaded =>
      match s.writers[i]?, loaded with
      | none, _ => some (s.returnOk j wt)
      | some w, none =>
          some (s.setStage j wt
            (if w.reliable then .publisher i (some w.lastSn) else .publisher (i + 1) none))
      | some w, some target =>
          some (s.setStage j wt
            (if w.proto.writer.allProxiesAckedLocked target then .publisher (i + 1) none
            -- some reader is behind: a millisecond later from the first writer again
            else .publisher 0 none))

/-- The readers that are still matched. -/
def stillMatched (x : ℕ × Guid) : Bool := s.writers[x.1]?.any (·.matchesReliably x.2)

def keepMatched : AckSystem :=
  { s with waits := s.waits.map fun wt => { wt with readers := wt.readers.filter s.stillMatched } }

def act : AckAction → Option AckSystem
  | .create reliable limits autodispose config kind depth blocks =>
      some { s with writers := s.writers ++ [{
        reliable := reliable
        limits := limits
        autodispose := autodispose
        proto := .init config kind depth blocks }] }
  | .enable i => s.withWriter i fun w => some { w with enabled := true }
  | .setQos i autodispose => s.withWriter i fun w => some { w with autodispose := autodispose }
  | .protocol i a => s.withWriter i (·.protocol a)
  | .call i c => s.withWriter i fun w =>
      if w.admits c then some { w with running := w.running ++ [.admitted c] } else none
  | .advance i k => s.withWriter i (·.advance k)
  | .waitForAck i =>
      match s.writers[i]? with
      | none => none
      | some w =>
          if w.enabled then some (s.addWait (.writer i w.awaitedSn) (fun k => k == i)) else none
  | .waitForAllAcks => some (s.addWait (.publisher 0 none) (fun _ => true))
  | .poll j =>
      match s.waits[j]? with
      | none => none
      | some wt => s.poll j wt
  | .timeOut j => some { s with waits := s.waits.eraseIdx j }

/-- One action, and what it leaves of the readers that the waits have found matched. -/
def step (a : AckAction) : Option AckSystem := (s.act a).map keepMatched

/-- The numbers a wait covers of the writer whose `last_sn` the action loads. -/
def awaited : AckAction → List (ℕ × ℤ)
  | .waitForAck i => s.covered (fun k => k == i)
  | .poll j =>
      match s.waits[j]? with
      | none => []
      | some wt => wt.covers.filter (fun x => wt.stage.loads == some x.1)
  | _ => []

/-- The load of `last_sn` that the action makes, if it makes one, finds a number no lower than
those of the calls that had returned when the wait started. -/
def LoadsCovered (a : AckAction) : Prop :=
  ∀ x ∈ s.awaited a, ∀ w ∈ s.writers[x.1]?, x.2 ≤ w.lastSn

instance decidableLoadsCovered (a : AckAction) : Decidable (s.LoadsCovered a) :=
  inferInstanceAs (Decidable (∀ x ∈ s.awaited a, ∀ w ∈ s.writers[x.1]?, x.2 ≤ w.lastSn))

/-- The reader has acknowledged a number to its writer. -/
def AckedAt (x : ℕ × ℤ) (g : Guid) : Prop := ∃ w, s.writers[x.1]? = some w ∧ w.AckedBy g x.2

/-- Every call the wait covers is acknowledged by every reliable reader matched throughout. -/
def Acked (wt : Wait) : Prop :=
  ∀ x ∈ wt.covers, ∀ g, (x.1, g) ∈ wt.readers → s.AckedAt x g

end AckSystem

/-! ### A writer's own steps -/

namespace DataWriter

/-- A writer's numbers are positive, and what it takes as acknowledged has been. -/
structure Inv (w : DataWriter) : Prop where
  phased : w.proto.WellPhased
  sound : w.proto.view.Sound
  acked : ∀ rp ∈ w.proto.writer.readerProxies, ∀ sn, 0 < sn → sn ≤ rp.highestAckedSn →
    w.AckedBy rp.guid sn
  running : ∀ c ∈ w.running, ∀ sn ∈ c.sn?, 0 < sn
  finished : ∀ sn ∈ w.finished, 0 < sn

/-- What a step of the writer leaves as it was. -/
structure Grows (w w' : DataWriter) : Prop where
  reliable : w'.reliable = w.reliable
  acks : ∀ a ∈ w.acks, a ∈ w'.acks

variable {w w' : DataWriter}

theorem Grows.ackedBy (h : w.Grows w') {g : Guid} {sn : ℤ} (ha : w.AckedBy g sn) :
    w'.AckedBy g sn := by
  obtain ⟨a, hm, hg, hle⟩ := ha
  exact ⟨a, h.acks a hm, hg, hle⟩

/-- The protocol writer's step, with the ACKNACK it brings. -/
theorem Inv.proto (hi : w.Inv) {a : WriterAction} {proto : Machine}
    (h : w.proto.step a = some proto) :
    proto.WellPhased ∧ proto.view.Sound ∧
    ∀ rp ∈ proto.writer.readerProxies, ∀ sn, 0 < sn → sn ≤ rp.highestAckedSn →
      ∃ x ∈ w.acks ++ (ackOf a).toList, x.1 = rp.guid ∧ sn ≤ x.2 := by
  refine ⟨hi.phased.step h, ?_⟩
  refine (Machine.step_moves hi.phased h).2.inv (I := fun s => s.Sound ∧
    ∀ rp ∈ s.writer.readerProxies, ∀ sn, 0 < sn → sn ≤ rp.highestAckedSn →
      ∃ x ∈ w.acks ++ (ackOf a).toList, x.1 = rp.guid ∧ sn ≤ x.2) ?_ ⟨hi.sound, ?_⟩
  · intro s s' hm hs
    refine ⟨hm.sound hs.1, ?_⟩
    intro rp hrp sn hpos hle
    rcases hm.acks hrp with h0 | ⟨rp₀, hrp₀, hg, hsame | ⟨n, hn, hmax⟩⟩
    · omega
    · rw [hg]
      exact hs.2 rp₀ hrp₀ sn hpos (hsame ▸ hle)
    · rw [hg]
      by_cases hold : sn ≤ rp₀.highestAckedSn
      · exact hs.2 rp₀ hrp₀ sn hpos hold
      · obtain ⟨set, count, isFinal, rfl⟩ := WriterAction.scope_ack w.proto a hn
        exact ⟨(rp₀.guid, n), by simp [ackOf], rfl, by omega⟩
  · intro rp hrp sn hpos hle
    obtain ⟨x, hx, h⟩ := hi.acked rp hrp sn hpos hle
    exact ⟨x, List.mem_append_left _ hx, h⟩

theorem Inv.write (hi : w.Inv) {s : StatefulWriter.Sample} {proto : Machine}
    (h : w.proto.step (.write s) = some proto) :
    { w with proto := proto }.Inv := by
  obtain ⟨hp, hs, ha⟩ := hi.proto h
  constructor
  · exact hp
  · exact hs
  · intro rp hrp sn hpos hle
    obtain ⟨x, hx, h⟩ := ha rp hrp sn hpos hle
    exact ⟨x, by simpa [ackOf] using hx, h⟩
  · exact hi.running
  · exact hi.finished

theorem Inv.protocol (hi : w.Inv) {a : WriterAction} (h : w.protocol a = some w') :
    w'.Inv ∧ w.Grows w' := by
  unfold DataWriter.protocol at h
  split at h
  next => cases h
  next a _ =>
    obtain ⟨proto, hs, rfl⟩ := Option.map_eq_some_iff.mp h
    obtain ⟨hp, hsound, ha⟩ := hi.proto hs
    exact ⟨⟨hp, hsound, ha, hi.running, hi.finished⟩, rfl,
      fun x hx => List.mem_append_left _ hx⟩

/-- The stage of a call changes to one with a positive number. -/
theorem Inv.setRunning (hi : w.Inv) (k : ℕ) {c : RunningCall} (hc : ∀ sn ∈ c.sn?, 0 < sn) :
    { w with running := w.running.set k c }.Inv := by
  constructor
  · exact hi.phased
  · exact hi.sound
  · exact hi.acked
  · intro c' hm
    rcases List.mem_or_eq_of_mem_set hm with hm | rfl
    · exact hi.running c' hm
    · exact hc
  · exact hi.finished

theorem Inv.advance (hi : w.Inv) {k : ℕ} (h : w.advance k = some w') : w'.Inv ∧ w.Grows w' := by
  unfold DataWriter.advance at h
  split at h
  next => cases h
  next c _ =>
    obtain ⟨proto, hs, rfl⟩ := Option.map_eq_some_iff.mp h
    refine ⟨(hi.write hs).setRunning k ?_, rfl, fun _ hx => hx⟩
    have hpos : 0 < w.proto.writer.cache.nextSn := hi.sound.next_pos
    intro sn hsn
    cases hc : c.storesSn <;> rw [hc] at hsn <;> cases hsn <;> exact hpos
  next sn hk =>
    cases h
    have hpos : 0 < sn := hi.running _ (List.mem_of_getElem? hk) sn rfl
    refine ⟨?_, rfl, fun _ hx => hx⟩
    have := hi.setRunning k (c := .returning sn) (by simpa [RunningCall.sn?] using hpos)
    exact ⟨this.phased, this.sound, this.acked, this.running, this.finished⟩
  next sn hk =>
    cases h
    have hpos : 0 < sn := hi.running _ (List.mem_of_getElem? hk) sn rfl
    refine ⟨⟨hi.phased, hi.sound, hi.acked, ?_, ?_⟩, rfl, fun _ hx => hx⟩
    · exact fun c hm => hi.running c (List.mem_of_mem_eraseIdx hm)
    · intro n hn
      rcases List.mem_append.mp hn with hn | hn
      · exact hi.finished n hn
      · rw [List.mem_singleton.mp hn]
        exact hpos

/-- A writer whose readers have all acknowledged up to a number. -/
theorem Inv.ackedBy (hi : w.Inv) {target sn : ℤ} {g : Guid}
    (ht : w.proto.writer.allProxiesAckedLocked target = true) (hm : w.matchesReliably g = true)
    (hpos : 0 < sn) (hle : sn ≤ target) : w.AckedBy g sn := by
  obtain ⟨rp, hrp, hg⟩ := List.any_eq_true.mp hm
  simp only [Bool.and_eq_true, decide_eq_true_eq] at hg
  have hne : target ≠ 0 := by omega
  unfold StatefulWriter.allProxiesAckedLocked at ht
  simp only [Bool.or_eq_true, beq_iff_eq, hne, false_or, List.all_eq_true] at ht
  have hacked := ht rp hrp
  simp only [hg.2, Bool.not_true, Bool.false_eq_true, false_or, decide_eq_true_eq] at hacked
  exact hg.1 ▸ hi.acked rp hrp sn hpos (hle.trans hacked)

end DataWriter

/-! ### The invariant of the waits -/

namespace AckSystem

/-- What a wait knows at its stage. -/
def StageOk (s : AckSystem) (wt : Wait) : Prop :=
  match wt.stage with
  | .writer i target => ∀ x ∈ wt.covers, x.1 = i ∧ x.2 ≤ target
  | .publisher i loaded =>
      (∀ x ∈ wt.covers, x.1 < i → ∀ g, (x.1, g) ∈ wt.readers → s.AckedAt x g) ∧
      ∀ target ∈ loaded, ∀ x ∈ wt.covers, x.1 = i → x.2 ≤ target

/-- The numbers a wait covers are those of reliable writers. -/
def CoversOk (s : AckSystem) (wt : Wait) : Prop :=
  ∀ x ∈ wt.covers, 0 < x.2 ∧ ∃ w, s.writers[x.1]? = some w ∧ w.reliable = true

structure Sound (s : AckSystem) : Prop where
  writers : ∀ w ∈ s.writers, w.Inv
  covers : ∀ wt ∈ s.waits, s.CoversOk wt
  stages : ∀ wt ∈ s.waits, s.StageOk wt
  returned : ∀ wt ∈ s.returned, s.Acked wt

structure Inv (s : AckSystem) : Prop extends s.Sound where
  readers : ∀ wt ∈ s.waits, ∀ x ∈ wt.readers, s.stillMatched x = true

/-- Every writer is still there. -/
def Extends (s s' : AckSystem) : Prop :=
  ∀ (i : ℕ) (w : DataWriter), s.writers[i]? = some w → ∃ w', s'.writers[i]? = some w' ∧ w.Grows w'

variable {s s' : AckSystem}

theorem extends_of_eq (h : s'.writers = s.writers) : s.Extends s' :=
  fun i w hw => ⟨w, by rw [h]; exact hw, rfl, fun _ ha => ha⟩

namespace Extends

variable (h : s.Extends s')

include h

theorem ackedAt {x : ℕ × ℤ} {g : Guid} (ha : s.AckedAt x g) : s'.AckedAt x g := by
  obtain ⟨w, hw, ha⟩ := ha
  obtain ⟨w', hw', hg⟩ := h x.1 w hw
  exact ⟨w', hw', hg.ackedBy ha⟩

theorem acked {wt : Wait} (ha : s.Acked wt) : s'.Acked wt :=
  fun x hx g hg => h.ackedAt (ha x hx g hg)

theorem coversOk {wt : Wait} (hc : s.CoversOk wt) : s'.CoversOk wt := by
  intro x hx
  obtain ⟨hpos, w, hw, hr⟩ := hc x hx
  obtain ⟨w', hw', hg⟩ := h x.1 w hw
  exact ⟨hpos, w', hw', hg.reliable.trans hr⟩

theorem stageOk {wt : Wait} (hs : s.StageOk wt) : s'.StageOk wt := by
  unfold StageOk at hs ⊢
  split at hs
  · exact hs
  · exact ⟨fun x hx hlt g hg => h.ackedAt (hs.1 x hx hlt g hg), hs.2⟩

/-- A step that leaves the waits alone. -/
theorem sound (hw : ∀ w ∈ s'.writers, w.Inv) (hwaits : s'.waits = s.waits)
    (hr : s'.returned = s.returned) (hs : s.Sound) : s'.Sound where
  writers := hw
  covers := fun wt hm => h.coversOk (hs.covers wt (hwaits ▸ hm))
  stages := fun wt hm => h.stageOk (hs.stages wt (hwaits ▸ hm))
  returned := fun wt hm => h.acked (hs.returned wt (hr ▸ hm))

end Extends

/-- A step of one writer. -/
theorem Sound.withWriter (hs : s.Sound) {i : ℕ} {f : DataWriter → Option DataWriter}
    (h : s.withWriter i f = some s')
    (hf : ∀ w w', w.Inv → f w = some w' → w'.Inv ∧ w.Grows w') : s'.Sound := by
  unfold AckSystem.withWriter at h
  split at h
  next => cases h
  next w hw =>
    obtain ⟨w', hw', rfl⟩ := Option.map_eq_some_iff.mp h
    obtain ⟨hinv, hgrows⟩ := hf w w' (hs.writers w (List.mem_of_getElem? hw)) hw'
    have hext : s.Extends { s with writers := s.writers.set i w' } := by
      intro k u hu
      by_cases hk : i = k
      · subst hk
        cases hw.symm.trans hu
        exact ⟨w', List.getElem?_set_self (List.getElem?_eq_some_iff.mp hw).1, hgrows⟩
      · exact ⟨u, by rw [List.getElem?_set_ne hk]; exact hu, rfl, fun _ ha => ha⟩
    refine hext.sound ?_ rfl rfl hs
    intro u hu
    rcases List.mem_or_eq_of_mem_set hu with hu | rfl
    · exact hs.writers u hu
    · exact hinv

/-- What a new wait covers. -/
theorem mem_covered {on : ℕ → Bool} {x : ℕ × ℤ} (h : x ∈ s.covered on) :
    on x.1 = true ∧ ∃ w, s.writers[x.1]? = some w ∧ w.reliable = true ∧ x.2 ∈ w.finished := by
  obtain ⟨⟨w, i⟩, hm, hx⟩ := List.mem_flatMap.mp h
  dsimp only at hx
  split at hx
  next hon =>
    obtain ⟨sn, hsn, rfl⟩ := List.mem_map.mp hx
    rw [Bool.and_eq_true] at hon
    exact ⟨hon.1, w, List.mem_zipIdx_iff_getElem?.mp hm, hon.2, hsn⟩
  next => cases hx

theorem covered_coversOk (hs : s.Sound) (stage : WaitStage) (on : ℕ → Bool)
    (readers : List (ℕ × Guid)) : s.CoversOk ⟨stage, s.covered on, readers⟩ := by
  intro x hx
  obtain ⟨-, w, hw, hr, hfin⟩ := mem_covered hx
  exact ⟨(hs.writers w (List.mem_of_getElem? hw)).finished _ hfin, w, hw, hr⟩

/-- A new wait. -/
theorem Sound.addWait (hs : s.Sound) {stage : WaitStage} {on : ℕ → Bool}
    (hst : s.StageOk ⟨stage, s.covered on, s.matched on⟩) : (s.addWait stage on).Sound := by
  have hext : s.Extends (s.addWait stage on) := extends_of_eq rfl
  constructor
  · exact hs.writers
  · intro wt hm
    rcases List.mem_append.mp hm with hm | hm
    · exact hext.coversOk (hs.covers wt hm)
    · rw [List.mem_singleton.mp hm]
      exact hext.coversOk (covered_coversOk hs stage on _)
  · intro wt hm
    rcases List.mem_append.mp hm with hm | hm
    · exact hext.stageOk (hs.stages wt hm)
    · rw [List.mem_singleton.mp hm]
      exact hext.stageOk hst
  · exact fun wt hm => hext.acked (hs.returned wt hm)

/-- A wait comes to another stage. -/
theorem Sound.setStage (hs : s.Sound) {j : ℕ} {wt : Wait} (hm : wt ∈ s.waits) {stage : WaitStage}
    (hst : s.StageOk { wt with stage := stage }) : (s.setStage j wt stage).Sound := by
  have hext : s.Extends (s.setStage j wt stage) := extends_of_eq rfl
  constructor
  · exact hs.writers
  · intro wt' hm'
    rcases List.mem_or_eq_of_mem_set hm' with hm' | rfl
    · exact hext.coversOk (hs.covers wt' hm')
    · exact hext.coversOk (hs.covers wt hm)
  · intro wt' hm'
    rcases List.mem_or_eq_of_mem_set hm' with hm' | rfl
    · exact hext.stageOk (hs.stages wt' hm')
    · exact hext.stageOk hst
  · exact fun wt' hm' => hext.acked (hs.returned wt' hm')

/-- A wait returns OK. -/
theorem Sound.returnOk (hs : s.Sound) {j : ℕ} {wt : Wait} (ha : s.Acked wt) :
    (s.returnOk j wt).Sound := by
  have hext : s.Extends (s.returnOk j wt) := extends_of_eq rfl
  constructor
  · exact hs.writers
  · exact fun wt' hm => hext.coversOk (hs.covers wt' (List.mem_of_mem_eraseIdx hm))
  · exact fun wt' hm => hext.stageOk (hs.stages wt' (List.mem_of_mem_eraseIdx hm))
  · intro wt' hm
    rcases List.mem_append.mp hm with hm | hm
    · exact hext.acked (hs.returned wt' hm)
    · rw [List.mem_singleton.mp hm]
      exact hext.acked ha

/-- The check of one writer for all readers matched since a wait started. -/
theorem Inv.ackedAt (hi : s.Inv) {wt : Wait} (hm : wt ∈ s.waits) {x : ℕ × ℤ} (hx : x ∈ wt.covers)
    {w : DataWriter} (hw : s.writers[x.1]? = some w) {target : ℤ} (hle : x.2 ≤ target)
    (ht : w.proto.writer.allProxiesAckedLocked target = true) {g : Guid}
    (hg : (x.1, g) ∈ wt.readers) : s.AckedAt x g := by
  have hmatched : w.matchesReliably g = true := by
    have := hi.readers wt hm _ hg
    unfold stillMatched at this
    rwa [hw] at this
  exact ⟨w, hw, (hi.writers w (List.mem_of_getElem? hw)).ackedBy ht hmatched
    (hi.covers wt hm x hx).1 hle⟩

/-- One look of a wait. -/
theorem Inv.poll (hi : s.Inv) {j : ℕ} {wt : Wait} (hm : wt ∈ s.waits)
    (hl : ∀ i, wt.stage = .publisher i none →
      ∀ x ∈ wt.covers, x.1 = i → ∀ w ∈ s.writers[i]?, x.2 ≤ w.lastSn)
    (h : s.poll j wt = some s') : s'.Sound := by
  have hstage := hi.stages wt hm
  have hcovers := hi.covers wt hm
  unfold AckSystem.poll at h
  unfold StageOk at hstage
  split at h
  next i target hst =>
    rw [hst] at hstage
    split at h
    next => cases h
    next w hw =>
      split at h
      next hall =>
        cases h
        refine hi.toSound.returnOk ?_
        intro x hx g hg
        obtain ⟨rfl, hle⟩ := hstage x hx
        exact hi.ackedAt hm hx hw hle hall hg
      next => cases h
  next i loaded hst =>
    rw [hst] at hstage
    split at h
    next hnone =>
      -- past the last writer
      cases h
      refine hi.toSound.returnOk ?_
      intro x hx g hg
      obtain ⟨-, w, hw, -⟩ := hcovers x hx
      have hlt := (List.getElem?_eq_some_iff.mp hw).1
      have hge := List.getElem?_eq_none_iff.mp hnone
      exact hstage.1 x hx (by omega) g hg
    next w hw =>
      cases h
      refine hi.toSound.setStage hm ?_
      split
      next hr =>
        refine ⟨hstage.1, ?_⟩
        intro target ht x hx hi'
        cases ht
        exact hl i hst x hx hi' w hw
      next hr =>
        refine ⟨?_, fun _ ht => nomatch ht⟩
        intro x hx hlt g hg
        by_cases he : x.1 = i
        · obtain ⟨-, w', hw', hr'⟩ := hcovers x hx
          rw [he, hw] at hw'
          cases hw'
          exact absurd hr' hr
        · exact hstage.1 x hx (by omega) g hg
    next w target hw =>
      cases h
      refine hi.toSound.setStage hm ?_
      split
      next hall =>
        refine ⟨?_, fun _ ht => nomatch ht⟩
        intro x hx hlt g hg
        by_cases he : x.1 = i
        · subst he
          exact hi.ackedAt hm hx hw (hstage.2 target rfl x hx rfl) hall hg
        · exact hstage.1 x hx (by omega) g hg
      next => exact ⟨fun x _ hlt => absurd hlt (by omega), fun _ ht => nomatch ht⟩

theorem Inv.act (hi : s.Inv) {a : AckAction} (hl : s.LoadsCovered a) (h : s.act a = some s') :
    s'.Sound := by
  have hs := hi.toSound
  cases a with
  | create reliable limits autodispose config kind depth blocks =>
    cases h
    refine Extends.sound (s := s) ?_ ?_ rfl rfl hs
    · intro i w hw
      have hlt := (List.getElem?_eq_some_iff.mp hw).1
      exact ⟨w, by rw [List.getElem?_append_left hlt]; exact hw, rfl, fun _ ha => ha⟩
    · intro w hw
      rcases List.mem_append.mp hw with hw | hw
      · exact hs.writers w hw
      · rw [List.mem_singleton.mp hw]
        constructor
        · exact Machine.init_wellPhased config kind depth blocks
        · exact Machine.init_sound config kind depth blocks
        all_goals exact fun _ h => nomatch h
  | enable i =>
    refine hs.withWriter h ?_
    rintro w w' hw ⟨⟩
    exact ⟨⟨hw.phased, hw.sound, hw.acked, hw.running, hw.finished⟩, rfl, fun _ ha => ha⟩
  | setQos i autodispose =>
    refine hs.withWriter h ?_
    rintro w w' hw ⟨⟩
    exact ⟨⟨hw.phased, hw.sound, hw.acked, hw.running, hw.finished⟩, rfl, fun _ ha => ha⟩
  | protocol i a => exact hs.withWriter h fun _ _ hw hp => hw.protocol hp
  | call i c =>
    refine hs.withWriter h ?_
    intro w w' hw hc
    split at hc
    next =>
      cases hc
      refine ⟨⟨hw.phased, hw.sound, hw.acked, ?_, hw.finished⟩, rfl, fun _ ha => ha⟩
      intro c' hm sn hsn
      rcases List.mem_append.mp hm with hm | hm
      · exact hw.running c' hm sn hsn
      · rw [List.mem_singleton.mp hm] at hsn
        cases hsn
    next => cases hc
  | advance i k => exact hs.withWriter h fun _ _ hw hk => hw.advance hk
  | waitForAck i =>
    rw [AckSystem.act] at h
    split at h
    next => cases h
    next w hw =>
      split at h
      next =>
        cases h
        refine hs.addWait ?_
        intro x hx
        have hx : x ∈ s.covered (fun k => k == i) := hx
        obtain ⟨hon, w', hw', hr, -⟩ := mem_covered hx
        have he : x.1 = i := by simpa using hon
        refine ⟨he, ?_⟩
        have hle := hl x hx w' hw'
        rw [he, hw] at hw'
        cases hw'
        rw [DataWriter.awaitedSn, if_pos hr]
        exact hle
      next => cases h
  | waitForAllAcks =>
    cases h
    exact hs.addWait ⟨fun x _ hlt => absurd hlt (Nat.not_lt_zero _), fun _ ht => nomatch ht⟩
  | poll j =>
    rw [AckSystem.act] at h
    split at h
    next => cases h
    next wt hwt =>
      refine hi.poll (List.mem_of_getElem? hwt) ?_ h
      rintro i hst x hx rfl
      refine hl x ?_
      rw [awaited, hwt]
      exact List.mem_filter.mpr ⟨hx, by simp [hst, WaitStage.loads]⟩
  | timeOut j =>
    cases h
    have hext : s.Extends { s with waits := s.waits.eraseIdx j } := extends_of_eq rfl
    constructor
    · exact hs.writers
    · exact fun wt hm => hext.coversOk (hs.covers wt (List.mem_of_mem_eraseIdx hm))
    · exact fun wt hm => hext.stageOk (hs.stages wt (List.mem_of_mem_eraseIdx hm))
    · exact fun wt hm => hext.acked (hs.returned wt hm)

/-- Readers that are gone leave what a wait knows as it is. -/
theorem Sound.keepMatched (hs : s.Sound) : s.keepMatched.Inv := by
  have hext : s.Extends s.keepMatched := extends_of_eq rfl
  constructor
  · constructor
    · exact hs.writers
    · intro wt' hm'
      obtain ⟨wt, hm, rfl⟩ := List.mem_map.mp hm'
      exact hext.coversOk (hs.covers wt hm)
    · intro wt' hm'
      obtain ⟨wt, hm, rfl⟩ := List.mem_map.mp hm'
      have hst := hext.stageOk (hs.stages wt hm)
      unfold StageOk at hst ⊢
      dsimp only at hst ⊢
      split at hst
      · exact hst
      · exact ⟨fun x hx hlt g hg => hst.1 x hx hlt g (List.mem_of_mem_filter hg), hst.2⟩
    · exact fun wt hm => hext.acked (hs.returned wt hm)
  · intro wt hm x hx
    obtain ⟨wt, -, rfl⟩ := List.mem_map.mp hm
    exact List.of_mem_filter hx

theorem Inv.step (hi : s.Inv) {a : AckAction} (hl : s.LoadsCovered a)
    (h : s.step a = some s') : s'.Inv := by
  obtain ⟨s₁, h₁, rfl⟩ := Option.map_eq_some_iff.mp h
  exact (hi.act hl h₁).keepMatched

theorem inv_init : (⟨[], [], []⟩ : AckSystem).Inv := by
  constructor
  · constructor
    all_goals exact fun _ h => nomatch h
  · exact fun _ h => nomatch h

/-- Every reliable reader matched throughout a wait that returned OK has acknowledged every call
that had returned before the wait, in every run whose waits load what these calls have stored. -/
theorem returned_acked {acts : List AckAction}
    (h : Lib.Run AckSystem.step AckSystem.LoadsCovered {} acts s) :
    ∀ wt ∈ s.returned, s.Acked wt :=
  (h.inv inv_init fun _ _ _ hi hl hs => hi.step hl hs).returned

/-! ### Runs of a single writer -/

/-- A writer with a reliable reader, enabled. -/
def matchedActs : List AckAction :=
  [.create true {} true smallConfig .keepAll 1 (fun _ => false), .enable 0,
    .protocol 0 (.addOrRefreshMatchedReader (smallReader 2 true) (fun _ => 0) true)]

/-- A call up to where its sample is sent. -/
def sendActs (c : WriteCall) : List AckAction :=
  [.call 0 c, .advance 0 0, .protocol 0 (.task 0), .protocol 0 (.task 0), .protocol 0 (.task 0)]

def writeActs : List AckAction :=
  sendActs (.writeRaw (smallSample [1])) ++ [.advance 0 0, .advance 0 0]

def disposeActs : List AckAction :=
  sendActs (.disposeRaw ⟨0, 0⟩ INSTANCE_HANDLE_NIL (Lib.Bytes.zeroes 16)) ++ [.advance 0 0]

/-- A wait that returns on the ACKNACK for the first sample. -/
def waitActs : List AckAction :=
  [.waitForAck 0, .protocol 0 (.handleAckNack (smallGuid 2) 1 ⟨2, 0, Bitmap.zeroes⟩ 1 true), .poll 0]

theorem returned_acked_written : ∃ s,
    Lib.Run AckSystem.step AckSystem.LoadsCovered {} (matchedActs ++ writeActs ++ waitActs) s ∧
    s.returned.map (fun wt => (wt.covers, wt.readers)) = [([(0, 1)], [(0, smallGuid 2)])] ∧
    ∀ wt ∈ s.returned, s.Acked wt := by
  obtain ⟨s, h, hr⟩ := Lib.exists_run_of_exec AckSystem.step
    AckSystem.LoadsCovered {} (matchedActs ++ writeActs ++ waitActs)
    (p := fun s => s.returned.map (fun wt => (wt.covers, wt.readers)) =
      [([(0, 1)], [(0, smallGuid 2)])]) ⟨_, rfl, rfl⟩
  exact ⟨s, h, hr, returned_acked h⟩

/-- A disposal does not store its number, so the wait after it returns without it. -/
theorem disposal_not_awaited : ¬ ∀ (acts : List AckAction) (s : AckSystem),
    Lib.Run AckSystem.step (fun _ _ => True) {} acts s → ∀ wt ∈ s.returned, s.Acked wt := by
  intro h
  obtain ⟨s, hrun, wt, hwt, hcovers, hreaders, hwriter⟩ := Lib.exists_run_of_exec
    AckSystem.step (fun _ _ => True) {} (matchedActs ++ writeActs ++ disposeActs ++ waitActs)
    (p := fun s => ∃ wt, s.returned = [wt] ∧ wt.covers = [(0, 1), (0, 2)] ∧
      wt.readers = [(0, smallGuid 2)] ∧
      s.writers[0]?.map (·.acks) = some [(smallGuid 2, 1)]) ⟨_, rfl, _, rfl, rfl, rfl, rfl⟩
  obtain ⟨w, hw, a, ha, -, hle⟩ := h _ s hrun wt (by simp [hwt]) (0, 2) (by simp [hcovers])
    (smallGuid 2) (by simp [hreaders])
  have hacks : w.acks = [(smallGuid 2, 1)] := by
    rw [hw] at hwriter
    exact Option.some_inj.mp hwriter
  rw [hacks, List.mem_singleton] at ha
  subst ha
  exact absurd hle (by decide)

end AckSystem

end Zzdds.Dcps
