import Zzdds.Rtps.Reader.InOrder

/-! # Reliable delivery along every run

From the match of a writer on, whatever order of entry points the reader sees: the numbers
handed over for the writer increase strictly, none is beyond the cumulative acknowledgment,
and every number up to it was handed over or declared gone before it was received
(`reliable_in_order_exactly_once`).

`step_deliversInOrder` is the step lemma, `run_deliversInOrder` the run lemma; `CoveredIn` says
which step of a run declared a number gone. -/

namespace Zzdds.Rtps

open Zzdds.Lib

/-- The operation declares `n` of writer `g` gone: a GAP that lists it, or a HEARTBEAT whose
first number is beyond it. -/
def ReaderOp.Covers (g : Guid) (n : ℤ) : ReaderOp → Prop
  | heartbeat w _ firstSn _ _ _ => w = g ∧ n < firstSn
  | gap w gapStart gapList =>
      w = g ∧ (gapStart ≤ n ∧ n < gapList.base ∨ gapList.contains n = true)
  | _ => False

variable {k : ℕ} {covered : ℤ → Prop} {r r' : StatefulReader} {core : ReaderCore}
  {wp : WriterProxy} {g : Guid} {op : ReaderOp} {ops : List ReaderOp}

/-! ### The shape of a step -/

/-- A step on a writer's proxy. -/
theorem StatefulReader.onProxy_cases {w : Guid}
    {f : ReaderCore → WriterProxy → Option (ReaderCore × WriterProxy)}
    (h : r.onProxy w f = some r') :
    (r.find w = none ∧ r' = r) ∨
      ∃ wp out, r.find w = some wp ∧ f r.core wp = some out ∧ r' = r.setProxy out.1 out.2 := by
  unfold StatefulReader.onProxy at h
  split at h
  next hn =>
    cases h
    exact .inl ⟨hn, rfl⟩
  next wp hw =>
    obtain ⟨out, hout, rfl⟩ := Option.map_eq_some_iff.mp h
    exact .inr ⟨wp, out, hw, hout, rfl⟩

theorem mem_gapSns {gapStart n : ℤ} {gapList : SequenceNumberSet}
    (h : n ∈ gapSns gapStart gapList) :
    gapStart ≤ n ∧ n < gapList.base ∨ gapList.contains n = true := by
  rcases List.mem_append.mp h with h | h
  · exact .inl (Int.mem_range_iff.mp h)
  · exact .inr (List.mem_filter.mp h).2

theorem lt_of_mem_heartbeatGone {firstSn n : ℤ} (h : n ∈ heartbeatGone core wp firstSn) :
    n < firstSn := by
  unfold heartbeatGone at h
  split at h
  · exact (Int.mem_range_iff.mp h).2
  · cases h

theorem handleDataFragLocked_appends {fresh : ℕ → UInt8} {ts : RtpsTimestamp}
    {df : DataFragSubmessage} {out : ReaderCore × WriterProxy}
    (h : handleDataFragLocked core wp fresh ts df = some out) :
    Appends {wp.guid} core out.1 ∧ out.2.guid = wp.guid := by
  rcases handleDataFragLocked_cases h with rfl | ⟨e, entry, -, -, ⟨-, rfl⟩ | ⟨-, h₁, h₂⟩⟩
  · exact ⟨Appends.refl _ _, rfl⟩
  · exact ⟨Appends.refl _ _, rfl⟩
  · rw [h₁, h₂]
    exact deliverChangeLocked_appends core (wp.putReassembly df.writerSn entry)
      (assembledChange wp.guid df.writerSn entry)

theorem handleHeartbeatLocked_appends {readerId : EntityId} {firstSn lastSn : ℤ}
    {count : Int32} {final : Bool} {out : ReaderCore × WriterProxy}
    (h : handleHeartbeatLocked core wp readerId firstSn lastSn count final = some out) :
    Appends {wp.guid} core out.1 ∧ out.2.guid = wp.guid := by
  rcases handleHeartbeatLocked_cases h with rfl | ⟨adv, hadv, h₂, happ⟩
  · exact ⟨Appends.refl _ _, rfl⟩
  · obtain ⟨h₁, hg⟩ := advancePast_appends hadv
    exact ⟨h₁.trans (happ.appends.mono (Set.empty_subset _)), h₂ ▸ hg⟩

theorem handleGapLocked_appends {gapStart : ℤ} {gapList : SequenceNumberSet}
    {out : ReaderCore × WriterProxy}
    (h : handleGapLocked core wp gapStart gapList = some out) :
    Appends {wp.guid} core out.1 ∧ out.2.guid = wp.guid := by
  obtain ⟨adv, hadv, h₂, happ⟩ := handleGapLocked_cases h
  obtain ⟨h₁, hg⟩ := advancePast_appends hadv
  exact ⟨h₁.trans (happ.appends.mono (Set.empty_subset _)), h₂ ▸ hg⟩

/-- Taking what was held only hands over changes of the writer. -/
theorem foldl_handleDataLocked_appends : ∀ (samples : List (CacheChange × Bool))
    (acc : ReaderCore × WriterProxy),
    Appends {acc.2.guid} acc.1
        (samples.foldl (fun acc s => handleDataLocked acc.1 acc.2 s.1) acc).1 ∧
      (samples.foldl (fun acc s => handleDataLocked acc.1 acc.2 s.1) acc).2.guid = acc.2.guid
  | [], acc => ⟨Appends.refl _ _, rfl⟩
  | s :: samples, acc => by
      obtain ⟨h₁, hg₁⟩ := handleDataLocked_appends acc.1 acc.2 s.1
      obtain ⟨h₂, hg₂⟩ := foldl_handleDataLocked_appends samples
        (handleDataLocked acc.1 acc.2 s.1)
      rw [hg₁] at h₂ hg₂
      exact ⟨h₁.trans h₂, hg₂⟩

/-- A held reassembly is no concern of delivery. -/
theorem foldl_takePartial_eq (core : ReaderCore) : ∀ (partials : List (ℤ × ReassemblyEntry))
    (wp : WriterProxy),
    (partials.foldl (takePartial core) wp).guid = wp.guid ∧
      (partials.foldl (takePartial core) wp).received = wp.received ∧
      (partials.foldl (takePartial core) wp).pendingChanges = wp.pendingChanges
  | [], wp => ⟨rfl, rfl, rfl⟩
  | q :: partials, wp => by
      have hq : (takePartial core wp q).guid = wp.guid ∧
          (takePartial core wp q).received = wp.received ∧
          (takePartial core wp q).pendingChanges = wp.pendingChanges := by
        unfold takePartial
        split
        · exact ⟨rfl, rfl, rfl⟩
        · split <;> exact ⟨rfl, rfl, rfl⟩
      obtain ⟨h₁, h₂, h₃⟩ := foldl_takePartial_eq core partials (takePartial core wp q)
      exact ⟨h₁.trans hq.1, h₂.trans hq.2.1, h₃.trans hq.2.2⟩

theorem takePrematchLocked_appends (core : ReaderCore) (wp : WriterProxy) (held : Collected) :
    Appends {wp.guid} core (takePrematchLocked core wp held).1 ∧
      (takePrematchLocked core wp held).2.guid = wp.guid := by
  obtain ⟨h₁, hg₁⟩ := foldl_handleDataLocked_appends held.samples (core, wp)
  unfold takePrematchLocked
  generalize held.samples.foldl (fun acc s => handleDataLocked acc.1 acc.2 s.1) (core, wp) = acc
    at h₁ hg₁
  exact ⟨h₁, (foldl_takePartial_eq acc.1 held.partials.reverse acc.2).1.trans hg₁⟩

/-- A match refreshes the proxy there is, or adds one with what was held. -/
theorem addOrRefreshMatchedWriterWith_cases (r : StatefulReader) (m : MatchedWriter)
    (prematch : Option Prematch) :
    (∃ wp wp', r.find m.guid = some wp ∧
        r.addOrRefreshMatchedWriterWith m prematch true = r.setProxy r.core wp' ∧
        wp'.guid = wp.guid ∧ wp'.received = wp.received ∧
        wp'.pendingChanges = wp.pendingChanges ∧ wp'.reassembly = wp.reassembly) ∨
      ∃ h : r.find m.guid = none, ∃ held core',
        held = (prematch.map (·.collect m.guid r.core.guid.entityId)).getD {} ∧
        Still (takePrematchLocked r.core m.proxy held).1 core' ∧
        r.addOrRefreshMatchedWriterWith m prematch true =
          (r.appendProxy m.proxy h).setProxy core'
            (takePrematchLocked r.core m.proxy held).2 := by
  unfold StatefulReader.addOrRefreshMatchedWriterWith
  simp only [Bool.not_true, Bool.false_eq_true, if_false]
  split
  next wp hw => exact .inl ⟨wp, _, hw, rfl, rfl, rfl, rfl, rfl⟩
  next hn =>
    refine .inr ⟨hn, _, _, rfl, ?_, rfl⟩
    generalize takePrematchLocked r.core m.proxy _ = taken
    have hsend : Still taken.1 (if (taken.1.reliable && !m.isLocal) = true
        then sendAckNackUnlocked taken.1 taken.2 0 false else taken.1) := by
      split
      · exact Still.sendAckNack taken.2 _ 0 false
      · exact Still.refl _
    refine hsend.trans ?_
    generalize (if (taken.1.reliable && !m.isLocal) = true
      then sendAckNackUnlocked taken.1 taken.2 0 false else taken.1) = core₁
    split
    · exact Still.refl _
    · exact Still.reportReady m.guid true

/-! ### Steps -/

/-- The reader delivers writer `g`'s changes in order, since the log had `k` events. -/
def Delivering (k : ℕ) (covered : ℤ → Prop) (r : StatefulReader) (g : Guid) : Prop :=
  ∃ wp, r.find g = some wp ∧ DeliversInOrder k covered r.core wp ∧ r.core.Reports

/-- A step on another writer's proxy. -/
theorem Delivering.other {wp' : WriterProxy} (h : Delivering k covered r g)
    (ha : Appends {wp'.guid} r.core core) (hne : g ≠ wp'.guid) :
    Delivering k covered (r.setProxy core wp') g := by
  obtain ⟨wp, hw, hd, hr⟩ := h
  refine ⟨wp, ?_, hd.frame ha ?_, hr.of_appends ha⟩
  · rw [StatefulReader.find_setProxy_ne hne]
    exact hw
  · rw [StatefulReader.find_guid hw]
    exact hne

/-- A step on the writer's own proxy. -/
theorem Delivering.own {wp' : WriterProxy} {ws : Set Guid} (hw : r.find g = some wp)
    (hr : r.core.Reports) (hg : wp'.guid = g) (ha : Appends ws r.core core)
    (hd : DeliversInOrder k covered core wp') :
    Delivering k covered (r.setProxy core wp') g := by
  subst hg
  exact ⟨wp', StatefulReader.find_setProxy (by simp [hw]), hd, hr.of_appends ha⟩

theorem receivedFrom_eq (h : r.find g = some wp) : r.receivedFrom g = wp.received := by
  unfold StatefulReader.receivedFrom
  rw [h]

/-- What a step declares gone, of what was not received before it. -/
def NewlyCovered (r : StatefulReader) (op : ReaderOp) (r' : StatefulReader) (g : Guid)
    (n : ℤ) : Prop :=
  op.Covers g n ∧ n ∉ r.receivedFrom g ∧ n ∈ r'.receivedFrom g

/-- Delivery in order after a step, with what the step declared gone. -/
def DeliversAfter (k : ℕ) (covered : ℤ → Prop) (r : StatefulReader) (op : ReaderOp)
    (r' : StatefulReader) (g : Guid) : Prop :=
  Delivering k (fun n => covered n ∨ NewlyCovered r op r' g n) r' g

theorem Delivering.after (h : Delivering k covered r' g) : DeliversAfter k covered r op r' g := by
  obtain ⟨wp, hw, hd, hr⟩ := h
  exact ⟨wp, hw, hd.mono (fun n hn => .inl hn), hr⟩

/-- The rule for a step on a proxy: only the writer's own proxy needs an argument. -/
theorem Delivering.onProxy {w : Guid}
    {f : ReaderCore → WriterProxy → Option (ReaderCore × WriterProxy)}
    (h : Delivering k covered r g) (hon : r.onProxy w f = some r')
    (hf : ∀ core wp out, f core wp = some out →
      Appends {wp.guid} core out.1 ∧ out.2.guid = wp.guid)
    (hown : ∀ wp out, w = g → r.find g = some wp → DeliversInOrder k covered r.core wp →
      f r.core wp = some out → r' = r.setProxy out.1 out.2 → out.2.guid = g →
        DeliversInOrder k (fun n => covered n ∨ NewlyCovered r op r' g n) out.1 out.2) :
    DeliversAfter k covered r op r' g := by
  obtain ⟨wp, hw, hd, hr⟩ := h
  rcases StatefulReader.onProxy_cases hon with ⟨-, rfl⟩ | ⟨wp', out, hw', hout, rfl⟩
  · exact Delivering.after ⟨wp, hw, hd, hr⟩
  · obtain ⟨happ, hg'⟩ := hf r.core wp' out hout
    have hwg := StatefulReader.find_guid hw'
    by_cases e : w = g
    · subst e
      cases hw.symm.trans hw'
      have hog := hg'.trans hwg
      exact Delivering.own hw hr hog happ (hown wp out rfl hw hd hout rfl hog)
    · rw [← hg'] at happ
      refine Delivering.after (Delivering.other ⟨wp, hw, hd, hr⟩ happ ?_)
      rw [hg', hwg]
      exact fun e' => e e'.symm

/-- Numbers declared gone by a step on the writer's proxy. -/
theorem newlyCovered_of_gone {out : ReaderCore × WriterProxy} {n : ℤ}
    (hw : r.find g = some wp) (hog : out.2.guid = g) (hcov : op.Covers g n)
    (hnew : n ∉ wp.received) (hin : n ∈ out.2.received) :
    NewlyCovered r op (r.setProxy out.1 out.2) g n := by
  refine ⟨hcov, ?_, ?_⟩
  · rw [receivedFrom_eq hw]
    exact hnew
  · subst hog
    rw [receivedFrom_eq (StatefulReader.find_setProxy (by simp [hw]))]
    exact hin

theorem Delivering.heartbeat {w : Guid} {readerId : EntityId} {firstSn lastSn : ℤ}
    {count : Int32} {final : Bool} (h : Delivering k covered r g)
    (hs : r.step (.heartbeat w readerId firstSn lastSn count final) = some r') :
    DeliversAfter k covered r (.heartbeat w readerId firstSn lastSn count final) r' g := by
  simp only [StatefulReader.step] at hs
  split at hs
  · cases hs
    exact h.after
  · refine h.onProxy hs (fun core wp out hout => handleHeartbeatLocked_appends hout)
      (fun wp out e hw hd hout hr' hog => ?_)
    obtain ⟨-, -, -, hr⟩ := h
    rcases handleHeartbeatLocked_cases hout with rfl | ⟨adv, hadv, h₂, hquiet⟩
    · exact hd.mono (fun n hn => .inl hn)
    · have hacc : DeliversInOrder k covered r.core
          (acceptHeartbeat r.core wp readerId lastSn count) := hd.congr rfl rfl rfl
      have hadvd := hacc.advancePast hr hadv
      rw [← h₂] at hadvd
      refine (hadvd.frame hquiet.appends (by simp)).mono ?_
      rintro n (hn | ⟨hn, hnew, hin⟩)
      · exact .inl hn
      · subst hr'
        exact .inr (newlyCovered_of_gone hw hog ⟨e, lt_of_mem_heartbeatGone hn⟩ hnew hin)

theorem Delivering.gap {w : Guid} {gapStart : ℤ} {gapList : SequenceNumberSet}
    (h : Delivering k covered r g) (hs : r.step (.gap w gapStart gapList) = some r') :
    DeliversAfter k covered r (.gap w gapStart gapList) r' g := by
  rw [StatefulReader.step] at hs
  refine h.onProxy hs (fun core wp out hout => handleGapLocked_appends hout)
    (fun wp out e hw hd hout hr' hog => ?_)
  obtain ⟨-, -, -, hr⟩ := h
  obtain ⟨adv, hadv, h₂, hquiet⟩ := handleGapLocked_cases hout
  have hadvd := hd.advancePast hr hadv
  rw [← h₂] at hadvd
  refine (hadvd.frame hquiet.appends (by simp)).mono ?_
  rintro n (hn | ⟨hn, hnew, hin⟩)
  · exact .inl hn
  · subst hr'
    exact .inr (newlyCovered_of_gone hw hog ⟨e, mem_gapSns hn⟩ hnew hin)

theorem Delivering.matchWriter {m : MatchedWriter} {prematch : Option Prematch}
    (h : Delivering k covered r g) :
    Delivering k covered (r.addOrRefreshMatchedWriterWith m prematch true) g := by
  obtain ⟨wp, hw, hd, hr⟩ := h
  rcases addOrRefreshMatchedWriterWith_cases r m prematch with
    ⟨wp₀, wp', hw₀, heq, hg', hrecv, hpend, -⟩ | ⟨hnone, held, core', -, hquiet, heq⟩
  · -- a refresh keeps the sequence state
    rw [heq]
    by_cases e : m.guid = g
    · rw [e] at hw₀
      cases hw.symm.trans hw₀
      exact Delivering.own hw hr (hg'.trans (StatefulReader.find_guid hw))
        (Appends.refl ∅ r.core) (hd.congr hg' hrecv hpend)
    · refine Delivering.other ⟨wp, hw, hd, hr⟩ (Appends.refl _ r.core) ?_
      rw [hg', StatefulReader.find_guid hw₀]
      exact fun e' => e e'.symm
  · rw [heq]
    obtain ⟨htake, hg'⟩ := takePrematchLocked_appends r.core m.proxy held
    have hne : g ≠ m.guid := by
      rintro rfl
      rw [hw] at hnone
      cases hnone
    refine Delivering.other (r := r.appendProxy m.proxy hnone) ⟨wp, ?_, hd, hr⟩ ?_ ?_
    · rw [StatefulReader.find_appendProxy_ne hnone hne]
      exact hw
    · rw [hg']
      exact htake.trans (hquiet.appends.mono (Set.empty_subset _))
    · rw [hg']
      exact hne

theorem Delivering.unmatchWriter {w : Guid} (h : Delivering k covered r g) (hne : g ≠ w) :
    Delivering k covered (r.removeMatchedWriter w) g := by
  unfold StatefulReader.removeMatchedWriter
  split
  · exact h
  next wp₀ hw₀ =>
    obtain ⟨wp, hw, hd, hr⟩ := h
    have happ : Appends ∅ r.core (if wp₀.protocolReady = true then
        (r.core.reportLost wp₀.undeliveredHistory.toNat).reportReady w false
        else r.core.reportLost wp₀.undeliveredHistory.toNat) := by
      split
      · exact (Appends.reportLost _).trans (Appends.reportReady w false)
      · exact Appends.reportLost _
    refine ⟨wp, ?_, hd.frame happ (by simp), hr.of_appends happ⟩
    exact (StatefulReader.find_removeProxy_ne hne).trans hw

/-- Every entry point keeps delivery in order, as long as the writer stays matched. -/
theorem step_deliversInOrder (h : Delivering k covered r g) (hu : op ≠ .unmatchWriter g)
    (hs : r.step op = some r') : DeliversAfter k covered r op r' g := by
  cases op with
  | data w change =>
    rw [StatefulReader.step] at hs
    refine h.onProxy hs (fun core wp out hout => ?_) (fun wp out _ hw hd hout _ _ => ?_)
    · cases hout
      exact handleDataLocked_appends core wp change
    · cases hout
      obtain ⟨-, -, -, hr⟩ := h
      exact (hd.handleData hr).mono (fun n hn => .inl hn)
  | dataFrag w fresh ts df =>
    rw [StatefulReader.step] at hs
    refine h.onProxy hs (fun core wp out hout => handleDataFragLocked_appends hout)
      (fun wp out _ hw hd hout _ _ => ?_)
    obtain ⟨-, -, -, hr⟩ := h
    exact (hd.handleDataFrag hr hout).mono (fun n hn => .inl hn)
  | heartbeat w readerId firstSn lastSn count final => exact h.heartbeat hs
  | heartbeatFrag w sn last count =>
    rw [StatefulReader.step] at hs
    refine h.onProxy hs (fun core wp out hout => ?_) (fun wp out _ hw hd hout _ _ => ?_)
    · cases hout
      obtain ⟨happ, c, hc⟩ := handleHeartbeatFragLocked_appends {wp.guid} core wp sn last count
      exact ⟨happ, by rw [hc]⟩
    · cases hout
      obtain ⟨happ, c, hc⟩ := handleHeartbeatFragLocked_appends ∅ r.core wp sn last count
      have hquiet := hd.frame happ (by simp)
      refine (hquiet.congr ?_ ?_ ?_).mono (fun n hn => .inl hn) <;> rw [hc]
  | gap w gapStart gapList => exact h.gap hs
  | matchWriter m prematch isCurrent =>
    cases hs
    cases isCurrent with
    | false => exact h.after
    | true => exact h.matchWriter.after
  | unmatchWriter w =>
    cases hs
    exact (h.unmatchWriter (fun e => hu (by rw [e]))).after

namespace StatefulReader

variable {r' : StatefulReader}

theorem onProxy_appends {writer : Guid}
    {f : ReaderCore → WriterProxy → Option (ReaderCore × WriterProxy)}
    (hf : ∀ core wp out, f core wp = some out → Appends {wp.guid} core out.1)
    (h : r.onProxy writer f = some r') : Appends Set.univ r.core r'.core := by
  unfold onProxy at h
  split at h
  · cases h
    exact .refl _ _
  next wp _ =>
    obtain ⟨out, hout, rfl⟩ := Option.map_eq_some_iff.mp h
    exact (hf _ _ _ hout).mono (Set.subset_univ _)

theorem step_appends {op : ReaderOp} (h : r.step op = some r') :
    Appends Set.univ r.core r'.core := by
  cases op with
  | data writer change =>
    rw [step] at h
    refine onProxy_appends (fun core wp out hout => ?_) h
    cases hout
    exact (handleDataLocked_appends core wp change).1
  | dataFrag writer fresh ts df =>
    exact onProxy_appends (fun core wp out hout => (handleDataFragLocked_appends hout).1) h
  | heartbeat writer readerId firstSn lastSn count final =>
    rw [step] at h
    split at h
    · cases h
      exact .refl _ _
    · exact onProxy_appends (fun core wp out hout => (handleHeartbeatLocked_appends hout).1) h
  | heartbeatFrag writer sn last count =>
    rw [step] at h
    refine onProxy_appends (fun core wp out hout => ?_) h
    cases hout
    exact (handleHeartbeatFragLocked_appends {wp.guid} core wp sn last count).1
  | gap writer gapStart gapList =>
    exact onProxy_appends (fun core wp out hout => (handleGapLocked_appends hout).1) h
  | matchWriter m prematch isCurrent =>
    cases h
    cases isCurrent with
    | false => exact .refl _ _
    | true =>
      rcases addOrRefreshMatchedWriterWith_cases r m prematch with
        ⟨wp, wp', -, heq, -⟩ | ⟨hnone, held, core', -, hquiet, heq⟩
      · rw [heq]
        exact .refl _ _
      · rw [heq]
        have htake := (takePrematchLocked_appends r.core m.proxy held).1
        exact (htake.mono (Set.subset_univ _)).trans (hquiet.appends.mono (Set.subset_univ _))
  | unmatchWriter writer =>
    cases h
    unfold removeMatchedWriter
    split
    · exact .refl _ _
    next wp _ =>
      refine (Appends.reportLost wp.undeliveredHistory.toNat).trans ?_
      show Appends Set.univ _ (if wp.protocolReady then _ else _)
      split
      · exact .reportReady _ _
      · exact .refl _ _

end StatefulReader

/-! ### Runs -/

/-- A step of the run declared `n` gone, before it was received. -/
def CoveredIn (r : StatefulReader) (ops : List ReaderOp) (g : Guid) (n : ℤ) : Prop :=
  ∃ pre op post r₁ r₂, ops = pre ++ op :: post ∧ r.run pre = some r₁ ∧ r₁.step op = some r₂ ∧
    NewlyCovered r₁ op r₂ g n

theorem StatefulReader.run_append (r : StatefulReader) (ops₁ ops₂ : List ReaderOp) :
    r.run (ops₁ ++ ops₂) = (r.run ops₁).bind (fun r₁ => r₁.run ops₂) := by
  simp [StatefulReader.run, List.foldlM_append]

/-- Delivery stays in order along every run in which the writer stays matched. -/
theorem run_deliversInOrder {r₀ : StatefulReader} (h : Delivering k (fun _ => False) r₀ g) :
    ∀ (ops : List ReaderOp) (r : StatefulReader), (∀ op ∈ ops, op ≠ .unmatchWriter g) →
      r₀.run ops = some r → Delivering k (CoveredIn r₀ ops g) r g := by
  intro ops
  induction ops using List.reverseRecOn with
  | nil =>
    intro r _ hrun
    cases hrun
    obtain ⟨wp, hw, hd, hr⟩ := h
    exact ⟨wp, hw, hd.mono (fun _ hn => hn.elim), hr⟩
  | append_singleton ops op ih =>
    intro r hu hrun
    rw [StatefulReader.run_append, Option.bind_eq_some_iff] at hrun
    obtain ⟨r₁, hrun₁, hrun⟩ := hrun
    have hstep : r₁.step op = some r := by
      simpa [StatefulReader.run] using hrun
    have hd₁ := ih r₁ (fun op' hm => hu op' (List.mem_append_left _ hm)) hrun₁
    obtain ⟨wp, hw, hd, hr⟩ := step_deliversInOrder hd₁
      (hu op (List.mem_append_right _ (List.mem_singleton_self _))) hstep
    refine ⟨wp, hw, hd.mono ?_, hr⟩
    rintro n (⟨pre, op', post, r₂, r₃, rfl, hn⟩ | hn)
    · exact ⟨pre, op', post ++ [op], r₂, r₃, by simp, hn⟩
    · exact ⟨ops, op, [], r₁, r, rfl, hrun₁, hstep, hn⟩

/-- Right after the match nothing is outstanding but what was held. -/
theorem matchWriter_delivering {m : MatchedWriter} {prematch : Option Prematch}
    (hr : r.core.Reports) (hnew : r.find m.guid = none) :
    Delivering r.core.log.length (fun _ => False)
      (r.addOrRefreshMatchedWriterWith m prematch true) m.guid := by
  rcases addOrRefreshMatchedWriterWith_cases r m prematch with
    ⟨wp₀, -, hw₀, -⟩ | ⟨hnone, held, core', -, hquiet, heq⟩
  · rw [hnew] at hw₀
    cases hw₀
  · have hfirst : DeliversInOrder r.core.log.length (fun _ => False) r.core m.proxy := by
      refine ⟨le_rfl, ?_, ?_, List.nodup_nil, fun ch hch => (nomatch hch),
        fun n hn => absurd hn (ReceivedSet.not_mem_empty n)⟩ <;>
        simp [handedSince, handedSns]
    -- each held sample is taken as a DATA would be
    have hsamples : ∀ (samples : List (CacheChange × Bool)) (acc : ReaderCore × WriterProxy),
        DeliversInOrder r.core.log.length (fun _ => False) acc.1 acc.2 → acc.1.Reports →
          DeliversInOrder r.core.log.length (fun _ => False)
            (samples.foldl (fun acc s => handleDataLocked acc.1 acc.2 s.1) acc).1
            (samples.foldl (fun acc s => handleDataLocked acc.1 acc.2 s.1) acc).2 := by
      intro samples
      induction samples with
      | nil =>
        intro acc hd _
        exact hd
      | cons s samples ih =>
        intro acc hd hr
        exact ih _ (hd.handleData hr) (hr.of_appends (handleDataLocked_appends _ _ s.1).1)
    have htaken := hsamples held.samples (r.core, m.proxy) hfirst hr
    obtain ⟨happ, hguid⟩ := takePrematchLocked_appends r.core m.proxy held
    have hd : DeliversInOrder r.core.log.length (fun _ => False)
        (takePrematchLocked r.core m.proxy held).1
        (takePrematchLocked r.core m.proxy held).2 := by
      unfold takePrematchLocked
      generalize held.samples.foldl (fun acc s => handleDataLocked acc.1 acc.2 s.1)
        (r.core, m.proxy) = acc at htaken
      obtain ⟨h₁, h₂, h₃⟩ := foldl_takePartial_eq acc.1 held.partials.reverse acc.2
      exact htaken.congr h₁ h₂ h₃
    rw [heq]
    exact Delivering.own (StatefulReader.find_appendProxy hnone) hr hguid
      (happ.trans (hquiet.appends.mono (Set.empty_subset _))) (hd.frame hquiet.appends (by simp))

/-- **Reliable delivery is in order and exactly once.**  After the match of a writer on a
reliable reader, along every run of entry points in which it stays matched: the numbers handed
over for it increase strictly, none is beyond the cumulative acknowledgment, every number up
to the cumulative acknowledgment was handed over or declared gone by a GAP or a HEARTBEAT
before it was received, and no buffered change is at or below it. -/
theorem reliable_in_order_exactly_once {r₀ r : StatefulReader} {m : MatchedWriter}
    {prematch : Option Prematch} {ops : List ReaderOp} (hrel : r₀.core.Reports)
    (hnew : r₀.find m.guid = none) (hu : ∀ op ∈ ops, op ≠ .unmatchWriter m.guid)
    (hrun : (r₀.addOrRefreshMatchedWriterWith m prematch true).run ops = some r) :
    ∃ wp, r.find m.guid = some wp ∧
      (handedSince r₀.core.log.length m.guid r.core).Pairwise (· < ·) ∧
      (∀ n ∈ handedSince r₀.core.log.length m.guid r.core,
        1 ≤ n ∧ n ≤ wp.received.cumulativeAck) ∧
      (∀ n, 1 ≤ n → n ≤ wp.received.cumulativeAck →
        n ∈ handedSince r₀.core.log.length m.guid r.core ∨
          CoveredIn (r₀.addOrRefreshMatchedWriterWith m prematch true) ops m.guid n) ∧
      ∀ ch ∈ wp.pendingChanges, 1 ≤ ch.sequenceNumber →
        wp.received.cumulativeAck < ch.sequenceNumber := by
  obtain ⟨wp, hw, hd, -⟩ := run_deliversInOrder (matchWriter_delivering hrel hnew) ops r hu hrun
  have hg := StatefulReader.find_guid hw
  have hinc := hd.increasing
  have hbound := hd.bounded
  have hacc := hd.accounted
  rw [hg] at hinc hbound hacc
  refine ⟨wp, hw, hinc, fun n hn => ?_, fun n h1 h2 => ?_, fun ch hch h1 => ?_⟩
  · have := hbound n hn
    omega
  · rcases hacc n (ReceivedSet.mem_of_le_cumulativeAck h1 h2) with hn | ⟨ch, hch, rfl⟩ | hn
    · exact .inl hn
    · -- a buffered change is beyond the cumulative acknowledgment
      have := hd.pending ch hch h1
      omega
    · exact .inr hn
  · have := hd.pending ch hch h1
    omega

/-- A reliable reader with no writer matched yet. -/
def idleReader : StatefulReader where
  core := {
    guid := ⟨Bytes.zeroes 12, ⟨Bytes.zeroes 3, 0x07⟩⟩
    cache := HistoryCache.init .keepAll 0
    callback := some ⟨true, true⟩
    reliable := true }
  writerProxies := []
  nodup := List.nodup_nil

def remoteWriter : MatchedWriter where
  guid := ⟨Bytes.zeroes 12, ⟨Bytes.zeroes 3, 0x02⟩⟩
  selectedLocators := [.udpV4 (Bytes.zeroes 4) 7400]
  reliable := true
  historyEstablished := true
  isLocal := false

/-- Sample `sn` of the remote writer. -/
def remoteChange (sn : ℤ) : CacheChange where
  kind := .alive
  writerGuid := remoteWriter.guid
  sequenceNumber := sn
  sourceTimestamp := ⟨0, 0⟩
  instanceHandle := INSTANCE_HANDLE_NIL
  keyHash := Bytes.zeroes 16
  data := [1]

/-- Samples 4 and 2 arrive first; a HEARTBEAT then says that sample 1 is gone, and sample 3
closes the gap. -/
def outOfOrderOps : List ReaderOp :=
  [.data remoteWriter.guid (remoteChange 4), .data remoteWriter.guid (remoteChange 2),
    .heartbeat remoteWriter.guid EntityId.unknown 2 4 1 false,
    .data remoteWriter.guid (remoteChange 3)]

theorem outOfOrderOps_in_order :
    ∃ r, (idleReader.addOrRefreshMatchedWriterWith remoteWriter none true).run outOfOrderOps =
        some r ∧ handedSince 0 remoteWriter.guid r.core = [2, 3, 4] ∧
      ∃ wp, r.find remoteWriter.guid = some wp ∧ wp.received.cumulativeAck = 4 ∧
        (handedSince 0 remoteWriter.guid r.core).Pairwise (· < ·) := by
  have hsome : ((idleReader.addOrRefreshMatchedWriterWith remoteWriter none true).run
      outOfOrderOps).isSome = true := by decide
  obtain ⟨r, hr⟩ := Option.isSome_iff_exists.mp hsome
  have heval : ((idleReader.addOrRefreshMatchedWriterWith remoteWriter none true).run
      outOfOrderOps).map (fun r => (handedSince 0 remoteWriter.guid r.core,
        (r.find remoteWriter.guid).map (·.received.cumulativeAck))) =
      some ([2, 3, 4], some 4) := by decide
  rw [hr] at heval
  simp only [Option.map_some, Option.some.injEq, Prod.mk.injEq] at heval
  have hrel : idleReader.core.Reports := ⟨rfl, ⟨true, true⟩, rfl, rfl⟩
  have hnew : idleReader.find remoteWriter.guid = none := rfl
  obtain ⟨wp, hw, hinc, -⟩ := reliable_in_order_exactly_once hrel hnew
    (by simp [outOfOrderOps]) hr
  refine ⟨r, hr, heval.1, wp, hw, ?_, hinc⟩
  rw [hw] at heval
  exact Option.some.inj heval.2

end Zzdds.Rtps
