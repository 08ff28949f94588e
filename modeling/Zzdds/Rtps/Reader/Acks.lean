import Zzdds.Rtps.Reader.Delivery

/-! # What a reader acknowledges

An ACKNACK says that the reader has, or need not wait for, all that is below its base.  `Hears P`
is what an operation on a writer's proxy does in this respect: the numbers received grow, by numbers
of `P` only, and each ACKNACK it sends is to that writer and keeps below what is received.  From the
operations it follows for the reader's steps (`StatefulReader.step_hears`) that along the match of a writer
every ACKNACK sent to it stays covered, and that every number received is one the reader was sent or
was told is gone (`ReaderOp.Tells`). -/

namespace Zzdds.Rtps

open Zzdds.Lib

/-- The writer, set, count and final flag of an ACKNACK. -/
def ReaderEvent.ackNack? : ReaderEvent → Option (Guid × SequenceNumberSet × Int32 × Bool)
  | send _ [.infoDst p, .ackNack _ w set count final] => some (⟨p, w⟩, set, count, final)
  | _ => none

/-- The operation brings sample `sn` of the writer, or says that it is gone. -/
def ReaderOp.Tells (reader : EntityId) (w : Guid) (sn : ℤ) : ReaderOp → Prop
  | data writer change => writer = w ∧ change.sequenceNumber = sn
  | dataFrag writer _ _ df => writer = w ∧ df.writerSn = sn
  | heartbeat writer _ firstSn _ _ _ => writer = w ∧ sn < firstSn
  | gap writer gapStart gapList => writer = w ∧ sn ∈ gapSns gapStart gapList
  | matchWriter m prematch _ => m.guid = w ∧
      ∃ p ∈ prematch, ∃ s ∈ (p.collect w reader).samples, s.1.sequenceNumber = sn
  | heartbeatFrag _ _ _ _ => False
  | unmatchWriter _ => False

/-- From `a` and `wp` to `b` and `wp'` the reader hears of numbers of `P`. -/
structure Hears (P : Set ℤ) (a : ReaderCore) (wp : WriterProxy) (b : ReaderCore)
    (wp' : WriterProxy) : Prop where
  guid : wp'.guid = wp.guid
  keeps : ∀ n, n ∈ wp.received → n ∈ wp'.received
  news : ∀ n, n ∈ wp'.received → n ∈ wp.received ∨ n ∈ P
  log : ∀ ev ∈ b.log, ev ∈ a.log ∨ ∀ w set count final,
    ev.ackNack? = some (w, set, count, final) →
      w = wp.guid ∧ set.base - 1 ≤ wp'.received.cumulativeAck

namespace Hears

variable {P Q : Set ℤ} {a b c : ReaderCore} {wp wp' wp'' : WriterProxy}

theorem refl (P : Set ℤ) (a : ReaderCore) (wp : WriterProxy) : Hears P a wp a wp :=
  ⟨rfl, fun _ => id, fun _ => .inl, fun _ => .inl⟩

theorem trans (h₁ : Hears P a wp b wp') (h₂ : Hears P b wp' c wp'') : Hears P a wp c wp'' where
  guid := h₂.guid.trans h₁.guid
  keeps := fun n hn => h₂.keeps n (h₁.keeps n hn)
  news := fun n hn => (h₂.news n hn).elim (h₁.news n) .inr
  log := fun ev hev => by
    rcases h₂.log ev hev with hev | hnew
    · rcases h₁.log ev hev with hev | hnew
      · exact .inl hev
      · right
        intro w set count final he
        obtain ⟨hw, hle⟩ := hnew w set count final he
        exact ⟨hw, hle.trans (ReceivedSet.cumulativeAck_mono h₂.keeps)⟩
    · exact .inr fun w set count final he => h₁.guid ▸ hnew w set count final he

theorem mono (h : Hears P a wp b wp') (hs : P ⊆ Q) : Hears Q a wp b wp' :=
  ⟨h.guid, h.keeps, fun n hn => (h.news n hn).imp_right fun hp => hs hp, h.log⟩

/-- Nothing but the numbers received counts of a proxy. -/
theorem congr (h : Hears P a wp b wp') (hg : wp''.guid = wp'.guid)
    (hr : wp''.received = wp'.received) : Hears P a wp b wp'' := by
  refine ⟨hg.trans h.guid, ?_, ?_, ?_⟩ <;> rw [hr]
  · exact h.keeps
  · exact h.news
  · exact h.log

theorem congrStart (h : Hears P a wp' b wp'') (hg : wp'.guid = wp.guid)
    (hr : wp'.received = wp.received) : Hears P a wp b wp'' := by
  refine ⟨h.guid.trans hg, ?_, ?_, ?_⟩
  · rw [← hr]
    exact h.keeps
  · rw [← hr]
    exact h.news
  · rw [← hg]
    exact h.log

theorem emit {ev : ReaderEvent} (h : ev.ackNack? = none) : Hears P a wp (a.emit ev) wp := by
  refine ⟨rfl, fun _ => id, fun _ => .inl, fun ev' hev => ?_⟩
  rcases List.mem_append.mp hev with hev | hev
  · exact .inl hev
  · right
    intro w set count final he
    rw [List.mem_singleton.mp hev, h] at he
    cases he

theorem reportLost (n : ℕ) : Hears P a wp (a.reportLost n) wp := by
  unfold ReaderCore.reportLost
  split
  · exact emit rfl
  · exact refl P a wp

theorem reportReady (w : Guid) (isReady : Bool) : Hears P a wp (a.reportReady w isReady) wp := by
  unfold ReaderCore.reportReady
  split
  · exact emit rfl
  · exact refl P a wp

theorem handOver (w : Guid) (ch : CacheChange) : Hears P a wp (a.handOver w ch) wp := by
  unfold ReaderCore.handOver
  split
  · split
    · exact emit rfl
    · exact refl P a wp
  · have hcache : Hears P a wp { a with cache := a.cache.addReaderChange ch } wp :=
      ⟨rfl, fun _ => id, fun _ => .inl, fun _ => .inl⟩
    dsimp only
    split
    · split
      · exact hcache.trans (emit rfl)
      · exact hcache
    · exact hcache

/-- Receive a number of `P`. -/
theorem insert {sn : ℤ} (h : sn ∈ P) :
    Hears P a wp a { wp with received := wp.received.insert sn } where
  guid := rfl
  keeps := fun _ hn => ReceivedSet.mem_insert.mpr (.inr hn)
  news := fun n hn => by
    rcases ReceivedSet.mem_insert.mp hn with ⟨rfl, -⟩ | hn
    · exact .inr h
    · exact .inl hn
  log := fun _ => .inl

/-- An ACKNACK acknowledges no more than was received. -/
theorem sendAckNack (locs : List Locator) (lastSn : ℤ) (final : Bool) :
    Hears P a wp (Rtps.sendAckNack a wp locs lastSn final) wp := by
  unfold Rtps.sendAckNack
  split
  · exact refl P a wp
  · refine ⟨rfl, fun _ => id, fun _ => .inl, fun ev hev => ?_⟩
    rcases List.mem_append.mp hev with hev | hev
    · exact .inl hev
    · right
      rintro w set count final' he
      rw [List.mem_singleton.mp hev] at he
      cases he
      refine ⟨rfl, ?_⟩
      unfold WriterProxy.missingSnSet
      dsimp only
      split
      next hlt =>
        have : lastSn < wp.received.cumulativeAck + 1 := hlt
        show lastSn + 1 - 1 ≤ _
        omega
      next =>
        show wp.received.cumulativeAck + 1 - 1 ≤ _
        omega

theorem sendNackFragLocked (sn : ℤ) (entry : Option ReassemblyEntry) (last : ℕ) :
    Hears P a wp (Rtps.sendNackFragLocked a wp sn entry last) wp := by
  unfold Rtps.sendNackFragLocked
  split
  · exact refl P a wp
  · split
    · exact refl P a wp
    · refine ⟨rfl, fun _ => id, fun _ => .inl, fun ev hev => ?_⟩
      rcases List.mem_append.mp hev with hev | hev
      · exact .inl hev
      · right
        rintro w set count final he
        rw [List.mem_singleton.mp hev] at he
        cases he

end Hears

/-! ### The operations -/

variable {core : ReaderCore} {wp : WriterProxy}

theorem deliverPendingLoop_hears : ∀ (n : ℕ) (nextSn : ℤ) (core : ReaderCore) (wp : WriterProxy),
    Hears ∅ core wp (deliverPendingLoop n nextSn core wp).1 (deliverPendingLoop n nextSn core wp).2
  | 0, _, core, wp => .refl ∅ core wp
  | n + 1, nextSn, core, wp => by
      rw [deliverPendingLoop]
      split
      · exact deliverPendingLoop_hears n (nextSn + 1) core wp
      next ch _ =>
        refine (Hears.handOver wp.guid ch).trans ?_
        exact (deliverPendingLoop_hears n (nextSn + 1) (core.handOver wp.guid ch) _).congrStart
          rfl rfl

theorem process_sn {change change' : CacheChange} (h : core.process change = some change') :
    change'.sequenceNumber = change.sequenceNumber := by
  unfold ReaderCore.process at h
  split at h
  · cases h
    rfl
  · split at h
    · cases h
      rfl
    · obtain ⟨kh, -, rfl⟩ := Option.map_eq_some_iff.mp h
      rfl

theorem deliverChangeLocked_hears (core : ReaderCore) (wp : WriterProxy) (change : CacheChange) :
    Hears {change.sequenceNumber} core wp (deliverChangeLocked core wp change).1
      (deliverChangeLocked core wp change).2 := by
  unfold deliverChangeLocked
  split
  · exact .refl _ core wp
  next change' hp =>
    have hin : change'.sequenceNumber ∈ ({change.sequenceNumber} : Set ℤ) := process_sn hp
    dsimp only
    split
    · split
      · have hrest := deliverPendingLoop_hears
          ((wp.received.insert change'.sequenceNumber).cumulativeAck -
            change'.sequenceNumber).toNat (change'.sequenceNumber + 1)
          (core.handOver wp.guid change')
          { wp with received := wp.received.insert change'.sequenceNumber }
        exact ((Hears.handOver wp.guid change').trans (Hears.insert hin)).trans
          (hrest.mono (Set.empty_subset _))
      · split
        · exact .refl _ core wp
        · exact (Hears.insert hin).congr rfl rfl
    · split
      · exact .refl _ core wp
      · exact ((Hears.handOver wp.guid change').trans (Hears.insert hin)).congr rfl rfl

theorem handleDataLocked_hears (core : ReaderCore) (wp : WriterProxy) (change : CacheChange) :
    Hears {change.sequenceNumber} core wp (handleDataLocked core wp change).1
      (handleDataLocked core wp change).2 := by
  unfold handleDataLocked
  split
  · exact .refl _ core wp
  · exact deliverChangeLocked_hears core wp change

theorem handleDataFragLocked_hears {fresh : ℕ → UInt8} {ts : RtpsTimestamp}
    {df : DataFragSubmessage} {out : ReaderCore × WriterProxy}
    (h : handleDataFragLocked core wp fresh ts df = some out) :
    Hears {df.writerSn} core wp out.1 out.2 := by
  rcases handleDataFragLocked_cases h with rfl | ⟨e, entry, -, -, ⟨-, rfl⟩ | ⟨-, h₁, h₂⟩⟩
  · exact .refl _ core wp
  · exact (Hears.refl _ core wp).congr rfl rfl
  · rw [h₁, h₂]
    have hd := deliverChangeLocked_hears core (wp.putReassembly df.writerSn entry)
      (assembledChange wp.guid df.writerSn entry)
    have hstart : Hears {df.writerSn} core wp _ _ := hd.congrStart rfl rfl
    exact hstart.congr rfl rfl

theorem advancePast_hears {sns : List ℤ} {out : ReaderCore × WriterProxy × ℕ}
    (h : advancePast core wp sns = some out) :
    Hears {n | n ∈ sns} core wp out.1 out.2.1 := by
  obtain ⟨wp₁, rfl, -, -, hout⟩ := advancePast_eq h
  have hgone : Hears {n | n ∈ sns} core wp core
      { wp with received := (markGone wp.received sns).1 } :=
    ⟨rfl, fun n hn => (mem_markGone sns wp.received 0 n).mpr (.inl hn),
      fun n hn => ((mem_markGone sns wp.received 0 n).mp hn).imp_right And.left, fun _ => .inl⟩
  obtain ⟨core', wp', lost⟩ := out
  split at hout
  · have hrest := deliverPendingLoop_hears
      ((markGone wp.received sns).1.cumulativeAck - wp.received.cumulativeAck).toNat
      (wp.received.cumulativeAck + 1) core
      { wp with received := (markGone wp.received sns).1 }
    have hout : (core', wp') = deliverPendingLoop _ _ core _ := hout
    rw [← hout] at hrest
    exact hgone.trans (hrest.mono (Set.empty_subset _))
  · cases hout
    exact hgone

theorem handleHeartbeatLocked_hears {readerId : EntityId} {firstSn lastSn : ℤ} {count : Int32}
    {final : Bool} {out : ReaderCore × WriterProxy}
    (h : handleHeartbeatLocked core wp readerId firstSn lastSn count final = some out) :
    Hears {n | n < firstSn} core wp out.1 out.2 := by
  unfold handleHeartbeatLocked at h
  split at h
  · cases h
    exact .refl _ core wp
  · simp only [Option.bind_eq_bind, Option.bind_eq_some_iff] at h
    obtain ⟨⟨core₁, wp₁, lost⟩, hadv, h⟩ := h
    cases h
    have hgone : Hears {n | n < firstSn} core wp core₁ wp₁ := ((advancePast_hears hadv).mono
      (fun n hn => lt_of_mem_heartbeatGone hn)).congrStart rfl rfl
    refine (hgone.trans ?_).trans (Hears.reportLost lost)
    have hsend : Hears {n | n < firstSn} core₁ wp₁
        (if (core₁.reliable && (!final || decide (wp₁.received.cumulativeAck < lastSn))) = true
          then sendAckNackLocked core₁ wp₁ lastSn !decide (wp₁.received.cumulativeAck < lastSn)
          else core₁) wp₁ := by
      split
      · exact Hears.sendAckNack wp₁.selectedLocators lastSn _
      · exact .refl _ core₁ wp₁
    refine hsend.trans ?_
    dsimp only
    generalize (if (core₁.reliable &&
      (!final || decide (wp₁.received.cumulativeAck < lastSn))) = true
        then sendAckNackLocked core₁ wp₁ lastSn !decide (wp₁.received.cumulativeAck < lastSn)
        else core₁) = core₂
    split
    · exact Hears.reportReady wp₁.guid true
    · exact .refl _ core₂ wp₁

theorem handleGapLocked_hears {gapStart : ℤ} {gapList : SequenceNumberSet}
    {out : ReaderCore × WriterProxy}
    (h : handleGapLocked core wp gapStart gapList = some out) :
    Hears {n | n ∈ gapSns gapStart gapList} core wp out.1 out.2 := by
  unfold handleGapLocked at h
  split at h
  · cases h
  · simp only [Option.bind_eq_bind, Option.bind_eq_some_iff] at h
    obtain ⟨⟨core₁, wp₁, lost⟩, hadv, h⟩ := h
    cases h
    exact (advancePast_hears hadv).trans (Hears.reportLost lost)

theorem handleHeartbeatFragLocked_hears (core : ReaderCore) (wp : WriterProxy) (sn : ℤ) (last : ℕ)
    (count : Int32) : Hears ∅ core wp (handleHeartbeatFragLocked core wp sn last count).1
      (handleHeartbeatFragLocked core wp sn last count).2 := by
  unfold handleHeartbeatFragLocked
  split
  · exact .refl _ core wp
  · have hcount : Hears ∅ core wp core { wp with lastHbFragCount := some count } :=
      (Hears.refl ∅ core wp).congr rfl rfl
    dsimp only
    split
    · exact hcount
    · exact hcount.trans (Hears.sendNackFragLocked _ _ _)

theorem takePrematchLocked_hears (core : ReaderCore) (wp : WriterProxy) (held : Collected) :
    Hears {n | ∃ s ∈ held.samples, s.1.sequenceNumber = n} core wp
      (takePrematchLocked core wp held).1 (takePrematchLocked core wp held).2 := by
  have hsamples : ∀ (samples : List (CacheChange × Bool)) (acc : ReaderCore × WriterProxy),
      (∀ s ∈ samples, s ∈ held.samples) →
      Hears {n | ∃ s ∈ held.samples, s.1.sequenceNumber = n} acc.1 acc.2
        (samples.foldl (fun acc s => handleDataLocked acc.1 acc.2 s.1) acc).1
        (samples.foldl (fun acc s => handleDataLocked acc.1 acc.2 s.1) acc).2 := by
    intro samples
    induction samples with
    | nil => exact fun acc _ => .refl _ acc.1 acc.2
    | cons s samples ih =>
      intro acc hs
      have hfirst := (handleDataLocked_hears acc.1 acc.2 s.1).mono
        (Q := {n | ∃ s ∈ held.samples, s.1.sequenceNumber = n})
        (Set.singleton_subset_iff.mpr ⟨s, hs s List.mem_cons_self, rfl⟩)
      exact hfirst.trans (ih _ fun s' hs' => hs s' (List.mem_cons_of_mem _ hs'))
  have hall := hsamples held.samples (core, wp) fun _ => id
  unfold takePrematchLocked
  generalize held.samples.foldl (fun acc s => handleDataLocked acc.1 acc.2 s.1) (core, wp) = acc
    at hall
  obtain ⟨hg, hr, -⟩ := foldl_takePartial_eq acc.1 held.partials.reverse acc.2
  exact hall.congr hg hr

/-! ### The reader's steps -/

namespace StatefulReader

variable {r r' : StatefulReader} {w : Guid} {P : Set ℤ}

/-- Every ACKNACK sent to the writer keeps below what is received from it. -/
def Covers (r : StatefulReader) (w : Guid) : Prop :=
  ∀ ev ∈ r.core.log, ∀ set count final, ev.ackNack? = some (w, set, count, final) →
    set.base - 1 ≤ (r.receivedFrom w).cumulativeAck

/-- From `r` to `r'` the reader hears of numbers of `P` from the writer. -/
structure HearsOf (w : Guid) (P : Set ℤ) (r r' : StatefulReader) : Prop where
  keeps : ∀ n, n ∈ r.receivedFrom w → n ∈ r'.receivedFrom w
  news : ∀ n, n ∈ r'.receivedFrom w → n ∈ r.receivedFrom w ∨ n ∈ P
  covers : r.Covers w → r'.Covers w

theorem HearsOf.refl (w : Guid) (P : Set ℤ) (r : StatefulReader) : HearsOf w P r r :=
  ⟨fun _ => id, fun _ => .inl, id⟩

theorem HearsOf.mono {Q : Set ℤ} (h : HearsOf w P r r') (hs : P ⊆ Q) : HearsOf w Q r r' :=
  ⟨h.keeps, fun n hn => (h.news n hn).imp_right fun hp => hs hp, h.covers⟩

theorem receivedFrom_find {wp : WriterProxy} (h : r.find w = some wp) :
    r.receivedFrom w = wp.received := by
  rw [receivedFrom, h]

/-- What an operation on the writer's proxy does for the writer. -/
theorem hearsOf_own {core : ReaderCore} {wp wp' : WriterProxy} (hw : r.find w = some wp)
    (h : Hears P r.core wp core wp') : HearsOf w P r (r.setProxy core wp') := by
  have hg : wp'.guid = w := h.guid.trans (find_guid hw)
  have hw' : (r.setProxy core wp').find w = some wp' := by
    rw [← hg]
    exact find_setProxy (by rw [hg, hw]; rfl)
  refine ⟨?_, ?_, ?_⟩
  · rw [receivedFrom_find hw, receivedFrom_find hw']
    exact h.keeps
  · rw [receivedFrom_find hw, receivedFrom_find hw']
    exact h.news
  · intro hc ev hev set count final he
    rw [receivedFrom_find hw']
    rcases h.log ev hev with hold | hnew
    · refine (hc ev hold set count final he).trans ?_
      rw [receivedFrom_find hw]
      exact ReceivedSet.cumulativeAck_mono h.keeps
    · exact (hnew w set count final he).2

/-- What an operation on another proxy does for the writer. -/
theorem hearsOf_other {core : ReaderCore} {wp wp' : WriterProxy} (hne : wp.guid ≠ w)
    (h : Hears P r.core wp core wp') (Q : Set ℤ) : HearsOf w Q r (r.setProxy core wp') := by
  have hrecv : (r.setProxy core wp').receivedFrom w = r.receivedFrom w := by
    unfold receivedFrom
    rw [find_setProxy_ne (by rw [h.guid]; exact hne.symm)]
  refine ⟨?_, ?_, ?_⟩
  · rw [hrecv]
    exact fun _ => id
  · rw [hrecv]
    exact fun _ => .inl
  · intro hc ev hev set count final he
    rw [hrecv]
    rcases h.log ev hev with hold | hnew
    · exact hc ev hold set count final he
    · exact absurd (hnew w set count final he).1.symm hne

theorem onProxy_hears {writer : Guid}
    {f : ReaderCore → WriterProxy → Option (ReaderCore × WriterProxy)}
    (hf : ∀ core wp out, f core wp = some out → Hears P core wp out.1 out.2)
    (h : r.onProxy writer f = some r') : HearsOf w {n | writer = w ∧ n ∈ P} r r' := by
  unfold onProxy at h
  split at h
  · cases h
    exact .refl _ _ _
  next wp hw =>
    obtain ⟨out, hout, rfl⟩ := Option.map_eq_some_iff.mp h
    by_cases he : writer = w
    · subst he
      refine hearsOf_own hw ((hf _ _ _ hout).mono fun n hn => ⟨rfl, hn⟩)
    · exact hearsOf_other (by rw [find_guid hw]; exact he) (hf _ _ _ hout) _

theorem receivedFrom_appendProxy {wp : WriterProxy} (hn : r.find wp.guid = none)
    (he : wp.received = ReceivedSet.empty) :
    (r.appendProxy wp hn).receivedFrom w = r.receivedFrom w := by
  by_cases hw : w = wp.guid
  · subst hw
    rw [receivedFrom_find (find_appendProxy hn), receivedFrom, hn]
    exact he
  · unfold receivedFrom
    rw [find_appendProxy_ne hn hw]

/-- What the first operation on a new proxy does for the writer. -/
theorem hearsOf_new {core : ReaderCore} {wp wp' : WriterProxy} (hn : r.find wp.guid = none)
    (he : wp.received = ReceivedSet.empty) (h : Hears P r.core wp core wp') :
    HearsOf w {n | wp.guid = w ∧ n ∈ P} r ((r.appendProxy wp hn).setProxy core wp') := by
  have hset : HearsOf w {n | wp.guid = w ∧ n ∈ P} (r.appendProxy wp hn)
      ((r.appendProxy wp hn).setProxy core wp') := by
    by_cases hw : wp.guid = w
    · subst hw
      exact hearsOf_own (find_appendProxy hn) (h.mono fun n hn => ⟨rfl, hn⟩)
    · exact hearsOf_other (r := r.appendProxy wp hn) hw h _
  have hrecv := receivedFrom_appendProxy (w := w) hn he
  refine ⟨?_, ?_, fun hc => hset.covers ?_⟩
  · rw [← hrecv]
    exact hset.keeps
  · rw [← hrecv]
    exact hset.news
  · unfold Covers
    rw [hrecv]
    exact hc

/-- A new match ends with a first ACKNACK or a report. -/
theorem newMatch_hears {a : ReaderCore} (m : MatchedWriter) {taken : ReaderCore × WriterProxy}
    (h : Hears P a m.proxy taken.1 taken.2) : Hears P a m.proxy
      (if m.reliable then
        if taken.1.reliable && !m.isLocal then sendAckNackUnlocked taken.1 taken.2 0 false
        else taken.1
      else
        (if taken.1.reliable && !m.isLocal then sendAckNackUnlocked taken.1 taken.2 0 false
        else taken.1).reportReady m.guid true) taken.2 := by
  have hsend : Hears P a m.proxy (if taken.1.reliable && !m.isLocal
      then sendAckNackUnlocked taken.1 taken.2 0 false else taken.1) taken.2 := by
    split
    · exact h.trans (Hears.sendAckNack _ 0 false)
    · exact h
  split
  · exact hsend
  · exact hsend.trans (Hears.reportReady m.guid true)

theorem matchWriter_hears (m : MatchedWriter) (prematch : Option Prematch) (isCurrent : Bool) :
    HearsOf w {n | (ReaderOp.matchWriter m prematch isCurrent).Tells r.core.guid.entityId w n} r
      (r.addOrRefreshMatchedWriterWith m prematch isCurrent) := by
  unfold addOrRefreshMatchedWriterWith
  split
  · exact .refl _ _ _
  · split
    next wp hw =>
      have hsame : Hears ∅ r.core wp r.core { wp with
          selectedLocators := m.selectedLocators
          reliable := m.reliable
          isLocal := m.isLocal } := (Hears.refl ∅ r.core wp).congr rfl rfl
      by_cases he : m.guid = w
      · subst he
        exact hearsOf_own hw (hsame.mono (Set.empty_subset _))
      · exact hearsOf_other (by rw [find_guid hw]; exact he) hsame _
    next hn =>
      refine (@hearsOf_new _ _ _ _ m.proxy _ hn rfl
        (newMatch_hears m (takePrematchLocked_hears r.core m.proxy _))).mono ?_
      rintro n ⟨rfl, s, hs, rfl⟩
      cases prematch with
      | none => cases hs
      | some p => exact ⟨rfl, p, rfl, s, hs, rfl⟩

theorem find_removeMatchedWriter {writer : Guid} (hne : w ≠ writer) :
    (r.removeMatchedWriter writer).find w = r.find w := by
  unfold removeMatchedWriter
  split
  · rfl
  · exact find_removeProxy_ne hne

/-- A step of the reader, while the writer stays matched. -/
theorem step_hears {op : ReaderOp} (hu : op ≠ .unmatchWriter w) (h : r.step op = some r') :
    HearsOf w {n | op.Tells r.core.guid.entityId w n} r r' := by
  cases op with
  | data writer change =>
    rw [step] at h
    refine onProxy_hears (fun core wp out hout => ?_) h
    cases hout
    exact (handleDataLocked_hears core wp change).mono (fun n hn => Eq.symm hn)
  | dataFrag writer fresh ts df =>
    exact onProxy_hears (fun core wp out hout =>
      (handleDataFragLocked_hears hout).mono (fun n hn => Eq.symm hn)) h
  | heartbeat writer readerId firstSn lastSn count final =>
    rw [step] at h
    split at h
    · cases h
      exact .refl _ _ _
    · exact onProxy_hears (fun core wp out hout => handleHeartbeatLocked_hears hout) h
  | heartbeatFrag writer sn last count =>
    rw [step] at h
    have hp := onProxy_hears (w := w) (P := ∅) (fun core wp out hout => by
      cases hout
      exact handleHeartbeatFragLocked_hears core wp sn last count) h
    exact ⟨hp.keeps, fun n hn => (hp.news n hn).imp_right And.right, hp.covers⟩
  | gap writer gapStart gapList =>
    exact onProxy_hears (fun core wp out hout => handleGapLocked_hears hout) h
  | matchWriter m prematch isCurrent =>
    cases h
    exact matchWriter_hears m prematch isCurrent
  | unmatchWriter writer =>
    cases h
    have hne : w ≠ writer := fun e => hu (by rw [e])
    have hrecv : (r.removeMatchedWriter writer).receivedFrom w = r.receivedFrom w := by
      unfold receivedFrom
      rw [find_removeMatchedWriter hne]
    refine ⟨by rw [hrecv]; exact fun _ => id, by rw [hrecv]; exact fun _ => .inl, ?_⟩
    intro hc ev hev set count final he
    rw [hrecv]
    unfold removeMatchedWriter at hev
    split at hev
    · exact hc ev hev set count final he
    next wp hw =>
      have hquiet : Hears ∅ r.core wp (if wp.protocolReady
          then (r.core.reportLost wp.undeliveredHistory.toNat).reportReady writer false
          else r.core.reportLost wp.undeliveredHistory.toNat) wp := by
        split
        · exact (Hears.reportLost _).trans (Hears.reportReady _ _)
        · exact Hears.reportLost _
      rcases hquiet.log ev hev with hold | hnew
      · exact hc ev hold set count final he
      · exact absurd ((hnew w set count final he).1.trans (find_guid hw)) hne

end StatefulReader

end Zzdds.Rtps
