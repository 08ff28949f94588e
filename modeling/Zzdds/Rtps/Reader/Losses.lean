import Zzdds.Lib.Run
import Zzdds.Lib.Trapping
import Zzdds.Rtps.Message.NumberSets
import Zzdds.Rtps.Reader.Acks

/-! # Counting lost samples

The two loops that mark numbers gone, with their additions in the widths of the source: the count
of lost samples is an `i32`, a sequence number an `i64` (`markGoneChecked`,
`advancePastChecked`).  `handleGapCheckedLocked` and `handleHeartbeatCheckedLocked` are the
handlers over them, and `stepChecked` the reader's step.

A GAP counts each listed number below 1 as lost, since `ReceivedSet.insert` rejects it, and
passes over the bits of its list below its start.  Where it lists neither, and no addition
overflows (`LossesFit`), what is reported over a match is the number of samples declared gone
before their DATA was accepted (`losses_exact`). -/

namespace Zzdds.Rtps

open Zzdds.Lib Zzdds.Lib.Trapping

/-- A sequence number, as an `i64`. -/
def IsSn (n : ℤ) : Prop := -2 ^ 63 ≤ n ∧ n < 2 ^ 63

/-! ### The loops -/

/-- `ReceivedSet.insert`: the range before `sn` and the one it makes are compared with their
successors. -/
def ReceivedSet.insertChecked (s : ReceivedSet) (sn : ℤ) : Option ReceivedSet :=
  if sn < 1 ∨ s.contains sn = true then some s
  else do
    let before := s.ranges.takeWhile (fun r => r.lo ≤ sn)
    let later := s.ranges.dropWhile (fun r => r.lo ≤ sn)
    i64When (before ≠ []) ((before.getLast?.map (·.hi)).getD 0 + 1)
    i64When (later ≠ []) (sn + 1)
    return s.insert sn

/-- `if (!wp.received.contains(sn)) lost_count += 1`. -/
def countLost (received : ReceivedSet) (sn : ℤ) (lost : ℕ) : Option ℕ :=
  if received.contains sn then some lost else narrow (2 ^ 31) (lost + 1)

def markGoneChecked (received : ReceivedSet) (sns : List ℤ) : Option (ReceivedSet × ℕ) :=
  sns.foldlM (fun acc sn => do
    let lost ← countLost acc.1 sn acc.2
    let received ← acc.1.insertChecked sn
    return (received, lost)) (received, 0)

/-- `deliverPendingLocked`: its counter goes one beyond the last number it looks at. -/
def deliverPendingCheckedLocked (core : ReaderCore) (wp : WriterProxy) (prevDelivered : ℤ) :
    Option (ReaderCore × WriterProxy) := do
  let nextSn ← i64 (prevDelivered + 1)
  i64When (nextSn ≤ wp.received.cumulativeAck) (wp.received.cumulativeAck + 1)
  return deliverPendingLocked core wp prevDelivered

def advancePastChecked (core : ReaderCore) (wp : WriterProxy) (sns : List ℤ) :
    Option (ReaderCore × WriterProxy × ℕ) := do
  let prevHighest := wp.received.cumulativeAck
  let (received, lost) ← markGoneChecked wp.received sns
  let wp := { wp with received := received }
  let out ← if core.reliable then deliverPendingCheckedLocked core wp prevHighest
    else some (core, wp)
  return (out.1, out.2, lost)

def handleHeartbeatCheckedLocked (core : ReaderCore) (wp : WriterProxy) (readerId : EntityId)
    (firstSn lastSn : ℤ) (count : Int32) (final : Bool) :
    Option (ReaderCore × WriterProxy) := do
  if !isNewerCount count wp.lastHbCount then return (core, wp)
  else
    let newlyReady := !wp.protocolReady && readerId == core.guid.entityId
    let wp := acceptHeartbeat core wp readerId lastSn count
    -- `first_sn > wp.received.cumulativeAck() + 1`
    i64When core.reliable (wp.received.cumulativeAck + 1)
    let (core, wp, lost) ← advancePastChecked core wp (heartbeatGone core wp firstSn)
    let hasMissing := decide (wp.received.cumulativeAck < lastSn)
    let core :=
      if core.reliable && (!final || hasMissing) then
        sendAckNackLocked core wp lastSn (!hasMissing)
      else core
    let core := if newlyReady then core.reportReady wp.guid true else core
    return (core.reportLost lost, wp)

def handleGapCheckedLocked (core : ReaderCore) (wp : WriterProxy) (gapStart : ℤ)
    (gapList : SequenceNumberSet) : Option (ReaderCore × WriterProxy) := do
  let bitmapEnd ← i64 (gapList.base + gapList.numBits)
  (Int.range (max gapStart gapList.base) bitmapEnd).forM
    (fun sn => (gapList.containsChecked sn).map (fun _ => ()))
  let (core, wp, lost) ← advancePastChecked core wp (gapSns gapStart gapList)
  return (core.reportLost lost, wp)

/-- The reader's step, with the checks of GAPs and HEARTBEATs. -/
def StatefulReader.stepChecked (r : StatefulReader) : ReaderOp → Option StatefulReader
  | .heartbeat writer readerId firstSn lastSn count final =>
      if firstSn ≤ 0 ∨ lastSn < firstSn - 1 then some r
      else r.onProxy writer
        (fun core wp => handleHeartbeatCheckedLocked core wp readerId firstSn lastSn count final)
  | .gap writer gapStart gapList =>
      r.onProxy writer (fun core wp => handleGapCheckedLocked core wp gapStart gapList)
  | op => r.step op

/-! ### When the checks pass -/

variable {core : ReaderCore} {wp : WriterProxy} {received : ReceivedSet} {sns : List ℤ} {sn : ℤ}

/-- Joining ranges never leaves `i64`. -/
theorem ReceivedSet.insertChecked_eq (h : ∀ m ∈ received, m < 2 ^ 63) (hsn : sn < 2 ^ 63) :
    received.insertChecked sn = some (received.insert sn) := by
  unfold insertChecked
  split
  next hin => rw [insert, dif_pos hin]
  next hin =>
    have hnew : ¬ RangeSet.Mem received.ranges sn := fun hm =>
      hin (.inr (mem_iff.mpr hm))
    obtain ⟨hb, hl⟩ := RangeSet.split_around received.separated hnew
    have hbefore : i64When (received.ranges.takeWhile (fun r => decide (r.lo ≤ sn)) ≠ [])
        (((received.ranges.takeWhile (fun r => decide (r.lo ≤ sn))).getLast?.map (·.hi)).getD 0
          + 1) = some () := by
      rw [i64When_eq_some]
      intro hne
      rw [List.getLast?_eq_some_getLast hne, Option.map_some, Option.getD_some]
      have hm := List.getLast_mem hne
      have hlt := hb _ hm
      have hr := (List.takeWhile_sublist _).subset hm
      have h1 := received.valid _ hr
      have h2 := received.separated.2 _ hr
      omega
    have hlater : i64When (received.ranges.dropWhile (fun r => decide (r.lo ≤ sn)) ≠ []) (sn + 1) =
        some () := by
      rw [i64When_eq_some]
      intro hne
      have hm := List.head_mem hne
      have hlt := hl _ hm
      have hr := (List.dropWhile_sublist _).subset hm
      have hlo := h _ (mem_iff.mpr ⟨_, hr, le_rfl, received.separated.2 _ hr⟩)
      omega
    dsimp only
    rw [hbefore, hlater]
    rfl

/-- The numbers of a list that were not received. -/
def newlyLost (received : ReceivedSet) (sns : List ℤ) : Finset ℤ :=
  sns.toFinset.filter (fun n => 1 ≤ n ∧ n ∉ received)

theorem mem_newlyLost {n : ℤ} :
    n ∈ newlyLost received sns ↔ n ∈ sns ∧ 1 ≤ n ∧ n ∉ received := by
  rw [newlyLost, Finset.mem_filter, List.mem_toFinset]

/-- What one loop turn does to the numbers still to be lost. -/
theorem newlyLost_cons (h1 : 1 ≤ sn) :
    newlyLost received (sn :: sns) =
      if sn ∈ received then newlyLost (received.insert sn) sns
      else insert sn (newlyLost (received.insert sn) sns) := by
  split
  next hin =>
    ext n
    simp only [mem_newlyLost, ReceivedSet.mem_insert, List.mem_cons]
    constructor
    · rintro ⟨rfl | hm, hn, hout⟩
      · exact absurd hin hout
      · exact ⟨hm, hn, not_or.mpr ⟨fun e => hout (e.1 ▸ hin), hout⟩⟩
    · rintro ⟨hm, hn, hout⟩
      exact ⟨.inr hm, hn, fun h => hout (.inr h)⟩
  next hnew =>
    ext n
    simp only [Finset.mem_insert, mem_newlyLost, ReceivedSet.mem_insert, List.mem_cons]
    constructor
    · rintro ⟨rfl | hm, hn, hout⟩
      · exact .inl rfl
      · by_cases e : n = sn
        · exact .inl e
        · exact .inr ⟨hm, hn, not_or.mpr ⟨fun e' => e e'.1, hout⟩⟩
    · rintro (rfl | ⟨hm, hn, hout⟩)
      · exact ⟨.inl rfl, h1, hnew⟩
      · exact ⟨.inr hm, hn, fun h => hout (.inr h)⟩

/-- The loop counts the numbers that were not received, when none is below 1. -/
theorem foldl_markGone : ∀ (sns : List ℤ) (received : ReceivedSet) (lost : ℕ),
    (∀ sn ∈ sns, 1 ≤ sn) →
    (sns.foldl (fun acc sn =>
        (acc.1.insert sn, if acc.1.contains sn then acc.2 else acc.2 + 1)) (received, lost)).2 =
      lost + (newlyLost received sns).card
  | [], received, lost, _ => by simp [newlyLost]
  | sn :: sns, received, lost, h => by
      have ih := foldl_markGone sns (received.insert sn)
        (if received.contains sn then lost else lost + 1)
        (fun m hm => h m (List.mem_cons_of_mem sn hm))
      rw [List.foldl_cons, ih, newlyLost_cons (h sn List.mem_cons_self)]
      by_cases hin : sn ∈ received
      · rw [if_pos hin, if_pos (show received.contains sn = true from hin)]
      · have hnot : sn ∉ newlyLost (received.insert sn) sns := fun hm =>
          (mem_newlyLost.mp hm).2.2 (ReceivedSet.mem_insert.mpr
            (.inl ⟨rfl, h sn List.mem_cons_self⟩))
        rw [if_neg hin, if_neg (show ¬ received.contains sn = true from hin),
          Finset.card_insert_of_notMem hnot]
        omega

theorem markGone_count (h : ∀ sn ∈ sns, 1 ≤ sn) :
    (markGone received sns).2 = (newlyLost received sns).card := by
  have hfold := foldl_markGone sns received 0 h
  rw [Nat.zero_add] at hfold
  exact hfold

/-- A count only grows. -/
theorem le_foldl_markGone : ∀ (sns : List ℤ) (received : ReceivedSet) (lost : ℕ),
    lost ≤ (sns.foldl (fun acc sn =>
      (acc.1.insert sn, if acc.1.contains sn then acc.2 else acc.2 + 1)) (received, lost)).2
  | [], _, _ => le_rfl
  | sn :: sns, received, lost => by
      refine le_trans ?_ (le_foldl_markGone sns _ _)
      dsimp only
      split
      · exact le_rfl
      · exact Nat.le_succ lost

theorem foldlM_markGone : ∀ (sns : List ℤ) (received : ReceivedSet) (lost : ℕ),
    (∀ m ∈ received, m < 2 ^ 63) → (∀ m ∈ sns, m < 2 ^ 63) → lost < 2 ^ 31 →
    sns.foldlM (fun (acc : ReceivedSet × ℕ) sn => do
        let lost ← countLost acc.1 sn acc.2
        let received ← acc.1.insertChecked sn
        return (received, lost)) (received, lost) =
      let out := sns.foldl (fun acc sn =>
        (acc.1.insert sn, if acc.1.contains sn then acc.2 else acc.2 + 1)) (received, lost)
      if out.2 < 2 ^ 31 then some out else none
  | [], received, lost, _, _, hlt => by
      rw [List.foldlM_nil, List.foldl_nil]
      exact (if_pos hlt).symm
  | sn :: sns, received, lost, hr, hs, hlt => by
      have hins := ReceivedSet.insertChecked_eq hr (hs sn List.mem_cons_self)
      have hr' : ∀ m ∈ received.insert sn, m < 2 ^ 63 := by
        intro m hm
        rcases ReceivedSet.mem_insert.mp hm with ⟨rfl, -⟩ | hm
        · exact hs m List.mem_cons_self
        · exact hr m hm
      rw [List.foldlM_cons, List.foldl_cons]
      dsimp only
      by_cases hfit : (if received.contains sn then lost else lost + 1) < 2 ^ 31
      · have hcount : countLost received sn lost =
            some (if received.contains sn then lost else lost + 1) := by
          unfold countLost
          split
          · rfl
          next hc =>
            rw [if_neg hc] at hfit
            exact narrow_of_lt hfit
        rw [hcount, hins]
        exact foldlM_markGone sns (received.insert sn) _ hr'
          (fun m hm => hs m (List.mem_cons_of_mem sn hm)) hfit
      · have hcount : countLost received sn lost = none := by
          unfold countLost
          split
          next hc => exact absurd hlt (by rwa [if_pos hc] at hfit)
          next hc =>
            rw [if_neg hc] at hfit
            exact if_neg hfit
        have hle := le_foldl_markGone sns (received.insert sn)
          (if received.contains sn then lost else lost + 1)
        rw [hcount, if_neg (by omega)]
        rfl

theorem markGoneChecked_eq (hr : ∀ m ∈ received, m < 2 ^ 63) (hs : ∀ m ∈ sns, m < 2 ^ 63) :
    markGoneChecked received sns =
      if (markGone received sns).2 < 2 ^ 31 then some (markGone received sns) else none :=
  foldlM_markGone sns received 0 hr hs (by decide)

/-- The numbers a step lists are marked gone without a stop and counted right. -/
structure LossesFit (received : ReceivedSet) (sns : List ℤ) : Prop where
  positive : ∀ sn ∈ sns, 1 ≤ sn
  count : (newlyLost received sns).card < 2 ^ 31
  missing : ∃ n, 1 ≤ n ∧ n < 2 ^ 63 ∧ n ∉ received ∧ n ∉ sns

theorem mem_received_markGone {n : ℤ} :
    n ∈ (markGone received sns).1 ↔ n ∈ received ∨ (n ∈ sns ∧ 1 ≤ n) :=
  mem_markGone sns received 0 n

/-- With a number missing the cumulative acknowledgment has a successor. -/
theorem LossesFit.cumulativeAck_lt (h : LossesFit received sns) :
    (markGone received sns).1.cumulativeAck + 1 < 2 ^ 63 := by
  obtain ⟨n, h1, hlt, hnew, hnot⟩ := h.missing
  by_contra hle
  have hin : n ∈ (markGone received sns).1 :=
    ReceivedSet.mem_of_le_cumulativeAck h1 (by omega)
  rcases mem_received_markGone.mp hin with h' | h'
  · exact hnew h'
  · exact hnot h'.1

theorem deliverPendingCheckedLocked_eq_some (core : ReaderCore) (wp : WriterProxy) {prev : ℤ}
    (h0 : 0 ≤ prev) (hle : prev ≤ wp.received.cumulativeAck) (out : ReaderCore × WriterProxy) :
    deliverPendingCheckedLocked core wp prev = some out ↔
      wp.received.cumulativeAck + 1 < 2 ^ 63 ∧ out = deliverPendingLocked core wp prev := by
  unfold deliverPendingCheckedLocked
  simp only [Option.bind_eq_bind, Option.bind_eq_some_iff, i64_eq_some]
  constructor
  · rintro ⟨_, ⟨⟨-, hlt⟩, rfl⟩, _, hwhen, h⟩
    rw [i64When_eq_some] at hwhen
    refine ⟨?_, (Option.some.inj h).symm⟩
    by_cases heq : prev + 1 ≤ wp.received.cumulativeAck
    · exact (hwhen heq).2
    · omega
  · rintro ⟨hlt, rfl⟩
    refine ⟨_, ⟨⟨by omega, by omega⟩, rfl⟩, (), ?_, rfl⟩
    rw [i64When_eq_some]
    omega

/-- The checked loops are the model's, with one check more. -/
theorem advancePastChecked_eq_some {out : ReaderCore × WriterProxy × ℕ}
    (hr : ∀ m ∈ wp.received, m < 2 ^ 63) (hs : ∀ m ∈ sns, m < 2 ^ 63) :
    advancePastChecked core wp sns = some out ↔
      (core.reliable = true → (markGone wp.received sns).1.cumulativeAck + 1 < 2 ^ 63) ∧
        advancePast core wp sns = some out := by
  have hmono : wp.received.cumulativeAck ≤ (markGone wp.received sns).1.cumulativeAck :=
    ReceivedSet.cumulativeAck_mono fun m hm => mem_received_markGone.mpr (.inl hm)
  unfold advancePastChecked advancePast lostFits
  rw [markGoneChecked_eq hr hs]
  generalize markGone wp.received sns = gone at hmono ⊢
  obtain ⟨received, lost⟩ := gone
  dsimp only at hmono ⊢
  by_cases hlost : lost < 2 ^ 31
  swap
  · rw [if_neg hlost, if_neg hlost]
    simp
  rw [if_pos hlost, if_pos hlost]
  simp only [Option.bind_eq_bind, Option.bind_some]
  cases hrel : core.reliable with
  | false => simp
  | true =>
    have hiff := deliverPendingCheckedLocked_eq_some core { wp with received := received }
      wp.received.cumulativeAck_nonneg hmono
    simp only [if_true, Option.bind_eq_some_iff, hiff]
    constructor
    · rintro ⟨_, ⟨hlt, rfl⟩, h⟩
      exact ⟨fun _ => hlt, h⟩
    · rintro ⟨hlt, h⟩
      exact ⟨_, ⟨hlt trivial, rfl⟩, h⟩

theorem handleHeartbeatCheckedLocked_eq_some {readerId : EntityId} {firstSn lastSn : ℤ}
    {count : Int32} {final : Bool} {out : ReaderCore × WriterProxy}
    (hr : ∀ m ∈ wp.received, m < 2 ^ 63) (hfirst : firstSn < 2 ^ 63) :
    handleHeartbeatCheckedLocked core wp readerId firstSn lastSn count final = some out ↔
      (isNewerCount count wp.lastHbCount = true → core.reliable = true →
        (markGone wp.received (heartbeatGone core wp firstSn)).1.cumulativeAck + 1 < 2 ^ 63) ∧
      handleHeartbeatLocked core wp readerId firstSn lastSn count final = some out := by
  unfold handleHeartbeatCheckedLocked handleHeartbeatLocked
  cases hnew : isNewerCount count wp.lastHbCount with
  | false => simp
  | true =>
    have hgone : heartbeatGone core (acceptHeartbeat core wp readerId lastSn count) firstSn =
        heartbeatGone core wp firstSn := rfl
    have hsns : ∀ m ∈ heartbeatGone core wp firstSn, m < 2 ^ 63 :=
      fun m hm => (lt_of_mem_heartbeatGone hm).trans hfirst
    have hmono : wp.received.cumulativeAck ≤
        (markGone wp.received (heartbeatGone core wp firstSn)).1.cumulativeAck :=
      ReceivedSet.cumulativeAck_mono fun m hm => mem_received_markGone.mpr (.inl hm)
    have hnonneg := wp.received.cumulativeAck_nonneg
    simp only [Bool.not_true, Bool.false_eq_true, if_false, hgone, true_implies]
    simp only [Option.bind_eq_bind, Option.bind_eq_some_iff]
    have hadv := fun o => @advancePastChecked_eq_some core
      (acceptHeartbeat core wp readerId lastSn count) _ o hr hsns
    constructor
    · rintro ⟨_, -, o, ho, h⟩
      obtain ⟨hlt, ho⟩ := (hadv o).mp ho
      exact ⟨hlt, o, ho, h⟩
    · rintro ⟨hlt, o, ho, h⟩
      refine ⟨(), i64When_eq_some.mpr fun hrel => ?_, o, (hadv o).mpr ⟨hlt, ho⟩, h⟩
      have hack : (acceptHeartbeat core wp readerId lastSn count).received.cumulativeAck =
          wp.received.cumulativeAck := rfl
      have := hlt hrel
      omega

theorem forM_checks {f : ℤ → Option Unit} : ∀ {l : List ℤ}, (∀ x ∈ l, f x = some ()) →
    l.forM f = some ()
  | [], _ => rfl
  | x :: l, h => by
      rw [List.forM, h x List.mem_cons_self]
      exact forM_checks fun y hy => h y (List.mem_cons_of_mem x hy)

theorem handleGapCheckedLocked_eq_some {gapStart : ℤ} {gapList : SequenceNumberSet}
    {out : ReaderCore × WriterProxy} (hr : ∀ m ∈ wp.received, m < 2 ^ 63)
    (hbase : IsSn gapList.base) (hbits : gapList.numBits ≤ 256) :
    handleGapCheckedLocked core wp gapStart gapList = some out ↔
      (core.reliable = true →
        (markGone wp.received (gapSns gapStart gapList)).1.cumulativeAck + 1 < 2 ^ 63) ∧
      handleGapLocked core wp gapStart gapList = some out := by
  obtain ⟨hlow, hhigh⟩ := hbase
  unfold handleGapCheckedLocked handleGapLocked
  by_cases hend : 2 ^ 63 ≤ gapList.base + gapList.numBits
  · have hnone : i64 (gapList.base + gapList.numBits) = none := if_neg (by omega)
    rw [if_pos hend, hnone]
    simp
  · have hsns : ∀ m ∈ gapSns gapStart gapList, m < 2 ^ 63 := by
      intro m hm
      rcases List.mem_append.mp hm with hm | hm
      · have := (Int.mem_range_iff.mp hm).2
        omega
      · have := (Int.mem_range_iff.mp (List.mem_filter.mp hm).1).2
        omega
    have hchecks : (Int.range (max gapStart gapList.base) (gapList.base + gapList.numBits)).forM
        (fun sn => (gapList.containsChecked sn).map (fun _ => ())) = some () := by
      refine forM_checks fun sn hsn => ?_
      have hlt := Int.mem_range_iff.mp hsn
      rw [(SequenceNumberSet.containsChecked_eq_some hbits).mpr ⟨fun _ => by omega, rfl⟩]
      rfl
    have hadv := fun o => @advancePastChecked_eq_some core wp _ o hr hsns
    rw [if_neg hend, i64_of_mem ⟨by omega, by omega⟩]
    simp only [Option.bind_eq_bind, Option.bind_some, hchecks, Option.bind_eq_some_iff, hadv]
    constructor
    · rintro ⟨o, ⟨hlt, ho⟩, h⟩
      exact ⟨hlt, o, ho, h⟩
    · rintro ⟨hlt, o, ho, h⟩
      exact ⟨o, ⟨hlt, ho⟩, h⟩

/-! ### What is reported -/

/-- The samples an event reports lost. -/
def ReaderEvent.lost : ReaderEvent → ℕ
  | onSampleLost count => count
  | _ => 0

/-- The samples reported lost so far. -/
def ReaderCore.lost (core : ReaderCore) : ℕ := (core.log.map ReaderEvent.lost).sum

/-- A reliable reader whose callbacks take the reports of lost samples. -/
structure ReaderCore.ReportsLosses (core : ReaderCore) : Prop where
  reliable : core.reliable = true
  callback : core.callback.any (·.onSampleLost) = true

theorem lost_emit (core : ReaderCore) (ev : ReaderEvent) :
    (core.emit ev).lost = core.lost + ev.lost := by
  rw [ReaderCore.lost, ReaderCore.emit, List.map_append, List.sum_append, ReaderCore.lost]
  simp

theorem lost_handOver (core : ReaderCore) (writer : Guid) (change : CacheChange) :
    (core.handOver writer change).lost = core.lost := by
  unfold ReaderCore.handOver
  split
  · split
    · exact lost_emit core _
    · rfl
  · dsimp only
    split
    · split
      · exact lost_emit _ _
      · rfl
    · rfl

theorem lost_deliverPendingLoop : ∀ (n : ℕ) (next : ℤ) (core : ReaderCore) (wp : WriterProxy),
    (deliverPendingLoop n next core wp).1.lost = core.lost
  | 0, _, _, _ => rfl
  | n + 1, next, core, wp => by
      rw [deliverPendingLoop]
      split
      · exact lost_deliverPendingLoop n (next + 1) core wp
      · exact (lost_deliverPendingLoop n (next + 1) _ _).trans (lost_handOver _ _ _)

theorem lost_reportReady (core : ReaderCore) (writer : Guid) (isReady : Bool) :
    (core.reportReady writer isReady).lost = core.lost := by
  unfold ReaderCore.reportReady
  split
  · exact lost_emit core _
  · rfl

theorem lost_reportLost (h : core.callback.any (·.onSampleLost) = true) (count : ℕ) :
    (core.reportLost count).lost = core.lost + count := by
  unfold ReaderCore.reportLost
  split
  · exact lost_emit core _
  next hn =>
    have h0 : count = 0 := by
      by_contra hne
      exact hn ⟨Nat.pos_of_ne_zero hne, h⟩
    rw [h0, Nat.add_zero]

/-- `b` is `a` with nothing more reported lost. -/
structure SameLost (a b : ReaderCore) : Prop where
  lost : b.lost = a.lost
  callback : b.callback = a.callback

theorem SameLost.trans {a b c : ReaderCore} (h₁ : SameLost a b) (h₂ : SameLost b c) :
    SameLost a c :=
  ⟨h₂.lost.trans h₁.lost, h₂.callback.trans h₁.callback⟩

theorem SameLost.reportLost {a b : ReaderCore} (h : SameLost a b)
    (hcb : a.callback.any (·.onSampleLost) = true) (count : ℕ) :
    (b.reportLost count).lost = a.lost + count := by
  rw [← h.callback] at hcb
  rw [lost_reportLost hcb, h.lost]

theorem sameLost_sendAckNack (core : ReaderCore) (wp : WriterProxy) (p : Prop) [Decidable p]
    (lastSn : ℤ) (final : Bool) :
    SameLost core (if p then sendAckNackLocked core wp lastSn final else core) := by
  split
  · refine ⟨?_, (@Appends.sendAckNack ∅ core wp _ lastSn final).callback⟩
    unfold sendAckNackLocked sendAckNack
    split
    · rfl
    · exact lost_emit _ _
  · exact ⟨rfl, rfl⟩

theorem sameLost_reportReady (core : ReaderCore) (writer : Guid) (p : Prop) [Decidable p] :
    SameLost core (if p then core.reportReady writer true else core) := by
  split
  · exact ⟨lost_reportReady core writer true,
      (@Appends.reportReady ∅ core writer true).callback⟩
  · exact ⟨rfl, rfl⟩

/-- What marking numbers gone leaves received, and what it counts. -/
theorem advancePast_spec {out : ReaderCore × WriterProxy × ℕ}
    (h : advancePast core wp sns = some out) :
    out.2.1.received = (markGone wp.received sns).1 ∧ out.2.2 = (markGone wp.received sns).2 ∧
      out.1.lost = core.lost := by
  obtain ⟨wp₁, rfl, -, hlost, hout⟩ := advancePast_eq h
  obtain ⟨core', wp', lost⟩ := out
  dsimp only at hlost hout ⊢
  split at hout
  · have hrecv := (deliverPendingLocked_appends core
      { wp with received := (markGone wp.received sns).1 } wp.received.cumulativeAck).2.2
    have hsame : (deliverPendingLocked core { wp with received := (markGone wp.received sns).1 }
        wp.received.cumulativeAck).1.lost = core.lost := lost_deliverPendingLoop _ _ _ _
    rw [← hout] at hrecv hsame
    exact ⟨hrecv, hlost, hsame⟩
  · cases hout
    exact ⟨rfl, hlost, rfl⟩

theorem handleGapLocked_spec {gapStart : ℤ} {gapList : SequenceNumberSet}
    {out : ReaderCore × WriterProxy} (hcb : core.callback.any (·.onSampleLost) = true)
    (h : handleGapLocked core wp gapStart gapList = some out) :
    out.2.received = (markGone wp.received (gapSns gapStart gapList)).1 ∧
      out.1.lost = core.lost + (markGone wp.received (gapSns gapStart gapList)).2 := by
  unfold handleGapLocked at h
  split at h
  · cases h
  · simp only [Option.bind_eq_bind, Option.bind_eq_some_iff] at h
    obtain ⟨adv, hadv, h⟩ := h
    cases h
    obtain ⟨hrecv, hlost, hsame⟩ := advancePast_spec hadv
    have hcb' : adv.1.callback.any (·.onSampleLost) = true := by
      rw [(advancePast_appends hadv).1.callback]
      exact hcb
    exact ⟨hrecv, by rw [lost_reportLost hcb', hsame, hlost]⟩

theorem handleHeartbeatLocked_spec {readerId : EntityId} {firstSn lastSn : ℤ} {count : Int32}
    {final : Bool} {out : ReaderCore × WriterProxy}
    (hcb : core.callback.any (·.onSampleLost) = true)
    (hnew : isNewerCount count wp.lastHbCount = true)
    (h : handleHeartbeatLocked core wp readerId firstSn lastSn count final = some out) :
    out.2.received = (markGone wp.received (heartbeatGone core wp firstSn)).1 ∧
      out.1.lost = core.lost + (markGone wp.received (heartbeatGone core wp firstSn)).2 := by
  unfold handleHeartbeatLocked at h
  rw [hnew] at h
  simp only [Bool.not_true, Bool.false_eq_true, if_false, Option.bind_eq_bind,
    Option.bind_eq_some_iff] at h
  obtain ⟨adv, hadv, h⟩ := h
  cases h
  obtain ⟨hrecv, hlost, hsame⟩ := advancePast_spec hadv
  have hcb' : adv.1.callback.any (·.onSampleLost) = true := by
    rw [(advancePast_appends hadv).1.callback]
    exact hcb
  have hcount : adv.2.2 = (markGone wp.received (heartbeatGone core wp firstSn)).2 := hlost
  refine ⟨hrecv, ?_⟩
  rw [← hcount, ← hsame]
  exact ((sameLost_sendAckNack _ _ _ _ _).trans (sameLost_reportReady _ _ _)).reportLost hcb' _

/-! ### Losses over a match -/

/-- A HEARTBEAT or GAP of the writer. -/
def ReaderOp.declaresFor (g : Guid) : ReaderOp → Bool
  | heartbeat w _ _ _ _ _ => w == g
  | gap w _ _ => w == g
  | _ => false

/-- A DATA or DATA_FRAG of the writer. -/
def ReaderOp.bringsFor (g : Guid) : ReaderOp → Bool
  | data w _ => w == g
  | dataFrag w _ _ _ => w == g
  | _ => false

/-- What a submessage says has the widths of its fields. -/
def ReaderOp.InRange : ReaderOp → Prop
  | data _ change => IsSn change.sequenceNumber
  | dataFrag _ _ _ df => IsSn df.writerSn
  | heartbeat _ _ firstSn lastSn _ _ => IsSn firstSn ∧ IsSn lastSn
  | heartbeatFrag _ writerSn _ _ => IsSn writerSn
  | gap _ gapStart gapList => IsSn gapStart ∧ IsSn gapList.base ∧ gapList.numBits ≤ 256
  | matchWriter m prematch _ => ∀ p ∈ prematch, ∀ reader, ∀ s ∈ (p.collect m.guid reader).samples,
      IsSn s.1.sequenceNumber
  | unmatchWriter _ => True

namespace StatefulReader

/-- The operation says that sample `n` of writer `g` is gone: an accepted HEARTBEAT that starts
beyond it, or a GAP that lists it. -/
def DeclaresGone (r : StatefulReader) (g : Guid) (n : ℤ) : ReaderOp → Prop
  | .heartbeat w _ firstSn lastSn count _ => w = g ∧ 0 < firstSn ∧ firstSn - 1 ≤ lastSn ∧
      (∃ wp, r.find g = some wp ∧ isNewerCount count wp.lastHbCount = true) ∧ n < firstSn
  | .gap w gapStart gapList =>
      w = g ∧ (gapStart ≤ n ∧ n < gapList.base ∨ gapList.contains n = true)
  | _ => False

/-- A DATA or DATA_FRAG from `r` to `r'` brings sample `n` of writer `g`. -/
def AcceptsData (r : StatefulReader) (g : Guid) (n : ℤ) (op : ReaderOp) (r' : StatefulReader) :
    Prop :=
  op.bringsFor g = true ∧ n ∉ r.receivedFrom g ∧ n ∈ r'.receivedFrom g

/-- From `r` on, sample `n` is declared gone before a DATA for it is accepted. -/
def GoneBeforeData (g : Guid) (n : ℤ) : StatefulReader → List ReaderOp → Prop
  | _, [] => False
  | r, op :: ops => r.DeclaresGone g n op ∨
      ∃ r', r.stepChecked op = some r' ∧ ¬ r.AcceptsData g n op r' ∧ GoneBeforeData g n r' ops

/-- The samples reported lost by the writer's HEARTBEATs and GAPs, from `r` on. -/
def reportedLost (g : Guid) : StatefulReader → List ReaderOp → ℕ
  | _, [] => 0
  | r, op :: ops =>
      match r.stepChecked op with
      | none => 0
      | some r' => (if op.declaresFor g then r'.core.lost - r.core.lost else 0) +
          reportedLost g r' ops

/-- A HEARTBEAT or GAP of the writer counts right: what it lists is at least 1, none of its bits is
below a GAP's start, and no sum leaves its type. -/
def CountsRight (r : StatefulReader) (g : Guid) (op : ReaderOp) : Prop :=
  ∀ wp, r.find g = some wp →
    match op with
    | .heartbeat w _ firstSn lastSn count _ => w = g → 0 < firstSn → firstSn - 1 ≤ lastSn →
        isNewerCount count wp.lastHbCount = true →
          LossesFit wp.received (heartbeatGone r.core wp firstSn)
    | .gap w gapStart gapList => w = g → gapList.base + gapList.numBits < 2 ^ 63 ∧
        (∀ n, gapList.contains n = true → 1 ≤ n → n ∉ wp.received → gapStart ≤ n) ∧
          LossesFit wp.received (gapSns gapStart gapList)
    | _ => True

/-- A reliable reader that reports losses, with the writer matched. -/
structure Matched (r : StatefulReader) (g : Guid) : Prop where
  reports : r.core.ReportsLosses
  find : (r.find g).isSome = true
  inRange : ∀ w, ∀ m ∈ r.receivedFrom w, m < 2 ^ 63

variable {r r' : StatefulReader} {g : Guid} {op : ReaderOp} {n : ℤ}

/-! ### Each step -/

/-- The checks only stop steps. -/
theorem step_of_stepChecked (hr : ∀ w, ∀ m ∈ r.receivedFrom w, m < 2 ^ 63) (hop : op.InRange)
    (h : r.stepChecked op = some r') : r.step op = some r' := by
  cases op with
  | heartbeat w readerId firstSn lastSn count final =>
    rw [stepChecked] at h
    rw [step]
    split
    next hbad => rwa [if_pos hbad] at h
    next hgood =>
      rw [if_neg hgood] at h
      rcases onProxy_cases h with ⟨hn, rfl⟩ | ⟨wp, out, hw, hout, rfl⟩
      · rw [onProxy, hn]
      · have hrw := hr w
        rw [receivedFrom_find hw] at hrw
        have hplain := ((handleHeartbeatCheckedLocked_eq_some hrw hop.1.2).mp hout).2
        rw [onProxy, hw]
        dsimp only
        rw [hplain]
        rfl
  | gap w gapStart gapList =>
    rw [stepChecked] at h
    rw [step]
    rcases onProxy_cases h with ⟨hn, rfl⟩ | ⟨wp, out, hw, hout, rfl⟩
    · rw [onProxy, hn]
    · have hrw := hr w
      rw [receivedFrom_find hw] at hrw
      have hplain := ((handleGapCheckedLocked_eq_some hrw hop.2.1 hop.2.2).mp hout).2
      rw [onProxy, hw]
      dsimp only
      rw [hplain]
      rfl
  | data w change => exact h
  | dataFrag w fresh ts df => exact h
  | heartbeatFrag w sn last count => exact h
  | matchWriter m prematch isCurrent => exact h
  | unmatchWriter w => exact h

theorem lt_of_mem_gapSns {gapStart : ℤ} {gapList : SequenceNumberSet} (hbase : IsSn gapList.base)
    (hend : gapList.base + gapList.numBits < 2 ^ 63) (h : n ∈ gapSns gapStart gapList) :
    n < 2 ^ 63 := by
  have hhigh := hbase.2
  rcases List.mem_append.mp h with hm | hm
  · have := (Int.mem_range_iff.mp hm).2
    omega
  · have := (Int.mem_range_iff.mp (List.mem_filter.mp hm).1).2
    omega

/-- What is received keeps to `i64`. -/
theorem inRange_step (hr : ∀ w, ∀ m ∈ r.receivedFrom w, m < 2 ^ 63) (hop : op.InRange)
    (h : r.step op = some r') (w : Guid) : ∀ m ∈ r'.receivedFrom w, m < 2 ^ 63 := by
  intro m hm
  have hnews := fun hu => (step_hears (w := w) hu h).news m hm
  cases op with
  | data v change =>
    rcases hnews (by simp) with hold | ht
    · exact hr w m hold
    · exact ht.2 ▸ hop.2
  | dataFrag v fresh ts df =>
    rcases hnews (by simp) with hold | ht
    · exact hr w m hold
    · exact ht.2 ▸ hop.2
  | heartbeat v readerId firstSn lastSn count final =>
    rcases hnews (by simp) with hold | ht
    · exact hr w m hold
    · exact ht.2.trans hop.1.2
  | heartbeatFrag v sn last count =>
    rcases hnews (by simp) with hold | ht
    · exact hr w m hold
    · exact ht.elim
  | gap v gapStart gapList =>
    rcases hnews (by simp) with hold | ⟨rfl, ht⟩
    · exact hr w m hold
    · rw [step] at h
      rcases onProxy_cases h with ⟨-, rfl⟩ | ⟨wp, out, -, hout, -⟩
      · exact hr v m hm
      · unfold handleGapLocked at hout
        split at hout
        · cases hout
        next hend => exact lt_of_mem_gapSns hop.2.1 (not_le.mp hend) ht
  | matchWriter v prematch isCurrent =>
    rcases hnews (by simp) with hold | ⟨rfl, p, hp, s, hs, rfl⟩
    · exact hr w m hold
    · exact (hop p hp _ s hs).2
  | unmatchWriter v =>
    by_cases e : v = w
    · cases h
      have hnone : (r.removeMatchedWriter v).receivedFrom w = ReceivedSet.empty ∨
          (r.removeMatchedWriter v).receivedFrom w = r.receivedFrom w := by
        unfold removeMatchedWriter
        split
        · exact .inr rfl
        next wp hw =>
          left
          unfold receivedFrom find
          rw [List.find?_eq_none.mpr]
          intro wp' hm'
          have hne := (List.mem_filter.mp hm').2
          rw [← e]
          simpa using hne
      rcases hnone with he | he
      · rw [he] at hm
        exact absurd hm (ReceivedSet.not_mem_empty m)
      · rw [he] at hm
        exact hr w m hm
    · rcases hnews (by simpa using e) with hold | ht
      · exact hr w m hold
      · exact ht.elim

/-- A matched writer stays matched until it is unmatched. -/
theorem find_step (hf : (r.find g).isSome = true) (hu : op ≠ .unmatchWriter g)
    (h : r.step op = some r') : (r'.find g).isSome = true := by
  have hset : ∀ {core : ReaderCore} {wp : WriterProxy},
      ((r.setProxy core wp).find g).isSome = true := by
    intro core wp
    by_cases e : g = wp.guid
    · subst e
      rw [find_setProxy hf]
      rfl
    · rw [find_setProxy_ne e]
      exact hf
  have hon : ∀ {w : Guid} {f : ReaderCore → WriterProxy → Option (ReaderCore × WriterProxy)},
      r.onProxy w f = some r' → (r'.find g).isSome = true := by
    intro w f hon
    rcases onProxy_cases hon with ⟨-, rfl⟩ | ⟨wp, out, -, -, rfl⟩
    · exact hf
    · exact hset
  cases op with
  | data w change =>
    rw [step] at h
    exact hon h
  | dataFrag w fresh ts df =>
    rw [step] at h
    exact hon h
  | heartbeat w readerId firstSn lastSn count final =>
    rw [step] at h
    split at h
    · cases h
      exact hf
    · exact hon h
  | heartbeatFrag w sn last count =>
    rw [step] at h
    exact hon h
  | gap w gapStart gapList =>
    rw [step] at h
    exact hon h
  | matchWriter m prematch isCurrent =>
    cases h
    cases isCurrent with
    | false => exact hf
    | true =>
      rcases addOrRefreshMatchedWriterWith_cases r m prematch with
        ⟨wp, wp', -, heq, -⟩ | ⟨hnone, held, core', -, -, heq⟩
      · rw [heq]
        exact hset
      · have hne : g ≠ m.guid := by
          rintro rfl
          rw [hnone] at hf
          cases hf
        obtain ⟨-, hg⟩ := takePrematchLocked_appends r.core m.proxy held
        rw [heq, find_setProxy_ne (by rw [hg]; exact hne), find_appendProxy_ne hnone hne]
        exact hf
  | unmatchWriter w =>
    cases h
    rw [find_removeMatchedWriter fun e => hu (by rw [e])]
    exact hf

/-- The match stands. -/
theorem Matched.step (h : r.Matched g) (hop : op.InRange) (hu : op ≠ .unmatchWriter g)
    (hs : r.step op = some r') : r'.Matched g where
  reports := by
    have happ := step_appends hs
    refine ⟨happ.reliable.trans h.reports.reliable, ?_⟩
    rw [happ.callback]
    exact h.reports.callback
  find := find_step h.find hu hs
  inRange := inRange_step h.inRange hop hs

/-- What a step adds to the numbers received, with those it declares gone and reports. -/
structure Loses (r : StatefulReader) (g : Guid) (op : ReaderOp) (r' : StatefulReader)
    (lost : Finset ℤ) : Prop where
  declared : ∀ n, n ∈ lost ↔ 1 ≤ n ∧ n ∉ r.receivedFrom g ∧ r.DeclaresGone g n op
  reported : (if op.declaresFor g then r'.core.lost - r.core.lost else 0) = lost.card
  received : ∀ n, n ∈ r'.receivedFrom g ↔
    n ∈ r.receivedFrom g ∨ n ∈ lost ∨ r.AcceptsData g n op r'

/-- A step that declares nothing gone. -/
theorem loses_nothing (hd : ∀ n, ¬ r.DeclaresGone g n op)
    (hrep : op.declaresFor g = true → r'.core.lost = r.core.lost)
    (hrecv : ∀ n, n ∈ r'.receivedFrom g ↔ n ∈ r.receivedFrom g ∨ r.AcceptsData g n op r') :
    Loses r g op r' ∅ where
  declared := fun n => ⟨fun h => absurd h (Finset.notMem_empty n), fun h => absurd h.2.2 (hd n)⟩
  reported := by
    rw [Finset.card_empty]
    split
    next h => rw [hrep h, Nat.sub_self]
    next => rfl
  received := fun n => by
    rw [hrecv n]
    simp

/-- A match of a writer that is matched is a refresh, and a match of another is none of its
concern. -/
theorem receivedFrom_matchWriter (m : MatchedWriter) (prematch : Option Prematch)
    (isCurrent : Bool) (hf : (r.find g).isSome = true) :
    (r.addOrRefreshMatchedWriterWith m prematch isCurrent).receivedFrom g = r.receivedFrom g := by
  cases isCurrent with
  | false => rfl
  | true =>
    obtain ⟨wp₀, hw₀⟩ := Option.isSome_iff_exists.mp hf
    rcases addOrRefreshMatchedWriterWith_cases r m prematch with
      ⟨wp, wp', hw, heq, hg, hrecv, -⟩ | ⟨hnone, held, core', -, -, heq⟩
    · rw [heq]
      have hwp' : wp'.guid = m.guid := hg.trans (find_guid hw)
      by_cases e : g = m.guid
      · subst e
        rw [← hwp'] at hf ⊢
        rw [receivedFrom_find (find_setProxy hf), hrecv, hwp', receivedFrom_find hw]
      · unfold receivedFrom
        rw [find_setProxy_ne (by rw [hwp']; exact e)]
    · have hne : g ≠ m.guid := by
        rintro rfl
        rw [hnone] at hf
        cases hf
      obtain ⟨-, hg⟩ := takePrematchLocked_appends r.core m.proxy held
      unfold receivedFrom
      rw [heq, find_setProxy_ne (by rw [hg]; exact hne), find_appendProxy_ne hnone hne]

/-- A step that brings the writer's DATA, or concerns others. -/
theorem loses_of_step (hd : op.declaresFor g = false) (hu : op ≠ .unmatchWriter g)
    (hf : (r.find g).isSome = true) (h : r.step op = some r') : Loses r g op r' ∅ := by
  have hears := step_hears hu h
  refine loses_nothing (fun n hn => ?_) (fun hd' => by rw [hd] at hd'; cases hd') (fun n => ?_)
  · cases op with
    | heartbeat w readerId firstSn lastSn count final =>
      exact absurd (beq_iff_eq.mpr hn.1) (by rw [ReaderOp.declaresFor] at hd; rw [hd]; simp)
    | gap w gapStart gapList =>
      exact absurd (beq_iff_eq.mpr hn.1) (by rw [ReaderOp.declaresFor] at hd; rw [hd]; simp)
    | data w change => exact hn
    | dataFrag w fresh ts df => exact hn
    | heartbeatFrag w sn last count => exact hn
    | matchWriter m prematch isCurrent => exact hn
    | unmatchWriter w => exact hn
  · refine ⟨fun hn => ?_, fun hn => hn.elim (hears.keeps n) (fun ha => ha.2.2)⟩
    by_cases hold : n ∈ r.receivedFrom g
    · exact .inl hold
    · refine .inr ⟨?_, hold, hn⟩
      have ht := (hears.news n hn).resolve_left hold
      cases op with
      | data w change => exact beq_iff_eq.mpr ht.1
      | dataFrag w fresh ts df => exact beq_iff_eq.mpr ht.1
      | heartbeat w readerId firstSn lastSn count final =>
        rw [ReaderOp.declaresFor, ht.1, BEq.rfl] at hd
        cases hd
      | heartbeatFrag w sn last count => exact ht.elim
      | gap w gapStart gapList =>
        rw [ReaderOp.declaresFor, ht.1, BEq.rfl] at hd
        cases hd
      | matchWriter m prematch isCurrent =>
        cases h
        rw [receivedFrom_matchWriter m prematch isCurrent hf] at hn
        exact absurd hn hold
      | unmatchWriter w => exact ht.elim

/-- A HEARTBEAT or GAP of the writer, whose list `sns` is marked gone. -/
theorem loses_of_gone {wp : WriterProxy} {out : ReaderCore × WriterProxy} {sns : List ℤ}
    (hw : r.find g = some wp) (hd : op.declaresFor g = true)
    (hg : out.2.guid = wp.guid) (hrecv : out.2.received = (markGone wp.received sns).1)
    (hlost : out.1.lost = r.core.lost + (markGone wp.received sns).2)
    (hpos : ∀ sn ∈ sns, 1 ≤ sn)
    (hdecl : ∀ n, 1 ≤ n → n ∉ wp.received → (n ∈ sns ↔ r.DeclaresGone g n op)) :
    Loses r g op (r.setProxy out.1 out.2) (newlyLost wp.received sns) := by
  have hr : r.receivedFrom g = wp.received := receivedFrom_find hw
  have hg' : out.2.guid = g := hg.trans (find_guid hw)
  have hr' : (r.setProxy out.1 out.2).receivedFrom g = out.2.received := by
    rw [← hg']
    exact receivedFrom_find (find_setProxy (by rw [hg', hw]; rfl))
  have hbrings : op.bringsFor g = false := by
    cases op with
    | heartbeat => rfl
    | gap => rfl
    | data => cases hd
    | dataFrag => cases hd
    | heartbeatFrag => cases hd
    | matchWriter => cases hd
    | unmatchWriter => cases hd
  refine ⟨fun n => ?_, ?_, fun n => ?_⟩
  · rw [mem_newlyLost, hr]
    exact ⟨fun ⟨hm, h1, hn⟩ => ⟨h1, hn, (hdecl n h1 hn).mp hm⟩,
      fun ⟨h1, hn, hm⟩ => ⟨(hdecl n h1 hn).mpr hm, h1, hn⟩⟩
  · rw [if_pos hd, ← markGone_count hpos]
    have : (r.setProxy out.1 out.2).core.lost = out.1.lost := rfl
    omega
  · rw [hr', hrecv, mem_received_markGone, hr, mem_newlyLost]
    constructor
    · rintro (hold | ⟨hm, h1⟩)
      · exact .inl hold
      · by_cases hold : n ∈ wp.received
        · exact .inl hold
        · exact .inr (.inl ⟨hm, h1, hold⟩)
    · rintro (hold | hm | ha)
      · exact .inl hold
      · exact .inr ⟨hm.1, hm.2.1⟩
      · exact absurd (hbrings.symm.trans ha.1) Bool.false_ne_true

theorem mem_heartbeatGone {wp : WriterProxy} {firstSn : ℤ} (hrel : core.reliable = true)
    (h1 : 1 ≤ n) (hn : n ∉ wp.received) : n ∈ heartbeatGone core wp firstSn ↔ n < firstSn := by
  unfold heartbeatGone
  rw [if_pos hrel, Int.mem_range_iff]
  refine ⟨And.right, fun h => ⟨?_, h⟩⟩
  by_contra hle
  exact hn (ReceivedSet.mem_of_le_cumulativeAck h1 (by omega))

theorem loses_heartbeat {readerId : EntityId} {firstSn lastSn : ℤ} {count : Int32} {final : Bool}
    (h : r.Matched g) (hop : IsSn firstSn)
    (hc : r.CountsRight g (.heartbeat g readerId firstSn lastSn count final))
    (hs : r.stepChecked (.heartbeat g readerId firstSn lastSn count final) = some r') :
    ∃ lost, Loses r g (.heartbeat g readerId firstSn lastSn count final) r' lost := by
  have hdecl : (ReaderOp.heartbeat g readerId firstSn lastSn count final).declaresFor g = true :=
    BEq.rfl
  rw [stepChecked] at hs
  split at hs
  next hbad =>
    cases hs
    refine ⟨∅, loses_nothing (fun n hn => ?_) (fun _ => rfl) fun n => ?_⟩
    · have := hn.2.1
      have := hn.2.2.1
      omega
    · exact ⟨.inl, fun hn => hn.elim id fun ha => ha.2.2⟩
  next hgood =>
    rcases onProxy_cases hs with ⟨hnone, -⟩ | ⟨wp, out, hw, hout, rfl⟩
    · have hf := h.find
      rw [hnone] at hf
      cases hf
    · have hr := h.inRange g
      rw [receivedFrom_find hw] at hr
      have hplain := ((handleHeartbeatCheckedLocked_eq_some hr hop.2).mp hout).2
      have hg := (handleHeartbeatLocked_appends hplain).2
      cases hnew : isNewerCount count wp.lastHbCount with
      | true =>
        obtain ⟨hrecv, hlost⟩ := handleHeartbeatLocked_spec h.reports.callback hnew hplain
        have hfit := hc wp hw rfl (by omega) (by omega) hnew
        refine ⟨_, loses_of_gone hw hdecl hg hrecv hlost hfit.positive fun n h1 hn => ?_⟩
        rw [mem_heartbeatGone h.reports.reliable h1 hn]
        exact ⟨fun hlt => ⟨rfl, by omega, by omega, ⟨wp, hw, hnew⟩, hlt⟩, fun hd => hd.2.2.2.2⟩
      | false =>
        -- a count that is not newer declares nothing
        have hsame : out = (r.core, wp) := by
          unfold handleHeartbeatLocked at hplain
          rw [hnew] at hplain
          exact (Option.some.inj hplain).symm
        have hrecv : wp.received = (markGone wp.received []).1 := rfl
        rw [hsame]
        refine ⟨_, loses_of_gone hw hdecl rfl hrecv rfl (fun sn hsn => nomatch hsn)
          fun n _ _ => ⟨fun hm => (nomatch hm), fun hd => ?_⟩⟩
        obtain ⟨wp', hw', hnew'⟩ := hd.2.2.2.1
        cases hw.symm.trans hw'
        exact absurd (hnew.symm.trans hnew') Bool.false_ne_true

theorem loses_gap {gapStart : ℤ} {gapList : SequenceNumberSet} (h : r.Matched g)
    (hop : (ReaderOp.gap g gapStart gapList).InRange)
    (hc : r.CountsRight g (.gap g gapStart gapList))
    (hs : r.stepChecked (.gap g gapStart gapList) = some r') :
    ∃ lost, Loses r g (.gap g gapStart gapList) r' lost := by
  have hdecl : (ReaderOp.gap g gapStart gapList).declaresFor g = true := BEq.rfl
  rw [stepChecked] at hs
  rcases onProxy_cases hs with ⟨hnone, -⟩ | ⟨wp, out, hw, hout, rfl⟩
  · have hf := h.find
    rw [hnone] at hf
    cases hf
  · have hr := h.inRange g
    rw [receivedFrom_find hw] at hr
    have hplain := ((handleGapCheckedLocked_eq_some hr hop.2.1 hop.2.2).mp hout).2
    obtain ⟨hrecv, hlost⟩ := handleGapLocked_spec h.reports.callback hplain
    obtain ⟨hend, hbits, hfit⟩ := hc wp hw rfl
    refine ⟨_, loses_of_gone hw hdecl (handleGapLocked_appends hplain).2 hrecv hlost hfit.positive
      fun n h1 hn => ⟨fun hm => ⟨rfl, mem_gapSns hm⟩, fun hd => ?_⟩⟩
    rcases hd.2 with hlt | hin
    · exact List.mem_append_left _ (Int.mem_range_iff.mpr hlt)
    · obtain ⟨i, rfl, hi, -⟩ := SequenceNumberSet.contains_iff.mp hin
      have hstart := hbits _ hin h1 hn
      refine List.mem_append_right _ (List.mem_filter.mpr ⟨Int.mem_range_iff.mpr ?_, hin⟩)
      omega

/-- Each step reports the numbers it declares gone that were not received. -/
theorem loses_step (h : r.Matched g) (hop : op.InRange) (hu : op ≠ .unmatchWriter g)
    (hc : r.CountsRight g op) (hs : r.stepChecked op = some r') : ∃ lost, Loses r g op r' lost := by
  have hplain := step_of_stepChecked h.inRange hop hs
  cases hd : op.declaresFor g with
  | false => exact ⟨∅, loses_of_step hd hu h.find hplain⟩
  | true =>
    cases op with
    | heartbeat w readerId firstSn lastSn count final =>
      cases beq_iff_eq.mp hd
      exact loses_heartbeat h hop.1 hc hs
    | gap w gapStart gapList =>
      cases beq_iff_eq.mp hd
      exact loses_gap h hop hc hs
    | data => cases hd
    | dataFrag => cases hd
    | heartbeatFrag => cases hd
    | matchWriter => cases hd
    | unmatchWriter => cases hd

theorem advancePast_of_fits (core : ReaderCore) {wp : WriterProxy}
    (h : LossesFit wp.received sns) : ∃ out, advancePast core wp sns = some out := by
  have hfit : lostFits (markGone wp.received sns).2 = some () := by
    rw [markGone_count h.positive]
    exact if_pos h.count
  unfold advancePast
  simp only [hfit, Option.bind_eq_bind, Option.bind_some]
  exact ⟨_, rfl⟩

/-- No addition stops a HEARTBEAT or GAP that counts right. -/
theorem stepChecked_ne_none (h : r.Matched g) (hd : op.declaresFor g = true) (hop : op.InRange)
    (hc : r.CountsRight g op) : r.stepChecked op ≠ none := by
  obtain ⟨wp, hw⟩ := Option.isSome_iff_exists.mp h.find
  have hr := h.inRange g
  rw [receivedFrom_find hw] at hr
  have hproxy : ∀ {f : ReaderCore → WriterProxy → Option (ReaderCore × WriterProxy)},
      (∃ out, f r.core wp = some out) → r.onProxy g f ≠ none := by
    rintro f ⟨out, hout⟩
    rw [onProxy, hw]
    dsimp only
    rw [hout]
    exact Option.some_ne_none _
  cases op with
  | heartbeat w readerId firstSn lastSn count final =>
    cases beq_iff_eq.mp hd
    rw [stepChecked]
    split
    · exact Option.some_ne_none _
    next hgood =>
      refine hproxy ?_
      have hiff := fun out => @handleHeartbeatCheckedLocked_eq_some r.core wp readerId firstSn
        lastSn count final out hr hop.1.2
      cases hnew : isNewerCount count wp.lastHbCount with
      | false =>
        refine ⟨(r.core, wp), (hiff _).mpr ⟨fun h' => absurd (hnew.symm.trans h')
          Bool.false_ne_true, ?_⟩⟩
        unfold handleHeartbeatLocked
        rw [hnew]
        rfl
      | true =>
        have hfit := hc wp hw rfl (by omega) (by omega) hnew
        have hacc : LossesFit (acceptHeartbeat r.core wp readerId lastSn count).received
            (heartbeatGone r.core wp firstSn) := hfit
        obtain ⟨adv, hadv⟩ := advancePast_of_fits r.core hacc
        have hgone : heartbeatGone r.core (acceptHeartbeat r.core wp readerId lastSn count)
            firstSn = heartbeatGone r.core wp firstSn := rfl
        have hsome : ∃ out, handleHeartbeatLocked r.core wp readerId firstSn lastSn count final =
            some out := by
          unfold handleHeartbeatLocked
          simp only [hnew, Bool.not_true, Bool.false_eq_true, if_false, hgone, hadv,
            Option.bind_eq_bind, Option.bind_some]
          exact ⟨_, rfl⟩
        obtain ⟨out, hout⟩ := hsome
        exact ⟨out, (hiff out).mpr ⟨fun _ _ => hfit.cumulativeAck_lt, hout⟩⟩
  | gap w gapStart gapList =>
    cases beq_iff_eq.mp hd
    obtain ⟨hend, -, hfit⟩ := hc wp hw rfl
    rw [stepChecked]
    refine hproxy ?_
    obtain ⟨adv, hadv⟩ := advancePast_of_fits r.core hfit
    have hsome : ∃ out, handleGapLocked r.core wp gapStart gapList = some out := by
      unfold handleGapLocked
      rw [if_neg (not_le.mpr hend)]
      simp only [hadv, Option.bind_eq_bind, Option.bind_some]
      exact ⟨_, rfl⟩
    obtain ⟨out, hout⟩ := hsome
    exact ⟨out, (handleGapCheckedLocked_eq_some hr hop.2.1 hop.2.2).mpr
      ⟨fun _ => hfit.cumulativeAck_lt, hout⟩⟩
  | data => cases hd
  | dataFrag => cases hd
  | heartbeatFrag => cases hd
  | matchWriter => cases hd
  | unmatchWriter => cases hd

/-! ### Runs -/

/-- What a run reports is what it declares gone, each number once. -/
theorem reportedLost_eq_card : ∀ {ops : List ReaderOp} {r : StatefulReader}, r.Matched g →
    (∀ op ∈ ops, op.InRange) → (∀ op ∈ ops, op ≠ .unmatchWriter g) →
    Run stepChecked (fun r op => r.CountsRight g op) r ops r' →
      (∃ lost : Finset ℤ,
        (∀ n, n ∈ lost ↔ 1 ≤ n ∧ n ∉ r.receivedFrom g ∧ GoneBeforeData g n r ops) ∧
        reportedLost g r ops = lost.card) ∧ r'.Matched g
  | [], r, h, _, _, hrun => by
      cases hrun.eq_of_nil
      exact ⟨⟨∅, fun n => ⟨fun hn => absurd hn (Finset.notMem_empty n), fun hn => hn.2.2.elim⟩,
        rfl⟩, h⟩
  | op :: ops, r, h, hop, hu, hrun => by
      obtain ⟨hc, r₁, hs, hrest⟩ := hrun.of_cons
      have hop₁ := hop op List.mem_cons_self
      have hu₁ := hu op List.mem_cons_self
      obtain ⟨now, hnow⟩ := loses_step h hop₁ hu₁ hc hs
      have h₁ := h.step hop₁ hu₁ (step_of_stepChecked h.inRange hop₁ hs)
      obtain ⟨⟨later, hlater, hcard⟩, hend⟩ := reportedLost_eq_card h₁
        (fun o ho => hop o (List.mem_cons_of_mem op ho))
        (fun o ho => hu o (List.mem_cons_of_mem op ho)) hrest
      refine ⟨⟨now ∪ later, fun n => ?_, ?_⟩, hend⟩
      · rw [Finset.mem_union, hnow.declared, hlater, hnow.received, GoneBeforeData]
        constructor
        · rintro (⟨h1, hn, hd⟩ | ⟨h1, hn, hgone⟩)
          · exact ⟨h1, hn, .inl hd⟩
          · exact ⟨h1, fun h' => hn (.inl h'), .inr ⟨r₁, hs, fun ha => hn (.inr (.inr ha)), hgone⟩⟩
        · rintro ⟨h1, hn, hd | ⟨r₂, hs₂, hnot, hgone⟩⟩
          · exact .inl ⟨h1, hn, hd⟩
          · cases hs.symm.trans hs₂
            by_cases hd : r.DeclaresGone g n op
            · exact .inl ⟨h1, hn, hd⟩
            · refine .inr ⟨h1, ?_, hgone⟩
              rintro (h' | h' | h')
              · exact hn h'
              · exact hd ((hnow.declared n).mp h').2.2
              · exact hnot h'
      · -- what was lost now is received after the step
        have hdisj : Disjoint now later := by
          rw [Finset.disjoint_left]
          intro n hn hn'
          exact ((hlater n).mp hn').2.1 ((hnow.received n).mpr (.inr (.inl hn)))
        rw [reportedLost, hs, Finset.card_union_of_disjoint hdisj]
        dsimp only
        rw [hnow.reported, hcard]

/-- A match, of a writer that is not matched, begins the count. -/
theorem matched_matchWriter {m : MatchedWriter} {prematch : Option Prematch}
    (hrep : r.core.ReportsLosses) (hnew : r.find m.guid = none)
    (hr : ∀ w, ∀ n ∈ r.receivedFrom w, n < 2 ^ 63)
    (hop : (ReaderOp.matchWriter m prematch true).InRange) :
    (r.addOrRefreshMatchedWriterWith m prematch true).Matched m.guid := by
  have hs : r.step (.matchWriter m prematch true) =
      some (r.addOrRefreshMatchedWriterWith m prematch true) := rfl
  have happ := step_appends hs
  refine ⟨⟨happ.reliable.trans hrep.reliable, ?_⟩, ?_, inRange_step hr hop hs⟩
  · rw [happ.callback]
    exact hrep.callback
  · rcases addOrRefreshMatchedWriterWith_cases r m prematch with
      ⟨wp, -, hw, -⟩ | ⟨hnone, held, core', -, -, heq⟩
    · rw [hnew] at hw
      cases hw
    · obtain ⟨-, hg⟩ := takePrematchLocked_appends r.core m.proxy held
      have hfind := @find_appendProxy r m.proxy hnone
      rw [heq]
      have hgm : (takePrematchLocked r.core m.proxy held).2.guid = m.guid := hg
      rw [← hgm, find_setProxy]
      · rfl
      · rw [hgm]
        exact Option.isSome_iff_exists.mpr ⟨_, hfind⟩

/-- The history a writer announced and never delivered is reported when it is unmatched. -/
theorem lost_removeMatchedWriter {wp : WriterProxy} (hrep : r.core.ReportsLosses)
    (hw : r.find g = some wp) :
    (r.removeMatchedWriter g).core.lost = r.core.lost + wp.undeliveredHistory.toNat := by
  have hlost := lost_reportLost hrep.callback wp.undeliveredHistory.toNat
  unfold removeMatchedWriter
  rw [hw]
  dsimp only
  split
  · rw [lost_reportReady]
    exact hlost
  · exact hlost

/-- **Losses are counted exactly**: from the match of a writer on, along every run whose
HEARTBEATs and GAPs of the writer count right, the samples reported lost are those declared gone
before their DATA was accepted, each once; and no addition stops such a HEARTBEAT or GAP.  The
unmatch reports the history announced and never delivered, and nothing else. -/
theorem losses_exact {r₀ r : StatefulReader} {m : MatchedWriter} {prematch : Option Prematch}
    {ops : List ReaderOp} (hrep : r₀.core.ReportsLosses) (hnew : r₀.find m.guid = none)
    (hr : ∀ w, ∀ n ∈ r₀.receivedFrom w, n < 2 ^ 63)
    (hmatch : (ReaderOp.matchWriter m prematch true).InRange) (hops : ∀ op ∈ ops, op.InRange)
    (hu : ∀ op ∈ ops, op ≠ .unmatchWriter m.guid)
    (hrun : Run stepChecked (fun r op => r.CountsRight m.guid op)
      (r₀.addOrRefreshMatchedWriterWith m prematch true) ops r) :
    (∃ lost : Finset ℤ, (∀ n, n ∈ lost ↔ 1 ≤ n ∧
        n ∉ (r₀.addOrRefreshMatchedWriterWith m prematch true).receivedFrom m.guid ∧
        GoneBeforeData m.guid n (r₀.addOrRefreshMatchedWriterWith m prematch true) ops) ∧
      reportedLost m.guid (r₀.addOrRefreshMatchedWriterWith m prematch true) ops = lost.card) ∧
    (∀ op : ReaderOp, op.declaresFor m.guid = true → op.InRange → r.CountsRight m.guid op →
      r.stepChecked op ≠ none) ∧
    ∀ wp, r.find m.guid = some wp →
      (r.removeMatchedWriter m.guid).core.lost = r.core.lost + wp.undeliveredHistory.toNat := by
  have hstart := matched_matchWriter hrep hnew hr hmatch
  obtain ⟨hexact, hend⟩ := reportedLost_eq_card hstart hops hu hrun
  exact ⟨hexact, fun op hd hop hc => stepChecked_ne_none hend hd hop hc,
    fun wp hw => lost_removeMatchedWriter hend.reports hw⟩

/-- A reader that has just matched the remote writer. -/
def matchedReader : StatefulReader :=
  idleReader.addOrRefreshMatchedWriterWith remoteWriter none true

/-- A GAP of the remote writer from `gapStart` up to `base`. -/
def gapOp (gapStart base : ℤ) (numBits : ℕ) : ReaderOp :=
  .gap remoteWriter.guid gapStart ⟨base, numBits, Bitmap.zeroes⟩

theorem idleReader_reports : idleReader.core.ReportsLosses := ⟨rfl, rfl⟩

theorem idleReader_inRange : ∀ w, ∀ n ∈ idleReader.receivedFrom w, n < 2 ^ 63 :=
  fun _ n hn => absurd hn (ReceivedSet.not_mem_empty n)

theorem remoteMatch_inRange : (ReaderOp.matchWriter remoteWriter none true).InRange :=
  fun _ hp => nomatch hp

theorem matchedReader_received {wp : WriterProxy}
    (h : matchedReader.find remoteWriter.guid = some wp) : ∀ n, n ∉ wp.received := by
  have heval : (matchedReader.find remoteWriter.guid).map (·.received.ranges) = some [] := by
    decide
  rw [h] at heval
  have hnil : wp.received.ranges = [] := Option.some.inj heval
  intro n hn
  obtain ⟨range, hm, -⟩ := ReceivedSet.mem_iff.mp hn
  rw [hnil] at hm
  cases hm

theorem losses_exact_gap :
    ∃ r, Run stepChecked (fun r op => r.CountsRight remoteWriter.guid op) matchedReader
        [gapOp 1 3 0] r ∧
      reportedLost remoteWriter.guid matchedReader [gapOp 1 3 0] = 2 ∧
      ∃ lost : Finset ℤ, (∀ n, n ∈ lost ↔ 1 ≤ n ∧
          n ∉ matchedReader.receivedFrom remoteWriter.guid ∧
          GoneBeforeData remoteWriter.guid n matchedReader [gapOp 1 3 0]) ∧ 2 = lost.card := by
  have hsome : (matchedReader.stepChecked (gapOp 1 3 0)).isSome = true := by decide
  obtain ⟨r, hr⟩ := Option.isSome_iff_exists.mp hsome
  have hlist : gapSns 1 ⟨3, 0, Bitmap.zeroes⟩ = [1, 2] := by decide
  have hok : matchedReader.CountsRight remoteWriter.guid (gapOp 1 3 0) := by
    intro wp hw _
    refine ⟨by decide, fun n hn => ?_, ?_⟩
    · obtain ⟨i, -, hi, -⟩ := SequenceNumberSet.contains_iff.mp hn
      exact absurd hi (Nat.not_lt_zero i)
    · rw [hlist]
      refine ⟨by decide, ?_, 3, by decide, by decide, matchedReader_received hw 3, by decide⟩
      have hle := (Finset.card_filter_le ([1, 2] : List ℤ).toFinset
        (fun n => 1 ≤ n ∧ n ∉ wp.received)).trans (List.toFinset_card_le [1, 2])
      exact lt_of_le_of_lt hle (by decide)
  have hrun : Run stepChecked (fun r op => r.CountsRight remoteWriter.guid op) matchedReader
      [gapOp 1 3 0] r := Run.single hok hr
  have htotal : reportedLost remoteWriter.guid matchedReader [gapOp 1 3 0] = 2 := by decide
  refine ⟨r, hrun, htotal, ?_⟩
  rw [← htotal]
  refine (losses_exact idleReader_reports rfl idleReader_inRange remoteMatch_inRange
    (fun op hop => ?_) (fun op hop => ?_) hrun).1
  · cases List.mem_singleton.mp hop
    exact ⟨⟨by decide, by decide⟩, ⟨by decide, by decide⟩, by decide⟩
  · cases List.mem_singleton.mp hop
    exact fun h => nomatch h

/-- A GAP from 1 on that does not stop the program lists less than `2 ^ 31` samples. -/
theorem lt_of_gapOp {base : ℤ} (hbase : IsSn base)
    (h : matchedReader.stepChecked (gapOp 1 base 0) = some r') : (base - 1).toNat < 2 ^ 31 := by
  have hin : (gapOp 1 base 0).InRange := ⟨⟨by norm_num, by norm_num⟩, hbase, Nat.zero_le _⟩
  have hm := matched_matchWriter idleReader_reports rfl idleReader_inRange remoteMatch_inRange
  have hs := step_of_stepChecked hm.inRange hin h
  rw [gapOp, step] at hs
  rcases onProxy_cases hs with ⟨hnone, -⟩ | ⟨wp, out, hw, hout, -⟩
  · have hf := hm.find
    rw [hnone] at hf
    cases hf
  · have hmem : ∀ n, n ∈ gapSns 1 ⟨base, 0, Bitmap.zeroes⟩ ↔ 1 ≤ n ∧ n < base := by
      intro n
      refine ⟨fun hn => ?_, fun hn => List.mem_append_left _ (Int.mem_range_iff.mpr hn)⟩
      rcases List.mem_append.mp hn with hn | hn
      · exact Int.mem_range_iff.mp hn
      · have hlt := Int.mem_range_iff.mp (List.mem_filter.mp hn).1
        simp only [Nat.cast_zero, add_zero] at hlt
        omega
    have hset : newlyLost wp.received (gapSns 1 ⟨base, 0, Bitmap.zeroes⟩) = Finset.Ico 1 base := by
      ext n
      rw [mem_newlyLost, hmem, Finset.mem_Ico]
      exact ⟨And.left, fun hn => ⟨hn, hn.1, matchedReader_received hw n⟩⟩
    obtain ⟨adv, hadv, -⟩ := handleGapLocked_cases hout
    obtain ⟨-, -, hlt, -⟩ := advancePast_eq hadv
    rwa [markGone_count fun n hn => ((hmem n).mp hn).1, hset, Int.card_Ico] at hlt

/-- A GAP of samples 0 and 1 reports two samples lost for one that is gone.  One whose bitmap ends
at `2 ^ 63` and one of `2 ^ 31` samples stop the program. -/
theorem losses_miscounted :
    (reportedLost remoteWriter.guid matchedReader [gapOp 0 2 0] = 2 ∧
      ∀ n, 1 ≤ n → GoneBeforeData remoteWriter.guid n matchedReader [gapOp 0 2 0] → n = 1) ∧
    matchedReader.stepChecked (gapOp 1 (2 ^ 63 - 1) 1) = none ∧
    matchedReader.stepChecked (gapOp 1 (2 ^ 31 + 1) 0) = none := by
  refine ⟨⟨by decide, fun n h1 hgone => ?_⟩, ?_, ?_⟩
  · rcases hgone with ⟨-, hlt | hin⟩ | ⟨r', -, -, hgone⟩
    · have hlt' : n < 2 := hlt.2
      omega
    · obtain ⟨i, -, hi, -⟩ := SequenceNumberSet.contains_iff.mp hin
      exact absurd hi (Nat.not_lt_zero i)
    · exact hgone.elim
  · have hnone : (matchedReader.stepChecked (gapOp 1 (2 ^ 63 - 1) 1)).isNone = true := by decide
    exact Option.isNone_iff_eq_none.mp hnone
  · by_contra hne
    obtain ⟨r', hr'⟩ := Option.ne_none_iff_exists'.mp hne
    have hlt := lt_of_gapOp ⟨by norm_num, by norm_num⟩ hr'
    norm_num at hlt

end StatefulReader

end Zzdds.Rtps
