import Zzdds.Rtps.Reader.Ops

/-! # What the reader's operations leave alone

Every locked operation only appends to the log, keeps the reader's configuration and hands
over changes of its own writer only: `Appends ws a b`, for the writers `ws`.  An operation also
keeps the GUID of its proxy.  `handedSince k g core` is the sequence numbers handed over for
writer `g` since the log had `k` events; `handedSince_of_appends` is the frame rule for it. -/

namespace Zzdds.Rtps

open Zzdds.Lib

/-- The writer and number of a change handed over. -/
def ReaderEvent.handed : ReaderEvent → Option (Guid × ℤ)
  | onData w ch => some (w, ch.sequenceNumber)
  | onEoc w ch => some (w, ch.sequenceNumber)
  | onSampleLost _ => none
  | ready _ _ => none
  | send _ _ => none

/-- The numbers handed over for writer `g`, in order. -/
def handedSns (g : Guid) (log : List ReaderEvent) : List ℤ :=
  log.filterMap (fun ev => ev.handed.bind (fun p => if p.1 = g then some p.2 else none))

/-- The numbers handed over for writer `g` since the log had `k` events. -/
def handedSince (k : ℕ) (g : Guid) (core : ReaderCore) : List ℤ := handedSns g (core.log.drop k)

/-- The count of an ACKNACK or NACK_FRAG, and whether it is a NACK_FRAG. -/
def ReaderEvent.drawn : ReaderEvent → Option (Bool × Int32)
  | send _ message => message.findSome? fun
      | .ackNack _ _ _ count _ => some (false, count)
      | .nackFrag _ _ _ _ count => some (true, count)
      | _ => none
  | _ => none

/-- The counts sent, in the order they were drawn. -/
def ReaderCore.draws (core : ReaderCore) : List (Bool × Int32) :=
  core.log.filterMap ReaderEvent.drawn

/-- The counts `ds` are those drawn one after the other between `n` and `n'`. -/
def DrawsFrom : Int32 → List (Bool × Int32) → Int32 → Prop
  | n, [], n' => n' = n
  | n, d :: ds, n' => d.2 = n + 1 ∧ DrawsFrom (n + 1) ds n'

/-- `b` is `a` after handing over changes of the writers `ws` only. -/
structure Appends (ws : Set Guid) (a b : ReaderCore) : Prop where
  guid : b.guid = a.guid
  callback : b.callback = a.callback
  reliable : b.reliable = a.reliable
  log : ∃ evs, b.log = a.log ++ evs ∧
    ∀ ev ∈ evs, ∀ g sn, ev.handed = some (g, sn) → g ∈ ws
  draws : ∃ ds, b.draws = a.draws ++ ds ∧ DrawsFrom a.ackCount ds b.ackCount

theorem DrawsFrom.append : ∀ {n n' n'' : Int32} {ds ds' : List (Bool × Int32)},
    DrawsFrom n ds n' → DrawsFrom n' ds' n'' → DrawsFrom n (ds ++ ds') n''
  | _, _, _, [], _, h, h' => h ▸ h'
  | _, _, _, _ :: _, _, h, h' => ⟨h.1, h.2.append h'⟩

theorem DrawsFrom.getElem : ∀ {n n' : Int32} {ds : List (Bool × Int32)}, DrawsFrom n ds n' →
    ∀ {i : ℕ} {d : Bool × Int32}, ds[i]? = some d → d.2 = n + Int32.ofNat (i + 1)
  | n, _, d :: ds, h, 0, _, hd => by
      cases hd
      exact h.1
  | n, _, d :: ds, h, i + 1, d', hd => by
      rw [h.2.getElem (i := i) hd, Int32.ofNat_add (i + 1) 1, Int32.add_comm (Int32.ofNat (i + 1)),
        ← Int32.add_assoc]
      rfl

theorem ReaderCore.draws_emit (core : ReaderCore) (ev : ReaderEvent) :
    (core.emit ev).draws = core.draws ++ ev.drawn.toList := by
  rw [draws, emit, List.filterMap_append, draws]
  cases h : ev.drawn <;> simp [h]

namespace Appends

variable {ws ws' : Set Guid} {a b c : ReaderCore}

theorem refl (ws : Set Guid) (a : ReaderCore) : Appends ws a a :=
  ⟨rfl, rfl, rfl, ⟨[], by simp, by simp⟩, [], (List.append_nil _).symm, rfl⟩

theorem trans (h₁ : Appends ws a b) (h₂ : Appends ws b c) : Appends ws a c := by
  obtain ⟨evs₁, hl₁, hw₁⟩ := h₁.log
  obtain ⟨evs₂, hl₂, hw₂⟩ := h₂.log
  obtain ⟨ds₁, hd₁, hf₁⟩ := h₁.draws
  obtain ⟨ds₂, hd₂, hf₂⟩ := h₂.draws
  refine ⟨h₂.guid.trans h₁.guid, h₂.callback.trans h₁.callback,
    h₂.reliable.trans h₁.reliable, ⟨evs₁ ++ evs₂, ?_, ?_⟩, ds₁ ++ ds₂, ?_, hf₁.append hf₂⟩
  · rw [hl₂, hl₁, List.append_assoc]
  · intro ev hm
    rcases List.mem_append.mp hm with hm | hm
    · exact hw₁ ev hm
    · exact hw₂ ev hm
  · rw [hd₂, hd₁, List.append_assoc]

theorem mono (h : Appends ws a b) (hs : ws ⊆ ws') : Appends ws' a b := by
  obtain ⟨evs, hl, hw⟩ := h.log
  exact ⟨h.guid, h.callback, h.reliable, ⟨evs, hl, fun ev hm g sn he => hs (hw ev hm g sn he)⟩,
    h.draws⟩

theorem le_length (h : Appends ws a b) : a.log.length ≤ b.log.length := by
  obtain ⟨evs, hl, -⟩ := h.log
  rw [hl, List.length_append]
  omega

theorem emit {ev : ReaderEvent} (h : ∀ g sn, ev.handed = some (g, sn) → g ∈ ws)
    (hd : ev.drawn = none) : Appends ws a (a.emit ev) := by
  refine ⟨rfl, rfl, rfl, ⟨[ev], rfl, fun ev' hm => ?_⟩, [], ?_, rfl⟩
  · cases List.mem_singleton.mp hm
    exact h
  · rw [ReaderCore.draws_emit, hd]
    rfl

/-- Draw a count and send it. -/
theorem send {locs : List Locator} {message : List BuilderCall} {isNackFrag : Bool}
    (hd : (ReaderEvent.send locs message).drawn = some (isNackFrag, a.ackCount + 1)) :
    Appends ws a (({ a with ackCount := a.ackCount + 1 } : ReaderCore).emit
      (.send locs message)) := by
  refine ⟨rfl, rfl, rfl, ⟨[_], rfl, fun ev hm g sn he => ?_⟩, [(isNackFrag, a.ackCount + 1)], ?_,
    rfl, rfl⟩
  · cases List.mem_singleton.mp hm
    cases he
  · rw [ReaderCore.draws_emit, hd]
    rfl

theorem reportLost (n : ℕ) : Appends ws a (a.reportLost n) := by
  unfold ReaderCore.reportLost
  split
  · exact emit (fun g sn he => nomatch he) rfl
  · exact refl ws a

theorem reportReady (w : Guid) (isReady : Bool) : Appends ws a (a.reportReady w isReady) := by
  unfold ReaderCore.reportReady
  split
  · exact emit (fun g sn he => nomatch he) rfl
  · exact refl ws a

theorem handOver (w : Guid) (ch : CacheChange) : Appends {w} a (a.handOver w ch) := by
  unfold ReaderCore.handOver
  split
  · split
    · refine emit (fun g sn he => ?_) rfl
      cases he
      exact rfl
    · exact refl _ a
  · -- the cache is no part of what `Appends` compares
    have hcache : Appends {w} a { a with cache := a.cache.addReaderChange ch } :=
      ⟨rfl, rfl, rfl, ⟨[], by simp, by simp⟩, [], (List.append_nil _).symm, rfl⟩
    simp only
    split
    · split
      next cached _ =>
        refine hcache.trans (emit (fun g sn he => ?_) rfl)
        cases he
        exact rfl
      · exact hcache
    · exact hcache

theorem sendAckNack (wp : WriterProxy) (locs : List Locator) (lastSn : ℤ) (final : Bool) :
    Appends ws a (Rtps.sendAckNack a wp locs lastSn final) := by
  unfold Rtps.sendAckNack
  split
  · exact refl ws a
  · exact send rfl

theorem sendNackFragLocked (wp : WriterProxy) (sn : ℤ) (entry : Option ReassemblyEntry)
    (last : ℕ) : Appends ws a (Rtps.sendNackFragLocked a wp sn entry last) := by
  unfold Rtps.sendNackFragLocked
  split
  · exact refl ws a
  · split
    · exact refl ws a
    · exact send rfl

end Appends

/-- `b` is `a` after sending and reporting: nothing is handed over, and the cache is the same. -/
structure Still (a b : ReaderCore) : Prop where
  appends : Appends ∅ a b
  cache : b.cache = a.cache
  sampleProcessor : b.sampleProcessor = a.sampleProcessor

namespace Still

variable {a b c : ReaderCore}

theorem refl (a : ReaderCore) : Still a a := ⟨.refl _ a, rfl, rfl⟩

theorem trans (h₁ : Still a b) (h₂ : Still b c) : Still a c :=
  ⟨h₁.appends.trans h₂.appends, h₂.cache.trans h₁.cache,
    h₂.sampleProcessor.trans h₁.sampleProcessor⟩

theorem reportLost (n : ℕ) : Still a (a.reportLost n) := by
  refine ⟨.reportLost n, ?_, ?_⟩ <;> (unfold ReaderCore.reportLost; split <;> rfl)

theorem reportReady (w : Guid) (isReady : Bool) : Still a (a.reportReady w isReady) := by
  refine ⟨.reportReady w isReady, ?_, ?_⟩ <;> (unfold ReaderCore.reportReady; split <;> rfl)

theorem sendAckNack (wp : WriterProxy) (locs : List Locator) (lastSn : ℤ) (final : Bool) :
    Still a (Rtps.sendAckNack a wp locs lastSn final) := by
  refine ⟨.sendAckNack wp locs lastSn final, ?_, ?_⟩ <;>
    (unfold Rtps.sendAckNack; split <;> rfl)

end Still

/-! ### The frame rule -/

variable {k : ℕ} {g : Guid} {ws : Set Guid} {a b core : ReaderCore} {wp : WriterProxy}

theorem handedSns_append (g : Guid) (l₁ l₂ : List ReaderEvent) :
    handedSns g (l₁ ++ l₂) = handedSns g l₁ ++ handedSns g l₂ :=
  List.filterMap_append

theorem handedSns_eq_nil {evs : List ReaderEvent}
    (h : ∀ ev ∈ evs, ∀ g' sn, ev.handed = some (g', sn) → g' ∈ ws) (hg : g ∉ ws) :
    handedSns g evs = [] := by
  rw [handedSns, List.filterMap_eq_nil_iff]
  intro ev hm
  cases he : ev.handed with
  | none => rfl
  | some p =>
    have hne : p.1 ≠ g := fun e => hg (e ▸ h ev hm p.1 p.2 he)
    simp [hne]

theorem handedSince_of_appends (h : Appends ws a b) (hg : g ∉ ws) (hk : k ≤ a.log.length) :
    handedSince k g b = handedSince k g a := by
  obtain ⟨evs, hl, hw⟩ := h.log
  rw [handedSince, hl, List.drop_append_of_le_length hk, handedSns_append,
    handedSns_eq_nil hw hg, List.append_nil]
  rfl

/-! ### Each operation -/

theorem deliverPendingLoop_appends : ∀ (n : ℕ) (nextSn : ℤ) (core : ReaderCore)
    (wp : WriterProxy), Appends {wp.guid} core (deliverPendingLoop n nextSn core wp).1 ∧
      (deliverPendingLoop n nextSn core wp).2.guid = wp.guid ∧
      (deliverPendingLoop n nextSn core wp).2.received = wp.received
  | 0, _, core, wp => ⟨Appends.refl _ core, rfl, rfl⟩
  | n + 1, nextSn, core, wp => by
      rw [deliverPendingLoop]
      split
      · exact deliverPendingLoop_appends n (nextSn + 1) core wp
      next ch _ =>
        obtain ⟨h₁, h₂, h₃⟩ := deliverPendingLoop_appends n (nextSn + 1)
          (core.handOver wp.guid ch) { wp with pendingChanges := _ }
        exact ⟨(Appends.handOver wp.guid ch).trans h₁, h₂, h₃⟩

theorem deliverPendingLocked_appends (core : ReaderCore) (wp : WriterProxy) (prev : ℤ) :
    Appends {wp.guid} core (deliverPendingLocked core wp prev).1 ∧
      (deliverPendingLocked core wp prev).2.guid = wp.guid ∧
      (deliverPendingLocked core wp prev).2.received = wp.received :=
  deliverPendingLoop_appends _ _ core wp

theorem deliverChangeLocked_appends (core : ReaderCore) (wp : WriterProxy) (ch : CacheChange) :
    Appends {wp.guid} core (deliverChangeLocked core wp ch).1 ∧
      (deliverChangeLocked core wp ch).2.guid = wp.guid := by
  unfold deliverChangeLocked
  split
  · exact ⟨Appends.refl _ core, rfl⟩
  next change _ =>
    simp only
    split
    · split
      · obtain ⟨h₁, h₂, -⟩ := deliverPendingLocked_appends (core.handOver wp.guid change)
          { wp with received := wp.received.insert change.sequenceNumber } change.sequenceNumber
        exact ⟨(Appends.handOver wp.guid change).trans h₁, h₂⟩
      · split
        · exact ⟨Appends.refl _ core, rfl⟩
        · exact ⟨Appends.refl _ core, rfl⟩
    · split
      · exact ⟨Appends.refl _ core, rfl⟩
      · exact ⟨Appends.handOver wp.guid change, rfl⟩

theorem handleDataLocked_appends (core : ReaderCore) (wp : WriterProxy) (ch : CacheChange) :
    Appends {wp.guid} core (handleDataLocked core wp ch).1 ∧
      (handleDataLocked core wp ch).2.guid = wp.guid := by
  unfold handleDataLocked
  split
  · exact ⟨Appends.refl _ core, rfl⟩
  · exact deliverChangeLocked_appends core wp ch

/-- What a DATA_FRAG can do: nothing, grow a reassembly, or complete one and deliver it. -/
theorem handleDataFragLocked_cases {fresh : ℕ → UInt8} {ts : RtpsTimestamp}
    {df : DataFragSubmessage} {out : ReaderCore × WriterProxy}
    (h : handleDataFragLocked core wp fresh ts df = some out) :
    out = (core, wp) ∨
      ∃ e entry, fragEntryLocked core wp fresh ts df = some (some e) ∧
        e.accept df = some entry ∧
        (entry.isComplete = false ∧ out = (core, wp.putReassembly df.writerSn entry) ∨
          entry.isComplete = true ∧
            out.1 = (deliverChangeLocked core (wp.putReassembly df.writerSn entry)
              (assembledChange wp.guid df.writerSn entry)).1 ∧
            out.2 = ((deliverChangeLocked core (wp.putReassembly df.writerSn entry)
              (assembledChange wp.guid df.writerSn entry)).2).removeReassembly df.writerSn) := by
  unfold handleDataFragLocked at h
  simp only [Option.bind_eq_bind, Option.bind_eq_some_iff] at h
  obtain ⟨e?, he, h⟩ := h
  cases e? with
  | none =>
    cases h
    exact .inl rfl
  | some e =>
    simp only [Option.bind_eq_some_iff] at h
    obtain ⟨entry, hacc, h⟩ := h
    refine .inr ⟨e, entry, he, hacc, ?_⟩
    split at h
    next hc =>
      cases h
      exact .inl ⟨by simpa using hc, rfl⟩
    next hc =>
      cases h
      exact .inr ⟨by simpa using hc, rfl, rfl⟩

/-- What marking numbers gone does, when the count of lost samples fits. -/
theorem advancePast_eq {sns : List ℤ} {out : ReaderCore × WriterProxy × ℕ}
    (h : advancePast core wp sns = some out) :
    ∃ wp₁ : WriterProxy, wp₁ = { wp with received := (markGone wp.received sns).1 } ∧
      (markGone wp.received sns).2 < 2 ^ 31 ∧ out.2.2 = (markGone wp.received sns).2 ∧
      (out.1, out.2.1) = if core.reliable
        then deliverPendingLocked core wp₁ wp.received.cumulativeAck else (core, wp₁) := by
  unfold advancePast at h
  simp only [Option.bind_eq_bind, Option.bind_eq_some_iff] at h
  obtain ⟨u, hfit, h⟩ := h
  refine ⟨_, rfl, ?_, ?_⟩
  · unfold lostFits at hfit
    split at hfit
    next hlt => exact hlt
    · cases hfit
  · cases h
    refine ⟨rfl, ?_⟩
    split <;> rfl

theorem advancePast_appends {sns : List ℤ} {out : ReaderCore × WriterProxy × ℕ}
    (h : advancePast core wp sns = some out) :
    Appends {wp.guid} core out.1 ∧ out.2.1.guid = wp.guid := by
  obtain ⟨wp₁, rfl, -, -, hout⟩ := advancePast_eq h
  obtain ⟨core', wp', lost⟩ := out
  split at hout
  · obtain ⟨h₁, h₂, -⟩ := deliverPendingLocked_appends core
      { wp with received := (markGone wp.received sns).1 } wp.received.cumulativeAck
    rw [← hout] at h₁ h₂
    exact ⟨h₁, h₂⟩
  · cases hout
    exact ⟨Appends.refl _ _, rfl⟩

/-- What a HEARTBEAT can do: nothing when it is stale, else skip what is gone and then only
send and report. -/
theorem handleHeartbeatLocked_cases {readerId : EntityId} {firstSn lastSn : ℤ} {count : Int32}
    {final : Bool} {out : ReaderCore × WriterProxy}
    (h : handleHeartbeatLocked core wp readerId firstSn lastSn count final = some out) :
    out = (core, wp) ∨
      ∃ adv, advancePast core (acceptHeartbeat core wp readerId lastSn count)
          (heartbeatGone core (acceptHeartbeat core wp readerId lastSn count) firstSn) =
            some adv ∧ out.2 = adv.2.1 ∧ Still adv.1 out.1 := by
  unfold handleHeartbeatLocked at h
  split at h
  · cases h
    exact .inl rfl
  · simp only [Option.bind_eq_bind, Option.bind_eq_some_iff] at h
    obtain ⟨⟨core₁, wp₁, lost⟩, hadv, h⟩ := h
    cases h
    refine .inr ⟨_, hadv, rfl, ?_⟩
    refine Still.trans ?_ (Still.reportLost lost)
    have hsend : Still core₁
        (if (core₁.reliable && (!final || decide (wp₁.received.cumulativeAck < lastSn))) = true
          then sendAckNackLocked core₁ wp₁ lastSn !decide (wp₁.received.cumulativeAck < lastSn)
          else core₁) := by
      split
      · exact Still.sendAckNack wp₁ wp₁.selectedLocators lastSn _
      · exact Still.refl core₁
    refine hsend.trans ?_
    simp only
    generalize (if (core₁.reliable &&
      (!final || decide (wp₁.received.cumulativeAck < lastSn))) = true
        then sendAckNackLocked core₁ wp₁ lastSn !decide (wp₁.received.cumulativeAck < lastSn)
        else core₁) = core₂
    split
    · exact Still.reportReady wp₁.guid true
    · exact Still.refl core₂

theorem handleGapLocked_cases {gapStart : ℤ} {gapList : SequenceNumberSet}
    {out : ReaderCore × WriterProxy}
    (h : handleGapLocked core wp gapStart gapList = some out) :
    ∃ adv, advancePast core wp (gapSns gapStart gapList) = some adv ∧ out.2 = adv.2.1 ∧
      Still adv.1 out.1 := by
  unfold handleGapLocked at h
  split at h
  · cases h
  · simp only [Option.bind_eq_bind, Option.bind_eq_some_iff] at h
    obtain ⟨⟨core₁, wp₁, lost⟩, hadv, h⟩ := h
    cases h
    exact ⟨_, hadv, rfl, Still.reportLost lost⟩

theorem handleHeartbeatFragLocked_appends (ws : Set Guid) (core : ReaderCore) (wp : WriterProxy)
    (sn : ℤ) (last : ℕ) (count : Int32) :
    Appends ws core (handleHeartbeatFragLocked core wp sn last count).1 ∧
      ∃ c, (handleHeartbeatFragLocked core wp sn last count).2 =
        { wp with lastHbFragCount := c } := by
  unfold handleHeartbeatFragLocked
  split
  · exact ⟨Appends.refl ws core, wp.lastHbFragCount, rfl⟩
  · simp only
    split
    · exact ⟨Appends.refl ws core, some count, rfl⟩
    · exact ⟨Appends.sendNackFragLocked _ _ _ _, some count, rfl⟩

end Zzdds.Rtps
