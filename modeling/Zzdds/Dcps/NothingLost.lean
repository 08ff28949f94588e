import Zzdds.Dcps.Receive
import Zzdds.Rtps.Reader.Delivery
import Zzdds.Rtps.Writer.Offers

/-! # Nothing is lost that the writer keeps

A writer, a reader matched with it, and any network in between: what the writer sends reaches the
reader's participant in any order, any number of times or not at all.  A number that the reader
passes over is one that the writer had given up, or one from before it served the reader
(`skipped_is_gone`). -/

namespace Zzdds.Dcps

open Zzdds.Lib Zzdds.Rtps

/-! ### What a message leads to -/

section Receive

variable {self : GuidPrefix} {ar : ActiveReader} {fresh : ℕ → UInt8} {now : ℕ → RtpsTimestamp}
  {ts : RtpsTimestamp} {st : ReceiveState} {source : GuidPrefix} {op : ReaderOp} {w : Guid} {n : ℤ}

theorem mem_receiveFrom {sms : List SubMessage} {i : ℕ}
    (h : op ∈ receiveFrom self ar fresh now i st sms) :
    ∃ sm ∈ sms, ∃ ts st, op ∈ (onSubMessage self ar fresh ts st sm).2 := by
  induction sms generalizing i st with
  | nil => cases h
  | cons sm sms ih =>
    rcases List.mem_append.mp h with h | h
    · exact ⟨sm, List.mem_cons_self, now i, st, h⟩
    · obtain ⟨sm', hsm, hop⟩ := ih h
      exact ⟨sm', List.mem_cons_of_mem _ hsm, hop⟩

/-- The submessage declares the number gone. -/
def Declares (n : ℤ) : SubMessage → Prop
  | .heartbeat hb => n < hb.firstSn
  | .gap g => g.gapStart ≤ n ∧ n < g.gapList.base ∨ g.gapList.contains n = true
  | _ => False

theorem declares_of_covers {sm : SubMessage}
    (hop : op ∈ (onSubMessage self ar fresh ts st sm).2) (hc : op.Covers w n) : Declares n sm := by
  cases sm with
  | heartbeat | gap =>
    obtain ⟨-, hop⟩ := List.mem_ite_nil_right.mp hop
    cases List.mem_singleton.mp hop
    exact hc.2
  | dataFrag | heartbeatFrag =>
    obtain ⟨-, hop⟩ := List.mem_ite_nil_right.mp hop
    cases List.mem_singleton.mp hop
    exact hc
  | data d =>
    obtain ⟨-, hop⟩ := List.mem_ite_nil_right.mp hop
    simp only [onData] at hop
    split at hop
    · obtain ⟨_, -, rfl⟩ := List.mem_map.mp hop
      exact hc
    · obtain ⟨-, hop⟩ := List.mem_ite_nil_right.mp hop
      cases List.mem_singleton.mp hop
      exact hc
  | _ => cases hop

theorem not_contains_emptySnSet {base : ℤ} {bitmap : Bitmap} :
    ¬({ emptySnSet base with bitmap := bitmap } : SequenceNumberSet).contains n = true := by
  simp [SequenceNumberSet.contains, emptySnSet]

/-- The message says that the reader is served from a later number on. -/
def Unserved (n : ℤ) : WriterMessage → Prop
  | .heartbeat startSn _ _ _ _ _ _ => n < startSn
  | _ => False

/-- What the reader takes as gone, the writer's message gives up. -/
theorem gives_up {cfg : WriterConfig} {reader : Guid} {marker : Bool} {m : WriterMessage}
    (hop : op ∈ userDataOnReceive self ar fresh now source
      ((m.calls cfg reader marker).map BuilderCall.submessage)) (hc : op.Covers w n) :
    m.Disowns n ∨ Unserved n m := by
  obtain ⟨sm, hsm, ts, st, hop⟩ := mem_receiveFrom hop
  obtain ⟨call, hcall, rfl⟩ := List.mem_map.mp hsm
  have hgone := declares_of_covers hop hc
  cases m with
  | heartbeat startSn gaps firstSn lastSn count final liveliness =>
    by_cases hserved : startSn ≤ n
    · refine .inl ⟨hserved, ?_⟩
      simp only [WriterMessage.calls, List.mem_append, List.mem_singleton, List.mem_map] at hcall
      rcases hcall with (rfl | ⟨g, hg, rfl⟩) | rfl
      · exact hgone.elim
      · exact .inr ⟨g, hg, hgone.resolve_right not_contains_emptySnSet⟩
      · exact .inl hgone
    · exact .inr (not_le.mp hserved)
  | gap sn =>
    simp only [WriterMessage.calls, List.mem_cons, List.not_mem_nil, or_false] at hcall
    rcases hcall with rfl | rfl
    · exact hgone.elim
    · obtain ⟨hle, hlt⟩ := hgone.resolve_right not_contains_emptySnSet
      exact .inl (le_antisymm (Int.lt_add_one_iff.mp hlt) hle)
  | _ =>
    -- no other message has a HEARTBEAT or a GAP in it
    cases call <;> first | exact hgone.elim | simp [WriterMessage.calls] at hcall

end Receive

/-! ### Runs -/

/-- The reader's participant reads the operation out of a message that the writer has sent it. -/
def Arrives (c : Machine) (reader : Guid) (op : ReaderOp) : Prop :=
  ∃ hidden kept locs m marker ar fresh now, .send hidden kept reader locs m ∈ c.writer.log ∧
    ar.entityId = reader.entityId ∧
    op ∈ userDataOnReceive reader.guidPrefix ar fresh now c.writer.config.guid.guidPrefix
      ((m.calls c.writer.config reader marker).map BuilderCall.submessage)

variable {config : WriterConfig} {kind : HistoryKind} {depth : ℕ} {blocks : ℕ → Bool}
  {as : List WriterAction} {c : Machine}

theorem honest_of_run (h : (Machine.init config kind depth blocks).run as = some c) :
    c.view.Honest := by
  have hinit : (Machine.init config kind depth blocks).view.Honest :=
    ⟨fun _ _ h => absurd h (Multiset.notMem_zero _),
      fun _ _ _ _ _ _ _ _ h => absurd h (Multiset.notMem_zero _),
      fun _ _ _ _ _ h => absurd h List.not_mem_nil⟩
  exact (Machine.run_inv' (I := fun s => s.Sound ∧ s.Honest)
    (fun _ _ _ hmove hi => ⟨hmove.sound hi.1, hmove.honest hi.1 hi.2⟩) as
    (Machine.init_wellPhased _ _ _ _) ⟨Machine.init_sound _ _ _ _, hinit⟩ h).2

/-- Whatever the writer does, and whatever of its messages reaches the reader and when, numbers are
handed over in increasing order, and one up to the cumulative acknowledgment that is not handed over
is one that the writer gave up in a message, with neither a sample nor a marker of that number left,
or one from before it served the reader. -/
theorem skipped_is_gone {r₀ r : StatefulReader} {m : MatchedWriter} {prematch : Option Prematch}
    {ops : List ReaderOp} (h : (Machine.init config kind depth blocks).run as = some c)
    (hrel : r₀.core.Reports) (hnew : r₀.find m.guid = none)
    (hu : ∀ op ∈ ops, op ≠ .unmatchWriter m.guid)
    (hsent : ∀ op ∈ ops, (∃ n, op.Covers m.guid n) → Arrives c r₀.core.guid op)
    (hrun : (r₀.addOrRefreshMatchedWriterWith m prematch true).run ops = some r) :
    ∃ wp, r.find m.guid = some wp ∧
      (handedSince r₀.core.log.length m.guid r.core).Pairwise (· < ·) ∧
      ∀ n, 1 ≤ n → n ≤ wp.received.cumulativeAck →
        n ∉ handedSince r₀.core.log.length m.guid r.core →
        ∃ hidden kept locs msg, .send hidden kept r₀.core.guid locs msg ∈ c.writer.log ∧
          (msg.Disowns n ∧ n ∉ kept ∨ Unserved n msg) := by
  obtain ⟨wp, hw, hd, -⟩ := run_deliversInOrder (matchWriter_delivering hrel hnew) ops r hu hrun
  have hinc := hd.increasing
  have hacc := hd.accounted
  rw [StatefulReader.find_guid hw] at hinc hacc
  refine ⟨wp, hw, hinc, fun n h1 h2 hn => ?_⟩
  rcases hacc n (ReceivedSet.mem_of_le_cumulativeAck h1 h2) with hn' | ⟨ch, hch, rfl⟩ |
    ⟨pre, op, post, r₁, r₂, rfl, -, -, hcovers, -⟩
  · exact absurd hn' hn
  · have := hd.pending ch hch h1
    omega
  · obtain ⟨hidden, kept, locs, msg, marker, ar, fresh, now, hlog, -, hop⟩ :=
      hsent op (List.mem_append_right _ List.mem_cons_self) ⟨n, hcovers⟩
    refine ⟨hidden, kept, locs, msg, hlog, (gives_up hop hcovers).imp_left fun hgone => ?_⟩
    exact ⟨hgone, fun hk => ((honest_of_run h).log _ _ _ _ _ hlog).1 n hk hgone⟩

/-- A KEEP_LAST writer that has replaced its first two samples sends a GAP before its HEARTBEAT. -/
def replacingActions : List WriterAction :=
  [.addOrRefreshMatchedReader (smallReader 2 true) (fun _ => 0) true, .write (smallSample [1]),
    .write (smallSample [2]), .write (smallSample [3]), .sendHeartbeat false false]

theorem skipped_is_gone_keepLast : ∃ c, (smallWriter .keepLast).run replacingActions = some c ∧
    ∃ hidden kept locs msg, .send hidden kept (smallGuid 2) locs msg ∈ c.writer.log ∧
      (msg.Disowns 1 ∧ 1 ∉ kept ∨ Unserved 1 msg) := by
  let msg : WriterMessage := .heartbeat 1 [(1, 3)] 3 3 5 false false
  let r₀ : StatefulReader :=
    { idleReader with core := { idleReader.core with guid := smallGuid 2 } }
  let ar : ActiveReader := { entityId := (smallGuid 2).entityId }
  let ops := userDataOnReceive (smallGuid 2).guidPrefix ar (fun _ => 0) (fun _ => ⟨0, 0⟩)
    (smallGuid 1).guidPrefix
    ((msg.calls smallConfig (smallGuid 2) false).map BuilderCall.submessage)
  obtain ⟨c, hc, hlog, hconfig⟩ : ∃ c, (smallWriter .keepLast).run replacingActions = some c ∧
      c.writer.log[7]? = some (.send [] [3] (smallGuid 2) [.shmem 0 0] msg) ∧
      c.writer.config = smallConfig := ⟨_, rfl, rfl, rfl⟩
  obtain ⟨r, hrun, hack, hnone⟩ : ∃ r, (r₀.addOrRefreshMatchedWriterWith
      { remoteWriter with guid := smallGuid 1 } none true).run ops = some r ∧
      (r.find (smallGuid 1)).map (fun wp => wp.received.cumulativeAck) = some 2 ∧
      handedSince r₀.core.log.length (smallGuid 1) r.core = [] := ⟨_, rfl, rfl, rfl⟩
  obtain ⟨wp, hw, -, hskip⟩ := skipped_is_gone hc ⟨rfl, ⟨true, true⟩, rfl, rfl⟩ rfl
    (List.forall_mem_cons.mpr ⟨by rintro ⟨⟩, List.forall_mem_cons.mpr
      ⟨by rintro ⟨⟩, fun _ h => absurd h List.not_mem_nil⟩⟩)
    (fun op hop _ => ⟨_, _, _, msg, false, ar, fun _ => 0, fun _ => ⟨0, 0⟩,
      List.mem_of_getElem? hlog, rfl, by rw [hconfig]; exact hop⟩) hrun
  rw [hw] at hack
  exact ⟨c, hc, hskip 1 le_rfl (le_of_le_of_eq one_le_two (Option.some.inj hack).symm)
    (hnone ▸ List.not_mem_nil)⟩

end Zzdds.Dcps
