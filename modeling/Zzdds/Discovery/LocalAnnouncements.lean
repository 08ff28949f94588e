import Zzdds.Lib.Run
import Zzdds.Lib.Threads

/-! # Announcing a local endpoint and disposing of it

`prepareEndpoints`, `commitAnnouncement` and the deletion of an endpoint (`participant.zig`) over
`Announcements` (`sedp.zig`), as threads that share what there is of one local endpoint.  Discovery
has started, so there is a writer; the changes written to it for the endpoint are the list
`written`.  A frame is a critical section, with the locks taken on the way to it, or a write.

Of other endpoints prepared along with this one there is whether their preparing succeeded; matching,
the endpoint's QoS and the slots reserved in the writer's history are left out.

What the source does not record is in `adopted`, the payloads in the order they took their place, and
in `begun` and `ended`, how many they were when the last commit began and when the last one ended. -/

namespace Zzdds.Discovery

open Zzdds.Lib

abbrev Payload := List UInt8

inductive EndpointChange where
  | alive (payload : Payload)
  | notAliveDisposed (payload : Payload)
deriving DecidableEq, Repr

def EndpointChange.announcement : EndpointChange → Option Payload
  | alive p => some p
  | notAliveDisposed _ => none

/-- The announcement of an endpoint being committed. -/
structure Announcing where
  count : ℕ := 1
  dispose : Bool := false
  writing : Bool := false
  again : Bool := false
deriving DecidableEq, Repr

/-- An entry of `Announcements`. -/
structure Prepared where
  payload : Option Payload
  staged : Option Payload := none
  disposal : Payload
  announced : Bool := false
deriving DecidableEq, Repr

structure LocalEndpoint where
  active : Bool := true
  announcing : Option Announcing := none
  prepared : Option Prepared := none
  /-- A thread keeps `prepare_mu`. -/
  prepareLocked : Bool := false
  written : List EndpointChange := []
  adopted : List Payload := []
  begun : ℕ := 0
  ended : ℕ := 0

inductive AnnounceFrame where
  /-- Takes `prepare_mu`, and stages the endpoint if it is active. -/
  | prepareEndpoints (payload disposal : Payload)
  | prepare (payload disposal : Payload)
  /-- The other endpoints' turn. -/
  | prepareOthers
  | adopt
  | abandon
  | endPrepare
  /-- Takes `mu`, and begins a commit if the endpoint is active. -/
  | announceProto
  | claimWrite
  | announce
  | write (payload : Payload)
  | writeAgain
  | finishAnnouncing
  | destroyProto
  | retractDeleted
  | retract
  | writeDisposal (disposal : Payload)

namespace LocalEndpoint

variable (s : LocalEndpoint)

/-- A payload takes its place. -/
def adopt (e : Prepared) (payload : Payload) : LocalEndpoint :=
  { s with prepared := some { e with payload := some payload, staged := none }
           adopted := s.adopted ++ [payload] }

/-- Run a frame; none while it waits for `prepare_mu`.  `ok` is whether the endpoint needs preparing,
whether that succeeds, and whether it does for the others. -/
def run (ok : Bool) : AnnounceFrame → Option (LocalEndpoint × List AnnounceFrame)
  | .prepareEndpoints p d =>
      if s.prepareLocked then none
      else some ({ s with prepareLocked := true },
        if s.active && ok then [.prepare p d] else [.endPrepare])
  | .prepare p d =>
      if !ok then some (s, [.endPrepare])
      else
        match s.prepared with
        | some e => some ({ s with prepared := some { e with staged := some p } }, [.prepareOthers])
        | none => some (s.adopt { payload := none, disposal := d } p, [.prepareOthers])
  | .prepareOthers => some (s, if ok then [.adopt] else [.abandon])
  | .adopt =>
      match s.prepared with
      | some ⟨payload, some staged, disposal, announced⟩ =>
          some (s.adopt ⟨payload, some staged, disposal, announced⟩ staged, [.endPrepare])
      | _ => some (s, [.endPrepare])
  | .abandon => some ({ s with prepared := s.prepared.map fun e => { e with staged := none } },
      [.endPrepare])
  | .endPrepare => some ({ s with prepareLocked := false }, [])
  | .announceProto =>
      if !s.active then some (s, [])
      else
        let a := match s.announcing with
          | some a => { a with count := a.count + 1 }
          | none => {}
        some ({ s with announcing := some a, begun := s.adopted.length }, [.claimWrite])
  | .claimWrite =>
      s.announcing.map fun a =>
        if a.writing then ({ s with announcing := some { a with again := true } }, [.finishAnnouncing])
        else ({ s with announcing := some { a with writing := true } }, [.announce])
  | .announce =>
      match s.prepared with
      | some ⟨some p, staged, disposal, _⟩ =>
          some ({ s with prepared := some ⟨none, staged, disposal, true⟩ }, [.write p])
      | _ => some (s, [.writeAgain])
  | .write p => some ({ s with written := s.written ++ [.alive p] }, [.writeAgain])
  | .writeAgain =>
      s.announcing.map fun a =>
        if a.again then ({ s with announcing := some { a with again := false } }, [.announce])
        else ({ s with announcing := some { a with writing := false } }, [.finishAnnouncing])
  | .finishAnnouncing =>
      match s.announcing with
      | none => some (s, [])
      | some a =>
          if 1 < a.count then some ({ s with announcing := some { a with count := a.count - 1 } }, [])
          else some ({ s with announcing := none, ended := s.adopted.length },
            if a.dispose then [.retractDeleted] else [])
  | .destroyProto =>
      if !s.active then some (s, [])
      else
        match s.announcing with
        | some a =>
            some ({ s with active := false, announcing := some { a with dispose := true } }, [])
        | none => some ({ s with active := false }, [.retractDeleted])
  | .retractDeleted => if s.prepareLocked then none else some (s, [.retract])
  | .retract =>
      match s.prepared with
      | none => some (s, [])
      | some e => some ({ s with prepared := none },
          if e.announced then [.writeDisposal e.disposal] else [])
  | .writeDisposal d => some ({ s with written := s.written ++ [.notAliveDisposed d] }, [])

end LocalEndpoint

/-! ### The machine -/

inductive AnnounceAction where
  | prepareEndpoints (payload disposal : Payload)
  | announceProto
  | destroyProto
  | turn (i : ℕ) (ok : Bool)

abbrev AnnounceMachine := Threads LocalEndpoint AnnounceFrame

def AnnounceMachine.step (m : AnnounceMachine) : AnnounceAction → Option AnnounceMachine
  | .prepareEndpoints p d => some (m.spawn m.shared [.prepareEndpoints p d])
  | .announceProto => some (m.spawn m.shared [.announceProto])
  | .destroyProto => some (m.spawn m.shared [.destroyProto])
  | .turn i ok => m.turn (fun s => s.run ok) i

/-! ### Where the threads are -/

/-- What is under way in a thread. -/
inductive AnnounceRole where
  /-- Keeps `prepare_mu`, the endpoint staged or not. -/
  | staging
  | preparing
  /-- Has begun a commit and not ended it, and does not write; it has not seen yet whether it is to. -/
  | claiming
  | finishing
  /-- Writes, for a commit: takes the payload, has it, or has written it. -/
  | taking
  | payload
  | checking
  /-- Is to dispose of the endpoint, not past `prepare_mu` or past it. -/
  | retracting
  | retract
  /-- Writes the disposal. -/
  | disposing
deriving DecidableEq

namespace AnnounceFrame

def roles : AnnounceFrame → List AnnounceRole
  | prepareEndpoints _ _ => []
  | prepare _ _ => [.staging]
  | prepareOthers => [.staging]
  | adopt => [.staging]
  | abandon => [.staging]
  | endPrepare => [.preparing]
  | announceProto => []
  | claimWrite => [.claiming]
  | announce => [.taking]
  | write _ => [.payload]
  | writeAgain => [.checking]
  | finishAnnouncing => [.finishing]
  | destroyProto => []
  | retractDeleted => [.retracting]
  | retract => [.retract]
  | writeDisposal _ => [.disposing]

/-- The payload about to be written. -/
def payloads : AnnounceFrame → Multiset Payload
  | write p => {p}
  | _ => 0

end AnnounceFrame

namespace LocalEndpoint

/-- What was written of an endpoint that is disposed of, but for `pending` disposals. -/
def DisposedOf (written : List EndpointChange) (pending : ℕ) : Prop :=
  ∃ announced : List EndpointChange, (∀ x ∈ announced, x.announcement.isSome) ∧
    ((announced = [] ∧ written = [] ∧ pending = 0) ∨
      (announced ≠ [] ∧ written = announced ∧ pending = 1) ∨
      (announced ≠ [] ∧ (∃ d, written = announced ++ [.notAliveDisposed d]) ∧ pending = 0))

/-- Only announcements were written, and the entry says whether there was one. -/
structure Undisposed (s : LocalEndpoint) (n : AnnounceRole → ℕ) : Prop where
  disposing : n .disposing = 0
  alive : ∀ x ∈ s.written, x.announcement.isSome
  announced : (s.written ≠ [] ∨ 0 < n .payload) ↔ s.prepared.any (·.announced)

/-- How far the endpoint's end has come. -/
inductive Phase (s : LocalEndpoint) (n : AnnounceRole → ℕ) : Prop
  | active (hactive : s.active = true) (ha : ∀ a, s.announcing = some a → a.dispose = false)
      (hret : n .retracting + n .retract = 0) (hopen : s.Undisposed n)
  /-- Deleted; the commit under way is to dispose of it. -/
  | handedOff (hactive : s.active = false) (a : Announcing) (ha : s.announcing = some a)
      (hdispose : a.dispose = true) (hret : n .retracting + n .retract = 0) (hopen : s.Undisposed n)
  | retracting (hactive : s.active = false) (ha : s.announcing = none) (hret : n .retracting + n .retract = 1)
      (hopen : s.Undisposed n)
  | gone (hactive : s.active = false) (ha : s.announcing = none) (hret : n .retracting + n .retract = 0)
      (hprepared : s.prepared = none) (hstaging : n .staging = 0)
      (hwritten : DisposedOf s.written (n .disposing))

/-- The locks and counts, with as many threads as there are in each role. -/
structure Tallied (s : LocalEndpoint) (n : AnnounceRole → ℕ) : Prop where
  count : n .claiming + n .finishing + n .taking + n .payload + n .checking =
    (s.announcing.map (·.count)).getD 0
  positive : ∀ a, s.announcing = some a → 0 < a.count
  writing : n .taking + n .payload + n .checking = if s.announcing.any (·.writing) then 1 else 0
  again : ∀ a, s.announcing = some a → a.again → a.writing
  prepareLocked : n .staging + n .preparing = if s.prepareLocked then 1 else 0
  quiet : 0 < n .retract → n .staging = 0

variable {s s' : LocalEndpoint} {n n' : AnnounceRole → ℕ}

theorem Undisposed.congr (h : s.Undisposed n) (hd : n' .disposing = n .disposing)
    (hp : n' .payload = n .payload) (hw : s'.written = s.written)
    (ha : s'.prepared.any (·.announced) = s.prepared.any (·.announced)) : s'.Undisposed n' where
  disposing := hd.trans h.disposing
  alive := hw ▸ h.alive
  announced := by rw [hw, hp, ha]; exact h.announced

/-- A step that is not about the endpoint's end. -/
theorem Phase.congr (h : s.Phase n) (hactive : s'.active = s.active)
    (hdispose : s'.announcing.map (·.dispose) = s.announcing.map (·.dispose))
    (hret : n' .retracting + n' .retract = n .retracting + n .retract) (hd : n' .disposing = n .disposing)
    (hp : n' .payload = n .payload) (hw : s'.written = s.written)
    (ha : s'.prepared.any (·.announced) = s.prepared.any (·.announced))
    (hgone : s.active = false → s.prepared = none → n .staging = 0 →
      s'.prepared = none ∧ n' .staging = 0) :
    s'.Phase n' := by
  have none_of : s.announcing = none → s'.announcing = none := by
    intro h
    rw [h] at hdispose
    exact Option.map_eq_none_iff.mp hdispose
  cases h with
  | active hact hann hr ho =>
    refine .active (hactive.trans hact) (fun a h => ?_) (hret.trans hr) (ho.congr hd hp hw ha)
    rw [h, Option.map_some, eq_comm, Option.map_eq_some_iff] at hdispose
    obtain ⟨a₀, ha₀, hda⟩ := hdispose
    exact hda ▸ hann a₀ ha₀
  | handedOff hact a hann hdis hr ho =>
    rw [hann, Option.map_some, Option.map_eq_some_iff] at hdispose
    obtain ⟨a', ha', hda⟩ := hdispose
    exact .handedOff (hactive.trans hact) a' ha' (hda.trans hdis) (hret.trans hr)
      (ho.congr hd hp hw ha)
  | retracting hact hann hr ho =>
    exact .retracting (hactive.trans hact) (none_of hann) (hret.trans hr) (ho.congr hd hp hw ha)
  | gone hact hann hr hprep hst hwr =>
    obtain ⟨hprep', hst'⟩ := hgone hact hprep hst
    refine .gone (hactive.trans hact) (none_of hann) (hret.trans hr) hprep' hst' ?_
    rw [hw, hd]
    exact hwr

variable {f : AnnounceFrame} {new : List AnnounceFrame} {ok : Bool}

theorem Phase.retracting_le (h : s.Phase n) : n .retracting + n .retract ≤ if s.active then 0 else 1 := by
  cases h with
  | active h _ hr _ => simp [h, hr]
  | handedOff h _ _ _ hr _ => simp [h, hr]
  | retracting h _ hr _ => simp [h, hr]
  | gone h _ hr _ _ _ => simp [h, hr]

/-- A step that leaves the locks and the commits as they are. -/
theorem Tallied.congr (h : s.Tallied n) (ha : s'.announcing = s.announcing)
    (hl : s'.prepareLocked = s.prepareLocked)
    (hwaiting : n' .claiming + n' .finishing = n .claiming + n .finishing)
    (hwriting : n' .taking + n' .payload + n' .checking = n .taking + n .payload + n .checking)
    (hprepare : n' .staging + n' .preparing = n .staging + n .preparing)
    (hquiet : 0 < n' .retract → n' .staging = 0) : s'.Tallied n' where
  count := by
    have hcount := h.count
    rw [ha]
    omega
  positive := ha ▸ h.positive
  writing := hwriting.trans (ha ▸ h.writing)
  again := ha ▸ h.again
  prepareLocked := hprepare.trans (hl ▸ h.prepareLocked)
  quiet := hquiet

/-- A step of a commit that has an entry. -/
theorem Tallied.commit (h : s.Tallied n) {a' : Announcing} (ha : s'.announcing = some a')
    (hl : s'.prepareLocked = s.prepareLocked) (hpos : 0 < a'.count)
    (hcount : n' .claiming + n' .finishing + n' .taking + n' .payload + n' .checking = a'.count)
    (hwriting : n' .taking + n' .payload + n' .checking = if a'.writing then 1 else 0)
    (hagain : a'.again → a'.writing) (hstaging : n' .staging = n .staging)
    (hpreparing : n' .preparing = n .preparing) (hretract : n' .retract = n .retract) :
    s'.Tallied n' where
  count := by
    rw [ha]
    exact hcount
  positive := by
    intro b hb
    cases ha.symm.trans hb
    exact hpos
  writing := by
    rw [ha]
    exact hwriting
  again := by
    intro b hb
    cases ha.symm.trans hb
    exact hagain
  prepareLocked := by rw [hstaging, hpreparing, hl]; exact h.prepareLocked
  quiet := by rw [hretract, hstaging]; exact h.quiet

theorem Tallied.run (h : s.Tallied fun r => f.roles.count r + n r)
    (hphase : s.Phase fun r => f.roles.count r + n r) (hrun : s.run ok f = some (s', new)) :
    s'.Tallied fun r => (new.map fun f => f.roles.count r).sum + n r := by
  cases f with
  | prepareEndpoints p d =>
    simp only [LocalEndpoint.run] at hrun
    split at hrun
    · cases hrun
    next hfree =>
    cases hrun
    have hlocked := h.prepareLocked
    rw [if_neg hfree] at hlocked
    simp only [AnnounceFrame.roles, List.count_nil, zero_add] at hlocked
    have hle := hphase.retracting_le
    split
    next hact =>
      rw [if_pos (Bool.and_eq_true_iff.mp hact).1] at hle
      simp only [AnnounceFrame.roles, List.count_nil, zero_add] at hle
      refine ⟨h.count, h.positive, h.writing, h.again, ?_, ?_⟩
      · simp [AnnounceFrame.roles]
        omega
      · simp [AnnounceFrame.roles]
        omega
    next =>
      refine ⟨h.count, h.positive, h.writing, h.again, ?_, h.quiet⟩
      simp [AnnounceFrame.roles]
      omega
  | prepare p d =>
    have hretract : ∀ g : AnnounceFrame, g.roles.count .retract = 0 → g.roles.count .staging ≤ 1 →
        0 < g.roles.count .retract + n .retract → g.roles.count .staging + n .staging = 0 := by
      intro g hg _ hpos
      have hquiet := h.quiet
      simp [AnnounceFrame.roles] at hquiet
      omega
    simp only [LocalEndpoint.run] at hrun
    split at hrun
    · cases hrun
      refine h.congr rfl rfl rfl rfl ?_ (hretract .endPrepare rfl (Nat.zero_le 1))
      simp [AnnounceFrame.roles]
      omega
    split at hrun
    all_goals
      cases hrun
      exact h.congr rfl rfl rfl rfl rfl h.quiet
  | prepareOthers =>
    cases hrun
    cases ok
    all_goals exact h.congr rfl rfl rfl rfl rfl h.quiet
  | adopt =>
    have hquiet := h.quiet
    simp only [LocalEndpoint.run] at hrun
    split at hrun
    all_goals
      cases hrun
      refine h.congr rfl rfl rfl rfl ?_ ?_
      · simp [AnnounceFrame.roles]
        omega
      · simp [AnnounceFrame.roles] at hquiet ⊢
        omega
  | abandon =>
    have hquiet := h.quiet
    cases hrun
    refine h.congr rfl rfl rfl rfl ?_ ?_
    · simp [AnnounceFrame.roles]
      omega
    · simp [AnnounceFrame.roles] at hquiet ⊢
      omega
  | endPrepare =>
    cases hrun
    have hlocked := h.prepareLocked
    refine ⟨h.count, h.positive, h.writing, h.again, ?_, h.quiet⟩
    simp [AnnounceFrame.roles] at hlocked ⊢
    split at hlocked
    · omega
    · omega
  | announceProto =>
    simp only [LocalEndpoint.run] at hrun
    split at hrun
    · cases hrun
      exact h.congr rfl rfl rfl rfl rfl h.quiet
    have hcount := h.count
    have hwriting := h.writing
    cases hann : s.announcing with
    | none =>
      rw [hann] at hcount hwriting hrun
      cases hrun
      refine h.commit rfl rfl Nat.one_pos ?_ ?_ (fun hagain => by cases hagain) rfl rfl rfl
      all_goals
        simp [AnnounceFrame.roles] at hcount hwriting ⊢
        omega
    | some a =>
      rw [hann] at hcount hwriting hrun
      cases hrun
      refine h.commit rfl rfl (Nat.succ_pos _) ?_ hwriting (h.again a hann) rfl rfl rfl
      simp [AnnounceFrame.roles] at hcount ⊢
      omega
  | claimWrite =>
    simp only [LocalEndpoint.run] at hrun
    obtain ⟨a, ha, hrun⟩ := Option.map_eq_some_iff.mp hrun
    have hcount := h.count
    have hwriting := h.writing
    rw [ha] at hcount hwriting
    split at hrun
    next hw =>
      cases hrun
      refine h.commit rfl rfl (h.positive a ha) ?_ hwriting (fun _ => hw) rfl rfl rfl
      simp [AnnounceFrame.roles] at hcount ⊢
      omega
    next hw =>
      cases hrun
      refine h.commit rfl rfl (h.positive a ha) ?_ ?_ (fun _ => rfl) rfl rfl rfl
      all_goals
        simp [AnnounceFrame.roles, hw] at hcount hwriting ⊢
        omega
  | announce =>
    simp only [LocalEndpoint.run] at hrun
    split at hrun
    all_goals
      cases hrun
      refine h.congr rfl rfl rfl ?_ rfl h.quiet
      simp [AnnounceFrame.roles]
      omega
  | write p =>
    cases hrun
    refine h.congr rfl rfl rfl ?_ rfl h.quiet
    simp [AnnounceFrame.roles]
    omega
  | writeAgain =>
    simp only [LocalEndpoint.run] at hrun
    obtain ⟨a, ha, hrun⟩ := Option.map_eq_some_iff.mp hrun
    have hcount := h.count
    have hwriting := h.writing
    rw [ha] at hcount hwriting
    split at hrun
    next =>
      cases hrun
      refine h.commit rfl rfl (h.positive a ha) ?_ ?_ (fun hagain => by cases hagain) rfl rfl rfl
      all_goals
        simp [AnnounceFrame.roles] at hcount hwriting ⊢
        omega
    next hagain =>
      cases hrun
      refine h.commit rfl rfl (h.positive a ha) ?_ ?_ (fun h => absurd h hagain) rfl rfl rfl
      · simp [AnnounceFrame.roles] at hcount ⊢
        omega
      · simp [AnnounceFrame.roles] at hwriting ⊢
        split at hwriting
        · omega
        · omega
  | finishAnnouncing =>
    have hcount := h.count
    have hwriting := h.writing
    simp only [LocalEndpoint.run] at hrun
    split at hrun
    next hnone =>
      rw [hnone] at hcount
      simp [AnnounceFrame.roles] at hcount
    next a ha =>
    rw [ha] at hcount hwriting
    split at hrun
    next hmore =>
      cases hrun
      refine h.commit rfl rfl (Nat.sub_pos_of_lt hmore) ?_ hwriting (h.again a ha) rfl rfl rfl
      simp [AnnounceFrame.roles] at hcount ⊢
      omega
    next hlast =>
      cases hrun
      have hpos := h.positive a ha
      simp [AnnounceFrame.roles] at hcount hwriting
      have hgone : ∀ b, (none : Option Announcing) = some b → False := by
        intro b hb
        cases hb
      refine ⟨?_, fun b hb => (hgone b hb).elim, ?_, fun b hb => (hgone b hb).elim, ?_, ?_⟩
      · split
        all_goals
          simp [AnnounceFrame.roles]
          omega
      · split
        all_goals
          simp [AnnounceFrame.roles]
          omega
      · split
        all_goals exact h.prepareLocked
      · split
        all_goals exact h.quiet
  | destroyProto =>
    simp only [LocalEndpoint.run] at hrun
    split at hrun
    · cases hrun
      exact h.congr rfl rfl rfl rfl rfl h.quiet
    split at hrun
    next a ha =>
      cases hrun
      have hcount := h.count
      have hwriting := h.writing
      rw [ha] at hcount hwriting
      exact h.commit rfl rfl (h.positive a ha) hcount hwriting (h.again a ha) rfl rfl rfl
    next =>
      cases hrun
      exact h.congr rfl rfl rfl rfl rfl h.quiet
  | retractDeleted =>
    have hlocked := h.prepareLocked
    simp only [LocalEndpoint.run] at hrun
    split at hrun
    · cases hrun
    next hfree =>
    cases hrun
    rw [if_neg hfree] at hlocked
    refine h.congr rfl rfl rfl rfl rfl fun _ => ?_
    simp [AnnounceFrame.roles] at hlocked ⊢
    omega
  | retract =>
    have hquiet := h.quiet (Nat.add_pos_left Nat.one_pos _)
    simp only [LocalEndpoint.run] at hrun
    split at hrun
    next =>
      cases hrun
      exact h.congr rfl rfl rfl rfl rfl fun _ => hquiet
    next e _ =>
      cases hrun
      cases e.announced
      all_goals exact h.congr rfl rfl rfl rfl rfl fun _ => hquiet
  | writeDisposal d =>
    cases hrun
    exact h.congr rfl rfl rfl rfl rfl h.quiet

/-- A thread that commits finds the entry of its commit. -/
theorem Phase.committing {P : Prop} (h : s.Phase n) (ha : s.announcing ≠ none)
    (hactive : ∀ (_ : s.active = true) (_ : ∀ a, s.announcing = some a → a.dispose = false)
      (_ : n .retracting + n .retract = 0) (_ : s.Undisposed n), P)
    (hhanded : ∀ (_ : s.active = false) (a : Announcing) (_ : s.announcing = some a)
      (_ : a.dispose = true) (_ : n .retracting + n .retract = 0) (_ : s.Undisposed n), P) : P := by
  cases h with
  | active hact hann hr ho => exact hactive hact hann hr ho
  | handedOff hact a hann hd hr ho => exact hhanded hact a hann hd hr ho
  | retracting _ hann _ _ => exact absurd hann ha
  | gone _ hann _ _ _ _ => exact absurd hann ha

theorem Phase.run (h : s.Phase fun r => f.roles.count r + n r)
    (ht : s.Tallied fun r => f.roles.count r + n r) (hrun : s.run ok f = some (s', new)) :
    s'.Phase fun r => (new.map fun f => f.roles.count r).sum + n r := by
  cases f with
  | prepareEndpoints p d =>
    simp only [LocalEndpoint.run] at hrun
    split at hrun
    · cases hrun
    cases hrun
    refine h.congr rfl rfl ?_ ?_ ?_ rfl rfl fun hact hprep hst => ⟨hprep, ?_⟩
    · split <;> rfl
    · split <;> rfl
    · split <;> rfl
    · rw [hact]
      exact hst
  | prepare p d =>
    have hstaged : ∀ m, List.count AnnounceRole.staging [AnnounceRole.staging] + m ≠ 0 := by
      intro m
      simp
    simp only [LocalEndpoint.run] at hrun
    split at hrun
    · cases hrun
      exact h.congr rfl rfl rfl rfl rfl rfl rfl fun _ _ hst => absurd hst (hstaged _)
    split at hrun
    next e he =>
      cases hrun
      exact h.congr rfl rfl rfl rfl rfl rfl (by rw [he]; rfl) fun _ _ hst => absurd hst (hstaged _)
    next he =>
      cases hrun
      exact h.congr rfl rfl rfl rfl rfl rfl (by rw [he]; rfl) fun _ _ hst => absurd hst (hstaged _)
  | prepareOthers =>
    cases hrun
    cases ok <;> exact h.congr rfl rfl rfl rfl rfl rfl rfl fun _ hp hst => ⟨hp, hst⟩
  | adopt =>
    simp only [LocalEndpoint.run] at hrun
    split at hrun
    next he =>
      cases hrun
      refine h.congr rfl rfl rfl rfl rfl rfl (by rw [he]; rfl) fun _ hp _ => ?_
      rw [he] at hp
      cases hp
    next =>
      cases hrun
      refine h.congr rfl rfl rfl rfl rfl rfl rfl fun _ hp hst => ⟨hp, ?_⟩
      exact absurd hst (by simp [AnnounceFrame.roles])
  | abandon =>
    cases hrun
    refine h.congr rfl rfl rfl rfl rfl rfl ?_ fun _ _ hst => ?_
    · cases s.prepared <;> rfl
    · exact absurd hst (by simp [AnnounceFrame.roles])
  | endPrepare =>
    cases hrun
    exact h.congr rfl rfl rfl rfl rfl rfl rfl fun _ hp hst => ⟨hp, hst⟩
  | announceProto =>
    simp only [LocalEndpoint.run] at hrun
    split at hrun
    next =>
      cases hrun
      exact h.congr rfl rfl rfl rfl rfl rfl rfl fun _ hp hst => ⟨hp, hst⟩
    next hact =>
      cases hrun
      cases h with
      | active hact hann hr ho =>
        refine .active hact ?_ hr (ho.congr rfl rfl rfl rfl)
        rintro a ha
        cases ha
        split
        next a ha => exact hann a ha
        next => rfl
      | handedOff hact' _ _ _ _ _ => rw [hact'] at hact; exact absurd rfl hact
      | retracting hact' _ _ _ => rw [hact'] at hact; exact absurd rfl hact
      | gone hact' _ _ _ _ _ => rw [hact'] at hact; exact absurd rfl hact
  | claimWrite =>
    simp only [LocalEndpoint.run] at hrun
    obtain ⟨a, ha, hrun⟩ := Option.map_eq_some_iff.mp hrun
    split at hrun
    all_goals
      cases hrun
      exact h.congr rfl (by rw [ha]; rfl) rfl rfl rfl rfl rfl fun _ hp hst => ⟨hp, hst⟩
  | announce =>
    have hcommit : s.announcing ≠ none := by
      intro hnone
      have hcount := ht.count
      rw [hnone] at hcount
      simp [AnnounceFrame.roles] at hcount
    simp only [LocalEndpoint.run] at hrun
    split at hrun
    next p st d an he =>
      cases hrun
      have hopen : s.Undisposed (fun r => List.count r (AnnounceFrame.announce).roles + n r) →
          Undisposed { s with prepared := some ⟨none, st, d, true⟩ }
            fun r => List.count r (AnnounceFrame.write p).roles + n r := fun ho =>
        ⟨ho.disposing, ho.alive, iff_of_true (Or.inr (Nat.add_pos_left Nat.one_pos _)) rfl⟩
      refine h.committing hcommit (fun hact hann hr ho => ?_) fun hact a ha hd hr ho => ?_
      · exact .active hact hann hr (hopen ho)
      · exact .handedOff hact a ha hd hr (hopen ho)
    next =>
      cases hrun
      exact h.congr rfl rfl rfl rfl rfl rfl rfl fun _ hp hst => ⟨hp, hst⟩
  | write p =>
    have hcommit : s.announcing ≠ none := by
      intro hnone
      have hcount := ht.count
      rw [hnone] at hcount
      simp [AnnounceFrame.roles] at hcount
    cases hrun
    have hopen : s.Undisposed (fun r => List.count r (AnnounceFrame.write p).roles + n r) →
        Undisposed { s with written := s.written ++ [.alive p] }
          fun r => List.count r AnnounceFrame.writeAgain.roles + n r := by
      intro ho
      refine ⟨ho.disposing, fun x hx => ?_, iff_of_true (Or.inl (by simp)) ?_⟩
      · rcases List.mem_append.mp hx with hx | hx
        · exact ho.alive x hx
        · cases List.mem_singleton.mp hx
          rfl
      · exact ho.announced.mp (Or.inr (Nat.add_pos_left Nat.one_pos _))
    refine h.committing hcommit (fun hact hann hr ho => ?_) fun hact a ha hd hr ho => ?_
    · exact .active hact hann hr (hopen ho)
    · exact .handedOff hact a ha hd hr (hopen ho)
  | writeAgain =>
    simp only [LocalEndpoint.run] at hrun
    obtain ⟨a, ha, hrun⟩ := Option.map_eq_some_iff.mp hrun
    split at hrun
    all_goals
      cases hrun
      exact h.congr rfl (by rw [ha]; rfl) rfl rfl rfl rfl rfl fun _ hp hst => ⟨hp, hst⟩
  | finishAnnouncing =>
    simp only [LocalEndpoint.run] at hrun
    split at hrun
    next =>
      cases hrun
      exact h.congr rfl rfl rfl rfl rfl rfl rfl fun _ hp hst => ⟨hp, hst⟩
    next a ha =>
    split at hrun
    next =>
      cases hrun
      exact h.congr rfl (by rw [ha]; rfl) rfl rfl rfl rfl rfl fun _ hp hst => ⟨hp, hst⟩
    next =>
      cases hrun
      have hcommit : s.announcing ≠ none := by
        rw [ha]
        exact Option.some_ne_none a
      refine h.committing hcommit (fun hact hann hr ho => ?_) fun hact a' ha' hd hr ho => ?_
      · rw [hann a ha]
        exact .active hact (fun _ h => by cases h) hr (ho.congr rfl rfl rfl rfl)
      · cases ha.symm.trans ha'
        rw [hd]
        refine .retracting hact rfl ?_ (ho.congr rfl rfl rfl rfl)
        simp [AnnounceFrame.roles] at hr ⊢
        omega
  | destroyProto =>
    simp only [LocalEndpoint.run] at hrun
    split at hrun
    next =>
      cases hrun
      exact h.congr rfl rfl rfl rfl rfl rfl rfl fun _ hp hst => ⟨hp, hst⟩
    next hact =>
    cases h with
    | handedOff hact' _ _ _ _ _ => rw [hact'] at hact; exact absurd rfl hact
    | retracting hact' _ _ _ => rw [hact'] at hact; exact absurd rfl hact
    | gone hact' _ _ _ _ _ => rw [hact'] at hact; exact absurd rfl hact
    | active _ hann hr ho =>
    split at hrun
    next a ha =>
      cases hrun
      exact .handedOff rfl _ rfl rfl hr (ho.congr rfl rfl rfl rfl)
    next ha =>
      cases hrun
      refine .retracting rfl ha ?_ (ho.congr rfl rfl rfl rfl)
      simp [AnnounceFrame.roles] at hr ⊢
      omega
  | retractDeleted =>
    simp only [LocalEndpoint.run] at hrun
    split at hrun
    · cases hrun
    cases hrun
    refine h.congr rfl rfl ?_ rfl rfl rfl rfl fun _ hp hst => ⟨hp, hst⟩
    simp [AnnounceFrame.roles]
    omega
  | retract =>
    have hstaging : n .staging = 0 := by
      have hquiet := ht.quiet (Nat.add_pos_left Nat.one_pos _)
      simpa [AnnounceFrame.roles] using hquiet
    simp only [LocalEndpoint.run] at hrun
    cases h with
    | active _ _ hr _ => simp [AnnounceFrame.roles] at hr
    | handedOff _ _ _ _ hr _ => simp [AnnounceFrame.roles] at hr
    | gone _ _ hr _ _ _ => simp [AnnounceFrame.roles] at hr
    | retracting hact ha hr ho =>
    have hr' : n .retracting + n .retract = 0 := by
      simp [AnnounceFrame.roles] at hr ⊢
      omega
    have hwritten : ¬ s.prepared.any (·.announced) → s.written = [] := by
      intro hne
      by_contra hw
      exact hne (ho.announced.mp (Or.inl hw))
    have hdisposing : n .disposing = 0 := by
      simpa [AnnounceFrame.roles] using ho.disposing
    split at hrun
    next he =>
      cases hrun
      refine .gone hact ha (by simpa using hr') he (by simpa using hstaging) ⟨[], by simp, Or.inl ?_⟩
      exact ⟨rfl, hwritten (by rw [he]; exact Bool.false_ne_true), by simpa using hdisposing⟩
    next e he =>
      cases hrun
      split
      next hann =>
        have hne : s.written ≠ [] := by
          refine (ho.announced.mpr (by rw [he]; exact hann)).resolve_right ?_
          have hcount := ht.count
          rw [ha] at hcount
          simp [AnnounceFrame.roles] at hcount ⊢
          omega
        refine .gone hact ha ?_ rfl ?_ ⟨s.written, ho.alive, Or.inr (Or.inl ⟨hne, rfl, ?_⟩)⟩
        · simpa [AnnounceFrame.roles] using hr'
        · simpa [AnnounceFrame.roles] using hstaging
        · simpa [AnnounceFrame.roles] using hdisposing
      next hann =>
        refine .gone hact ha (by simpa using hr') rfl (by simpa using hstaging)
          ⟨[], by simp, Or.inl ?_⟩
        exact ⟨rfl, hwritten (by rw [he]; exact hann), by simpa using hdisposing⟩
  | writeDisposal d =>
    cases hrun
    cases h with
    | active _ _ _ ho => simpa [AnnounceFrame.roles] using ho.disposing
    | handedOff _ _ _ _ _ ho => simpa [AnnounceFrame.roles] using ho.disposing
    | retracting _ _ _ ho => simpa [AnnounceFrame.roles] using ho.disposing
    | gone hact ha hr hprep hst hw =>
    refine .gone hact ha (by simpa [AnnounceFrame.roles] using hr) hprep
      (by simpa [AnnounceFrame.roles] using hst) ?_
    obtain ⟨anns, halive, ⟨_, _, hn⟩ | ⟨hne, hw, hn⟩ | ⟨_, _, hn⟩⟩ := hw
    · simp [AnnounceFrame.roles] at hn
    · refine ⟨anns, halive, Or.inr (Or.inr ⟨hne, ⟨d, by rw [← hw]⟩, ?_⟩)⟩
      simpa [AnnounceFrame.roles] using hn
    · simp [AnnounceFrame.roles] at hn

/-! ### The newest announcement -/

def lastAnnouncement (written : List EndpointChange) : Option Payload :=
  (written.filterMap EndpointChange.announcement).getLast?

/-- `t` is how many payloads had been adopted when the last one was taken to be written; `P` is the
one being written. -/
structure Newest (s : LocalEndpoint) (n : AnnounceRole → ℕ) (P : Multiset Payload) (t : ℕ) :
    Prop where
  le : t ≤ s.adopted.length
  current : (P = 0 ∧ lastAnnouncement s.written = (s.adopted.take t).getLast?) ∨
    ∃ p, P = {p} ∧ (s.adopted.take t).getLast? = some p
  waiting : ∀ x, s.prepared.map (·.payload) = some (some x) → s.adopted.getLast? = some x
  taken : s.prepared.map (·.payload) = some none → t = s.adopted.length
  unprepared : s.active ∨ s.announcing ≠ none → s.prepared.map (·.payload) = none → s.adopted = []
  /-- What was adopted when the last commit began has been taken, or will be. -/
  due : s.begun ≤ t ∨ 0 < n .claiming ∨ 0 < n .taking ∨ s.announcing.any (·.again)
  begun : s.begun ≤ s.adopted.length
  ended : s.announcing = none → t ≤ s.ended
  ended_le : s.ended ≤ s.adopted.length

variable {P : Multiset Payload} {t : ℕ}

/-- A step that neither adopts a payload nor takes one. -/
theorem Newest.congr (h : s.Newest n P t) (hactive : s'.active → s.active)
    (hann : s'.announcing = none ↔ s.announcing = none)
    (hprepared : s'.prepared.map (·.payload) = s.prepared.map (·.payload))
    (hwritten : lastAnnouncement s'.written = lastAnnouncement s.written)
    (hadopted : s'.adopted = s.adopted) (hbegun : s'.begun = s.begun) (hended : s'.ended = s.ended)
    (hdue : 0 < n .claiming ∨ 0 < n .taking ∨ s.announcing.any (·.again) →
      0 < n' .claiming ∨ 0 < n' .taking ∨ s'.announcing.any (·.again)) : s'.Newest n' P t where
  le := hadopted ▸ h.le
  current := by rw [hwritten, hadopted]; exact h.current
  waiting := by rw [hprepared, hadopted]; exact h.waiting
  taken := by rw [hprepared, hadopted]; exact h.taken
  unprepared := by
    rw [hprepared, hadopted]
    exact fun hor => h.unprepared (hor.imp hactive fun hne hnone => hne (hann.mpr hnone))
  due := hbegun ▸ h.due.imp id hdue
  begun := by rw [hbegun, hadopted]; exact h.begun
  ended := by rw [hended]; exact fun hnone => h.ended (hann.mp hnone)
  ended_le := by rw [hended, hadopted]; exact h.ended_le

/-- A payload is adopted. -/
theorem Newest.adopt (h : s.Newest n P t) (e : Prepared) (x : Payload)
    (hdue : 0 < n .claiming ∨ 0 < n .taking ∨ s.announcing.any (·.again) →
      0 < n' .claiming ∨ 0 < n' .taking ∨ s.announcing.any (·.again)) :
    (s.adopt e x).Newest n' P t := by
  have htake : (s.adopt e x).adopted.take t = s.adopted.take t := List.take_append_of_le_length h.le
  have hlen : (s.adopt e x).adopted.length = s.adopted.length + 1 := List.length_append
  refine ⟨?_, ?_, ?_, ?_, ?_, h.due.imp id hdue, ?_, h.ended, ?_⟩
  · exact hlen ▸ h.le.trans (Nat.le_succ _)
  · rw [htake]
    exact h.current
  · intro y hy
    cases hy
    exact List.getLast?_concat
  · intro hy
    cases hy
  · intro _ hy
    cases hy
  · exact hlen ▸ h.begun.trans (Nat.le_succ _)
  · exact hlen ▸ h.ended_le.trans (Nat.le_succ _)

/-- The payload waiting is taken: it is the one adopted last. -/
theorem Newest.take (h : s.Newest n 0 t) {x : Payload} {st : Option Payload} {d : Payload} {an : Bool}
    (he : s.prepared = some ⟨some x, st, d, an⟩) (hcommit : s.announcing ≠ none) :
    Newest { s with prepared := some ⟨none, st, d, true⟩ } n' {x} s.adopted.length where
  le := le_rfl
  current := by
    refine Or.inr ⟨x, rfl, ?_⟩
    rw [List.take_length]
    exact h.waiting x (by rw [he]; rfl)
  waiting := by
    intro y hy
    cases hy
  taken := fun _ => rfl
  unprepared := by
    intro _ hy
    cases hy
  due := Or.inl h.begun
  begun := h.begun
  ended := fun hnone => absurd hnone hcommit
  ended_le := h.ended_le

/-- Nothing waits to be taken. -/
theorem Newest.caught_up (h : s.Newest n P t) (hcommit : s.announcing ≠ none)
    (hnone : ∀ x, s.prepared.map (·.payload) ≠ some (some x)) : s.adopted.length = t := by
  rcases hp : s.prepared.map (·.payload) with _ | ⟨_ | x⟩
  · have hempty := h.unprepared (Or.inr hcommit) hp
    have hle := h.le
    rw [hempty] at hle ⊢
    exact (Nat.le_zero.mp hle).symm
  · exact (h.taken hp).symm
  · exact absurd hp (hnone x)

theorem Newest.run {Q : Multiset Payload}
    (h : s.Newest (fun r => f.roles.count r + n r) (f.payloads + Q) t)
    (hphase : s.Phase fun r => f.roles.count r + n r)
    (ht : s.Tallied fun r => f.roles.count r + n r) (hQ : Q.card = n .payload)
    (hrun : s.run ok f = some (s', new)) :
    ∃ t', s'.Newest (fun r => (new.map fun f => f.roles.count r).sum + n r)
      ((new.map AnnounceFrame.payloads).sum + Q) t' := by
  cases f with
  | prepareEndpoints p d =>
    simp only [LocalEndpoint.run] at hrun
    split at hrun
    · cases hrun
    cases hrun
    refine ⟨t, ?_⟩
    split
    all_goals exact h.congr id Iff.rfl rfl rfl rfl rfl rfl id
  | prepare p d =>
    simp only [LocalEndpoint.run] at hrun
    split at hrun
    · cases hrun
      exact ⟨t, h.congr id Iff.rfl rfl rfl rfl rfl rfl id⟩
    split at hrun
    next e he =>
      cases hrun
      exact ⟨t, h.congr id Iff.rfl (by rw [he]; rfl) rfl rfl rfl rfl id⟩
    next he =>
      cases hrun
      exact ⟨t, h.adopt _ p id⟩
  | prepareOthers =>
    cases hrun
    refine ⟨t, ?_⟩
    cases ok
    all_goals exact h.congr id Iff.rfl rfl rfl rfl rfl rfl id
  | adopt =>
    simp only [LocalEndpoint.run] at hrun
    split at hrun
    next he =>
      cases hrun
      exact ⟨t, h.adopt _ _ id⟩
    next =>
      cases hrun
      exact ⟨t, h.congr id Iff.rfl rfl rfl rfl rfl rfl id⟩
  | abandon =>
    cases hrun
    refine ⟨t, h.congr id Iff.rfl ?_ rfl rfl rfl rfl id⟩
    cases s.prepared <;> rfl
  | endPrepare =>
    cases hrun
    exact ⟨t, h.congr id Iff.rfl rfl rfl rfl rfl rfl id⟩
  | announceProto =>
    simp only [LocalEndpoint.run] at hrun
    split at hrun
    next =>
      cases hrun
      exact ⟨t, h.congr id Iff.rfl rfl rfl rfl rfl rfl id⟩
    next hact =>
      cases hrun
      exact ⟨t,
        { le := h.le
          current := h.current
          waiting := h.waiting
          taken := h.taken
          unprepared := fun _ => h.unprepared (Or.inl (by simpa using hact))
          due := Or.inr (Or.inl (Nat.add_pos_left Nat.one_pos _))
          begun := le_rfl
          ended := fun hnone => by cases hnone
          ended_le := h.ended_le }⟩
  | claimWrite =>
    simp only [LocalEndpoint.run] at hrun
    obtain ⟨a, ha, hrun⟩ := Option.map_eq_some_iff.mp hrun
    split at hrun
    all_goals
      cases hrun
      refine ⟨t, h.congr id (by rw [ha]; simp) rfl rfl rfl rfl rfl fun _ => ?_⟩
    · exact Or.inr (Or.inr rfl)
    · exact Or.inr (Or.inl (Nat.add_pos_left Nat.one_pos _))
  | announce =>
    have hcommit : s.announcing ≠ none := by
      intro hnone
      have hcount := ht.count
      rw [hnone] at hcount
      simp [AnnounceFrame.roles] at hcount
    have hzero : Q = 0 := by
      have hwriting := ht.writing
      simp only [AnnounceFrame.roles] at hwriting
      refine Multiset.card_eq_zero.mp (hQ.trans ?_)
      split at hwriting
      · simp at hwriting
        omega
      · simp at hwriting
    subst hzero
    simp only [LocalEndpoint.run] at hrun
    split at hrun
    next p st d an he =>
      cases hrun
      exact ⟨_, h.take he hcommit⟩
    next hnone =>
      cases hrun
      have hlen : s.adopted.length = t := h.caught_up hcommit fun x hx => by
        obtain ⟨e, he, hp⟩ := Option.map_eq_some_iff.mp hx
        obtain ⟨payload, st, d, an⟩ := e
        cases hp
        exact hnone _ _ _ _ he
      refine ⟨t,
        { h with
          due := Or.inl (hlen ▸ h.begun) }⟩
  | write p =>
    cases hrun
    obtain ⟨hP, -⟩ | ⟨q, hP, hq⟩ := h.current
    · exact absurd hP (by simp [AnnounceFrame.payloads])
    obtain ⟨rfl, rfl⟩ : p = q ∧ Q = 0 := by
      rw [AnnounceFrame.payloads, Multiset.singleton_add, eq_comm, Multiset.singleton_eq_cons_iff] at hP
      exact ⟨hP.1.symm, hP.2⟩
    refine ⟨t, { h with current := Or.inl ⟨rfl, ?_⟩ }⟩
    rw [lastAnnouncement, List.filterMap_append, List.filterMap_cons, List.filterMap_nil]
    exact List.getLast?_concat.trans hq.symm
  | writeAgain =>
    simp only [LocalEndpoint.run] at hrun
    obtain ⟨a, ha, hrun⟩ := Option.map_eq_some_iff.mp hrun
    split at hrun
    next =>
      cases hrun
      refine ⟨t, h.congr id (by rw [ha]; simp) rfl rfl rfl rfl rfl fun _ => ?_⟩
      exact Or.inr (Or.inl (Nat.add_pos_left Nat.one_pos _))
    next =>
      cases hrun
      refine ⟨t, h.congr id (by rw [ha]; simp) rfl rfl rfl rfl rfl fun hdue => ?_⟩
      rw [ha] at hdue
      exact hdue
  | finishAnnouncing =>
    simp only [LocalEndpoint.run] at hrun
    split at hrun
    next =>
      cases hrun
      exact ⟨t, h.congr id Iff.rfl rfl rfl rfl rfl rfl id⟩
    next a ha =>
    split at hrun
    next =>
      cases hrun
      refine ⟨t, h.congr id (by rw [ha]; simp) rfl rfl rfl rfl rfl fun hdue => ?_⟩
      rw [ha] at hdue
      exact hdue
    next hlast =>
      cases hrun
      have hcount := ht.count
      have hwriting := ht.writing
      rw [ha] at hcount hwriting
      simp [AnnounceFrame.roles] at hcount hwriting
      have hbegun : s.begun ≤ t := by
        refine h.due.resolve_right ?_
        rintro (hclaim | htake | hagain)
        · simp [AnnounceFrame.roles] at hclaim
          omega
        · simp [AnnounceFrame.roles] at htake
          omega
        · rw [ha] at hagain
          rw [if_pos (ht.again a ha hagain)] at hwriting
          omega
      refine ⟨t,
        { le := h.le
          current := ?_
          waiting := h.waiting
          taken := h.taken
          unprepared := fun hor => h.unprepared (hor.imp id fun hne => absurd rfl hne)
          due := Or.inl hbegun
          begun := h.begun
          ended := fun _ => h.le
          ended_le := le_rfl }⟩
      split
      all_goals exact h.current
  | destroyProto =>
    simp only [LocalEndpoint.run] at hrun
    split at hrun
    next =>
      cases hrun
      exact ⟨t, h.congr id Iff.rfl rfl rfl rfl rfl rfl id⟩
    next =>
    split at hrun
    next a ha =>
      cases hrun
      refine ⟨t, h.congr (fun hact => by cases hact) (by rw [ha]; simp) rfl rfl rfl rfl rfl fun hdue => ?_⟩
      rw [ha] at hdue
      exact hdue
    next =>
      cases hrun
      exact ⟨t, h.congr (fun hact => by cases hact) Iff.rfl rfl rfl rfl rfl rfl id⟩
  | retractDeleted =>
    simp only [LocalEndpoint.run] at hrun
    split at hrun
    · cases hrun
    cases hrun
    exact ⟨t, h.congr id Iff.rfl rfl rfl rfl rfl rfl id⟩
  | retract =>
    simp only [LocalEndpoint.run] at hrun
    split at hrun
    next =>
      cases hrun
      exact ⟨t, h.congr id Iff.rfl rfl rfl rfl rfl rfl id⟩
    next e he =>
      cases hrun
      cases hphase with
      | active _ _ hr _ => simp [AnnounceFrame.roles] at hr
      | handedOff _ _ _ _ hr _ => simp [AnnounceFrame.roles] at hr
      | gone _ _ hr _ _ _ => simp [AnnounceFrame.roles] at hr
      | retracting hact ha _ _ =>
      refine ⟨t,
        { le := h.le
          current := ?_
          waiting := fun x hx => by cases hx
          taken := fun hx => by cases hx
          unprepared := ?_
          due := ?_
          begun := h.begun
          ended := h.ended
          ended_le := h.ended_le }⟩
      · split
        all_goals exact h.current
      · rintro (hactive | hne)
        · exact absurd (hact.symm.trans hactive) Bool.false_ne_true
        · exact absurd ha hne
      · split
        all_goals exact h.due
  | writeDisposal d =>
    cases hrun
    refine ⟨t, h.congr id Iff.rfl rfl ?_ rfl rfl rfl id⟩
    rw [lastAnnouncement, List.filterMap_append]
    exact congrArg List.getLast? (List.append_nil _)

end LocalEndpoint

/-! ### Runs -/

namespace AnnounceMachine

def init : AnnounceMachine := ⟨{}, []⟩

/-- What every step keeps. -/
structure Sound (m : AnnounceMachine) : Prop where
  tallied : m.shared.Tallied (tally AnnounceFrame.roles m.frames)
  phase : m.shared.Phase (tally AnnounceFrame.roles m.frames)
  newest : ∃ t, m.shared.Newest (tally AnnounceFrame.roles m.frames)
    (m.frames.map AnnounceFrame.payloads).sum t

theorem init_sound : init.Sound := by
  refine ⟨?_, ?_, 0, ?_⟩
  · refine ⟨rfl, ?_, rfl, ?_, rfl, fun _ => rfl⟩
    all_goals
      intro a h
      cases h
  · refine .active rfl ?_ rfl ⟨rfl, ?_, ?_⟩
    · intro a h
      cases h
    · intro x h
      cases h
    · exact iff_of_false (by simp [init, Threads.frames, tally]) Bool.false_ne_true
  · refine ⟨le_rfl, Or.inl ⟨rfl, rfl⟩, ?_, ?_, fun _ _ => rfl, Or.inl le_rfl, le_rfl,
      fun _ => le_rfl, le_rfl⟩
    · intro x h
      cases h
    · intro h
      cases h

theorem card_payloads (fs : Multiset AnnounceFrame) :
    (fs.map AnnounceFrame.payloads).sum.card = tally AnnounceFrame.roles fs .payload := by
  induction fs using Multiset.induction_on with
  | empty => rfl
  | cons f fs ih =>
    rw [Multiset.map_cons, Multiset.sum_cons, Multiset.card_add, tally_cons, ih]
    cases f <;> rfl

variable {m m' : AnnounceMachine}

/-- A call does nothing before its first turn. -/
theorem Sound.spawn {f : AnnounceFrame} (h : m.Sound) (hroles : f.roles = [])
    (hpayloads : f.payloads = 0) : Sound (m.spawn m.shared [f]) := by
  have htally : tally AnnounceFrame.roles (m.spawn m.shared [f]).frames =
      tally AnnounceFrame.roles m.frames := by
    rw [Threads.spawn_frames, tally_coe_add]
    funext r
    rw [List.map_cons, hroles]
    exact Nat.zero_add _
  have hsum : ((m.spawn m.shared [f]).frames.map AnnounceFrame.payloads).sum =
      (m.frames.map AnnounceFrame.payloads).sum := by
    rw [Threads.spawn_frames, Multiset.map_add, Multiset.sum_add, Multiset.map_coe, Multiset.sum_coe,
      List.map_singleton, List.sum_singleton, hpayloads, zero_add]
  refine ⟨htally ▸ h.tallied, htally ▸ h.phase, ?_⟩
  rw [htally, hsum]
  exact h.newest

theorem step_sound {x : AnnounceAction} (h : m.Sound) (hs : m.step x = some m') : m'.Sound := by
  cases x with
  | prepareEndpoints p d =>
    cases hs
    exact h.spawn rfl rfl
  | announceProto =>
    cases hs
    exact h.spawn rfl rfl
  | destroyProto =>
    cases hs
    exact h.spawn rfl rfl
  | turn i ok =>
    obtain ⟨f, new, rest, -, hframes, hrun, hframes'⟩ :=
      Threads.turn_frames (show m.turn (fun s => s.run ok) i = some m' from hs)
    obtain ⟨ht, hp, t, hn⟩ := h
    rw [hframes, tally_cons] at ht hp hn
    rw [Multiset.map_cons, Multiset.sum_cons] at hn
    obtain ⟨t', hn'⟩ := hn.run hp ht (card_payloads rest) hrun
    refine ⟨?_, ?_, t', ?_⟩
    · rw [hframes', tally_coe_add]
      exact ht.run hp hrun
    · rw [hframes', tally_coe_add]
      exact hp.run ht hrun
    · rw [hframes', tally_coe_add, Multiset.map_add, Multiset.sum_add, Multiset.map_coe,
        Multiset.sum_coe]
      exact hn'

variable {as : List AnnounceAction}

open LocalEndpoint

/-- Disposals come last, if at all. -/
theorem Sound.disposal_last (h : m.Sound) :
    (∀ x ∈ m.shared.written.dropLast, x.announcement.isSome) ∧
      ∀ d, .notAliveDisposed d ∈ m.shared.written →
        m.shared.active = false ∧ ∃ p, .alive p ∈ m.shared.written := by
  have of_open : m.shared.Undisposed (tally AnnounceFrame.roles m.frames) →
      (∀ x ∈ m.shared.written.dropLast, x.announcement.isSome) ∧
        ∀ d, .notAliveDisposed d ∈ m.shared.written →
          m.shared.active = false ∧ ∃ p, .alive p ∈ m.shared.written := by
    intro ho
    refine ⟨fun x hx => ho.alive x (List.dropLast_subset _ hx), fun d hd => ?_⟩
    exact absurd (ho.alive _ hd) (by simp [EndpointChange.announcement])
  cases h.phase with
  | active _ _ _ ho => exact of_open ho
  | handedOff _ _ _ _ _ ho => exact of_open ho
  | retracting _ _ _ ho => exact of_open ho
  | gone hact _ _ _ _ hw =>
    obtain ⟨anns, halive, ⟨-, hw, -⟩ | ⟨-, hw, -⟩ | ⟨hne, ⟨d, hw⟩, -⟩⟩ := hw
    · rw [hw]
      exact ⟨(by intro x hx; cases hx), (by intro d hd; cases hd)⟩
    · rw [hw]
      refine ⟨fun x hx => halive x (List.dropLast_subset _ hx), fun d hd => ?_⟩
      exact absurd (halive _ hd) (by simp [EndpointChange.announcement])
    · rw [hw, List.dropLast_concat]
      refine ⟨halive, fun _ _ => ⟨hact, ?_⟩⟩
      obtain ⟨x, hx⟩ := List.exists_mem_of_ne_nil anns hne
      cases x with
      | alive p => exact ⟨p, List.mem_append_left _ hx⟩
      | notAliveDisposed d => exact absurd (halive _ hx) (by simp [EndpointChange.announcement])

/-- With nothing under way, an announced endpoint that was deleted has been disposed of. -/
theorem Sound.disposed (h : m.Sound) (hidle : m.Idle) (hact : m.shared.active = false)
    {p : Payload} (hp : .alive p ∈ m.shared.written) :
    ∃ d, .notAliveDisposed d ∈ m.shared.written := by
  have hzero : tally AnnounceFrame.roles m.frames = fun _ => 0 := by
    rw [hidle]
    exact tally_zero _
  have hphase := h.phase
  rw [hzero] at hphase
  cases hphase with
  | active h _ _ _ => exact absurd (hact.symm.trans h) Bool.false_ne_true
  | handedOff _ a ha _ _ _ =>
    have hcount := h.tallied.count
    have hpos := h.tallied.positive a ha
    rw [hzero, ha] at hcount
    exact absurd hcount hpos.ne
  | retracting _ _ hr _ => cases hr
  | gone _ _ _ _ _ hw =>
    obtain ⟨anns, -, ⟨-, hw, -⟩ | ⟨-, -, hn⟩ | ⟨-, ⟨d, hw⟩, -⟩⟩ := hw
    · rw [hw] at hp
      cases hp
    · cases hn
    · exact ⟨d, hw ▸ List.mem_append_right _ List.mem_cons_self⟩

/-- With no commit under way, what the last one was begun for has been announced, or what was adopted
since, while it was under way. -/
theorem Sound.newest_announced (h : m.Sound) (hnone : m.shared.announcing = none) :
    ∃ t, m.shared.begun ≤ t ∧ t ≤ m.shared.ended ∧ m.shared.ended ≤ m.shared.adopted.length ∧
      lastAnnouncement m.shared.written = (m.shared.adopted.take t).getLast? := by
  obtain ⟨t, hn⟩ := h.newest
  have hcount := h.tallied.count
  rw [hnone] at hcount
  simp only [Option.map_none, Option.getD_none] at hcount
  have hbegun : m.shared.begun ≤ t := by
    refine hn.due.resolve_right ?_
    rintro (hclaim | htake | hagain)
    · omega
    · omega
    · rw [hnone] at hagain
      cases hagain
  refine ⟨t, hbegun, hn.ended hnone, hn.ended_le, ?_⟩
  obtain ⟨-, hlast⟩ | ⟨p, hP, -⟩ := hn.current
  · exact hlast
  · have hcard := card_payloads m.frames
    rw [hP, Multiset.card_singleton] at hcard
    omega

/-- A disposal is the last that is written, and there is one once an announced endpoint was deleted
and nothing is under way.  While no commit is, the last announcement is the payload adopted last when
a commit began, or one adopted after it, while commits were under way. -/
theorem disposal_last_newest_announced (h : Run step (fun _ _ => True) init as m) :
    (∀ x ∈ m.shared.written.dropLast, x.announcement.isSome) ∧
      (∀ d, .notAliveDisposed d ∈ m.shared.written →
        m.shared.active = false ∧ ∃ p, .alive p ∈ m.shared.written) ∧
      (m.Idle → m.shared.active = false → (∃ p, .alive p ∈ m.shared.written) →
        ∃ d, .notAliveDisposed d ∈ m.shared.written) ∧
      (m.shared.active = true → m.shared.announcing = none →
        ∃ t, m.shared.begun ≤ t ∧ t ≤ m.shared.ended ∧ m.shared.ended ≤ m.shared.adopted.length ∧
          lastAnnouncement m.shared.written = (m.shared.adopted.take t).getLast?) := by
  have hsound : m.Sound := h.inv init_sound fun _ _ _ hs _ => step_sound hs
  obtain ⟨hlast, hafter⟩ := hsound.disposal_last
  refine ⟨hlast, hafter, fun hidle hact ⟨p, hp⟩ => hsound.disposed hidle hact hp, fun _ hnone => ?_⟩
  exact hsound.newest_announced hnone

/-- An endpoint is prepared, its announcement begins to be committed, and it is prepared anew before
the commit takes the payload. -/
def overtaken : List AnnounceAction :=
  .prepareEndpoints [1] [0] :: List.replicate 5 (.turn 0 true) ++
    .announceProto :: .turn 1 true ::
    .prepareEndpoints [2] [0] :: List.replicate 5 (.turn 2 true) ++
    List.replicate 5 (.turn 1 true)

/-- No commit is under way, and the last announcement is of a payload that was adopted after the last
commit began. -/
theorem overtaken_announced :
    ∃ m, Run step (fun _ _ => True) init overtaken m ∧ m.shared.active = true ∧
      m.shared.announcing = none ∧ (m.shared.adopted.take m.shared.begun).getLast? = some [1] ∧
      lastAnnouncement m.shared.written = some [2] :=
  exists_run_of_exec step (fun _ _ => True) init overtaken
    (p := fun m => m.shared.active = true ∧ m.shared.announcing = none ∧
      (m.shared.adopted.take m.shared.begun).getLast? = some [1] ∧
      lastAnnouncement m.shared.written = some [2]) (by decide +kernel)

/-- An endpoint is announced, deleted while its commit writes, and disposed of. -/
def handedOver : List AnnounceAction :=
  .prepareEndpoints [1] [0] :: List.replicate 5 (.turn 0 true) ++
    .announceProto :: List.replicate 3 (.turn 1 true) ++
    .destroyProto :: .turn 2 true :: List.replicate 6 (.turn 1 true)

theorem disposal_last_newest_announced_handedOver :
    ∃ m, Run step (fun _ _ => True) init handedOver m ∧
      m.shared.written = [.alive [1], .notAliveDisposed [0]] ∧
      ∀ x ∈ m.shared.written.dropLast, x.announcement.isSome := by
  obtain ⟨m, hrun, hwritten⟩ := exists_run_of_exec step (fun _ _ => True) init handedOver
    (p := fun m => m.shared.written = [.alive [1], .notAliveDisposed [0]]) (by decide +kernel)
  exact ⟨m, hrun, hwritten, (disposal_last_newest_announced hrun).1⟩

end AnnounceMachine

end Zzdds.Discovery
