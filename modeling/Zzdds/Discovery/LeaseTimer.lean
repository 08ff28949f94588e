import Zzdds.Discovery.Spdp

/-! # The lease timer

An `SpdpEndpoints` on a runtime: its leases are checked on the turns of one timer, which is armed by
what enters or renews a participant and again at the end of each check.  What matters of the timer
is the deadline it is armed for, whether a fire is queued, and how far its turn is; of the runtime,
that `armTimerNoLater` leaves the timer alone when it is armed early enough or has a fire queued,
and that the turns of one timer do not overlap.  Nothing stops the timer. -/

namespace Zzdds.Discovery

open Zzdds.Lib Zzdds.Rtps

def RETRY_NS : ℤ := 100 * NS_PER_MS

/-! ### When a check is due -/

namespace KnownParticipant

/-- When its lease expires or its probe is due. -/
def checkDueNs (kp : KnownParticipant) : ℤ :=
  match kp.probeDueNs with
  | none => kp.expiresNs
  | some probe => min probe kp.expiresNs

theorem le_checkDueNs {kp : KnownParticipant} {d : ℤ} :
    d ≤ kp.checkDueNs ↔ d ≤ kp.expiresNs ∧ ∀ due, kp.probeDueNs = some due → d ≤ due := by
  unfold checkDueNs
  split
  next hnone => simp [hnone]
  next due hdue => simp [hdue, and_comm]

theorem checkDueNs_of_probeActive {kp : KnownParticipant} (h : kp.probeActive = true) :
    kp.checkDueNs = kp.expiresNs := by
  have hnone : kp.probeDueNs = none := by simp [probeDueNs, h]
  rw [checkDueNs, hnone]

@[simp] theorem probed_probeActive (kp : KnownParticipant) : kp.probed.probeActive = true := rfl

@[simp] theorem probed_expiresNs (kp : KnownParticipant) : kp.probed.expiresNs = kp.expiresNs := rfl

@[simp] theorem checkDueNs_probed (kp : KnownParticipant) : kp.probed.checkDueNs = kp.expiresNs :=
  checkDueNs_of_probeActive rfl

/-- A check that finds the participant at `now` cannot note what it would do. -/
def stalled (e : Surroundings) (p : GuidPrefix) (kp : KnownParticipant) : Bool :=
  kp.expired e.now && !e.toRemove p || kp.probeDue e.now && !e.toProbe p

/-- What a check leaves of a participant. -/
def checked (e : Surroundings) (p : GuidPrefix) (kp : KnownParticipant) : Option KnownParticipant :=
  if kp.expired e.now && e.toRemove p then none
  else some (if kp.probeDue e.now && e.toProbe p then kp.probed else kp)

/-- When the next check is due for the participant, after one. -/
def leaseDueNs (e : Surroundings) (p : GuidPrefix) (kp : KnownParticipant) : Option ℤ :=
  if kp.expired e.now then if e.toRemove p then none else some (e.now + RETRY_NS)
  else
    let kp := if kp.probeDue e.now && e.toProbe p then kp.probed else kp
    let check := if kp.probeActive then kp.expiresNs else kp.checkDueNs
    some (if e.now < check then check else e.now + RETRY_NS)

/-- The next check is soon enough for what this one leaves, and retries what it could not note. -/
theorem leaseDueNs_eq {e : Surroundings} {p : GuidPrefix} {kp kp' : KnownParticipant}
    (h : kp.checked e p = some kp') : kp.leaseDueNs e p =
      some (if kp.stalled e p then e.now + RETRY_NS else kp'.checkDueNs) := by
  unfold checked at h
  split at h
  · cases h
  next hkept =>
  cases h
  unfold leaseDueNs stalled
  cases hexp : kp.expired e.now with
  | true =>
    have hmem : e.toRemove p = false := by simpa [hexp] using hkept
    simp [hmem]
  | false =>
    have hlive : e.now < kp.expiresNs := by simpa [expired] using hexp
    cases hdue : kp.probeDue e.now with
    | true =>
      cases hmem : e.toProbe p with
      | true => simp [hlive]
      | false =>
        -- the probe is due, so the check is
        obtain ⟨due, hprobe, hle⟩ := (Option.any_eq_true _ _).mp (Bool.and_eq_true_iff.mp hdue).2
        have hidle : kp.probeActive = false := by
          by_contra hactive
          simp [probeDueNs, hactive] at hprobe
        have hcheck : ¬ e.now < kp.checkDueNs := by
          have := (le_checkDueNs.mp (le_refl kp.checkDueNs)).2 due hprobe
          have := of_decide_eq_true hle
          omega
        simp [hidle, hcheck]
    | false =>
      have hcheck : e.now < kp.checkDueNs := by
        unfold checkDueNs
        split
        · exact hlive
        next due hprobe =>
          have hlate : e.now < due := by simpa [probeDue, hexp, hprobe] using hdue
          exact lt_min hlate hlive
      have hexpires : kp.probeActive = true → kp.checkDueNs = kp.expiresNs :=
        checkDueNs_of_probeActive
      cases hactive : kp.probeActive with
      | true => simp [hactive, hlive, hexpires hactive]
      | false => simp [hactive, hcheck]

end KnownParticipant

/-! ### The timer -/

/-- How far the timer's turn is. -/
inductive LeaseTurn where
  | idle
  /-- Before the check, or in it. -/
  | checking
  /-- The check said when the next is due. -/
  | checked (due : Option ℤ)
deriving DecidableEq, Repr

/-- The endpoints with their timer. -/
structure TimedSpdp where
  spdp : SpdpEndpoints
  /-- What the timer is armed for. -/
  deadlineNs : Option ℤ := none
  firePending : Bool := false
  turn : LeaseTurn := .idle
  /-- For a participant that the last check could not deal with, when the next is to: cleared when
  the timer is armed for it anew. -/
  retries : GuidPrefix → Option ℤ := fun _ => none
  /-- Every probe decided on, to begin it or to end it. -/
  decided : List (GuidPrefix × ℤ) := []

inductive LeaseFrame where
  | spdp (f : SpdpFrame)
  /-- The end of the timer's turn. -/
  | rearm

namespace TimedSpdp

variable (s : TimedSpdp)

def armTimerNoLater (due : ℤ) : TimedSpdp :=
  if s.firePending || s.deadlineNs.any (· ≤ due) then s else { s with deadlineNs := some due }

end TimedSpdp

namespace SpdpEndpoints

variable (s : SpdpEndpoints)

/-- The participant a frame arms the timer for. -/
def armsFor (e : Surroundings) : SpdpFrame → Option GuidPrefix
  | .enter p _ _ _ => if (s.known.lookup p).isSome || e.getOrPut then some p else none
  | .onProbeResult p true => if (s.known.lookup p).any (·.probeActive) then some p else none
  | _ => none

/-- When `checkLeases` says the next check is due. -/
def nextDueNs (e : Surroundings) : Option ℤ :=
  (s.known.keys.filterMap fun p => (s.known.lookup p).bind (·.leaseDueNs e p)).min?

end SpdpEndpoints

/-- The probes that a frame is to begin, or to end. -/
def SpdpFrame.begins : SpdpFrame → List (GuidPrefix × ℤ)
  | notify _ ps _ => ps
  | beginProbe p d => [(p, d)]
  | _ => []

def SpdpFrame.decides : SpdpFrame → Bool
  | enter .. | evict _ => true
  | _ => false

/-- Leases are checked on the timer's turn only, which arms the timer at its end. -/
def SpdpFrame.rearms : SpdpFrame → List LeaseFrame
  | evict _ => [.rearm]
  | _ => []

namespace TimedSpdp

variable (s : TimedSpdp)

/-- `armLeaseLocked` for a participant, after what renewed it. -/
def armFor : Option GuidPrefix → TimedSpdp
  | none => s
  | some p =>
      match s.spdp.known.lookup p with
      | none => s
      | some kp =>
          ({ s with retries := Function.update s.retries p none }).armTimerNoLater kp.checkDueNs

/-- A check says when the next is due. -/
def afterCheck (e : Surroundings) : SpdpFrame → TimedSpdp
  | .evict now =>
      let e := { e with now := now }
      { s with
        turn := .checked (s.spdp.nextDueNs e)
        retries := fun p => if (s.spdp.known.lookup p).any (·.stalled e p) then
          some (now + RETRY_NS) else none }
  | _ => s

/-- What becomes of the timer when a frame of the endpoints ran. -/
def afterFrame (e : Surroundings) (f : SpdpFrame) (spdp : SpdpEndpoints) (new : List SpdpFrame) :
    TimedSpdp :=
  let s' := { s.afterCheck e f with
    spdp := spdp
    decided := s.decided ++ if f.decides then new.flatMap SpdpFrame.begins else [] }
  s'.armFor (s.spdp.armsFor e f)

/-- Run a frame; none while it waits for a lock. -/
def run (e : Surroundings) : LeaseFrame → Option (TimedSpdp × List LeaseFrame)
  | .spdp f => (s.spdp.run e f).map fun out =>
      (s.afterFrame e f out.1 out.2, out.2.map .spdp ++ f.rearms)
  | .rearm =>
      match s.turn with
      | .checked none => some ({ s with turn := .idle }, [])
      | .checked (some due) =>
          if s.spdp.locked then none else some ({ s.armTimerNoLater due with turn := .idle }, [])
      | _ => none

end TimedSpdp

/-! ### The machine -/

inductive LeaseAction where
  | processSpdpPayload (p : GuidPrefix) (sn : ℤ) (data : Option SPDPdiscoveredParticipantData)
  | removePeer (p : GuidPrefix)
  | onProbeResult (p : GuidPrefix) (alive : Bool)
  | markSedpSeen (p : GuidPrefix)
  /-- The runtime queues the timer's fire. -/
  | fire (now : ℤ)
  /-- `onLeaseTimer`. -/
  | beginTurn
  | turn (i : ℕ) (e : Surroundings)

def LeaseAction.call : LeaseAction → Option SpdpFrame
  | processSpdpPayload p sn data => some (.processSpdpPayload p sn data)
  | removePeer p => some (.removePeer p)
  | onProbeResult p alive => some (.onProbeResult p alive)
  | markSedpSeen p => some (.markSedpSeen p)
  | _ => none

abbrev LeaseMachine := Threads TimedSpdp LeaseFrame

namespace LeaseMachine

def init (ownPrefix : Option GuidPrefix) (domainId : ℕ) (listening : Listener → Bool) :
    LeaseMachine :=
  ⟨{ spdp := (SpdpMachine.init ownPrefix domainId listening).shared }, []⟩

def step (m : LeaseMachine) : LeaseAction → Option LeaseMachine
  | .turn i e => m.turn (fun s => s.run e) i
  | .fire now =>
      if m.shared.deadlineNs.any (· ≤ now) then
        some { m with shared := { m.shared with deadlineNs := none, firePending := true } }
      else none
  | .beginTurn =>
      if m.shared.firePending && m.shared.turn = .idle then
        some (m.spawn { m.shared with firePending := false, turn := .checking }
          [.spdp .checkLeases])
      else none
  | x => x.call.map fun f => m.spawn m.shared [.spdp f]

end LeaseMachine

/-! ### What a check does to the table -/

theorem lookup_foldl_erase (ps : List GuidPrefix) (q : GuidPrefix) :
    ∀ known : Table GuidPrefix KnownParticipant, (ps.foldl (fun t p => t.erase p) known).lookup q =
      if q ∈ ps then none else known.lookup q := by
  induction ps with
  | nil => exact fun _ => rfl
  | cons p ps ih =>
    intro known
    rw [List.foldl_cons, ih, Table.lookup_erase_eq]
    by_cases hq : q = p <;> by_cases hps : q ∈ ps <;> simp [hq, hps]

theorem lookup_foldl_probed (ps : List GuidPrefix) (q : GuidPrefix) :
    ∀ known : Table GuidPrefix KnownParticipant,
      (ps.foldl (fun t p => t.update p KnownParticipant.probed) known).lookup q =
        (known.lookup q).map fun kp => if q ∈ ps then kp.probed else kp := by
  induction ps with
  | nil => exact fun known => by simp
  | cons p ps ih =>
    intro known
    rw [List.foldl_cons, ih, Table.lookup_update_eq]
    by_cases hq : q = p
    · subst hq
      rw [if_pos rfl, Option.map_map]
      refine congrArg (fun f => (known.lookup q).map f) (funext fun kp => ?_)
      by_cases hps : q ∈ ps <;> simp [hps, KnownParticipant.probed]
    · rw [if_neg hq]
      simp [hq]

namespace SpdpEndpoints

variable {s s' : SpdpEndpoints} {e : Surroundings} {f : SpdpFrame} {new : List SpdpFrame}
  {p : GuidPrefix} {kp : KnownParticipant} {now : ℤ}

theorem mem_toRemove (h : s.known.lookup p = some kp) :
    p ∈ s.toRemove e ↔ (kp.expired e.now && e.toRemove p) = true := by
  have hp : p ∈ s.known.keys := AList.mem_keys.mpr (AList.lookup_isSome.mp (by rw [h]; rfl))
  simp [toRemove, hp, h]

theorem mem_toProbe (h : s.known.lookup p = some kp) :
    p ∈ s.toProbe e ↔ (kp.probeDue e.now && e.toProbe p) = true := by
  have hp : p ∈ s.known.keys := AList.mem_keys.mpr (AList.lookup_isSome.mp (by rw [h]; rfl))
  simp [toProbe, hp, h]

theorem exists_of_mem_toProbe (h : p ∈ s.toProbe e) : ∃ kp, s.known.lookup p = some kp := by
  have hany := (Bool.and_eq_true_iff.mp (List.mem_filter.mp h).2).1
  obtain ⟨kp, hkp, -⟩ := (Option.any_eq_true _ _).mp hany
  exact ⟨kp, hkp⟩

/-- What a check does. -/
theorem run_evict (hrun : s.run e (.evict now) = some (s', new)) :
    (∀ p, s'.known.lookup p = (s.known.lookup p).bind (·.checked { e with now := now } p)) ∧
      new = [.notify ((s.evictGuids { e with now := now }).flatMap s.notifyLost)
        ((s.toProbe { e with now := now }).map (·, now + 1000000000)) false] := by
  simp only [run] at hrun
  split at hrun
  · cases hrun
  obtain ⟨rfl, rfl⟩ := Prod.mk.inj (Option.some.inj hrun)
  refine ⟨fun p => ?_, rfl⟩
  dsimp only
  rw [lookup_foldl_erase, lookup_foldl_probed]
  cases hkp : s.known.lookup p with
  | none => simp
  | some kp =>
    have hremove := mem_toRemove (e := { e with now := now }) hkp
    have hprobe := mem_toProbe (e := { e with now := now }) hkp
    simp only [hremove, hprobe, KnownParticipant.checked, Option.map_some, Option.bind_some]

/-- Of the participants that a step other than a check leaves, all but the one the timer is armed
for were there before, with the next check due then as now. -/
theorem run_known (hf : ∀ now, f ≠ .evict now) (hrun : s.run e f = some (s', new)) {q : GuidPrefix}
    {kp' : KnownParticipant} (hq : s'.known.lookup q = some kp') : s.armsFor e f = some q ∨
      ∃ kp, s.known.lookup q = some kp ∧ kp'.checkDueNs = kp.checkDueNs := by
  have same : ∀ {kp' : KnownParticipant}, s.known.lookup q = some kp' → s.armsFor e f = some q ∨
      ∃ kp, s.known.lookup q = some kp ∧ kp'.checkDueNs = kp.checkDueNs :=
    fun h => .inr ⟨_, h, rfl⟩
  have erased : ∀ {p : GuidPrefix}, (s.known.erase p).lookup q = some kp' →
      s.known.lookup q = some kp' := by
    intro p h
    rw [Table.lookup_erase_eq] at h
    split at h
    · cases h
    · exact h
  cases f with
  | processSpdpPayload p sn data =>
    simp only [run] at hrun
    repeat' split at hrun
    all_goals cases hrun
    all_goals exact same hq
  | enter p sn kp now =>
    simp only [run] at hrun
    split at hrun
    · cases hrun
    have inserted : ∀ {v : KnownParticipant}, (s.known.insert p v).lookup q = some kp' →
        q = p ∨ s.known.lookup q = some kp' := by
      intro v h
      rw [Table.lookup_insert_eq] at h
      split at h
      next hqp => exact .inl hqp
      next => exact .inr h
    split at hrun
    next old hold =>
      cases hrun
      rcases inserted hq with rfl | hq
      · exact .inl (by simp [armsFor, hold])
      · exact same hq
    next hnone =>
      split at hrun
      next => cases hrun; exact same hq
      next hmem =>
        cases hrun
        rcases inserted hq with rfl | hq
        · have hput : e.getOrPut = true := by simpa using hmem
          exact .inl (by simp [armsFor, hput])
        · exact same hq
  | removePeer p =>
    simp only [run] at hrun
    repeat' split at hrun
    all_goals cases hrun
    · exact same hq
    · exact same (erased hq)
  | onProbeResult p alive =>
    cases alive with
    | true =>
      simp only [run] at hrun
      split at hrun
      · cases hrun
      cases hrun
      dsimp only at hq
      rw [Table.lookup_update_eq] at hq
      split at hq
      next hqp =>
        subst hqp
        obtain ⟨kp, hkp, rfl⟩ := Option.map_eq_some_iff.mp hq
        split
        next hactive => exact .inl (by simp [armsFor, hkp, hactive])
        next => exact .inr ⟨kp, hkp, rfl⟩
      next => exact same hq
    | false =>
      simp only [run] at hrun
      repeat' split at hrun
      all_goals cases hrun
      · exact same hq
      · exact same (erased hq)
      · exact same hq
  | markSedpSeen p =>
    simp only [run] at hrun
    split at hrun
    · cases hrun
    cases hrun
    dsimp only at hq
    rw [Table.lookup_update_eq] at hq
    split at hq
    next hqp =>
      subst hqp
      obtain ⟨kp, hkp, rfl⟩ := Option.map_eq_some_iff.mp hq
      exact .inr ⟨kp, hkp, rfl⟩
    next => exact same hq
  | evict now => exact absurd rfl (hf now)
  | checkLeases | beginProbe p d =>
    cases hrun
    exact same hq
  | notify rs ps mu =>
    rcases rs with _ | ⟨r, rs⟩ <;> rcases ps with _ | ⟨pb, ps⟩ <;> cases hrun <;> exact same hq

/-- No other step begins probes than those its frame is to begin, or decides on. -/
theorem run_begins (hrun : s.run e f = some (s', new)) :
    s'.probes ++ new.flatMap SpdpFrame.begins =
      s.probes ++ f.begins ++ if f.decides then new.flatMap SpdpFrame.begins else [] := by
  cases f with
  | notify rs ps mu =>
    rcases rs with _ | ⟨r, rs⟩ <;> rcases ps with _ | ⟨pb, ps⟩ <;> cases hrun <;>
      simp [SpdpFrame.begins, SpdpFrame.decides]
  | onProbeResult p alive =>
    cases alive
    all_goals
      simp only [run] at hrun
      repeat' split at hrun
    all_goals cases hrun
    all_goals simp [SpdpFrame.begins, SpdpFrame.decides, drop]
  | _ =>
    simp only [run] at hrun
    repeat' split at hrun
    all_goals cases hrun
    all_goals simp [SpdpFrame.begins, SpdpFrame.decides, drop]

end SpdpEndpoints

/-! ### The timer is armed early enough -/

namespace TimedSpdp

variable {s s' : TimedSpdp} {e : Surroundings} {f : SpdpFrame} {spdp' : SpdpEndpoints}
  {new : List SpdpFrame} {p : GuidPrefix} {kp : KnownParticipant} {b d now : ℤ}

/-- The timer fires by then. -/
def Armed (s : TimedSpdp) (b : ℤ) : Prop :=
  s.firePending = true ∨ ∃ d, s.deadlineNs = some d ∧ d ≤ b

/-- A check will be made by then: the timer is armed for it, or one is about to, or its end arms the
timer. -/
def Covers (s : TimedSpdp) (b : ℤ) : Prop :=
  s.Armed b ∨ s.turn = .checking ∨ ∃ d, s.turn = .checked (some d) ∧ d ≤ b

theorem armTimerNoLater_spdp : (s.armTimerNoLater d).spdp = s.spdp := by
  unfold armTimerNoLater
  split <;> rfl

theorem armTimerNoLater_retries : (s.armTimerNoLater d).retries = s.retries := by
  unfold armTimerNoLater
  split <;> rfl

theorem armTimerNoLater_decided : (s.armTimerNoLater d).decided = s.decided := by
  unfold armTimerNoLater
  split <;> rfl

theorem Armed.mono (h : s.Armed d) (hle : d ≤ b) : s.Armed b :=
  h.imp id fun ⟨d', hd', hd⟩ => ⟨d', hd', hd.trans hle⟩

theorem armTimerNoLater_armed : (s.armTimerNoLater d).Armed d := by
  unfold armTimerNoLater
  split
  next h =>
    rcases Bool.or_eq_true_iff.mp h with h | h
    · exact .inl h
    · obtain ⟨d', hd', hle⟩ := (Option.any_eq_true _ _).mp h
      exact .inr ⟨d', hd', of_decide_eq_true hle⟩
  next => exact .inr ⟨d, rfl, le_rfl⟩

theorem Armed.arm (h : s.Armed b) : (s.armTimerNoLater d).Armed b := by
  rcases le_or_gt d b with hle | hlt
  · exact armTimerNoLater_armed.mono hle
  · -- the timer is armed early enough already
    have hskip : (s.firePending || s.deadlineNs.any (· ≤ d)) = true := by
      rcases h with h | ⟨d', h, hd⟩
      · simp [h]
      · have : d' ≤ d := hd.trans hlt.le
        simp [h, this]
    rw [armTimerNoLater, if_pos hskip]
    exact h

theorem Covers.arm (h : s.Covers b) : (s.armTimerNoLater d).Covers b := by
  have hturn : (s.armTimerNoLater d).turn = s.turn := by
    unfold armTimerNoLater
    split <;> rfl
  rw [Covers, hturn]
  exact h.imp Armed.arm id

/-- When the next check of a participant is to be made at the latest. -/
def bound (s : TimedSpdp) (p : GuidPrefix) (kp : KnownParticipant) : ℤ :=
  (s.retries p).getD kp.checkDueNs

/-- No check is missed. -/
def Watched (s : TimedSpdp) : Prop :=
  ∀ p kp, s.spdp.known.lookup p = some kp → s.Covers (s.bound p kp)

theorem armFor_spdp (p : Option GuidPrefix) : (s.armFor p).spdp = s.spdp := by
  unfold armFor
  split
  · rfl
  · split
    · rfl
    · exact armTimerNoLater_spdp

theorem armFor_decided (p : Option GuidPrefix) : (s.armFor p).decided = s.decided := by
  unfold armFor
  split
  · rfl
  · split
    · rfl
    · exact armTimerNoLater_decided

/-- Arming for a participant watches it; the others only need be watched before. -/
theorem watched_armFor {o : Option GuidPrefix} (h : ∀ q kp, o ≠ some q →
    s.spdp.known.lookup q = some kp → s.Covers (s.bound q kp)) : (s.armFor o).Watched := by
  intro q kp hq
  rw [armFor_spdp] at hq
  cases o with
  | none => exact h q kp nofun hq
  | some p =>
    by_cases hqp : q = p
    · subst hqp
      simp only [armFor, hq]
      have hbound : ∀ t : TimedSpdp, t.retries = Function.update s.retries q none →
          t.bound q kp = kp.checkDueNs := by
        intro t ht
        rw [bound, ht, Function.update_self]
        rfl
      rw [hbound _ armTimerNoLater_retries]
      exact .inl armTimerNoLater_armed
    · have hcovers := h q kp (fun e => hqp (Option.some.inj e).symm) hq
      simp only [armFor]
      split
      · exact hcovers
      next kp' _ =>
        have hbound : ∀ t : TimedSpdp, t.retries = Function.update s.retries p none →
            t.bound q kp = s.bound q kp := by
          intro t ht
          rw [bound, ht, Function.update_of_ne hqp]
          rfl
        rw [hbound _ armTimerNoLater_retries]
        exact Covers.arm (s := { s with retries := Function.update s.retries p none }) hcovers

theorem min?_le {ds : List ℤ} (h : d ∈ ds) : ∃ d', ds.min? = some d' ∧ d' ≤ d := by
  cases hmin : ds.min? with
  | none =>
    rw [List.min?_eq_none_iff.mp hmin] at h
    cases h
  | some d' => exact ⟨d', rfl, (List.min?_eq_some_iff.mp hmin).2 d h⟩

/-- What a check leaves is covered by the time it returns. -/
theorem watched_evict (hrun : s.spdp.run e (.evict now) = some (spdp', new)) :
    (s.afterFrame e (.evict now) spdp' new).Watched := by
  intro p kp' hp
  obtain ⟨hknown, -⟩ := SpdpEndpoints.run_evict hrun
  have hp : spdp'.known.lookup p = some kp' := hp
  rw [hknown] at hp
  obtain ⟨kp, hkp, hchecked⟩ := Option.bind_eq_some_iff.mp hp
  have hdue := KnownParticipant.leaseDueNs_eq hchecked
  have hmem : (if kp.stalled { e with now := now } p then now + RETRY_NS else kp'.checkDueNs) ∈
      s.spdp.known.keys.filterMap fun p =>
        (s.spdp.known.lookup p).bind (·.leaseDueNs { e with now := now } p) := by
    have hkey : p ∈ s.spdp.known.keys :=
      AList.mem_keys.mpr (AList.lookup_isSome.mp (by rw [hkp]; rfl))
    refine List.mem_filterMap.mpr ⟨p, hkey, ?_⟩
    rw [hkp]
    exact hdue
  obtain ⟨d, hd, hle⟩ := min?_le hmem
  refine .inr (.inr ⟨d, congrArg LeaseTurn.checked hd, ?_⟩)
  have hbound : (s.afterFrame e (.evict now) spdp' new).bound p kp' =
      if kp.stalled { e with now := now } p then now + RETRY_NS else kp'.checkDueNs := by
    change (if (s.spdp.known.lookup p).any (·.stalled { e with now := now } p) then
      some (now + RETRY_NS) else none).getD kp'.checkDueNs = _
    rw [hkp, Option.any_some]
    split <;> rfl
  rw [hbound]
  exact hle

theorem Watched.afterFrame (h : s.Watched) (hrun : s.spdp.run e f = some (spdp', new)) :
    (s.afterFrame e f spdp' new).Watched := by
  by_cases hf : ∃ now, f = .evict now
  · obtain ⟨now, rfl⟩ := hf
    exact watched_evict hrun
  have hne : ∀ now, f ≠ .evict now := fun now h => hf ⟨now, h⟩
  have hkeeps : s.afterCheck e f = s := by
    cases f <;> first | rfl | exact absurd rfl (hne _)
  refine watched_armFor fun q kp' hq hlookup => ?_
  rw [hkeeps]
  rcases SpdpEndpoints.run_known hne hrun hlookup with harm | ⟨kp, hkp, hcheck⟩
  · exact absurd harm hq
  · have hcovers := h q kp hkp
    rw [bound, ← hcheck] at hcovers
    exact hcovers

theorem Watched.rearm {new : List LeaseFrame} (h : s.Watched)
    (hrun : s.run e .rearm = some (s', new)) : s'.Watched := by
  simp only [run] at hrun
  split at hrun
  next hturn =>
    cases hrun
    intro p kp hp
    have hcovers := h p kp hp
    rw [Covers, hturn] at hcovers
    rcases hcovers with h | h | ⟨d, h, -⟩
    · exact .inl h
    · cases h
    · cases h
  next due hturn =>
    split at hrun
    · cases hrun
    cases hrun
    intro p kp hp
    have hp : s.spdp.known.lookup p = some kp := by
      rw [← armTimerNoLater_spdp (s := s) (d := due)]
      exact hp
    have hbound : bound { s.armTimerNoLater due with turn := .idle } p kp = s.bound p kp := by
      rw [bound, bound, ← armTimerNoLater_retries (s := s) (d := due)]
    have hcovers := h p kp hp
    rw [Covers, hturn] at hcovers
    rw [hbound]
    rcases hcovers with h | h | ⟨d, h, hle⟩
    · exact .inl h.arm
    · cases h
    · cases h
      exact .inl (armTimerNoLater_armed.mono hle)
  next => cases hrun

theorem Watched.run {g : LeaseFrame} {new : List LeaseFrame} (h : s.Watched)
    (hrun : s.run e g = some (s', new)) : s'.Watched := by
  cases g with
  | spdp f =>
    obtain ⟨⟨spdp', new'⟩, hout, heq⟩ := Option.map_eq_some_iff.mp hrun
    cases heq
    exact h.afterFrame hout
  | rearm => exact h.rearm hrun

/-! ### Probes begin once -/

theorem afterFrame_spdp : (s.afterFrame e f spdp' new).spdp = spdp' := armFor_spdp _

theorem afterFrame_decided : (s.afterFrame e f spdp' new).decided =
    s.decided ++ if f.decides then new.flatMap SpdpFrame.begins else [] := armFor_decided _

end TimedSpdp

def LeaseFrame.begins : LeaseFrame → List (GuidPrefix × ℤ)
  | spdp f => f.begins
  | rearm => []

theorem LeaseFrame.flatMap_begins (f : SpdpFrame) (new : List SpdpFrame) :
    (new.map LeaseFrame.spdp ++ f.rearms).flatMap LeaseFrame.begins =
      new.flatMap SpdpFrame.begins := by
  have hrearms : f.rearms.flatMap LeaseFrame.begins = [] := by cases f <;> rfl
  rw [List.flatMap_append, hrearms, List.append_nil, List.flatMap_map]
  rfl

namespace LeaseMachine

/-- Every probe decided on has begun, or some thread is to begin it. -/
def Accounted (m : LeaseMachine) : Prop :=
  (m.shared.spdp.probes : Multiset (GuidPrefix × ℤ)) +
    m.frames.bind (fun g => (g.begins : Multiset (GuidPrefix × ℤ))) = m.shared.decided

variable {m m' : LeaseMachine} {x : LeaseAction} {i : ℕ} {e : Surroundings} {now : ℤ}

/-- An action that is no turn, and what it starts. -/
theorem step_cases (hs : m.step x = some m') :
    (∃ i e, x = .turn i e) ∨
    (∃ f, x.call = some f ∧ f.begins = [] ∧ m' = m.spawn m.shared [.spdp f]) ∨
    (∃ d, m.shared.deadlineNs = some d ∧
      m' = { m with shared := { m.shared with deadlineNs := none, firePending := true } }) ∨
    (m.shared.firePending = true ∧ m.shared.turn = .idle ∧
      m' = m.spawn { m.shared with firePending := false, turn := .checking }
        [.spdp .checkLeases]) := by
  cases x with
  | turn i e => exact .inl ⟨i, e, rfl⟩
  | fire now =>
    simp only [step] at hs
    split at hs
    next hdue =>
      obtain ⟨d, hd, -⟩ := (Option.any_eq_true _ _).mp hdue
      exact .inr (.inr (.inl ⟨d, hd, (Option.some.inj hs).symm⟩))
    next => cases hs
  | beginTurn =>
    simp only [step] at hs
    split at hs
    next hfire =>
      obtain ⟨hpending, hidle⟩ := Bool.and_eq_true_iff.mp hfire
      exact .inr (.inr (.inr ⟨hpending, of_decide_eq_true hidle, (Option.some.inj hs).symm⟩))
    next => cases hs
  | _ => exact .inr (.inl ⟨_, rfl, rfl, (Option.some.inj hs).symm⟩)

theorem step_watched (h : m.shared.Watched) (hs : m.step x = some m') : m'.shared.Watched := by
  rcases step_cases hs with ⟨i, e, rfl⟩ | ⟨f, -, -, rfl⟩ | ⟨d, -, rfl⟩ | ⟨-, -, rfl⟩
  · obtain ⟨g, new, rest, -, -, hrun, -⟩ :=
      Threads.turn_frames (show m.turn (fun s => s.run e) i = some m' from hs)
    exact h.run hrun
  · exact h
  · exact fun _ _ _ => .inl (.inl rfl)
  · exact fun _ _ _ => .inr (.inl rfl)

theorem step_accounted (h : m.Accounted) (hs : m.step x = some m') : m'.Accounted := by
  rcases step_cases hs with ⟨i, e, rfl⟩ | ⟨f, -, hf, rfl⟩ | ⟨d, -, rfl⟩ | ⟨-, -, rfl⟩
  · obtain ⟨g, new, rest, -, hframes, hrun, hframes'⟩ :=
      Threads.turn_frames (show m.turn (fun s => s.run e) i = some m' from hs)
    rw [Accounted, hframes, Multiset.cons_bind, ← add_assoc] at h
    rw [Accounted, hframes', Multiset.add_bind, Multiset.coe_bind, ← add_assoc]
    cases g with
    | spdp f =>
      obtain ⟨⟨spdp', new'⟩, hout, heq⟩ := Option.map_eq_some_iff.mp hrun
      obtain ⟨hs', hnew⟩ := Prod.mk.inj heq
      have hbegins := SpdpEndpoints.run_begins hout
      rw [← hs', ← hnew, LeaseFrame.flatMap_begins, TimedSpdp.afterFrame_spdp,
        TimedSpdp.afterFrame_decided, Multiset.coe_add, hbegins, ← Multiset.coe_add,
        ← Multiset.coe_add, ← Multiset.coe_add, ← h, add_right_comm]
      rfl
    | rearm =>
      have hsame : m'.shared.spdp = m.shared.spdp ∧ m'.shared.decided = m.shared.decided ∧
          new = [] := by
        simp only [TimedSpdp.run] at hrun
        repeat' split at hrun
        all_goals first | cases hrun | obtain ⟨hs', hnew⟩ := Prod.mk.inj (Option.some.inj hrun)
        · rw [← hs', ← hnew]
          exact ⟨rfl, rfl, rfl⟩
        · rw [← hs', ← hnew]
          exact ⟨TimedSpdp.armTimerNoLater_spdp, TimedSpdp.armTimerNoLater_decided, rfl⟩
      rw [hsame.1, hsame.2.1, hsame.2.2]
      exact h
  · have hnone : (LeaseFrame.spdp f).begins = [] := hf
    rw [Accounted, Threads.spawn_frames, Multiset.add_bind, Multiset.coe_singleton,
      Multiset.singleton_bind, hnone, Multiset.coe_nil, zero_add]
    exact h
  · exact h
  · rw [Accounted, Threads.spawn_frames, Multiset.add_bind, Multiset.coe_singleton,
      Multiset.singleton_bind]
    exact (congrArg _ (zero_add _)).trans h

/-! ### Runs -/

end LeaseMachine

/-- The time of the check that a frame is to make. -/
def LeaseFrame.checksAt : LeaseFrame → Option ℤ
  | spdp (.evict now) => some now
  | _ => none

theorem LeaseFrame.eq_of_checksAt {g : LeaseFrame} {now : ℤ} (h : g.checksAt = some now) :
    g = .spdp (.evict now) := by
  unfold checksAt at h
  split at h
  · cases h
    rfl
  · cases h

namespace LeaseMachine

variable {m m' : LeaseMachine} {i : ℕ} {e : Surroundings} {now : ℤ} {own : Option GuidPrefix}
  {domainId : ℕ} {listening : Listener → Bool}
  {as : List LeaseAction}

/-- What a check at `e.now` made of the participants. -/
structure Checked (e : Surroundings) (s s' : TimedSpdp) : Prop where
  known : ∀ p kp, s.spdp.known.lookup p = some kp → s'.spdp.known.lookup p =
    if kp.expiresNs ≤ e.now then if e.toRemove p then none else some kp
    else if kp.probeDueNs.any (· ≤ e.now) && e.toProbe p then some kp.probed
    else some kp
  retries : ∀ p kp, s.spdp.known.lookup p = some kp → s'.retries p =
    if kp.stalled e p then some (e.now + RETRY_NS) else none
  new : ∀ p, s.spdp.known.lookup p = none → s'.spdp.known.lookup p = none
  probes : ∃ ps : List GuidPrefix, ps.Nodup ∧
    s'.decided = s.decided ++ ps.map (·, e.now + 1000000000) ∧
    ∀ p, p ∈ ps ↔ ∃ kp, s.spdp.known.lookup p = some kp ∧ kp.probeDue e.now ∧ e.toProbe p

theorem checked_of_evict (hnext : m.next i = some (.spdp (.evict now)))
    (hs : m.step (.turn i e) = some m') : Checked { e with now := now } m.shared m'.shared := by
  obtain ⟨g, new, rest, hg, -, hrun, -⟩ :=
    Threads.turn_frames (show m.turn (fun s => s.run e) i = some m' from hs)
  rw [hnext] at hg
  cases hg
  obtain ⟨⟨spdp', new'⟩, hout, heq⟩ := Option.map_eq_some_iff.mp hrun
  obtain ⟨hs', -⟩ := Prod.mk.inj heq
  obtain ⟨hknown, hnew⟩ := SpdpEndpoints.run_evict hout
  have hspdp : m'.shared.spdp = spdp' := by
    rw [← hs']
    exact TimedSpdp.afterFrame_spdp
  refine ⟨fun p kp hkp => ?_, fun p kp hkp => ?_, fun p hp => ?_, ?_⟩
  · rw [hspdp, hknown, hkp, Option.bind_some]
    unfold KnownParticipant.checked KnownParticipant.probeDue KnownParticipant.expired
    by_cases hexp : kp.expiresNs ≤ now
    · cases hmem : e.toRemove p <;> simp [hexp, hmem]
    · simp only [hexp, decide_false, Bool.false_and, Bool.not_false, Bool.true_and,
        Bool.false_eq_true, if_false]
      split <;> rfl
  · rw [← hs']
    change (if (m.shared.spdp.known.lookup p).any (·.stalled { e with now := now } p) then
      some (now + RETRY_NS) else none) = _
    rw [hkp]
    rfl
  · rw [hspdp, hknown, hp]
    rfl
  · refine ⟨m.shared.spdp.toProbe { e with now := now },
      m.shared.spdp.known.keys_nodup.filter _, ?_, ?_⟩
    · rw [← hs', TimedSpdp.afterFrame_decided, hnew]
      simp [SpdpFrame.decides, SpdpFrame.begins]
    · intro p
      constructor
      · intro hp
        obtain ⟨kp, hkp⟩ := SpdpEndpoints.exists_of_mem_toProbe hp
        have hdue := (SpdpEndpoints.mem_toProbe hkp).mp hp
        exact ⟨kp, hkp, Bool.and_eq_true_iff.mp hdue⟩
      · rintro ⟨kp, hkp, hdue⟩
        exact (SpdpEndpoints.mem_toProbe hkp).mpr (Bool.and_eq_true_iff.mpr hdue)

/-- Whenever no fire of the timer is queued or runs, it is armed in time for every participant, or
to retry what the last check could not do for want of memory; a check removes the participants whose
lease has expired and decides to begin the probes that are due, as far as it has memory to note
them; and each probe decided on begins once. -/
theorem leases_checked (h : Run step (fun _ _ => True) (init own domainId listening) as m) :
    (m.shared.firePending = false → m.shared.turn = .idle → m.shared.spdp.known ≠ ∅ →
      ∃ d, m.shared.deadlineNs = some d ∧ ∀ p kp, m.shared.spdp.known.lookup p = some kp →
        match m.shared.retries p with
        | some retry => d ≤ retry
        | none => d ≤ kp.expiresNs ∧ ∀ due, kp.probeDueNs = some due → d ≤ due) ∧
      (∀ i e now m', m.next i = some (.spdp (.evict now)) → m.step (.turn i e) = some m' →
        Checked { e with now := now } m.shared m'.shared) ∧
      m.Accounted := by
  have hwatched : m.shared.Watched := Run.inv (I := fun m => m.shared.Watched) h
    (fun p kp hp => by cases hp) fun _ _ _ hI _ hs => step_watched hI hs
  have haccounted : m.Accounted := h.inv rfl fun _ _ _ hI _ hs => step_accounted hI hs
  refine ⟨fun hpending hidle hknown => ?_, fun _ _ _ _ => checked_of_evict, haccounted⟩
  have hcovered : ∀ p kp, m.shared.spdp.known.lookup p = some kp →
      ∃ d, m.shared.deadlineNs = some d ∧ d ≤ m.shared.bound p kp := by
    intro p kp hp
    rcases hwatched p kp hp with (h | h) | h | ⟨d, h, -⟩
    · rw [hpending] at h
      cases h
    · exact h
    · rw [hidle] at h
      cases h
    · rw [hidle] at h
      cases h
  obtain ⟨p, hp⟩ : ∃ p, p ∈ m.shared.spdp.known := by
    by_contra hnone
    refine hknown (AList.ext (List.eq_nil_iff_forall_not_mem.mpr fun x hx => hnone ⟨x.1, ?_⟩))
    exact List.mem_map_of_mem hx
  obtain ⟨kp, hkp⟩ := Option.isSome_iff_exists.mp (AList.lookup_isSome.mpr hp)
  obtain ⟨d, hd, -⟩ := hcovered p kp hkp
  refine ⟨d, hd, fun q kq hq => ?_⟩
  obtain ⟨d', hd', hle⟩ := hcovered q kq hq
  rw [hd] at hd'
  cases hd'
  unfold TimedSpdp.bound at hle
  split
  next retry hretry => rwa [hretry] at hle
  next hnone =>
    rw [hnone] at hle
    exact KnownParticipant.le_checkDueNs.mp hle

/-- A participant is discovered at 1 ns, and the timer's turn begins at `now`. -/
def silence (now : ℤ) : List LeaseAction :=
  .processSpdpPayload SpdpMachine.peer 1 (some {}) :: List.replicate 5 (.turn 0 { now := 1 }) ++
    [.fire now, .beginTurn, .turn 1 { now := now }]

/-- Silence starts a probe, and the timer is armed for the end of the lease. -/
theorem leases_checked_silence :
    ∃ m, Run step (fun _ _ => True) (init none 0 fun _ => true)
        (silence 5000000001 ++ List.replicate 4 (.turn 1 {})) m ∧
      m.shared.spdp.probes = [(SpdpMachine.peer, 6000000001)] ∧
      m.shared.deadlineNs = some 10000000001 ∧
      (m.shared.firePending = false → m.shared.turn = .idle → m.shared.spdp.known ≠ ∅ →
        ∃ d, m.shared.deadlineNs = some d ∧ ∀ p kp, m.shared.spdp.known.lookup p = some kp →
          match m.shared.retries p with
          | some retry => d ≤ retry
          | none => d ≤ kp.expiresNs ∧ ∀ due, kp.probeDueNs = some due → d ≤ due) := by
  obtain ⟨m, hrun, hprobes, hdeadline⟩ := exists_run_of_exec step (fun _ _ => True)
    (init none 0 fun _ => true) (silence 5000000001 ++ List.replicate 4 (.turn 1 {}))
    (p := fun m => m.shared.spdp.probes = [(SpdpMachine.peer, 6000000001)] ∧
      m.shared.deadlineNs = some 10000000001) (by decide +kernel)
  exact ⟨m, hrun, hprobes, hdeadline, (leases_checked hrun).1⟩

/-- Without memory to note it, a participant whose lease has expired stays until the next check. -/
theorem not_all_expired_removed : ¬ ∀ (as : List LeaseAction) (m m' : LeaseMachine) (i : ℕ)
    (e : Surroundings) (now : ℤ),
    Run step (fun _ _ => True) (init none 0 fun _ => true) as m →
    m.next i = some (.spdp (.evict now)) → m.step (.turn i e) = some m' →
    ∀ p kp, m.shared.spdp.known.lookup p = some kp →
      (m'.shared.spdp.known.lookup p = none ↔ kp.expiresNs ≤ now) := by
  intro hall
  obtain ⟨m, hrun, hnext, hexp, hkept⟩ := exists_run_of_exec step (fun _ _ => True)
    (init none 0 fun _ => true) (silence 10000000001)
    (p := fun m => (m.next 1).bind LeaseFrame.checksAt = some 10000000001 ∧
      (m.shared.spdp.known.lookup SpdpMachine.peer).any (·.expired 10000000001) = true ∧
      (m.step (.turn 1 { toRemove := fun _ => false })).any
        (fun m' => (m'.shared.spdp.known.lookup SpdpMachine.peer).isSome) = true)
    (by decide +kernel)
  obtain ⟨f, hf, hnow⟩ := Option.bind_eq_some_iff.mp hnext
  obtain rfl := LeaseFrame.eq_of_checksAt hnow
  obtain ⟨kp, hkp, hexp⟩ := (Option.any_eq_true _ _).mp hexp
  obtain ⟨m', hs, hkept⟩ := (Option.any_eq_true _ _).mp hkept
  have hgone := (hall _ m m' 1 _ _ hrun hf hs _ kp hkp).mpr (of_decide_eq_true hexp)
  rw [hgone] at hkept
  cases hkept

end LeaseMachine

end Zzdds.Discovery
