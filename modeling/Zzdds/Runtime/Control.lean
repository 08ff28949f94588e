import Zzdds.Runtime.Life

/-! # What the contexts' gates do not guard

The counts of what is in progress and of owners, the runtime's state and its timers: a section under a
context's gate leaves them alone. -/

namespace Zzdds.Core

open Zzdds.Lib

structure Control where
  busy : ℕ
  owners : ℕ
  state : RuntimeState
  heap : List TimerId
  timers : TimerId → Timer
  timerOrder : ℕ

/-- The frames that change what the contexts' gates do not guard. -/
def CoreFrame.steers : CoreFrame → Bool
  | .admission .. | .submitOpen .. | .admitInternal .. | .wake .. | .claim .. | .takeReady .. | .turn .. => false
  | .callback .. | .timerRan .. | .endTurn .. | .onDone .. | .onClosed .. | .hook => false
  | .endedLast | .tryStop | .tryStopBusy | .tryStopWaiting => false
  | .endFire .. | .close .. | .discard .. => false
  | _ => true

/-- An event of a context or a request. -/
def RuntimeEvent.gated : RuntimeEvent → Prop
  | .ready .. | .started .. | .ended .. | .discarded .. | .refused .. | .prepareWait _ | .woken _ => True
  | .closed .. | .onClosed _ => True
  | _ => False

namespace Runtime

variable (s : Runtime) (c : ContextId) (r : RequestId)

def control : Control := ⟨s.busy, s.owners, s.state, s.heap, s.timers, s.timerOrder⟩

@[simp] theorem note_control (e : RuntimeEvent) : (s.note e).control = s.control := rfl

@[simp] theorem setRequest_control (req : Request) : (s.setRequest r req).control = s.control := rfl

@[simp] theorem setContext_control (ctx : Context) : (s.setContext c ctx).control = s.control := rfl

@[simp] theorem appendLocked_control : (s.appendLocked c r).control = s.control := rfl

@[simp] theorem scheduleIfIdleLocked_control : (s.scheduleIfIdleLocked c).control = s.control := by
  rw [scheduleIfIdleLocked]
  split <;> rfl

@[simp] theorem closeIfDrainedLocked_control (ending : Bool) :
    (s.closeIfDrainedLocked c ending).control = s.control := by
  rw [closeIfDrainedLocked]
  split <;> rfl

theorem admission_control (exec : Option ExecutorId) : (s.admission exec c r).1.control = s.control := by
  unfold Runtime.admission
  dsimp only
  split_ifs
  · rfl
  · rfl
  · rfl
  · split
    · rfl
    · simp

theorem admitInternal_control : (s.admitInternal c r).1.control = s.control := by
  unfold Runtime.admitInternal
  dsimp only
  split_ifs <;> simp

theorem wake_control (gen : ℕ) : (s.wake c r gen).control = s.control := by
  unfold Runtime.wake
  dsimp only
  split_ifs
  · rfl
  split
  · rfl
  · exact scheduleIfIdleLocked_control _ c
  · rfl

theorem claim_control (lane : Option Lane) : (s.claim lane c).1.control = s.control := by
  unfold Runtime.claim
  dsimp only
  split <;> simp

theorem settle_control (o : Outcome) : (s.settle c r o).control = s.control := by
  cases o with
  | done => rfl
  | yield => rfl
  | wait => by_cases hw : (s.requests r).wakePending <;> simp only [settle, hw] <;> rfl

theorem endTurn_control (o : Outcome) : (s.endTurn c r o).1.control = s.control := by
  simp [Runtime.endTurn, settle_control]

theorem discard_control : (s.discard c).control = s.control := by
  unfold Runtime.discard
  dsimp only
  rw [closeIfDrainedLocked_control, note_control, setContext_control]
  rfl

variable {s} {s' : Runtime} {ch : Choice} {f : CoreFrame} {new : List CoreFrame}

theorem run_control (hf : CoreFrame.steers f = false) (hrun : s.run ch f = some (s', new)) :
    s'.control = s.control := by
  cases f with
  | submitOpen exec c r =>
    simp only [run] at hrun
    split at hrun <;> cases hrun <;> rfl
  | admission exec c r =>
    obtain ⟨rfl, rfl⟩ := out_eq hrun
    exact admission_control s c r exec
  | admitInternal c r b =>
    obtain ⟨rfl, rfl⟩ := out_eq hrun
    exact admitInternal_control s c r
  | wake c r gen =>
    cases hrun
    exact wake_control s c r gen
  | takeReady lane =>
    simp only [run] at hrun
    split at hrun <;> cases hrun <;> rfl
  | claim lane c =>
    obtain ⟨rfl, rfl⟩ := out_eq hrun
    exact claim_control s c lane
  | turn c r prepared =>
    cases ch with
    | finish o =>
      simp only [run] at hrun
      split at hrun <;> cases hrun
      rfl
    | _ =>
      cases hrun
      rfl
  | callback c t =>
    cases ch <;> cases hrun <;> rfl
  | hook =>
    cases ch <;> cases hrun <;> rfl
  | endTurn c r o =>
    obtain ⟨rfl, rfl⟩ := out_eq hrun
    exact endTurn_control s c r o
  | endFire c =>
    obtain ⟨rfl, rfl⟩ := out_eq hrun
    simp
  | close c =>
    obtain ⟨rfl, rfl⟩ := out_eq hrun
    simp
  | discard c =>
    cases hrun
    exact discard_control s c
  | onDone r => cases hrun; rfl
  | onClosed c => cases hrun; rfl
  | timerRan c t => cases hrun; rfl
  | endedLast => cases hrun; rfl
  | tryStop => cases hrun; rfl
  | tryStopBusy => cases hrun; rfl
  | tryStopWaiting => cases hrun; rfl
  | _ => cases hf

/-! ### What is noted -/

/-- Events noted, and what is said of them. -/
def Adds (p : RuntimeEvent → Prop) (s s' : Runtime) : Prop :=
  ∃ es, s'.history = s.history ++ es ∧ ∀ e ∈ es, p e

section Adds

variable {p : RuntimeEvent → Prop} {c : ContextId} {r : RequestId}

theorem Adds.same (h : s'.history = s.history) : Adds p s s' :=
  ⟨[], by rw [h, List.append_nil], nofun⟩

theorem Adds.note {e : RuntimeEvent} (h : s'.history = s.history ++ [e]) (he : p e) : Adds p s s' :=
  ⟨[e], h, by simpa using he⟩

theorem Adds.trans {s'' : Runtime} (h : Adds p s s') (h' : Adds p s' s'') : Adds p s s'' := by
  obtain ⟨es, hes, hp⟩ := h
  obtain ⟨es', hes', hp'⟩ := h'
  refine ⟨es ++ es', by rw [hes', hes, List.append_assoc], fun e he => ?_⟩
  exact (List.mem_append.mp he).elim (hp e) (hp' e)

theorem Adds.mono {q : RuntimeEvent → Prop} (h : Adds p s s') (hpq : ∀ e, p e → q e) : Adds q s s' := by
  obtain ⟨es, hes, hp⟩ := h
  exact ⟨es, hes, fun e he => hpq e (hp e he)⟩

theorem adds_closeIfDrained (ending : Bool) (hp : p (.closed c ending)) :
    Adds p s (s.closeIfDrainedLocked c ending) := by
  rw [closeIfDrainedLocked]
  split
  · exact .note rfl hp
  · exact .same rfl

theorem adds_admission (exec : Option ExecutorId) : Adds RuntimeEvent.gated s (s.admission exec c r).1 := by
  unfold Runtime.admission
  dsimp only
  split_ifs
  · exact .note rfl trivial
  · exact .note rfl trivial
  · exact .note rfl trivial
  split
  · exact ⟨[.ready c r, .started c r], by simp, by simp [RuntimeEvent.gated]⟩
  · exact .note (e := .ready c r) (by simp) trivial

theorem adds_admitInternal : Adds RuntimeEvent.gated s (s.admitInternal c r).1 := by
  unfold Runtime.admitInternal
  dsimp only
  split_ifs
  · exact .note rfl trivial
  · exact .note rfl trivial
  · exact .note (e := .ready c r) (by simp) trivial

theorem adds_wake (gen : ℕ) : Adds RuntimeEvent.gated s (s.wake c r gen) := by
  unfold Runtime.wake
  dsimp only
  split_ifs
  · exact .same rfl
  split
  · exact .note (e := .woken r) (by simp) trivial
  · exact ⟨[.woken r, .ready c r], by simp, by simp [RuntimeEvent.gated]⟩
  · exact .note (e := .woken r) (by simp) trivial

theorem adds_claim (lane : Option Lane) : Adds RuntimeEvent.gated s (s.claim lane c).1 := by
  unfold Runtime.claim
  dsimp only
  split
  · exact .trans (.same rfl) (adds_closeIfDrained true trivial)
  · exact .note rfl trivial

theorem adds_settle (o : Outcome) : Adds RuntimeEvent.gated s (s.settle c r o) := by
  cases o with
  | done => exact .same rfl
  | yield => exact .note (e := .ready c r) (by simp [settle]) trivial
  | wait =>
    by_cases hw : (s.requests r).wakePending
    · exact .note (e := .ready c r) (by simp [settle, hw]) trivial
    · exact .same (by simp [settle, hw])

theorem adds_endTurn (o : Outcome) : Adds RuntimeEvent.gated s (s.endTurn c r o).1 := by
  refine .trans (adds_settle (c := c) (r := r) o) (.trans ?_ (adds_closeIfDrained true trivial))
  exact .note (e := .ended c r) (by simp) trivial

theorem adds_discard (hdiscarded : ∀ rs, p (.discarded c rs)) (hclosed : p (.closed c false)) :
    Adds p s (s.discard c) := by
  unfold Runtime.discard
  dsimp only
  refine .trans ?_ (adds_closeIfDrained false hclosed)
  exact .note rfl (hdiscarded (s.contexts c).fifo)

end Adds

theorem run_gated (hf : CoreFrame.steers f = false) (hrun : s.run ch f = some (s', new)) :
    Adds RuntimeEvent.gated s s' := by
  cases f with
  | submitOpen exec c r =>
    simp only [run] at hrun
    split at hrun <;> cases hrun
    · exact .same rfl
    · exact .note rfl trivial
  | admission exec c r =>
    obtain ⟨rfl, -⟩ := out_eq hrun
    exact adds_admission exec
  | admitInternal c r b =>
    obtain ⟨rfl, -⟩ := out_eq hrun
    exact adds_admitInternal
  | wake c r gen =>
    cases hrun
    exact adds_wake gen
  | takeReady lane =>
    simp only [run] at hrun
    split at hrun <;> cases hrun <;> exact .same rfl
  | claim lane c =>
    obtain ⟨rfl, -⟩ := out_eq hrun
    exact adds_claim lane
  | turn c r prepared =>
    cases ch with
    | call k =>
      cases hrun
      exact .same rfl
    | prepareWait =>
      cases hrun
      exact .note rfl trivial
    | finish o =>
      simp only [run] at hrun
      split at hrun <;> cases hrun
      exact .same rfl
  | callback c t =>
    cases ch with
    | prepareWait =>
      cases hrun
      exact .note rfl trivial
    | _ =>
      cases hrun
      exact .same rfl
  | endTurn c r o =>
    obtain ⟨rfl, -⟩ := out_eq hrun
    exact adds_endTurn o
  | onClosed c =>
    cases hrun
    exact .note rfl trivial
  | hook =>
    cases ch with
    | prepareWait => cases hrun
    | _ =>
      cases hrun
      exact .same rfl
  | endFire c =>
    obtain ⟨rfl, -⟩ := out_eq hrun
    exact .trans (.same rfl) (adds_closeIfDrained true trivial)
  | close c =>
    cases hrun
    exact .trans (.same rfl) (adds_closeIfDrained false trivial)
  | discard c =>
    cases hrun
    exact adds_discard (fun _ => trivial) trivial
  | _ =>
    first
      | cases hrun
        exact .same rfl
      | cases hf

/-- Only `tryStop` notes that the runtime has stopped. -/
theorem run_adds (hrun : s.run ch f = some (s', new)) :
    Adds (fun e => e = .stopped → f = .tryStopReady) s s' := by
  by_cases hsteers : CoreFrame.steers f = false
  · refine (run_gated hsteers hrun).mono fun e he hst => ?_
    rw [hst] at he
    exact he.elim
  cases f with
  | wakeRequest r gen =>
    simp only [run] at hrun
    obtain ⟨c, -, hrun⟩ := Option.map_eq_some_iff.mp hrun
    cases hrun
    exact .same rfl
  | tryRetainOwner =>
    cases hrun
    split <;> exact .same rfl
  | timerRun c t =>
    simp only [run] at hrun
    split at hrun <;> cases hrun
    · exact .note rfl (by rintro ⟨⟩)
    · exact .same rfl
  | arm t d noLater =>
    cases hrun
    rw [Runtime.arm]
    dsimp only
    split_ifs
    · exact .same rfl
    · exact .same rfl
    · exact .note rfl (by rintro ⟨⟩)
  | cancelTimer t =>
    cases hrun
    exact .note rfl (by rintro ⟨⟩)
  | fireDueTimers now =>
    cases hrun
    exact .note rfl (by rintro ⟨⟩)
  | popDue now =>
    simp only [run] at hrun
    split at hrun
    · cases hrun
      exact .same rfl
    · split at hrun <;> cases hrun
      · exact .same rfl
      · exact .note rfl (by rintro ⟨⟩)
  | tryStopReady =>
    cases hrun
    split
    · exact .note rfl fun _ => rfl
    · exact .same rfl
  | _ =>
    first
      | exact absurd rfl hsteers
      | cases hrun
        exact .same rfl

end Runtime

end Zzdds.Core
