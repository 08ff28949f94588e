import Zzdds.Runtime.Control

/-! # Armings

What a timer is for: an arming falls due when due timers are fired at or after its deadline, a fire takes
it, and its callback runs once; another arming replaces it, and cancelling ends it.  The history of a
runtime says how far the arming of each timer is. -/

namespace Zzdds.Core

open Zzdds.Lib

structure Arming where
  gen : ℕ
  deadlineNs : ℤ
  /-- Due timers were fired at or after the deadline. -/
  due : Bool := false
  /-- A fire has taken it. -/
  taken : Bool := false
  /-- Its callback has run. -/
  ran : Bool := false
deriving DecidableEq, Repr

namespace Arming

/-- What an event makes of the arming of a timer; none when it must not happen. -/
def next (t : TimerId) (a : Option Arming) : RuntimeEvent → Option (Option Arming)
  | .armed t' gen deadlineNs => some (if t' = t then some { gen, deadlineNs } else a)
  | .cancelled t' => some (if t' = t then none else a)
  | .fireDueTimers now => some (a.map fun a => { a with due := a.due || a.deadlineNs ≤ now })
  | .due t' gen now =>
      if t' ≠ t then some a
      else
        match a with
        | some a =>
            if a.gen = gen ∧ a.deadlineNs ≤ now ∧ a.taken = false then some (some { a with taken := true })
            else none
        | none => none
  | .callback t' gen =>
      if t' ≠ t then some a
      else
        match a with
        | some a =>
            if a.gen = gen ∧ a.taken ∧ a.ran = false then some (some { a with ran := true }) else none
        | none => none
  | _ => some a

/-- The arming of a timer after some events. -/
def after (t : TimerId) (events : List RuntimeEvent) : Option (Option Arming) := events.foldlM (next t) none

theorem after_append {t : TimerId} {events : List RuntimeEvent} {e : RuntimeEvent} {a a' : Option Arming}
    (h : after t events = some a) (he : next t a e = some a') : after t (events ++ [e]) = some a' := by
  rw [after, List.foldlM_append]
  rw [after] at h
  rw [h]
  change (next t a e >>= fun b => some b) = some a'
  rw [he]
  rfl

end Arming

/-- An event that is not a timer's. -/
def RuntimeEvent.untimed : RuntimeEvent → Prop
  | .armed .. | .cancelled _ | .fireDueTimers _ | .due .. | .callback .. => False
  | _ => True

theorem Arming.after_untimed {t : TimerId} {events es : List RuntimeEvent} (hes : ∀ e ∈ es, e.untimed) :
    after t (events ++ es) = after t events := by
  rw [after, List.foldlM_append, ← after]
  cases after t events with
  | none => rfl
  | some a =>
    change es.foldlM (next t) a = some a
    induction es with
    | nil => rfl
    | cons e es ih =>
      rw [List.foldlM_cons]
      have he : next t a e = some a := by
        have := hes e List.mem_cons_self
        cases e <;> first | rfl | exact this.elim
      rw [he]
      exact ih fun e he => hes e (List.mem_cons_of_mem _ he)

/-- The frames that touch timers. -/
def CoreFrame.times : CoreFrame → Bool
  | .retire | .timerRun .. | .arm .. | .cancelTimer _ | .fireDueTimers _ | .popDue _ | .fireClosed _ => true
  | _ => false

namespace Runtime

variable {s s' : Runtime} {ch : Choice} {f : CoreFrame} {new : List CoreFrame} {t : TimerId}
  {c : ContextId} {r : RequestId}

theorem run_untimed (hf : f.times = false) (hrun : s.run ch f = some (s', new)) :
    s'.timers = s.timers ∧ s'.heap = s.heap ∧ Adds RuntimeEvent.untimed s s' := by
  by_cases hsteers : CoreFrame.steers f = false
  · refine ⟨congrArg Control.timers (run_control hsteers hrun),
      congrArg Control.heap (run_control hsteers hrun), (run_gated hsteers hrun).mono fun e he => ?_⟩
    cases e <;> trivial
  cases f with
  | wakeRequest r gen =>
    simp only [run] at hrun
    obtain ⟨c, -, hrun⟩ := Option.map_eq_some_iff.mp hrun
    cases hrun
    exact ⟨rfl, rfl, .same rfl⟩
  | tryRetainOwner =>
    cases hrun
    split <;> exact ⟨rfl, rfl, .same rfl⟩
  | tryStopReady =>
    cases hrun
    split
    · exact ⟨rfl, rfl, .note rfl trivial⟩
    · exact ⟨rfl, rfl, .same rfl⟩
  | _ =>
    first
      | exact absurd rfl hsteers
      | cases hrun
        exact ⟨rfl, rfl, .same rfl⟩
      | cases hf

/-! ### Placements -/

/-- A request is queued or runs. -/
def Live (s : Runtime) (r : RequestId) : Prop :=
  (s.requests r).placement = .ready ∨ (s.requests r).placement = .running

/-- A request stays where it is or is queued or runs, unless its turn ends or it is discarded. -/
theorem run_placement (r : RequestId) (hend : ∀ c o, f ≠ .endTurn c r o)
    (hdiscard : ∀ c, f = .discard c → r ∉ (s.contexts c).fifo) (hrun : s.run ch f = some (s', new)) :
    (s'.requests r).placement = (s.requests r).placement ∨ s'.Live r := by
  have hset : ∀ {s' : Runtime} (r' : RequestId), (∀ r'', r'' ≠ r' → s'.requests r'' = s.requests r'') →
      ((s'.requests r').placement = (s.requests r').placement ∨ s'.Live r') →
        (s'.requests r).placement = (s.requests r).placement ∨ s'.Live r := by
    intro s' r' hne hself
    by_cases hr : r = r'
    · rw [hr]
      exact hself
    · exact .inl (by rw [hne r hr])
  cases f with
  | submitOpen exec c r' =>
    simp only [run] at hrun
    split at hrun <;> cases hrun <;> exact .inl rfl
  | admission exec c r' =>
    obtain ⟨rfl, -⟩ := out_eq hrun
    unfold Runtime.admission
    dsimp only
    split_ifs
    · exact .inl rfl
    · exact .inl rfl
    · exact .inl rfl
    split
    · exact hset r' (fun r'' hr => by simp [hr]) (.inr (.inr (by simp)))
    · exact hset r' (fun r'' hr => by simp [hr]) (.inr (.inl (by simp)))
  | admitInternal c r' b =>
    obtain ⟨rfl, -⟩ := out_eq hrun
    unfold Runtime.admitInternal
    dsimp only
    split_ifs
    · exact .inl rfl
    · exact .inl rfl
    · exact hset r' (fun r'' hr => by simp [hr]) (.inr (.inl (by simp)))
  | wakeRequest r' gen =>
    simp only [run] at hrun
    obtain ⟨c, -, hrun⟩ := Option.map_eq_some_iff.mp hrun
    cases hrun
    exact .inl rfl
  | wake c r' gen =>
    cases hrun
    unfold Runtime.wake
    dsimp only
    split_ifs
    · exact .inl rfl
    split
    · exact hset r' (fun r'' hr => by simp [hr]) (.inl (by simp))
    · exact hset r' (fun r'' hr => by simp [hr]) (.inr (.inl (by simp)))
    · exact .inl rfl
  | tryRetainOwner =>
    cases hrun
    split <;> exact .inl rfl
  | tryStopReady =>
    cases hrun
    split <;> exact .inl rfl
  | takeReady lane =>
    simp only [run] at hrun
    split at hrun <;> cases hrun <;> exact .inl rfl
  | claim lane c =>
    obtain ⟨rfl, -⟩ := out_eq hrun
    unfold Runtime.claim
    dsimp only
    split
    · exact .inl (by simp)
    next r' _ _ => exact hset r' (fun r'' hr => by simp [hr]) (.inr (.inr (by simp)))
  | turn c r' prepared =>
    cases ch with
    | call k =>
      cases hrun
      exact .inl rfl
    | prepareWait =>
      cases hrun
      exact hset r' (fun r'' hr => by simp [hr]) (.inl (by simp))
    | finish o =>
      simp only [run] at hrun
      split at hrun <;> cases hrun
      exact .inl rfl
  | timerRun c t =>
    simp only [run] at hrun
    split at hrun <;> cases hrun <;> exact .inl rfl
  | callback c t =>
    cases ch with
    | prepareWait =>
      cases hrun
      exact hset (.timer t) (fun r'' hr => by simp [hr]) (.inl (by simp))
    | _ =>
      cases hrun
      exact .inl rfl
  | endTurn c r' o =>
    obtain ⟨rfl, -⟩ := out_eq hrun
    have hr : r ≠ r' := fun hr => hend c o (by rw [hr])
    exact .inl (by rw [endTurn_requests, Function.update_of_ne hr])
  | hook =>
    cases ch with
    | prepareWait => cases hrun
    | _ =>
      cases hrun
      exact .inl rfl
  | arm t d noLater =>
    cases hrun
    rw [Runtime.arm]
    dsimp only
    split_ifs <;> exact .inl rfl
  | popDue now =>
    simp only [run] at hrun
    split at hrun
    · cases hrun
      exact .inl rfl
    · split at hrun <;> cases hrun <;> exact .inl rfl
  | endFire c =>
    obtain ⟨rfl, -⟩ := out_eq hrun
    exact .inl (by simp)
  | close c =>
    cases hrun
    exact .inl (by simp)
  | discard c =>
    cases hrun
    exact .inl (by rw [discard_requests, if_neg (hdiscard c rfl)])
  | _ =>
    cases hrun
    exact .inl rfl

end Runtime

end Zzdds.Core
