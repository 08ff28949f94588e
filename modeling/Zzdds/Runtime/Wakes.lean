import Zzdds.Runtime.Life

/-! # No wake is lost

A wake with the current token that comes before the turn has ended is kept for its end, and one that comes
after finds the request waiting: a request woken since it last prepared a wait does not wait. -/

namespace Zzdds.Core

open Zzdds.Lib

/-- Whether a request was woken with the current token since it last prepared a wait. -/
def wokenSince (r : RequestId) (events : List RuntimeEvent) : Bool :=
  events.foldl (fun woken e =>
    match e with
    | .prepareWait r' => if r' = r then false else woken
    | .woken r' => if r' = r then true else woken
    | _ => woken) false

/-- An event that neither prepares a wait nor wakes. -/
def RuntimeEvent.still : RuntimeEvent → Prop
  | .prepareWait _ => False
  | .woken _ => False
  | _ => True

theorem wokenSince_append_still {events es : List RuntimeEvent} (h : ∀ e ∈ es, e.still) (r : RequestId) :
    wokenSince r (events ++ es) = wokenSince r events := by
  induction es using List.reverseRecOn with
  | nil => rw [List.append_nil]
  | append_singleton es e ih =>
    rw [← List.append_assoc, wokenSince, List.foldl_append]
    have he := h e (List.mem_append_right _ (List.mem_singleton.mpr rfl))
    cases e
    case prepareWait => exact he.elim
    case woken => exact he.elim
    all_goals exact ih fun e' he' => h e' (List.mem_append_left _ he')

theorem wokenSince_prepareWait (events : List RuntimeEvent) (r r' : RequestId) :
    wokenSince r (events ++ [.prepareWait r']) = if r' = r then false else wokenSince r events := by
  rw [wokenSince, List.foldl_append]
  rfl

theorem wokenSince_woken (events : List RuntimeEvent) (r r' : RequestId) :
    wokenSince r (events ++ [.woken r']) = if r' = r then true else wokenSince r events := by
  rw [wokenSince, List.foldl_append]
  rfl

/-- The requests whose turn has prepared a wait and not ended otherwise. -/
def CoreFrame.waits : CoreFrame → List RequestId
  | .turn _ r true => [r]
  | .endTurn _ r .wait => [r]
  | _ => []

theorem waits_turnFrame (c : ContextId) (r : RequestId) : (turnFrame c r).waits = [] := by
  cases r <;> rfl

theorem waits_frame (call : Call) (inTurn : Bool) : (call.frame inTurn).waits = [] := by
  cases call <;> rfl

theorem waits_refusedFire (b : Submitter) (r : RequestId) (err : Option SubmitError) :
    (refusedFire b r err).flatMap CoreFrame.waits = [] := by
  unfold refusedFire
  split <;> rfl

theorem waits_closingHook (s : Runtime) (c : ContextId) (closed : Bool) :
    (s.closingHook c closed).flatMap CoreFrame.waits = [] := by
  rw [Runtime.closingHook]
  split <;> rfl

theorem CoreFrame.run_of_waits {f : CoreFrame} {r : RequestId} (h : r ∈ f.waits) :
    ∃ c, .run c r ∈ f.roles := by
  unfold waits at h
  split at h
  next c r' =>
    cases List.mem_singleton.mp h
    exact ⟨c, by simp [roles]⟩
  next c r' =>
    cases List.mem_singleton.mp h
    exact ⟨c, by simp [roles]⟩
  next => cases h

/-- A request whose turn has prepared a wait runs. -/
theorem tally_waits {fs : Multiset CoreFrame} {r : RequestId} (h : tally CoreFrame.waits fs r ≠ 0) :
    ∃ c, tally CoreFrame.roles fs (.run c r) ≠ 0 := by
  obtain ⟨f, hf, hr⟩ := (tally_ne_zero _).mp h
  obtain ⟨c, hc⟩ := f.run_of_waits hr
  exact ⟨c, (tally_ne_zero _).mpr ⟨f, hf, hc⟩⟩

namespace Runtime

variable {s s' : Runtime} {n : Role → ℕ} {w w' : RequestId → ℕ} {c : ContextId} {r : RequestId}

/-- A request woken since it last prepared a wait does not wait, and if it runs it is not going to. -/
structure WokenAt (s : Runtime) (w : RequestId → ℕ) (r : RequestId) : Prop where
  placed : wokenSince r s.history → (s.requests r).placement ≠ .waiting
  pending : wokenSince r s.history → w r ≠ 0 → (s.requests r).wakePending

def Woken (s : Runtime) (w : RequestId → ℕ) : Prop := ∀ r, s.WokenAt w r

theorem WokenAt.still (h : s.WokenAt w r) (hreq : s'.requests r = s.requests r)
    (hsince : wokenSince r s'.history = wokenSince r s.history) (hw : w' r ≠ 0 → w r ≠ 0) :
    s'.WokenAt w' r := by
  refine ⟨?_, ?_⟩
  all_goals rw [hsince, hreq]
  · exact h.placed
  · exact fun hs hne => h.pending hs (hw hne)

theorem Woken.still (es : List RuntimeEvent) (h : s.Woken w) (hreq : s'.requests = s.requests)
    (hhistory : s'.history = s.history ++ es) (hes : ∀ e ∈ es, e.still) : s'.Woken w := fun r =>
  (h r).still (by rw [hreq]) (by rw [hhistory, wokenSince_append_still hes]) id

/-- One request is placed anew. -/
theorem Woken.place (r : RequestId) (es : List RuntimeEvent) (h : s.Woken w)
    (hreq : ∀ r', r' ≠ r → s'.requests r' = s.requests r') (hhistory : s'.history = s.history ++ es)
    (hes : ∀ e ∈ es, e.still) (hplacement : wokenSince r s.history → (s'.requests r).placement ≠ .waiting)
    (hw : w r = 0) : s'.Woken w := by
  intro r'
  by_cases hr : r' = r
  · subst hr
    refine ⟨?_, fun _ hne => absurd hw hne⟩
    rw [hhistory, wokenSince_append_still hes]
    exact hplacement
  · exact (h r').still (hreq r' hr) (by rw [hhistory, wokenSince_append_still hes]) id

theorem Sched.waits_eq_zero (h : s.Sched n) (hw : ∀ r, w r ≠ 0 → ∃ c, n (.run c r) ≠ 0)
    (hr : (s.requests r).placement ≠ .running) : w r = 0 := by
  by_contra hne
  obtain ⟨c, hc⟩ := hw r hne
  rw [(h.requests c r).run] at hc
  exact hc (if_neg fun hat => hr hat.1)

theorem closeIfDrainedLocked_still (s : Runtime) (c : ContextId) (ending : Bool) :
    ∃ es, (s.closeIfDrainedLocked c ending).history = s.history ++ es ∧ ∀ e ∈ es, e.still := by
  refine ⟨_, closeIfDrainedLocked_history s c ending, fun e he => ?_⟩
  split at he
  · cases List.mem_singleton.mp he
    trivial
  · cases he

theorem Woken.admission {exec : Option ExecutorId} (h : s.Woken w)
    (hw : (s.requests r).placement ≠ .running → w r = 0) :
    (s.admission exec c r).1.Woken (also ((s.admission exec c r).2.flatMap CoreFrame.waits) w) := by
  unfold Runtime.admission
  dsimp only
  split_ifs with hopen hbusy hlimit
  · rw [List.flatMap_nil, also_nil]
    exact h.still _ rfl rfl (by simp [RuntimeEvent.still])
  · rw [List.flatMap_nil, also_nil]
    exact h.still _ rfl rfl (by simp [RuntimeEvent.still])
  · rw [List.flatMap_nil, also_nil]
    exact h.still _ rfl rfl (by simp [RuntimeEvent.still])
  have hnone : w r = 0 := hw (by grind)
  split
  · rw [List.flatMap_singleton]
    refine (also_nil w).symm ▸ h.place r [.ready c r, .started c r] (fun r' hr => ?_) (by simp) ?_ ?_ hnone
    · simp [hr]
    · simp [RuntimeEvent.still]
    · simp
  · rw [List.flatMap_nil, also_nil]
    refine h.place r [.ready c r] (fun r' hr => ?_) (by simp) ?_ ?_ hnone
    · simp [hr]
    · simp [RuntimeEvent.still]
    · simp

theorem Woken.admitInternal (h : s.Woken w) (hw : (s.requests r).placement ≠ .running → w r = 0) :
    (s.admitInternal c r).1.Woken w := by
  unfold Runtime.admitInternal
  dsimp only
  split_ifs with hclosed hbusy
  · exact h.still _ rfl rfl (by simp [RuntimeEvent.still])
  · exact h.still _ rfl rfl (by simp [RuntimeEvent.still])
  have hnone : w r = 0 := hw (by grind)
  refine h.place r [.ready c r] (fun r' hr => ?_) (by simp) ?_ ?_ hnone
  · simp [hr]
  · simp [RuntimeEvent.still]
  · simp

theorem Woken.wake {gen : ℕ} (h : s.Woken w) (hw : (s.requests r).placement ≠ .running → w r = 0) :
    (s.wake c r gen).Woken w := by
  unfold Runtime.wake
  dsimp only
  split_ifs
  · exact h
  intro r'
  by_cases hr : r' = r
  · subst hr
    split
    next hrunning =>
      refine ⟨fun _ => ?_, fun _ _ => ?_⟩
      · simp [hrunning]
      · simp
    next hwaiting =>
      refine ⟨fun _ => ?_, fun _ hne => absurd (hw (by rw [hwaiting]; decide)) hne⟩
      simp
    next hnrun hnwait =>
      exact ⟨fun _ => hnwait, fun _ hne => absurd (hw hnrun) hne⟩
  · split
    · refine (h r').still (by simp [hr]) ?_ id
      simp [wokenSince_woken, Ne.symm hr]
    · refine (h r').still (by simp [hr]) ?_ id
      simp only [scheduleIfIdleLocked_history, appendLocked_history, setContext_history,
        setRequest_history, note_history]
      rw [wokenSince_append_still (by simp [RuntimeEvent.still]), wokenSince_woken, if_neg (Ne.symm hr)]
    · refine (h r').still rfl ?_ id
      simp [wokenSince_woken, Ne.symm hr]

theorem Woken.claim {lane : Option Lane} (h : s.Woken w)
    (hw : ∀ r, (s.requests r).placement ≠ .running → w r = 0)
    (hfifo : ∀ r ∈ (s.contexts c).fifo, (s.requests r).placement = .ready) :
    (s.claim lane c).1.Woken (also ((s.claim lane c).2.flatMap CoreFrame.waits) w) := by
  unfold Runtime.claim
  dsimp only
  split
  next =>
    rw [List.flatMap_cons, List.flatMap_append, waits_closingHook]
    obtain ⟨es, hes, hstill⟩ :=
      closeIfDrainedLocked_still (s.setContext c { s.contexts c with execution := .idle }) c true
    exact (also_nil w).symm ▸ h.still es (by simp) hes hstill
  next r rest hcons =>
    have hready := hfifo r (by rw [hcons]; exact List.mem_cons_self)
    rw [List.flatMap_singleton, waits_turnFrame, also_nil]
    refine h.place r [.started c r] (fun r' hr => ?_) (by simp) ?_ ?_ (hw r (by rw [hready]; decide))
    · simp [hr]
    · simp [RuntimeEvent.still]
    · simp

theorem settle_history (s : Runtime) (c : ContextId) (r : RequestId) (o : Outcome) :
    ∃ es, (s.settle c r o).history = s.history ++ es ∧ ∀ e ∈ es, e.still := by
  cases o with
  | done => exact ⟨[], by simp [settle], nofun⟩
  | yield => exact ⟨[.ready c r], by simp [settle], by simp [RuntimeEvent.still]⟩
  | wait =>
    by_cases hw : (s.requests r).wakePending
    · exact ⟨[.ready c r], by simp [settle, hw], by simp [RuntimeEvent.still]⟩
    · exact ⟨[], by simp [settle, hw], nofun⟩

theorem endTurn_history (s : Runtime) (c : ContextId) (r : RequestId) (o : Outcome) :
    ∃ es, (s.endTurn c r o).1.history = s.history ++ es ∧ ∀ e ∈ es, e.still := by
  obtain ⟨es, hes, hstill⟩ := settle_history s c r o
  obtain ⟨es', hes', hstill'⟩ := closeIfDrainedLocked_still
    ((((s.settle c r o).note (.ended c r)).setContext c
      { (s.settle c r o).contexts c with execution := .idle }).scheduleIfIdleLocked c) c true
  refine ⟨es ++ .ended c r :: es', ?_, ?_⟩
  · rw [scheduleIfIdleLocked_history, setContext_history, note_history, hes] at hes'
    rw [Runtime.endTurn]
    simpa using hes'
  · intro e he
    rcases List.mem_append.mp he with he | he
    · exact hstill e he
    · rcases List.mem_cons.mp he with rfl | he
      · trivial
      · exact hstill' e he

theorem Woken.endTurn {o : Outcome} (h : s.Woken (also (CoreFrame.endTurn c r o).waits w))
    (hw : w r = 0) :
    (s.endTurn c r o).1.Woken (also ((s.endTurn c r o).2.flatMap CoreFrame.waits) w) := by
  have hnew : (s.endTurn c r o).2.flatMap CoreFrame.waits = [] := by
    rw [Runtime.endTurn, List.flatMap_cons, List.flatMap_append, waits_closingHook]
    split <;> rfl
  obtain ⟨es, hes, hstill⟩ := endTurn_history s c r o
  have hrest : s.Woken w := fun r' =>
    (h r').still rfl rfl fun hne => by rw [also]; omega
  rw [hnew, also_nil]
  refine hrest.place r es (fun r' hr => ?_) hes hstill (fun hsince => ?_) hw
  · rw [endTurn_requests, Function.update_of_ne hr]
  · rw [endTurn_requests, Function.update_self]
    cases o with
    | done => simp [settle]
    | yield => simp [settle]
    | wait =>
      have hpending := (h r).pending hsince (by simp [also, CoreFrame.waits])
      simp [settle, hpending]

/-- A turn prepares a wait. -/
theorem Woken.prepareWait {req : Request} (h : s.Woken w)
    (hplacement : req.placement = (s.requests r).placement) (hw' : ∀ r', r' ≠ r → w' r' ≠ 0 → w r' ≠ 0) :
    ((s.setRequest r req).note (.prepareWait r)).Woken w' := by
  intro r'
  by_cases hr : r' = r
  · subst hr
    refine ⟨fun hsince => ?_, fun hsince => ?_⟩
    all_goals simp [wokenSince_prepareWait] at hsince
  · refine (h r').still (by simp [hr]) ?_ (hw' r' hr)
    simp [wokenSince_prepareWait, Ne.symm hr]

theorem Woken.discard (h : s.Woken w) (hw : ∀ r, (s.requests r).placement ≠ .running → w r = 0)
    (hfifo : ∀ r ∈ (s.contexts c).fifo, (s.requests r).placement = .ready) : (s.discard c).Woken w := by
  have hhistory : ∃ es, (s.discard c).history = s.history ++ es ∧ ∀ e ∈ es, e.still := by
    unfold Runtime.discard
    dsimp only
    generalize hpre : ((Runtime.setContext _ c _).note (.discarded c (s.contexts c).fifo)) = s₁
    obtain ⟨es, hes, hstill⟩ := closeIfDrainedLocked_still s₁ c false
    refine ⟨.discarded c (s.contexts c).fifo :: es, ?_, ?_⟩
    · rw [hes, ← hpre]
      simp
    · intro e he
      rcases List.mem_cons.mp he with rfl | he
      · trivial
      · exact hstill e he
  obtain ⟨es, hes, hstill⟩ := hhistory
  intro r
  by_cases hr : r ∈ (s.contexts c).fifo
  · have hzero := hw r (by rw [hfifo r hr]; decide)
    refine ⟨fun _ => ?_, fun _ hne => absurd hzero hne⟩
    rw [discard_requests, if_pos hr]
    exact nofun
  · refine (h r).still ?_ (by rw [hes, wokenSince_append_still hstill]) id
    rw [discard_requests, if_neg hr]

/-- No other turn runs the same request. -/
theorem Sched.run_eq_zero_of_run (h : s.Sched (also [.turn c, .run c r] n)) (c' : ContextId) :
    n (.run c' r) = 0 := by
  have hc := (h.requests c r).run
  have hc' := (h.requests c' r).run
  simp only [also, List.count_cons, List.count_nil, beq_iff_eq, reduceCtorEq, if_false, if_true,
    Nat.zero_add] at hc hc'
  have hat : (s.requests r).At c .running := by
    by_contra hat
    rw [if_neg hat] at hc
    omega
  by_cases heq : c' = c
  · subst heq
    rw [if_pos hat] at hc
    omega
  · have hat' : ¬ (s.requests r).At c' .running := fun hat' =>
      heq (Option.some.inj (hat'.2.symm.trans hat.2))
    rw [if_neg hat'] at hc'
    omega

theorem Woken.run {ch : Choice} {f : CoreFrame} {new : List CoreFrame} (hs : s.Sched (also f.roles n))
    (hw : ∀ r, w r ≠ 0 → ∃ c, n (.run c r) ≠ 0) (h : s.Woken (also f.waits w))
    (hrun : s.run ch f = some (s', new)) : s'.Woken (also (new.flatMap CoreFrame.waits) w) := by
  have hidle : ∀ r, (s.requests r).placement ≠ .running → w r = 0 := fun r hr =>
    hs.waits_eq_zero (fun r hne => (hw r hne).imp fun c hc => by rw [also]; omega) hr
  have hfifo : ∀ c, ∀ r ∈ (s.contexts c).fifo, (s.requests r).placement = .ready := fun c r hr =>
    (hs.mem_fifo hr).1
  cases f with
  | submitOpen exec c r =>
    simp only [Runtime.run] at hrun
    split at hrun <;> cases hrun
    · exact h.still [] rfl (List.append_nil _).symm (by rintro _ ⟨⟩)
    · exact h.still [_] rfl rfl (by simp [RuntimeEvent.still])
  | admission exec c r =>
    obtain ⟨rfl, rfl⟩ := out_eq hrun
    exact Woken.admission (also_nil w ▸ h) (hidle r)
  | countTurn c r =>
    cases hrun
    rw [List.flatMap_singleton, waits_turnFrame]
    exact h.still [] rfl (List.append_nil _).symm (by rintro _ ⟨⟩)
  | admitInternal c r b =>
    obtain ⟨rfl, rfl⟩ := out_eq hrun
    rw [List.flatMap_cons, waits_refusedFire]
    exact (also_nil w).symm ▸ Woken.admitInternal (also_nil w ▸ h) (hidle r)
  | wakeRequest r gen =>
    simp only [Runtime.run] at hrun
    obtain ⟨c, hc, hrun⟩ := Option.map_eq_some_iff.mp hrun
    cases hrun
    exact h.still [] rfl (List.append_nil _).symm (by rintro _ ⟨⟩)
  | wake c r gen =>
    cases hrun
    exact (also_nil w).symm ▸ Woken.wake (also_nil w ▸ h) (hidle r)
  | endBusy =>
    cases hrun
    split <;> exact h.still [] rfl (List.append_nil _).symm (by rintro _ ⟨⟩)
  | endedLast =>
    cases hrun
    split <;> exact h
  | releaseOwner =>
    cases hrun
    split <;> exact h.still [] rfl (List.append_nil _).symm (by rintro _ ⟨⟩)
  | tryRetainOwner =>
    simp only [Runtime.run] at hrun
    cases hrun
    split <;> exact h.still [] rfl (List.append_nil _).symm (by rintro _ ⟨⟩)
  | tryStop =>
    cases hrun
    split <;> exact h
  | tryStopBusy =>
    cases hrun
    split <;> exact h
  | tryStopWaiting =>
    cases hrun
    split <;> exact h
  | tryStopReady =>
    simp only [Runtime.run] at hrun
    cases hrun
    split
    · exact h.still [_] rfl rfl (by simp [RuntimeEvent.still])
    · exact h
  | takeReady lane =>
    simp only [Runtime.run] at hrun
    split at hrun <;> cases hrun
    · exact h
    · exact h.still [] rfl (List.append_nil _).symm (by rintro _ ⟨⟩)
  | claim lane c =>
    obtain ⟨rfl, rfl⟩ := out_eq hrun
    exact Woken.claim (also_nil w ▸ h) hidle (hfifo c)
  | turn c r prepared =>
    cases ch with
    | call call =>
      cases hrun
      simp only [List.flatMap_cons, waits_frame, List.flatMap_nil, List.append_nil, List.nil_append]
      exact h
    | prepareWait =>
      cases hrun
      refine h.prepareWait rfl fun r' hr hne => ?_
      simp only [List.flatMap_singleton, CoreFrame.waits, also, List.count_singleton] at hne
      rw [if_neg (by simpa using Ne.symm hr)] at hne
      rw [also]
      omega
    | finish o =>
      simp only [Runtime.run] at hrun
      split at hrun
      · cases hrun
      next hp =>
        cases hrun
        refine fun r' => (h r').still rfl rfl fun hne => ?_
        cases o with
        | wait =>
          cases prepared with
          | true => exact hne
          | false => exact absurd ⟨rfl, rfl⟩ hp
        | _ =>
          have hne : w r' ≠ 0 := also_nil w ▸ hne
          rw [also]
          omega
  | timerRun c t =>
    simp only [Runtime.run] at hrun
    split at hrun <;> cases hrun
    · exact h.still [_] rfl rfl (by simp [RuntimeEvent.still])
    · exact h.still [] rfl (List.append_nil _).symm (by rintro _ ⟨⟩)
  | callback c t =>
    cases ch with
    | call call =>
      cases hrun
      simp only [List.flatMap_cons, waits_frame, List.flatMap_nil, List.append_nil, List.nil_append]
      exact h
    | prepareWait =>
      cases hrun
      exact h.prepareWait rfl fun r' hr hne => hne
    | finish o =>
      cases hrun
      exact h
  | endTurn c r o =>
    obtain ⟨rfl, rfl⟩ := out_eq hrun
    refine Woken.endTurn h ?_
    by_contra hne
    obtain ⟨c', hc'⟩ := hw r hne
    exact hc' (hs.run_eq_zero_of_run c')
  | timerRan c t =>
    cases hrun
    split <;> exact h
  | onClosed c =>
    cases hrun
    exact h.still [_] rfl rfl (by simp [RuntimeEvent.still])
  | hook =>
    cases ch with
    | call call =>
      cases hrun
      simp only [List.flatMap_cons, waits_frame, List.flatMap_nil, List.append_nil, List.nil_append]
      exact h
    | prepareWait => cases hrun
    | finish o =>
      cases hrun
      exact h
  | arm t d noLater =>
    obtain ⟨rfl, rfl⟩ := out_eq hrun
    unfold Runtime.arm
    dsimp only
    split_ifs
    · exact h.still [] rfl (List.append_nil _).symm (by rintro _ ⟨⟩)
    · exact h.still [] rfl (List.append_nil _).symm (by rintro _ ⟨⟩)
    · exact h.still [.armed t _ d] rfl rfl (by simp [RuntimeEvent.still])
  | cancelTimer t =>
    cases hrun
    exact h.still [_] rfl rfl (by simp [RuntimeEvent.still])
  | fireDueTimers now =>
    cases hrun
    exact h.still [_] rfl rfl (by simp [RuntimeEvent.still])
  | popDue now =>
    simp only [Runtime.run] at hrun
    split at hrun
    · cases hrun
      exact h
    · split at hrun <;> cases hrun
      · exact h
      · exact h.still [.due _ _ now] rfl rfl (by simp [RuntimeEvent.still])
  | endFire c =>
    obtain ⟨rfl, rfl⟩ := out_eq hrun
    rw [waits_closingHook]
    obtain ⟨es, hes, hstill⟩ := closeIfDrainedLocked_still
      (s.setContext c { s.contexts c with firing := (s.contexts c).firing - 1 }) c true
    exact h.still es (by simp) hes hstill
  | close c =>
    obtain ⟨rfl, rfl⟩ := out_eq hrun
    obtain ⟨es, hes, hstill⟩ := closeIfDrainedLocked_still (s.setContext c _) c false
    exact h.still es (by simp) hes hstill
  | discard c =>
    cases hrun
    exact (also_nil w).symm ▸ Woken.discard (also_nil w ▸ h) hidle (hfifo c)
  | _ =>
    cases hrun
    exact h.still [] rfl (List.append_nil _).symm (by rintro _ ⟨⟩)

end Runtime

end Zzdds.Core
