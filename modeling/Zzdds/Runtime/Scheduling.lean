import Zzdds.Lib.Counted
import Zzdds.Runtime.Core

/-! # Contexts take turns

The invariant that joins the requests' placements, the contexts' queues and states, the ready queue
and the threads: what is in the ready queue or being claimed, what runs, and what is queued where. -/

namespace Zzdds.Core

open Zzdds.Lib

/-! ### What the parts of a section change -/

/-- `scheduleIfIdleLocked` of the context alone. -/
def Context.schedule (ctx : Context) : Context :=
  if ctx.execution ≠ .idle ∨ ctx.fifo = [] then ctx else { ctx with execution := .scheduled }

/-- `closeIfDrainedLocked` of the context alone. -/
def Context.closeIfDrained (ctx : Context) : Context :=
  if ctx.drained then { ctx with lifecycle := .closed } else ctx

namespace Context

variable (ctx : Context)

theorem schedule_execution : ctx.schedule.execution =
    if ctx.execution ≠ .idle ∨ ctx.fifo = [] then ctx.execution else .scheduled := by
  rw [schedule]
  split <;> rfl

@[simp] theorem schedule_fifo : ctx.schedule.fifo = ctx.fifo := by
  rw [schedule]
  split <;> rfl

@[simp] theorem schedule_lifecycle : ctx.schedule.lifecycle = ctx.lifecycle := by
  rw [schedule]
  split <;> rfl

@[simp] theorem schedule_waiting : ctx.schedule.waiting = ctx.waiting := by
  rw [schedule]
  split <;> rfl

@[simp] theorem schedule_pending : ctx.schedule.pending = ctx.pending := by
  rw [schedule]
  split <;> rfl

@[simp] theorem schedule_pendingLimit : ctx.schedule.pendingLimit = ctx.pendingLimit := by
  rw [schedule]
  split <;> rfl

@[simp] theorem schedule_onClosed : ctx.schedule.onClosed = ctx.onClosed := by
  rw [schedule]
  split <;> rfl

theorem closeIfDrained_lifecycle (h : ctx.closeIfDrained.lifecycle = .closed) :
    ctx.lifecycle = .closed ∨ ctx.execution = .idle ∧ ctx.waiting = 0 ∧ ctx.fifo = [] := by
  rw [closeIfDrained] at h
  split at h
  next hd =>
    simp only [drained, Bool.and_eq_true, beq_iff_eq, List.isEmpty_iff] at hd
    exact .inr ⟨hd.1.1.1.2, hd.1.2, hd.1.1.2⟩
  next => exact .inl h

@[simp] theorem closeIfDrained_execution : ctx.closeIfDrained.execution = ctx.execution := by
  rw [closeIfDrained]
  split <;> rfl

@[simp] theorem closeIfDrained_fifo : ctx.closeIfDrained.fifo = ctx.fifo := by
  rw [closeIfDrained]
  split <;> rfl

@[simp] theorem closeIfDrained_waiting : ctx.closeIfDrained.waiting = ctx.waiting := by
  rw [closeIfDrained]
  split <;> rfl

@[simp] theorem closeIfDrained_pending : ctx.closeIfDrained.pending = ctx.pending := by
  rw [closeIfDrained]
  split <;> rfl

@[simp] theorem closeIfDrained_pendingLimit : ctx.closeIfDrained.pendingLimit = ctx.pendingLimit := by
  rw [closeIfDrained]
  split <;> rfl

end Context

namespace Runtime

variable {s s' : Runtime} {c : ContextId} {r : RequestId}

section parts

variable (s c r)

@[simp] theorem note_contexts (e : RuntimeEvent) : (s.note e).contexts = s.contexts := rfl

@[simp] theorem note_requests (e : RuntimeEvent) : (s.note e).requests = s.requests := rfl

@[simp] theorem note_ready (e : RuntimeEvent) : (s.note e).ready = s.ready := rfl

@[simp] theorem note_waiting (e : RuntimeEvent) : (s.note e).waiting = s.waiting := rfl

@[simp] theorem setRequest_contexts (req : Request) : (s.setRequest r req).contexts = s.contexts := rfl

@[simp] theorem setRequest_requests (req : Request) :
    (s.setRequest r req).requests = Function.update s.requests r req := rfl

@[simp] theorem setRequest_ready (req : Request) : (s.setRequest r req).ready = s.ready := rfl

@[simp] theorem setRequest_waiting (req : Request) : (s.setRequest r req).waiting = s.waiting := rfl

@[simp] theorem setContext_contexts (ctx : Context) :
    (s.setContext c ctx).contexts = Function.update s.contexts c ctx := rfl

@[simp] theorem setContext_requests (ctx : Context) : (s.setContext c ctx).requests = s.requests := rfl

@[simp] theorem setContext_ready (ctx : Context) : (s.setContext c ctx).ready = s.ready := rfl

@[simp] theorem setContext_waiting (ctx : Context) : (s.setContext c ctx).waiting = s.waiting := rfl

@[simp] theorem appendLocked_contexts : (s.appendLocked c r).contexts =
    Function.update s.contexts c { s.contexts c with fifo := (s.contexts c).fifo ++ [r] } := rfl

@[simp] theorem appendLocked_requests : (s.appendLocked c r).requests =
    Function.update s.requests r { s.requests r with placement := .ready } := rfl

@[simp] theorem appendLocked_ready : (s.appendLocked c r).ready = s.ready := rfl

@[simp] theorem appendLocked_waiting : (s.appendLocked c r).waiting = s.waiting := rfl

@[simp] theorem scheduleIfIdleLocked_contexts : (s.scheduleIfIdleLocked c).contexts =
    Function.update s.contexts c (s.contexts c).schedule := by
  rw [scheduleIfIdleLocked, Context.schedule]
  split
  · rw [Function.update_eq_self]
  · rfl

@[simp] theorem scheduleIfIdleLocked_requests : (s.scheduleIfIdleLocked c).requests = s.requests := by
  rw [scheduleIfIdleLocked]
  split <;> rfl

@[simp] theorem scheduleIfIdleLocked_ready : (s.scheduleIfIdleLocked c).ready =
    if (s.contexts c).execution ≠ .idle ∨ (s.contexts c).fifo = [] then s.ready
    else s.ready ++ [c] := by
  rw [scheduleIfIdleLocked]
  split <;> rfl

@[simp] theorem scheduleIfIdleLocked_waiting : (s.scheduleIfIdleLocked c).waiting = s.waiting := by
  rw [scheduleIfIdleLocked]
  split <;> rfl

@[simp] theorem closeIfDrainedLocked_contexts (ending : Bool) :
    (s.closeIfDrainedLocked c ending).contexts =
      Function.update s.contexts c (s.contexts c).closeIfDrained := by
  rw [closeIfDrainedLocked, Context.closeIfDrained]
  split
  · rfl
  · rw [Function.update_eq_self]

@[simp] theorem closeIfDrainedLocked_requests (ending : Bool) :
    (s.closeIfDrainedLocked c ending).requests = s.requests := by
  rw [closeIfDrainedLocked]
  split <;> rfl

@[simp] theorem closeIfDrainedLocked_ready (ending : Bool) :
    (s.closeIfDrainedLocked c ending).ready = s.ready := by
  rw [closeIfDrainedLocked]
  split <;> rfl

@[simp] theorem closeIfDrainedLocked_waiting (ending : Bool) :
    (s.closeIfDrainedLocked c ending).waiting = s.waiting := by
  rw [closeIfDrainedLocked]
  split <;> rfl

end parts

end Runtime

/-! ### Placements -/

namespace Request

/-- In a placement, of a context. -/
def At (req : Request) (c : ContextId) (p : Placement) : Prop :=
  req.placement = p ∧ req.context = some c

instance (req : Request) (c : ContextId) (p : Placement) : Decidable (req.At c p) :=
  inferInstanceAs (Decidable (_ ∧ _))

/-- Admitted to a context with external credit, and not done. -/
def External (req : Request) (c : ContextId) : Prop :=
  req.context = some c ∧ req.internal = false ∧ req.placement ≠ .new ∧ req.placement ≠ .done

instance (req : Request) (c : ContextId) : Decidable (req.External c) :=
  inferInstanceAs (Decidable (_ ∧ _))

/-- Its context is this one, unless it is not in use. -/
def Home (req : Request) (c : ContextId) : Prop :=
  req.context = some c ∨ req.placement = .new ∨ req.placement = .done

theorem Home.not_at {req : Request} {c c' : ContextId} {p : Placement} (h : req.Home c)
    (hc : c' ≠ c) (hnew : p ≠ .new) (hdone : p ≠ .done) : ¬ req.At c' p := by
  rintro ⟨hp, hc'⟩
  rcases h with h | h | h
  · exact hc (Option.some.inj (hc'.symm.trans h))
  · exact hnew (hp.symm.trans h)
  · exact hdone (hp.symm.trans h)

theorem Home.not_external {req : Request} {c c' : ContextId} (h : req.Home c) (hc : c' ≠ c) :
    ¬ req.External c' :=
  fun hex => h.not_at hc hex.2.2.1 hex.2.2.2 ⟨rfl, hex.1⟩

end Request

/-! ### The invariant -/

/-- What a frame is about to do, or does. -/
inductive Role where
  /-- It has taken a context from the ready queue. -/
  | claim (c : ContextId)
  | turn (c : ContextId)
  | run (c : ContextId) (r : RequestId)
  | wake (c : ContextId) (r : RequestId)
deriving DecidableEq, Repr

def CoreFrame.roles : CoreFrame → List Role
  | .claim _ c => [.claim c]
  | .countTurn c r => [.turn c, .run c r]
  | .turn c r _ => [.turn c, .run c r]
  | .timerRun c t => [.turn c, .run c (.timer t)]
  | .timerRan c t => [.turn c, .run c (.timer t)]
  | .endTurn c r _ => [.turn c, .run c r]
  | .wake c r _ => [.wake c r]
  | _ => []

theorem roles_turnFrame (c : ContextId) (r : RequestId) :
    (turnFrame c r).roles = [.turn c, .run c r] := by
  cases r <;> rfl

theorem roles_frame (k : Call) (inTurn : Bool) : (k.frame inTurn).roles = [] := by
  cases k <;> rfl

theorem Runtime.roles_closingHook (s : Runtime) (c : ContextId) (closed : Bool) :
    (s.closingHook c closed).flatMap CoreFrame.roles = [] := by
  rw [closingHook]
  split <;> rfl

theorem roles_refusedFire (b : Submitter) (r : RequestId) (err : Option SubmitError) :
    (refusedFire b r err).flatMap CoreFrame.roles = [] := by
  unfold refusedFire
  split <;> rfl

/-- The request a frame is about to let in, and the context. -/
def CoreFrame.admits : CoreFrame → Option (ContextId × RequestId)
  | .admission _ c r => some (c, r)
  | .admitInternal c r _ => some (c, r)
  | _ => none

namespace Runtime

variable {s s' : Runtime} {n n' : Role → ℕ} {c : ContextId} {r : RequestId}

structure ContextSched (s : Runtime) (n : Role → ℕ) (c : ContextId) : Prop where
  scheduled : s.ready.count c + n (.claim c) = if (s.contexts c).execution = .scheduled then 1 else 0
  running : n (.turn c) = if (s.contexts c).execution = .running then 1 else 0
  queued : (s.contexts c).fifo ≠ [] → (s.contexts c).execution ≠ .idle
  waiting : Counted (fun r => (s.requests r).At c .waiting) (s.contexts c).waiting
  pending : Counted (fun r => (s.requests r).External c) (s.contexts c).pending
  limit : (s.contexts c).pending ≤ (s.contexts c).pendingLimit
  closed : (s.contexts c).lifecycle = .closed →
    (s.contexts c).execution = .idle ∧ (s.contexts c).waiting = 0

structure RequestSched (s : Runtime) (n : Role → ℕ) (c : ContextId) (r : RequestId) : Prop where
  run : n (.run c r) = if (s.requests r).At c .running then 1 else 0
  fifo : (s.contexts c).fifo.count r = if (s.requests r).At c .ready then 1 else 0
  wake : n (.wake c r) ≠ 0 → (s.requests r).context = some c

structure Sched (s : Runtime) (n : Role → ℕ) : Prop where
  contexts : ∀ c, s.ContextSched n c
  requests : ∀ c r, s.RequestSched n c r
  waiting : Counted (fun r => (s.requests r).placement = .waiting) s.waiting
  placed : ∀ r, (s.requests r).placement ≠ .new → (s.requests r).context ≠ none

/-- A step that changes a context and a request, and leaves them in order. -/
structure Change (s s' : Runtime) (n n' : Role → ℕ) (c : ContextId) (ctx : Context) (r : RequestId)
    (req : Request) : Prop where
  contexts : s'.contexts = Function.update s.contexts c ctx
  requests : s'.requests = Function.update s.requests r req
  ready : ∀ c', c' ≠ c → s'.ready.count c' = s.ready.count c'
  others : ∀ r', r' ≠ r → ctx.fifo.count r' = (s.contexts c).fifo.count r'
  roles : ∀ ρ, ρ ≠ .claim c → ρ ≠ .turn c → ρ ≠ .run c r → ρ ≠ .wake c r → n' ρ = n ρ
  home : req = s.requests r ∨ (s.requests r).Home c ∧ req.Home c
  wakes : ∀ c', n' (.wake c' r) ≠ 0 → req.context = some c'
  scheduled : s'.ready.count c + n' (.claim c) = if ctx.execution = .scheduled then 1 else 0
  running : n' (.turn c) = if ctx.execution = .running then 1 else 0
  queued : ctx.fifo ≠ [] → ctx.execution ≠ .idle
  waiting : ctx.waiting + (if (s.requests r).At c .waiting then 1 else 0) =
    (s.contexts c).waiting + (if req.At c .waiting then 1 else 0)
  pending : ctx.pending + (if (s.requests r).External c then 1 else 0) =
    (s.contexts c).pending + (if req.External c then 1 else 0)
  limit : ctx.pending ≤ ctx.pendingLimit
  closed : ctx.lifecycle = .closed → ctx.execution = .idle ∧ ctx.waiting = 0
  run : n' (.run c r) = if req.At c .running then 1 else 0
  fifo : ctx.fifo.count r = if req.At c .ready then 1 else 0
  allWaiting : s'.waiting + (if (s.requests r).placement = .waiting then 1 else 0) =
    s.waiting + (if req.placement = .waiting then 1 else 0)
  placed : req.placement ≠ .new → req.context ≠ none

namespace Change

variable {ctx : Context} {req : Request} (h : Change s s' n n' c ctx r req)
include h

theorem requests_of_ne {r' : RequestId} (hr : r' ≠ r) : s'.requests r' = s.requests r' := by
  rw [h.requests, Function.update_of_ne hr]

theorem contexts_of_ne {c' : ContextId} (hc : c' ≠ c) : s'.contexts c' = s.contexts c' := by
  rw [h.contexts, Function.update_of_ne hc]

theorem requests_self : s'.requests r = req := by
  rw [h.requests, Function.update_self]

theorem contexts_self : s'.contexts c = ctx := by
  rw [h.contexts, Function.update_self]

theorem at_iff_of_ne {c' : ContextId} (hc : c' ≠ c) {p : Placement} (hnew : p ≠ .new)
    (hdone : p ≠ .done) (r' : RequestId) :
    (s'.requests r').At c' p ↔ (s.requests r').At c' p := by
  by_cases hr : r' = r
  · rw [hr, h.requests_self]
    rcases h.home with heq | ⟨hold, hnew'⟩
    · rw [heq]
    · exact iff_of_false (hnew'.not_at hc hnew hdone) (hold.not_at hc hnew hdone)
  · rw [h.requests_of_ne hr]

theorem external_iff_of_ne {c' : ContextId} (hc : c' ≠ c) (r' : RequestId) :
    (s'.requests r').External c' ↔ (s.requests r').External c' := by
  by_cases hr : r' = r
  · rw [hr, h.requests_self]
    rcases h.home with heq | ⟨hold, hnew⟩
    · rw [heq]
    · exact iff_of_false (hnew.not_external hc) (hold.not_external hc)
  · rw [h.requests_of_ne hr]

end Change

theorem Sched.contexts_of_ne {ctx : Context} {req : Request} (h : s.Sched n)
    (hch : Change s s' n n' c ctx r req) {c' : ContextId} (hc : c' ≠ c) : s'.ContextSched n' c' where
  scheduled := by
    rw [hch.ready c' hc, hch.roles (.claim c') (by simp [hc]) nofun nofun nofun, hch.contexts_of_ne hc]
    exact (h.contexts c').scheduled
  running := by
    rw [hch.roles (.turn c') nofun (by simp [hc]) nofun nofun, hch.contexts_of_ne hc]
    exact (h.contexts c').running
  queued := by
    rw [hch.contexts_of_ne hc]
    exact (h.contexts c').queued
  waiting := by
    rw [hch.contexts_of_ne hc]
    exact (h.contexts c').waiting.congr (hch.at_iff_of_ne hc nofun nofun)
  pending := by
    rw [hch.contexts_of_ne hc]
    exact (h.contexts c').pending.congr (hch.external_iff_of_ne hc)
  limit := by
    rw [hch.contexts_of_ne hc]
    exact (h.contexts c').limit
  closed := by
    rw [hch.contexts_of_ne hc]
    exact (h.contexts c').closed

theorem Sched.contexts_self {ctx : Context} {req : Request} (h : s.Sched n)
    (hch : Change s s' n n' c ctx r req) : s'.ContextSched n' c := by
  have hctx := hch.contexts_self
  have hreq := hch.requests_self
  refine ⟨hctx ▸ hch.scheduled, hctx ▸ hch.running, hctx ▸ hch.queued, ?_, ?_, hctx ▸ hch.limit,
    hctx ▸ hch.closed⟩
  · refine (h.contexts c).waiting.change r (fun r' hr => ?_) ?_
    · rw [hch.requests_of_ne hr]
    · rw [hctx, hreq]
      exact hch.waiting
  · refine (h.contexts c).pending.change r (fun r' hr => ?_) ?_
    · rw [hch.requests_of_ne hr]
    · rw [hctx, hreq]
      exact hch.pending

theorem Sched.requests_of_ne {ctx : Context} {req : Request} (h : s.Sched n)
    (hch : Change s s' n n' c ctx r req) (c' : ContextId) {r' : RequestId} (hr : r' ≠ r) :
    s'.RequestSched n' c' r' where
  run := by
    rw [hch.roles (.run c' r') nofun nofun (by simp [hr]) nofun, hch.requests_of_ne hr]
    exact (h.requests c' r').run
  fifo := by
    have hfifo : (s'.contexts c').fifo.count r' = (s.contexts c').fifo.count r' := by
      by_cases hc : c' = c
      · rw [hc, hch.contexts_self]
        exact hch.others r' hr
      · rw [hch.contexts_of_ne hc]
    rw [hfifo, hch.requests_of_ne hr]
    exact (h.requests c' r').fifo
  wake := by
    rw [hch.roles (.wake c' r') nofun nofun nofun (by simp [hr]), hch.requests_of_ne hr]
    exact (h.requests c' r').wake

theorem Sched.requests_self {ctx : Context} {req : Request} (h : s.Sched n)
    (hch : Change s s' n n' c ctx r req) (c' : ContextId) : s'.RequestSched n' c' r := by
  have hwake : n' (.wake c' r) ≠ 0 → (s'.requests r).context = some c' := by
    rw [hch.requests_self]
    exact hch.wakes c'
  by_cases hc : c' = c
  · subst hc
    refine ⟨?_, ?_, hwake⟩
    · rw [hch.requests_self]
      exact hch.run
    · rw [hch.contexts_self, hch.requests_self]
      exact hch.fifo
  · refine ⟨?_, ?_, hwake⟩
    · rw [hch.roles (.run c' r) nofun nofun (by simp [hc]) nofun, (h.requests c' r).run]
      exact if_congr (hch.at_iff_of_ne hc (by decide) (by decide) r).symm rfl rfl
    · rw [hch.contexts_of_ne hc, (h.requests c' r).fifo]
      exact if_congr (hch.at_iff_of_ne hc (by decide) (by decide) r).symm rfl rfl

theorem Sched.change {ctx : Context} {req : Request} (h : s.Sched n)
    (hch : Change s s' n n' c ctx r req) : s'.Sched n' where
  contexts c' := by
    by_cases hc : c' = c
    · subst hc
      exact h.contexts_self hch
    · exact h.contexts_of_ne hch hc
  requests c' r' := by
    by_cases hr : r' = r
    · subst hr
      exact h.requests_self hch c'
    · exact h.requests_of_ne hch c' hr
  waiting := by
    refine h.waiting.change r (fun r' hr => ?_) ?_
    · rw [hch.requests_of_ne hr]
    · rw [hch.requests_self]
      exact hch.allWaiting
  placed r' := by
    by_cases hr : r' = r
    · rw [hr, hch.requests_self]
      exact hch.placed
    · rw [hch.requests_of_ne hr]
      exact h.placed r'

/-! ### The sections -/

/-- A request that is neither queued nor running is queued, and its context scheduled. -/
theorem Sched.enqueue (req : Request) (waiting pending : ℕ) (h : s.Sched n)
    (hcontexts : s'.contexts = Function.update s.contexts c { s.contexts c with
      waiting := waiting
      pending := pending
      fifo := (s.contexts c).fifo ++ [r] }.schedule)
    (hrequests : s'.requests = Function.update s.requests r { req with placement := .ready })
    (hready : s'.ready = if (s.contexts c).execution ≠ .idle then s.ready else s.ready ++ [c])
    (hopen : (s.contexts c).lifecycle ≠ .closed) (hlimit : pending ≤ (s.contexts c).pendingLimit)
    (hold : (s.requests r).Home c) (hnready : (s.requests r).placement ≠ .ready)
    (hnrunning : (s.requests r).placement ≠ .running) (hreq : req.context = some c)
    (hpending : pending + (if (s.requests r).External c then 1 else 0) =
      (s.contexts c).pending + (if req.internal = false then 1 else 0))
    (hwaiting : waiting + (if (s.requests r).At c .waiting then 1 else 0) = (s.contexts c).waiting)
    (hall : s'.waiting + (if (s.requests r).placement = .waiting then 1 else 0) = s.waiting)
    (hroles : ∀ ρ, ρ ≠ .wake c r → n' ρ = n ρ) (hwake : ∀ c', n' (.wake c' r) ≠ 0 → c' = c) :
    s'.Sched n' := by
  obtain ⟨hsched, hrun, hqueued, -, -, -, hclosed⟩ := h.contexts c
  obtain ⟨hrunr, hfifo, -⟩ := h.requests c r
  refine h.change ⟨hcontexts, hrequests, ?_, ?_, ?_, ?_, ?_, ?_, ?_, ?_, ?_, ?_, ?_, ?_, ?_, ?_, ?_,
    ?_⟩
  all_goals grind [Request.Home, Request.At, Request.External, Context.schedule]

/-- A submitting thread runs the request itself. -/
theorem Sched.inline (req : Request) (h : s.Sched n)
    (hcontexts : s'.contexts = Function.update s.contexts c { s.contexts c with
      pending := (s.contexts c).pending + 1
      execution := .running })
    (hrequests : s'.requests = Function.update s.requests r { req with placement := .running })
    (hready : s'.ready = s.ready) (hopen : (s.contexts c).lifecycle ≠ .closed)
    (hlimit : (s.contexts c).pending < (s.contexts c).pendingLimit)
    (hidle : (s.contexts c).execution = .idle)
    (hold : (s.requests r).placement = .new ∨ (s.requests r).placement = .done)
    (hreq : req.context = some c) (hext : req.internal = false) (hall : s'.waiting = s.waiting)
    (hwake : ∀ c', n (.wake c' r) ≠ 0 → c' = c) : s'.Sched (also [.turn c, .run c r] n) := by
  obtain ⟨hsched, hrun, hqueued, -, -, -, hclosed⟩ := h.contexts c
  obtain ⟨hrunr, hfifo, -⟩ := h.requests c r
  refine h.change ⟨hcontexts, hrequests, ?_, ?_, ?_, ?_, ?_, ?_, ?_, ?_, ?_, ?_, ?_, ?_, ?_, ?_, ?_,
    ?_⟩
  all_goals grind [Request.Home, Request.At, Request.External, also]

/-- A step that leaves the requests as they are. -/
theorem Sched.context {ctx : Context} (h : s.Sched n)
    (hcontexts : s'.contexts = Function.update s.contexts c ctx) (hrequests : s'.requests = s.requests)
    (hready : ∀ c', c' ≠ c → s'.ready.count c' = s.ready.count c')
    (hfifo : ctx.fifo = (s.contexts c).fifo) (hwaiting : ctx.waiting = (s.contexts c).waiting)
    (hpending : ctx.pending = (s.contexts c).pending)
    (hlimit : ctx.pendingLimit = (s.contexts c).pendingLimit) (hall : s'.waiting = s.waiting)
    (hroles : ∀ ρ, ρ ≠ .claim c → ρ ≠ .turn c → n' ρ = n ρ)
    (hsched : s'.ready.count c + n' (.claim c) = if ctx.execution = .scheduled then 1 else 0)
    (hrunning : n' (.turn c) = if ctx.execution = .running then 1 else 0)
    (hqueued : ctx.fifo ≠ [] → ctx.execution ≠ .idle)
    (hclosed : ctx.lifecycle = .closed → ctx.execution = .idle ∧ ctx.waiting = 0) : s'.Sched n' := by
  have hc := h.contexts c
  have hwakes := fun c' => (h.requests c' (.submitted 0)).wake
  have hr := h.requests c (.submitted 0)
  have hch : Change s s' n n' c ctx (.submitted 0) (s.requests (.submitted 0)) := {
    contexts := hcontexts
    requests := by rw [hrequests, Function.update_eq_self]
    ready := hready
    others := fun r' _ => by rw [hfifo]
    roles := fun ρ hclaim hturn _ _ => hroles ρ hclaim hturn
    home := .inl rfl
    wakes := fun c' => by
      rw [hroles (.wake c' _) nofun nofun]
      exact hwakes c'
    scheduled := hsched
    running := hrunning
    queued := hqueued
    waiting := by rw [hwaiting]
    pending := by rw [hpending]
    limit := by
      rw [hpending, hlimit]
      exact hc.limit
    closed := hclosed
    run := by
      rw [hroles (.run c _) nofun nofun]
      exact hr.run
    fifo := by
      rw [hfifo]
      exact hr.fifo
    allWaiting := by rw [hall]
    placed := h.placed (.submitted 0) }
  exact h.change hch

theorem Sched.takeReady (h : s.Sched n) (hcontexts : s'.contexts = s.contexts)
    (hrequests : s'.requests = s.requests) (hc : c ∈ s.ready) (hready : s'.ready = s.ready.erase c)
    (hall : s'.waiting = s.waiting) : s'.Sched (also [.claim c] n) := by
  obtain ⟨hsched, hrunning, hqueued, -, -, -, hclosed⟩ := h.contexts c
  have hself : s'.contexts = Function.update s.contexts c (s.contexts c) := by
    rw [hcontexts, Function.update_eq_self]
  have hpos : 0 < s.ready.count c := List.count_pos_iff.mpr hc
  refine h.context hself hrequests ?_ rfl rfl rfl rfl hall ?_ ?_ ?_ hqueued hclosed
  · intro c' hne
    rw [hready, List.count_erase_of_ne hne]
  · intro ρ hclaim _
    simp [also, hclaim.symm]
  · rw [hready, List.count_erase_self, ← hsched]
    simp only [also, List.count_singleton_self]
    omega
  · rw [← hrunning]
    simp [also]

/-- A claim finds nothing to run. -/
theorem Sched.claim_nil (h : s.Sched (also [.claim c] n)) (hnil : (s.contexts c).fifo = [])
    (hcontexts : s'.contexts = Function.update s.contexts c
      { s.contexts c with execution := .idle }.closeIfDrained)
    (hrequests : s'.requests = s.requests) (hready : s'.ready = s.ready)
    (hall : s'.waiting = s.waiting) : s'.Sched n := by
  obtain ⟨hsched, hrunning, hqueued, -, -, -, hclosed⟩ := h.contexts c
  refine h.context hcontexts hrequests ?_ ?_ ?_ ?_ ?_ hall ?_ ?_ ?_ ?_ ?_
  all_goals grind [Context.closeIfDrained, Context.drained, also]

/-- A claim runs the oldest request. -/
theorem Sched.claim_cons {rest : List RequestId} (h : s.Sched (also [.claim c] n))
    (hcons : (s.contexts c).fifo = r :: rest)
    (hcontexts : s'.contexts = Function.update s.contexts c
      { s.contexts c with fifo := rest, execution := .running })
    (hrequests : s'.requests = Function.update s.requests r
      { s.requests r with placement := .running })
    (hready : s'.ready = s.ready) (hall : s'.waiting = s.waiting) :
    s'.Sched (also [.turn c, .run c r] n) := by
  obtain ⟨hsched, hrunning, hqueued, -, -, hlimit, hclosed⟩ := h.contexts c
  obtain ⟨hrun, hfifo, hwake⟩ := h.requests c r
  have hwakes := fun c' => (h.requests c' r).wake
  refine h.change ⟨hcontexts, hrequests, ?_, ?_, ?_, ?_, ?_, ?_, ?_, ?_, ?_, ?_, ?_, ?_, ?_, ?_, ?_,
    ?_⟩
  all_goals grind [Request.Home, Request.At, Request.External, also]

/-- A turn ends, and its context takes the next one, if it has any. -/
theorem Sched.release (ctx : Context) (req : Request) (h : s.Sched (also [.turn c, .run c r] n))
    (hcontexts : s'.contexts = Function.update s.contexts c
      { ctx with execution := .idle }.schedule.closeIfDrained)
    (hrequests : s'.requests = Function.update s.requests r req)
    (hready : s'.ready = if ctx.fifo = [] then s.ready else s.ready ++ [c])
    (hlifecycle : ctx.lifecycle = (s.contexts c).lifecycle)
    (hlimit : ctx.pendingLimit = (s.contexts c).pendingLimit)
    (hreq : req.context = (s.requests r).context) (hinternal : req.internal = (s.requests r).internal)
    (hplacement : req.placement = .done ∨ req.placement = .ready ∨ req.placement = .waiting)
    (hfifo : ctx.fifo = if req.placement = .ready then (s.contexts c).fifo ++ [r]
      else (s.contexts c).fifo)
    (hwaiting : ctx.waiting = (s.contexts c).waiting + if req.placement = .waiting then 1 else 0)
    (hpending : ctx.pending = if req.placement = .done ∧ req.internal = false then
      (s.contexts c).pending - 1 else (s.contexts c).pending)
    (hall : s'.waiting = s.waiting + if req.placement = .waiting then 1 else 0) : s'.Sched n := by
  obtain ⟨hsched, hrunning, -, -, hcounted, hold, hclosed⟩ := h.contexts c
  obtain ⟨hrun, hcount, hwake⟩ := h.requests c r
  have hwakes := fun c' => (h.requests c' r).wake
  simp only [also, List.count_cons, List.count_nil, beq_iff_eq, reduceCtorEq, if_false, if_true,
    Nat.zero_add, Nat.add_zero] at hsched hrunning hrun hwake hwakes
  have hexec : (s.contexts c).execution = .running := by
    by_contra hne
    rw [if_neg hne] at hrunning
    omega
  have hat : (s.requests r).At c .running := by
    by_contra hat
    rw [if_neg hat] at hrun
    omega
  have hturn : n (.turn c) = 0 := by
    rw [if_pos hexec] at hrunning
    omega
  have hrunr : n (.run c r) = 0 := by
    rw [if_pos hat] at hrun
    omega
  have hclaim : s.ready.count c = 0 ∧ n (.claim c) = 0 := by
    rw [hexec, if_neg (by rintro ⟨⟩)] at hsched
    omega
  have hcount : (s.contexts c).fifo.count r = 0 := by
    rw [hcount, if_neg]
    exact fun h => absurd (hat.1.symm.trans h.1) (by decide)
  have hpos : (s.requests r).internal = false → 0 < (s.contexts c).pending := fun hext =>
    hcounted.pos (a := r) ⟨hat.2, hext, by rw [hat.1]; decide, by rw [hat.1]; decide⟩
  refine h.change ⟨hcontexts, hrequests, ?_, ?_, ?_, ?_, ?_, ?_, ?_, ?_, ?_, ?_, ?_, ?_, ?_, ?_, ?_,
    ?_⟩
  · intro c' hne
    split at hready <;> simp [hready, hne.symm]
  · intro r' hne
    simp only [Context.closeIfDrained_fifo, Context.schedule_fifo]
    split at hfifo <;> simp [hfifo, hne.symm]
  · intro ρ hclaim hturn hrun hwake
    simp [also, hturn.symm, hrun.symm]
  · exact .inr ⟨.inl hat.2, .inl (hreq.trans hat.2)⟩
  · rw [hreq]
    exact hwakes
  · simp only [Context.closeIfDrained_execution, Context.schedule_execution]
    split at hready <;> simp_all
  · simp only [Context.closeIfDrained_execution, Context.schedule_execution]
    split <;> simp_all
  · simp only [Context.closeIfDrained_execution, Context.schedule_execution,
      Context.closeIfDrained_fifo, Context.schedule_fifo]
    split <;> simp_all
  · simp only [Context.closeIfDrained_waiting, Context.schedule_waiting]
    grind [Request.At]
  · simp only [Context.closeIfDrained_pending, Context.schedule_pending]
    grind [Request.At, Request.External]
  · simp only [Context.closeIfDrained_pending, Context.schedule_pending,
      Context.closeIfDrained_pendingLimit, Context.schedule_pendingLimit]
    grind
  · intro hcl
    rcases Context.closeIfDrained_lifecycle _ hcl with hcl | ⟨hidle, hzero, -⟩
    · rw [Context.schedule_lifecycle, hlifecycle] at hcl
      rw [hexec] at hclosed
      exact absurd (hclosed hcl).1 (by decide)
    · rw [Context.closeIfDrained_execution, Context.closeIfDrained_waiting]
      exact ⟨hidle, hzero⟩
  · rw [hrunr, if_neg]
    grind [Request.At]
  · simp only [Context.closeIfDrained_fifo, Context.schedule_fifo]
    grind [Request.At]
  · grind [Request.At]
  · intro _
    rw [hreq, hat.2]
    exact (by rintro ⟨⟩)

/-- The fields of requests and contexts that the invariant is about stay. -/
theorem Sched.still (h : s.Sched n)
    (hrequests : ∀ r, (s'.requests r).placement = (s.requests r).placement ∧
      (s'.requests r).context = (s.requests r).context ∧
        (s'.requests r).internal = (s.requests r).internal)
    (hready : s'.ready = s.ready) (hall : s'.waiting = s.waiting)
    (hexec : ∀ c, (s'.contexts c).execution = (s.contexts c).execution)
    (hfifo : ∀ c, (s'.contexts c).fifo = (s.contexts c).fifo)
    (hwaiting : ∀ c, (s'.contexts c).waiting = (s.contexts c).waiting)
    (hpending : ∀ c, (s'.contexts c).pending = (s.contexts c).pending ∧
      (s'.contexts c).pendingLimit = (s.contexts c).pendingLimit)
    (hclosed : ∀ c, (s'.contexts c).lifecycle = .closed → (s.contexts c).lifecycle = .closed ∨
      (s.contexts c).execution = .idle ∧ (s.contexts c).waiting = 0) : s'.Sched n where
  contexts c := by
    obtain ⟨hsched, hrunning, hqueued, hwait, hpend, hlimit, hcl⟩ := h.contexts c
    refine ⟨?_, ?_, ?_, ?_, ?_, ?_, ?_⟩
    · rw [hready, hexec]
      exact hsched
    · rw [hexec]
      exact hrunning
    · rw [hfifo, hexec]
      exact hqueued
    · rw [hwaiting]
      refine hwait.congr fun r => ?_
      simp only [Request.At, (hrequests r).1, (hrequests r).2.1]
    · rw [(hpending c).1]
      refine hpend.congr fun r => ?_
      simp only [Request.External, (hrequests r).1, (hrequests r).2.1, (hrequests r).2.2]
    · rw [(hpending c).1, (hpending c).2]
      exact hlimit
    · intro hclosed'
      rw [hexec, hwaiting]
      exact (hclosed c hclosed').elim hcl id
  requests c r := by
    obtain ⟨hrun, hcount, hwake⟩ := h.requests c r
    obtain ⟨hplacement, hcontext, -⟩ := hrequests r
    refine ⟨?_, ?_, ?_⟩
    · simp only [Request.At, hplacement, hcontext]
      exact hrun
    · simp only [Request.At, hplacement, hcontext, hfifo]
      exact hcount
    · rw [hcontext]
      exact hwake
  waiting := by
    rw [hall]
    exact h.waiting.congr fun r => by rw [(hrequests r).1]
  placed r := by
    rw [(hrequests r).1, (hrequests r).2.1]
    exact h.placed r

theorem Sched.mem_fifo (h : s.Sched n) (hr : r ∈ (s.contexts c).fifo) :
    (s.requests r).At c .ready := by
  by_contra hat
  have hcount := (h.requests c r).fifo
  rw [if_neg hat] at hcount
  exact List.count_eq_zero.mp hcount hr

theorem Sched.fifo_nodup (h : s.Sched n) (c : ContextId) : (s.contexts c).fifo.Nodup := by
  rw [List.nodup_iff_count_le_one]
  intro r
  rw [(h.requests c r).fifo]
  split <;> omega

theorem discard_contexts (s : Runtime) (c : ContextId) : (s.discard c).contexts =
    Function.update s.contexts c { s.contexts c with
      lifecycle := if (s.contexts c).lifecycle = Lifecycle.opened then .draining else (s.contexts c).lifecycle
      fifo := []
      pending := (s.contexts c).pending -
        (s.contexts c).fifo.countP fun r => !(s.requests r).internal
      execution := if (s.contexts c).execution = Execution.scheduled ∧ c ∈ s.ready then .idle
        else (s.contexts c).execution }.closeIfDrained := by
  simp [discard]

theorem discard_requests (s : Runtime) (c : ContextId) (r : RequestId) :
    (s.discard c).requests r = if r ∈ (s.contexts c).fifo then
      { s.requests r with placement := .done, wakePending := false } else s.requests r := by
  simp [discard]

theorem discard_ready (s : Runtime) (c : ContextId) : (s.discard c).ready =
    if (s.contexts c).execution = .scheduled ∧ c ∈ s.ready then s.ready.erase c else s.ready := by
  simp [discard]

theorem discard_waiting (s : Runtime) (c : ContextId) : (s.discard c).waiting = s.waiting := by
  simp [discard]

theorem Sched.discard_at (h : s.Sched n) {p : Placement} (hready : p ≠ .ready) (hdone : p ≠ .done)
    (r : RequestId) (c' : ContextId) :
    ((s.discard c).requests r).At c' p ↔ (s.requests r).At c' p := by
  rw [discard_requests]
  split
  next hr =>
    refine iff_of_false (fun hat => hdone ?_) fun hat => hready ?_
    · exact (show Placement.done = p from hat.1).symm
    · exact hat.1.symm.trans (h.mem_fifo hr).1
  next => exact Iff.rfl

theorem discard_external (s : Runtime) (c c' : ContextId) (r : RequestId) :
    ((s.discard c).requests r).External c' ↔ r ∉ (s.contexts c).fifo ∧ (s.requests r).External c' := by
  rw [discard_requests]
  split
  next hr => exact iff_of_false (fun hex => hex.2.2.2 rfl) fun hex => hex.1 hr
  next hr => exact (and_iff_right hr).symm

theorem Sched.discard_external_of_ne (h : s.Sched n) {c' : ContextId} (hc : c' ≠ c) (r : RequestId) :
    ((s.discard c).requests r).External c' ↔ (s.requests r).External c' := by
  rw [discard_external]
  refine and_iff_right_of_imp fun hex hr => hc ?_
  exact Option.some.inj (hex.1.symm.trans (h.mem_fifo hr).2)

theorem Sched.discard_self (h : s.Sched n) : (s.discard c).ContextSched n c := by
  obtain ⟨hsched, hrunning, hqueued, hwaiting, hpending, hlimit, hclosed⟩ := h.contexts c
  have hctx : (s.discard c).contexts c = _ := congrFun (discard_contexts s c) c
  rw [Function.update_self] at hctx
  refine ⟨?_, ?_, ?_, ?_, ?_, ?_, ?_⟩
  all_goals rw [hctx]
  all_goals simp only [Context.closeIfDrained_execution, Context.closeIfDrained_fifo,
    Context.closeIfDrained_waiting, Context.closeIfDrained_pending,
    Context.closeIfDrained_pendingLimit]
  · rw [discard_ready]
    split
    next hl =>
      have hpos : 0 < s.ready.count c := List.count_pos_iff.mpr hl.2
      rw [if_pos hl.1] at hsched
      rw [List.count_erase_self, if_neg (by decide)]
      omega
    next => exact hsched
  · split
    next hl =>
      rw [hl.1, if_neg (by decide)] at hrunning
      rw [if_neg (by decide)]
      exact hrunning
    next => exact hrunning
  · exact fun hne => absurd rfl hne
  · exact hwaiting.congr fun r => h.discard_at (by decide) (by decide) r c
  · have hnodup := (h.fifo_nodup c).filter fun r => !(s.requests r).internal
    rw [List.countP_eq_length_filter]
    refine hpending.removeAll hnodup (fun r hr => ?_) fun r => ?_
    · obtain ⟨hr, hext⟩ := List.mem_filter.mp hr
      have hat := h.mem_fifo hr
      exact ⟨hat.2, by simpa using hext, by rw [hat.1]; decide, by rw [hat.1]; decide⟩
    · rw [discard_external, List.mem_filter]
      refine and_congr_left fun hex => ?_
      simp [hex.2.1]
  · omega
  · intro hcl
    rcases Context.closeIfDrained_lifecycle _ hcl with hcl | ⟨hidle, hzero, -⟩
    · simp only at hcl
      split at hcl
      · cases hcl
      · obtain ⟨hidle, hzero⟩ := hclosed hcl
        rw [hidle, if_neg fun hl => absurd hl.1 nofun]
        exact ⟨rfl, hzero⟩
    · exact ⟨hidle, hzero⟩

theorem Sched.discard (h : s.Sched n) (c : ContextId) : (s.discard c).Sched n where
  contexts c' := by
    by_cases hc : c' = c
    · subst hc
      exact h.discard_self
    · obtain ⟨hsched, hrunning, hqueued, hwaiting, hpending, hlimit, hclosed⟩ := h.contexts c'
      have hctx : (s.discard c).contexts c' = s.contexts c' := by
        rw [discard_contexts, Function.update_of_ne hc]
      refine ⟨?_, ?_, ?_, ?_, ?_, ?_, ?_⟩
      all_goals rw [hctx]
      · rw [discard_ready]
        split
        · rw [List.count_erase_of_ne hc]
          exact hsched
        · exact hsched
      · exact hrunning
      · exact hqueued
      · exact hwaiting.congr fun r => h.discard_at (by decide) (by decide) r c'
      · exact hpending.congr (h.discard_external_of_ne hc)
      · exact hlimit
      · exact hclosed
  requests c' r := by
    obtain ⟨hrun, hcount, hwake⟩ := h.requests c' r
    refine ⟨?_, ?_, ?_⟩
    · rw [hrun]
      exact if_congr (h.discard_at (by decide) (by decide) r c').symm rfl rfl
    · rw [discard_contexts, discard_requests]
      by_cases hc : c' = c
      · subst hc
        rw [Function.update_self, Context.closeIfDrained_fifo, List.count_nil]
        split
        next => rw [if_neg fun hat => absurd hat.1 nofun]
        next hr =>
          rw [← hcount]
          exact (List.count_eq_zero.mpr hr).symm
      · rw [Function.update_of_ne hc, hcount]
        by_cases hr : r ∈ (s.contexts c).fifo
        · rw [if_pos hr, if_neg, if_neg]
          · exact fun hat => absurd hat.1 nofun
          · exact fun hat => hc (Option.some.inj (hat.2.symm.trans (h.mem_fifo hr).2))
        · rw [if_neg hr]
    · intro hne
      rw [discard_requests]
      split
      · exact hwake hne
      · exact hwake hne
  waiting := by
    rw [discard_waiting]
    refine h.waiting.congr fun r => ?_
    rw [discard_requests]
    split
    next hr => exact iff_of_false nofun (by rw [(h.mem_fifo hr).1]; decide)
    next => exact Iff.rfl
  placed r := by
    rw [discard_requests]
    split
    next hr =>
      intro _
      dsimp only
      rw [(h.mem_fifo hr).2]
      exact nofun
    next => exact h.placed r

theorem Sched.same (h : s.Sched n) (hrequests : s'.requests = s.requests)
    (hcontexts : s'.contexts = s.contexts) (hready : s'.ready = s.ready)
    (hall : s'.waiting = s.waiting) : s'.Sched n := by
  refine h.still (fun r => ?_) hready hall ?_ ?_ ?_ ?_ ?_
  · rw [hrequests]
    exact ⟨rfl, rfl, rfl⟩
  all_goals intro c; rw [hcontexts]
  · exact ⟨rfl, rfl⟩
  · exact .inl

/-! ### One step -/

theorem Sched.admission {exec : Option ExecutorId} (h : s.Sched n)
    (hwake : ∀ c', n (.wake c' r) ≠ 0 → c' = c) :
    (s.admission exec c r).1.Sched (also ((s.admission exec c r).2.flatMap CoreFrame.roles) n) := by
  unfold Runtime.admission
  dsimp only
  split_ifs with hopen hbusy hlimit
  · rw [List.flatMap_nil, also_nil]
    exact h.same rfl rfl rfl rfl
  · rw [List.flatMap_nil, also_nil]
    exact h.same rfl rfl rfl rfl
  · rw [List.flatMap_nil, also_nil]
    exact h.same rfl rfl rfl rfl
  have hopen : (s.contexts c).lifecycle = .opened := not_not.mp hopen
  have hold : (s.requests r).placement = .new ∨ (s.requests r).placement = .done := by tauto
  have hlimit : (s.contexts c).pending < (s.contexts c).pendingLimit := Nat.lt_of_not_le hlimit
  have hnclosed : (s.contexts c).lifecycle ≠ .closed := by
    rw [hopen]
    decide
  let req := { s.requests r with internal := false, context := some c, wakePending := false }
  split
  next e he =>
    have hidle := of_decide_eq_true (Option.filter_eq_some_iff.mp he).2
    exact h.inline req rfl rfl rfl hnclosed hlimit hidle.2.1 hold rfl rfl rfl hwake
  next =>
    rw [List.flatMap_nil, also_nil]
    refine h.enqueue req (s.contexts c).waiting ((s.contexts c).pending + 1) ?_ ?_ ?_ hnclosed
      (Nat.succ_le_of_lt hlimit) (.inr hold) ?_ ?_ rfl ?_ ?_ ?_ (fun _ _ => rfl) hwake
    · simp
    · simp [req]
    · simp
    · grind
    · grind
    · grind [Request.External]
    · grind [Request.At]
    · simp only [scheduleIfIdleLocked_waiting, appendLocked_waiting, setRequest_waiting,
        setContext_waiting]
      grind

theorem Sched.admitInternal (h : s.Sched n) (hwake : ∀ c', n (.wake c' r) ≠ 0 → c' = c) :
    (s.admitInternal c r).1.Sched n := by
  unfold Runtime.admitInternal
  dsimp only
  split_ifs with hclosed hbusy
  · exact h.same rfl rfl rfl rfl
  · exact h.same rfl rfl rfl rfl
  have hold : (s.requests r).placement = .new ∨ (s.requests r).placement = .done := by tauto
  let req := { s.requests r with internal := true, context := some c, wakePending := false }
  refine h.enqueue req (s.contexts c).waiting (s.contexts c).pending ?_ ?_ ?_ hclosed
    (h.contexts c).limit (.inr hold) ?_ ?_ rfl ?_ ?_ ?_ (fun _ _ => rfl) hwake
  · simp
  · simp [req]
  · simp
  · grind
  · grind
  · grind [Request.External]
  · grind [Request.At]
  · simp only [scheduleIfIdleLocked_waiting, appendLocked_waiting, setRequest_waiting]
    grind

/-- Wakes begin and end. -/
theorem Sched.wakes (h : s.Sched n) (hroles : ∀ ρ, (∀ c r, ρ ≠ .wake c r) → n' ρ = n ρ)
    (hwake : ∀ c r, n' (.wake c r) ≠ 0 → (s.requests r).context = some c) : s.Sched n' where
  contexts c := by
    obtain ⟨hsched, hrunning, hqueued, hwaiting, hpending, hlimit, hclosed⟩ := h.contexts c
    refine ⟨?_, ?_, hqueued, hwaiting, hpending, hlimit, hclosed⟩
    · rw [hroles (.claim c) nofun]
      exact hsched
    · rw [hroles (.turn c) nofun]
      exact hrunning
  requests c r := by
    obtain ⟨hrun, hfifo, -⟩ := h.requests c r
    refine ⟨?_, hfifo, hwake c r⟩
    rw [hroles (.run c r) nofun]
    exact hrun
  waiting := h.waiting
  placed := h.placed

theorem Sched.wake {gen : ℕ} (h : s.Sched (also [.wake c r] n)) : (s.wake c r gen).Sched n := by
  have hc : (s.requests r).context = some c := (h.requests c r).wake (by simp [also])
  have hwake : ∀ c' r', n (.wake c' r') ≠ 0 → (s.requests r').context = some c' := fun c' r' hne =>
    (h.requests c' r').wake (by rw [also]; omega)
  have hn : s.Sched n := h.wakes (fun ρ hρ => by simp [also, (hρ c r).symm]) hwake
  unfold Runtime.wake
  dsimp only
  split_ifs
  · exact hn
  split
  next hrunning =>
    refine hn.still (fun r' => ?_) rfl rfl (fun _ => rfl) (fun _ => rfl) (fun _ => rfl)
      (fun _ => ⟨rfl, rfl⟩) fun _ => .inl
    by_cases hr : r' = r
    · subst hr
      simp
    · simp [Function.update_of_ne hr]
  next hwaiting =>
    have hat : (s.requests r).At c .waiting := ⟨hwaiting, hc⟩
    have hpos := (h.contexts c).waiting.pos (a := r) hat
    have hall := h.waiting.pos (a := r) hwaiting
    refine hn.enqueue { s.requests r with waitGen := (s.requests r).waitGen + 1 }
      ((s.contexts c).waiting - 1) (s.contexts c).pending ?_ ?_ ?_ ?_ (h.contexts c).limit (.inl hc) ?_ ?_
      hc ?_ ?_ ?_ (fun _ _ => rfl) fun c' hne => Option.some.inj ((hwake c' r hne).symm.trans hc)
    · simp
    · simp
    · simp
    · intro hcl
      have hzero := ((h.contexts c).closed hcl).2
      omega
    · simp [hwaiting]
    · simp [hwaiting]
    · grind [Request.External]
    · rw [if_pos hat]
      omega
    · simp [hwaiting]
      omega
  · exact hn.same rfl rfl rfl rfl

theorem Sched.claim {lane : Option Lane} (h : s.Sched (also [.claim c] n)) :
    (s.claim lane c).1.Sched (also ((s.claim lane c).2.flatMap CoreFrame.roles) n) := by
  unfold Runtime.claim
  dsimp only
  split
  next hnil =>
    rw [List.flatMap_cons, List.flatMap_append, roles_closingHook]
    refine (also_nil n).symm ▸ h.claim_nil hnil ?_ ?_ ?_ ?_
    all_goals simp
  next r rest hcons =>
    rw [List.flatMap_singleton, roles_turnFrame]
    refine h.claim_cons hcons ?_ ?_ ?_ ?_
    all_goals simp

theorem settle_contexts (s : Runtime) (c : ContextId) (r : RequestId) (o : Outcome) {c' : ContextId}
    (hc : c' ≠ c) : (s.settle c r o).contexts c' = s.contexts c' := by
  cases o with
  | done => simp [settle, hc]
  | yield => simp [settle, hc]
  | wait => by_cases hw : (s.requests r).wakePending <;> simp [settle, hw, hc]

theorem settle_requests (s : Runtime) (c : ContextId) (r : RequestId) (o : Outcome) {r' : RequestId}
    (hr : r' ≠ r) : (s.settle c r o).requests r' = s.requests r' := by
  cases o with
  | done => simp [settle, hr]
  | yield => simp [settle, hr]
  | wait => by_cases hw : (s.requests r).wakePending <;> simp [settle, hw, hr]

theorem settle_ready (s : Runtime) (c : ContextId) (r : RequestId) (o : Outcome) :
    (s.settle c r o).ready = s.ready := by
  cases o with
  | done => simp [settle]
  | yield => simp [settle]
  | wait => by_cases hw : (s.requests r).wakePending <;> simp [settle, hw]

theorem endTurn_contexts (s : Runtime) (c : ContextId) (r : RequestId) (o : Outcome) :
    (s.endTurn c r o).1.contexts = Function.update s.contexts c
      { (s.settle c r o).contexts c with execution := .idle }.schedule.closeIfDrained := by
  funext c'
  by_cases hc : c' = c
  · subst hc
    simp [Runtime.endTurn]
  · simp [Runtime.endTurn, hc, settle_contexts]

theorem endTurn_requests (s : Runtime) (c : ContextId) (r : RequestId) (o : Outcome) :
    (s.endTurn c r o).1.requests = Function.update s.requests r ((s.settle c r o).requests r) := by
  funext r'
  by_cases hr : r' = r
  · subst hr
    simp [Runtime.endTurn]
  · simp [Runtime.endTurn, hr, settle_requests]

theorem endTurn_ready (s : Runtime) (c : ContextId) (r : RequestId) (o : Outcome) :
    (s.endTurn c r o).1.ready =
      if ((s.settle c r o).contexts c).fifo = [] then s.ready else s.ready ++ [c] := by
  simp [Runtime.endTurn, settle_ready]

theorem endTurn_waiting (s : Runtime) (c : ContextId) (r : RequestId) (o : Outcome) :
    (s.endTurn c r o).1.waiting = (s.settle c r o).waiting := by
  simp [Runtime.endTurn]

theorem roles_endTurn (s : Runtime) (c : ContextId) (r : RequestId) (o : Outcome) :
    (s.endTurn c r o).2.flatMap CoreFrame.roles = [] := by
  unfold Runtime.endTurn
  rw [List.flatMap_cons, List.flatMap_append, roles_closingHook]
  split <;> rfl

theorem Sched.endTurn {o : Outcome} (h : s.Sched (also [.turn c, .run c r] n)) :
    (s.endTurn c r o).1.Sched n := by
  refine h.release _ _ (endTurn_contexts s c r o) (endTurn_requests s c r o) (endTurn_ready s c r o)
    ?_ ?_ ?_ ?_ ?_ ?_ ?_ ?_ ((endTurn_waiting s c r o).trans ?_)
  all_goals cases o with
  | done => cases hi : (s.requests r).internal <;> simp [settle, hi]
  | yield => simp [settle]
  | wait => by_cases hw : (s.requests r).wakePending <;> simp [settle, hw]

/-- A request changes, but not where it is. -/
theorem Sched.setRequest (req : Request) (h : s.Sched n)
    (hrequests : s'.requests = Function.update s.requests r req)
    (hplacement : req.placement = (s.requests r).placement)
    (hcontext : req.context = (s.requests r).context)
    (hinternal : req.internal = (s.requests r).internal) (hcontexts : s'.contexts = s.contexts)
    (hready : s'.ready = s.ready) (hall : s'.waiting = s.waiting) : s'.Sched n := by
  refine h.still (fun r' => ?_) hready hall ?_ ?_ ?_ ?_ ?_
  · rw [hrequests, Function.update_apply]
    split
    next hr =>
      rw [hr]
      exact ⟨hplacement, hcontext, hinternal⟩
    next => exact ⟨rfl, rfl, rfl⟩
  all_goals intro c; rw [hcontexts]
  · exact ⟨rfl, rfl⟩
  · exact .inl

/-- A context's lifecycle changes, or its count of fires on their way. -/
theorem Sched.setContext (c : ContextId) (ctx : Context) (h : s.Sched n)
    (hcontexts : s'.contexts = Function.update s.contexts c ctx) (hrequests : s'.requests = s.requests)
    (hready : s'.ready = s.ready) (hall : s'.waiting = s.waiting)
    (hexec : ctx.execution = (s.contexts c).execution) (hfifo : ctx.fifo = (s.contexts c).fifo)
    (hwaiting : ctx.waiting = (s.contexts c).waiting) (hpending : ctx.pending = (s.contexts c).pending)
    (hlimit : ctx.pendingLimit = (s.contexts c).pendingLimit)
    (hclosed : ctx.lifecycle = .closed → (s.contexts c).lifecycle = .closed ∨
      (s.contexts c).execution = .idle ∧ (s.contexts c).waiting = 0) : s'.Sched n := by
  obtain ⟨hsched, hrunning, hqueued, -, -, -, hcl⟩ := h.contexts c
  refine h.context hcontexts hrequests ?_ hfifo hwaiting hpending hlimit hall (fun _ _ _ => rfl) ?_ ?_ ?_
    ?_
  · intro c' _
    rw [hready]
  · rw [hready, hexec]
    exact hsched
  · rw [hexec]
    exact hrunning
  · rw [hfifo, hexec]
    exact hqueued
  · rw [hexec, hwaiting]
    exact fun h => (hclosed h).elim hcl id

theorem out_eq {α β : Type} {x : α × β} {a : α} {b : β} (h : some x = some (a, b)) :
    a = x.1 ∧ b = x.2 := by
  cases h
  exact ⟨rfl, rfl⟩

theorem Sched.run {ch : Choice} {f : CoreFrame} {new : List CoreFrame} (h : s.Sched (also f.roles n))
    (hok : ∀ c r, f.admits = some (c, r) → ∀ c', n (.wake c' r) ≠ 0 → c' = c)
    (hrun : s.run ch f = some (s', new)) : s'.Sched (also (new.flatMap CoreFrame.roles) n) := by
  cases f with
  | submit exec c r =>
    cases hrun
    exact h.same rfl rfl rfl rfl
  | submitOpen exec c r =>
    simp only [Runtime.run] at hrun
    split at hrun <;> cases hrun
    · exact h.same rfl rfl rfl rfl
    · exact h.same rfl rfl rfl rfl
  | admission exec c r =>
    obtain ⟨rfl, rfl⟩ := out_eq hrun
    rw [show (CoreFrame.admission exec c r).roles = [] from rfl, also_nil] at h
    exact h.admission (hok c r rfl)
  | countTurn c r =>
    cases hrun
    rw [List.flatMap_singleton, roles_turnFrame]
    exact h.same rfl rfl rfl rfl
  | submitInternal c r b =>
    cases hrun
    exact h.same rfl rfl rfl rfl
  | admitInternal c r b =>
    rw [show (CoreFrame.admitInternal c r b).roles = [] from rfl, also_nil] at h
    obtain ⟨rfl, rfl⟩ := out_eq hrun
    rw [List.flatMap_cons, roles_refusedFire]
    exact (also_nil n).symm ▸ h.admitInternal (hok c r rfl)
  | wakeRequest r gen =>
    simp only [Runtime.run] at hrun
    obtain ⟨c, hc, hrun⟩ := Option.map_eq_some_iff.mp hrun
    cases hrun
    rw [show (CoreFrame.wakeRequest r gen).roles = [] from rfl, also_nil] at h
    refine Sched.same (s := s) (h.wakes (fun ρ hρ => ?_) fun c' r' hne => ?_) rfl rfl rfl rfl
    · simp [also, CoreFrame.roles, (hρ c r).symm]
    · by_cases heq : c' = c ∧ r' = r
      · rw [heq.1, heq.2]
        exact hc
      · refine (h.requests c' r').wake fun hzero => hne ?_
        simp only [List.flatMap_cons, CoreFrame.roles, also, List.flatMap_nil, List.append_nil]
        rw [hzero, List.count_singleton, if_neg]
        intro hbeq
        cases eq_of_beq hbeq
        exact heq ⟨rfl, rfl⟩
  | wake c r gen =>
    cases hrun
    exact (also_nil n).symm ▸ h.wake
  | endBusy =>
    simp only [Runtime.run] at hrun
    cases hrun
    split <;> exact h.same rfl rfl rfl rfl
  | endedLast =>
    simp only [Runtime.run] at hrun
    cases hrun
    split <;> exact h
  | releaseOwner =>
    simp only [Runtime.run] at hrun
    cases hrun
    split <;> exact h.same rfl rfl rfl rfl
  | retire =>
    cases hrun
    exact h.same rfl rfl rfl rfl
  | tryRetainOwner =>
    simp only [Runtime.run] at hrun
    cases hrun
    split <;> exact h.same rfl rfl rfl rfl
  | tryStop =>
    simp only [Runtime.run] at hrun
    cases hrun
    split <;> exact h
  | tryStopBusy =>
    simp only [Runtime.run] at hrun
    cases hrun
    split <;> exact h
  | tryStopWaiting =>
    simp only [Runtime.run] at hrun
    cases hrun
    split <;> exact h
  | tryStopReady =>
    simp only [Runtime.run] at hrun
    cases hrun
    split <;> exact h.same rfl rfl rfl rfl
  | runNextIn lane =>
    cases hrun
    exact h.same rfl rfl rfl rfl
  | takeReady lane =>
    simp only [Runtime.run] at hrun
    split at hrun
    · cases hrun
      exact h
    next c ready htake =>
      cases hrun
      rw [takeReadyLocked] at htake
      obtain ⟨c', hfind, heq⟩ := Option.map_eq_some_iff.mp htake
      cases heq
      rw [show (CoreFrame.takeReady lane).roles = [] from rfl, also_nil] at h
      exact h.takeReady rfl rfl (List.mem_of_find?_eq_some hfind) rfl rfl
  | claim lane c =>
    obtain ⟨rfl, rfl⟩ := out_eq hrun
    exact h.claim
  | turn c r prepared =>
    cases ch with
    | call k =>
      cases hrun
      rw [List.flatMap_cons, roles_frame]
      exact h
    | prepareWait =>
      cases hrun
      exact h.setRequest _ rfl rfl rfl rfl rfl rfl rfl
    | finish o =>
      simp only [Runtime.run] at hrun
      split at hrun <;> cases hrun
      exact h
  | timerRun c t =>
    simp only [Runtime.run] at hrun
    split at hrun <;> cases hrun <;> exact h.same rfl rfl rfl rfl
  | callback c t =>
    cases ch with
    | call k =>
      cases hrun
      rw [List.flatMap_cons, roles_frame]
      exact h
    | prepareWait =>
      cases hrun
      exact h.setRequest _ rfl rfl rfl rfl rfl rfl rfl
    | finish o =>
      cases hrun
      exact h
  | timerRan c t =>
    cases hrun
    exact h
  | endTurn c r o =>
    obtain ⟨rfl, rfl⟩ := out_eq hrun
    rw [roles_endTurn, also_nil]
    exact Sched.endTurn h
  | onDone r =>
    cases hrun
    exact h
  | onClosed c =>
    cases hrun
    exact h.same rfl rfl rfl rfl
  | hook =>
    cases ch with
    | call k =>
      cases hrun
      rw [List.flatMap_cons, roles_frame]
      exact h
    | prepareWait => cases hrun
    | finish o =>
      cases hrun
      exact h
  | arm t d noLater =>
    obtain ⟨rfl, rfl⟩ := out_eq hrun
    unfold Runtime.arm
    dsimp only
    split_ifs <;> exact h.same rfl rfl rfl rfl
  | cancelTimer t =>
    cases hrun
    exact h.same rfl rfl rfl rfl
  | fireDueTimers now =>
    cases hrun
    exact h.same rfl rfl rfl rfl
  | popDue now =>
    simp only [Runtime.run] at hrun
    split at hrun
    · cases hrun
      exact h
    · split at hrun <;> cases hrun
      · exact h
      · exact h.setContext _ _ rfl rfl rfl rfl rfl rfl rfl rfl rfl .inl
  | fireClosed t =>
    cases hrun
    exact h.same rfl rfl rfl rfl
  | endFire c =>
    obtain ⟨rfl, rfl⟩ := out_eq hrun
    rw [roles_closingHook]
    refine h.setContext c { s.contexts c with firing := (s.contexts c).firing - 1 }.closeIfDrained (by simp)
      (by simp) (by simp) (by simp) (by simp) (by simp) (by simp) (by simp) (by simp) fun hcl => ?_
    exact (Context.closeIfDrained_lifecycle _ hcl).imp_right fun h => ⟨h.1, h.2.1⟩
  | close c =>
    obtain ⟨rfl, rfl⟩ := out_eq hrun
    let lifecycle := if (s.contexts c).lifecycle = Lifecycle.opened then .draining
      else (s.contexts c).lifecycle
    refine h.setContext c { s.contexts c with lifecycle := lifecycle }.closeIfDrained (by simp [lifecycle])
      (by simp) (by simp) (by simp) (by simp) (by simp) (by simp) (by simp) (by simp) fun hcl => ?_
    refine (Context.closeIfDrained_lifecycle _ hcl).imp (fun h => ?_) fun h => ⟨h.1, h.2.1⟩
    have h : lifecycle = .closed := h
    unfold lifecycle at h
    split at h
    · cases h
    · exact h
  | closeDiscarding c =>
    cases hrun
    exact h.same rfl rfl rfl rfl
  | discard c =>
    cases hrun
    exact h.discard c

end Runtime

end Zzdds.Core
