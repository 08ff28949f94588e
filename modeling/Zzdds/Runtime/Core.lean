import Mathlib.Data.List.Basic
import Mathlib.Logic.Function.Basic
import Zzdds.Lib.Run
import Zzdds.Lib.Threads

/-! # The runtime core

`core.zig`: contexts that run their requests one turn at a time, the ready queue, timers and
retirement, as threads that share them.  A frame is an atomic operation outside the gates or a section
under a gate; a section under a context's gate includes those under the runtime's gate within it.
What a turn, a callback or a hook does is up to the application: it may call anything.

The links of a context's requests are a list, and so are those of the ready queue; the heap of timers is
a list in the order they are popped.  The generations of timers and waits count without bound and are
compared modulo 2^32.  The backend's wakes, helpers and the clock are left out; `history`, which the
source does not keep, says what happened. -/

namespace Zzdds.Core

open Zzdds.Lib

abbrev ContextId := ℕ

abbrev TimerId := ℕ

abbrev ExecutorId := ℕ

/-- A timer's request is embedded in it. -/
inductive RequestId where
  | submitted (n : ℕ)
  | timer (t : TimerId)
deriving DecidableEq, Repr

inductive Placement where
  | new | ready | running | waiting | done
deriving DecidableEq, Repr

inductive Outcome where
  | done | yield | wait
deriving DecidableEq, Repr

structure Request where
  placement : Placement := .new
  context : Option ContextId := none
  waitGen : ℕ := 0
  wakePending : Bool := false
  /-- Admitted with internal credit. -/
  internal : Bool := false
deriving DecidableEq, Repr

inductive Lifecycle where
  | opened | draining | closed
deriving DecidableEq, Repr

inductive Execution where
  | idle | scheduled | running
deriving DecidableEq, Repr

inductive Lane where
  | internal | listener
deriving DecidableEq, Repr

structure Context where
  lifecycle : Lifecycle := .opened
  execution : Execution := .idle
  fifo : List RequestId := []
  waiting : ℕ := 0
  /-- External requests admitted and not yet done. -/
  pending : ℕ := 0
  pendingLimit : ℕ
  lane : Lane := .internal
  firing : ℕ := 0
  /-- It has a closing hook. -/
  onClosed : Bool := false
deriving DecidableEq, Repr

def Context.drained (ctx : Context) : Bool :=
  ctx.lifecycle == .draining && ctx.execution == .idle && ctx.fifo.isEmpty && ctx.waiting == 0 &&
    ctx.firing == 0

structure Timer where
  context : ContextId
  deadlineNs : ℤ := 0
  order : ℕ := 0
  gen : ℕ := 0
  fireGen : ℕ := 0
  armed : Bool := false
  firePending : Bool := false
deriving DecidableEq, Repr

/-- Generations of 32 bits are the same. -/
def sameGen (a b : ℕ) : Bool := a % 2 ^ 32 == b % 2 ^ 32

/-- The fire submitted last is of the current arming. -/
def Timer.current (t : Timer) : Bool := sameGen t.gen t.fireGen

def Timer.less (a b : Timer) : Bool :=
  a.deadlineNs < b.deadlineNs || (a.deadlineNs == b.deadlineNs && a.order < b.order)

inductive RuntimeState where
  | running | retiring | backendStopped
deriving DecidableEq, Repr

inductive SubmitError where
  | closed | retiring | pendingLimit | busy
deriving DecidableEq, Repr

inductive RuntimeEvent where
  | ready (c : ContextId) (r : RequestId)
  | started (c : ContextId) (r : RequestId)
  /-- A turn. -/
  | ended (c : ContextId) (r : RequestId)
  | discarded (c : ContextId) (rs : List RequestId)
  | refused (r : RequestId) (e : SubmitError)
  | prepareWait (r : RequestId)
  /-- A wake with the current token. -/
  | woken (r : RequestId)
  | stopped
  /-- A context was closed, by the end of a turn, claim or fire or else by its owner. -/
  | closed (c : ContextId) (ending : Bool)
  | onClosed (c : ContextId)
  | armed (t : TimerId) (gen : ℕ) (deadlineNs : ℤ)
  | cancelled (t : TimerId)
  | fireDueTimers (now : ℤ)
  | due (t : TimerId) (gen : ℕ) (now : ℤ)
  | callback (t : TimerId) (gen : ℕ)
deriving DecidableEq, Repr

structure Runtime where
  requests : RequestId → Request := fun _ => {}
  contexts : ContextId → Context
  timers : TimerId → Timer
  ready : List ContextId := []
  heap : List TimerId := []
  timerOrder : ℕ := 0
  inlineLeft : ExecutorId → ℕ
  /-- Admissions and turns in progress. -/
  busy : ℕ := 0
  /-- Requests waiting, in all contexts. -/
  waiting : ℕ := 0
  owners : ℕ := 1
  state : RuntimeState := .running
  history : List RuntimeEvent := []

namespace Runtime

variable (s : Runtime)

def setRequest (r : RequestId) (req : Request) : Runtime :=
  { s with requests := Function.update s.requests r req }

def setContext (c : ContextId) (ctx : Context) : Runtime :=
  { s with contexts := Function.update s.contexts c ctx }

def setTimer (t : TimerId) (timer : Timer) : Runtime :=
  { s with timers := Function.update s.timers t timer }

def note (e : RuntimeEvent) : Runtime := { s with history := s.history ++ [e] }

def appendLocked (c : ContextId) (r : RequestId) : Runtime :=
  ((s.setRequest r { s.requests r with placement := .ready }).setContext c
    { s.contexts c with fifo := (s.contexts c).fifo ++ [r] }).note (.ready c r)

def scheduleIfIdleLocked (c : ContextId) : Runtime :=
  let ctx := s.contexts c
  if ctx.execution ≠ .idle ∨ ctx.fifo = [] then s
  else { s.setContext c { ctx with execution := .scheduled } with ready := s.ready ++ [c] }

/-- Close the context if it is drained. -/
def closeIfDrainedLocked (c : ContextId) (ending : Bool) : Runtime :=
  if (s.contexts c).drained then
    (s.setContext c { s.contexts c with lifecycle := .closed }).note (.closed c ending)
  else s

/-- The oldest ready context of a lane, and the rest. -/
def takeReadyLocked (lane : Option Lane) : Option (ContextId × List ContextId) :=
  (s.ready.find? fun c => lane.all (· == (s.contexts c).lane)).map fun c => (c, s.ready.erase c)

/-- The place of a timer in the heap. -/
def insertTimer (t : TimerId) : List TimerId → List TimerId
  | [] => [t]
  | t' :: heap =>
      if (s.timers t).less (s.timers t') then t :: t' :: heap else t' :: insertTimer t heap

end Runtime

/-! ### Frames -/

/-- What an application calls. -/
inductive Call where
  | submit (exec : Option ExecutorId) (c : ContextId) (r : RequestId)
  | submitInternal (c : ContextId) (r : RequestId)
  | wakeRequest (r : RequestId) (gen : ℕ)
  | runNextIn (lane : Option Lane)
  | fireDueTimers (now : ℤ)
  | arm (t : TimerId) (deadlineNs : ℤ) (noLater : Bool)
  | cancelTimer (t : TimerId)
  | close (c : ContextId)
  | closeDiscarding (c : ContextId)
  | releaseOwner
  | tryRetainOwner
  | tryStop
deriving DecidableEq, Repr

/-- Who submits internal work. -/
inductive Submitter where
  | turn | owner | fire
deriving DecidableEq, Repr

inductive CoreFrame where
  | submit (exec : Option ExecutorId) (c : ContextId) (r : RequestId)
  | submitOpen (exec : Option ExecutorId) (c : ContextId) (r : RequestId)
  | admission (exec : Option ExecutorId) (c : ContextId) (r : RequestId)
  /-- A turn on the submitting thread is counted. -/
  | countTurn (c : ContextId) (r : RequestId)
  | submitInternal (c : ContextId) (r : RequestId) (by_ : Submitter)
  | admitInternal (c : ContextId) (r : RequestId) (by_ : Submitter)
  | wakeRequest (r : RequestId) (gen : ℕ)
  | wake (c : ContextId) (r : RequestId) (gen : ℕ)
  | endBusy
  /-- The last admission or turn has ended. -/
  | endedLast
  | releaseOwner
  | retire
  | tryRetainOwner
  | tryStop
  | tryStopBusy
  | tryStopWaiting
  | tryStopReady
  | runNextIn (lane : Option Lane)
  | takeReady (lane : Option Lane)
  | claim (lane : Option Lane) (c : ContextId)
  /-- A turn of a submitted request; whether it has prepared a wait. -/
  | turn (c : ContextId) (r : RequestId) (prepared : Bool)
  | timerRun (c : ContextId) (t : TimerId)
  | callback (c : ContextId) (t : TimerId)
  | timerRan (c : ContextId) (t : TimerId)
  | endTurn (c : ContextId) (r : RequestId) (o : Outcome)
  | onDone (r : RequestId)
  | onClosed (c : ContextId)
  /-- In a hook. -/
  | hook
  | arm (t : TimerId) (deadlineNs : ℤ) (noLater : Bool)
  | cancelTimer (t : TimerId)
  | fireDueTimers (now : ℤ)
  | popDue (now : ℤ)
  /-- A fire found its context closed. -/
  | fireClosed (t : TimerId)
  | endFire (c : ContextId)
  | close (c : ContextId)
  | closeDiscarding (c : ContextId)
  | discard (c : ContextId)

def Call.frame (inTurn : Bool) : Call → CoreFrame
  | submit exec c r => .submit exec c r
  | submitInternal c r => .submitInternal c r (if inTurn then .turn else .owner)
  | wakeRequest r gen => .wakeRequest r gen
  | runNextIn lane => .runNextIn lane
  | fireDueTimers now => .fireDueTimers now
  | arm t d noLater => .arm t d noLater
  | cancelTimer t => .cancelTimer t
  | close c => .close c
  | closeDiscarding c => .closeDiscarding c
  | releaseOwner => .releaseOwner
  | tryRetainOwner => .tryRetainOwner
  | tryStop => .tryStop

/-- What a thread in the application's code does next. -/
inductive Choice where
  | call (k : Call)
  | prepareWait
  | finish (o : Outcome)

/-- What runs a request's turn. -/
def turnFrame (c : ContextId) : RequestId → CoreFrame
  | .submitted n => .turn c (.submitted n) false
  | .timer t => .timerRun c t

/-- What a fire does behind its submission. -/
def refusedFire : Submitter → RequestId → Option SubmitError → List CoreFrame
  | .fire, .timer t, some .closed => [.fireClosed t]
  | _, _, _ => []

namespace Runtime

variable (s : Runtime)

/-- The hook of a context, if it was closed and has one. -/
def closingHook (c : ContextId) (closed : Bool) : List CoreFrame :=
  if closed && (s.contexts c).onClosed then [.onClosed c] else []

/-- Whether `closeIfDrainedLocked` closes the context. -/
def drained (c : ContextId) : Bool := (s.contexts c).drained

/-- The section of `submit` under the context's gate. -/
def admission (exec : Option ExecutorId) (c : ContextId) (r : RequestId) : Runtime × List CoreFrame :=
  let ctx := s.contexts c
  let req := s.requests r
  if ctx.lifecycle ≠ .opened then (s.note (.refused r .closed), [])
  else if req.placement ≠ .new ∧ req.placement ≠ .done then (s.note (.refused r .busy), [])
  else if ctx.pendingLimit ≤ ctx.pending then (s.note (.refused r .pendingLimit), [])
  else
    let ctx := { ctx with pending := ctx.pending + 1 }
    let req := { req with internal := false, context := some c, wakePending := false }
    match exec.filter fun e => decide (0 < s.inlineLeft e ∧ ctx.execution = .idle ∧ ctx.fifo = []) with
    | some e =>
        ((({ s with inlineLeft := Function.update s.inlineLeft e (s.inlineLeft e - 1) }.setContext c
          { ctx with execution := .running }).setRequest r { req with placement := .running }).note
            (.ready c r)).note (.started c r) |> (·, [.countTurn c r])
    | none =>
        (((s.setContext c ctx).setRequest r req).appendLocked c r |>.scheduleIfIdleLocked c, [])

/-- The section of `submitInternal` under the context's gate. -/
def admitInternal (c : ContextId) (r : RequestId) : Runtime × Option SubmitError :=
  let req := s.requests r
  if (s.contexts c).lifecycle = .closed then (s.note (.refused r .closed), some .closed)
  else if req.placement ≠ .new ∧ req.placement ≠ .done then (s.note (.refused r .busy), some .busy)
  else
    (((s.setRequest r { req with internal := true, context := some c, wakePending := false }).appendLocked
      c r).scheduleIfIdleLocked c, none)

/-- The section of `wakeRequest` under the context's gate. -/
def wake (c : ContextId) (r : RequestId) (gen : ℕ) : Runtime :=
  let req := s.requests r
  if !sameGen gen req.waitGen then s
  else
    let s := s.note (.woken r)
    match req.placement with
    | .running => s.setRequest r { req with wakePending := true }
    | .waiting =>
        let ctx := s.contexts c
        let s := ((s.setRequest r { req with waitGen := req.waitGen + 1 }).setContext c
          { ctx with waiting := ctx.waiting - 1 }).appendLocked c r
        { s.scheduleIfIdleLocked c with waiting := s.waiting - 1 }
    | _ => s

/-- The section of `runNextIn` that claims a context. -/
def claim (lane : Option Lane) (c : ContextId) : Runtime × List CoreFrame :=
  let ctx := s.contexts c
  match ctx.fifo with
  | [] =>
      -- what was queued was discarded meanwhile
      let s := s.setContext c { ctx with execution := .idle }
      (s.closeIfDrainedLocked c true,
        .endBusy :: (s.closingHook c (s.drained c) ++ [.runNextIn lane]))
  | r :: rest =>
      (((s.setContext c { ctx with fifo := rest, execution := .running }).setRequest r
        { s.requests r with placement := .running }).note (.started c r), [turnFrame c r])

/-- What the end of a turn does with its request. -/
def settle (c : ContextId) (r : RequestId) : Outcome → Runtime
  | .done =>
      let req := s.requests r
      let ctx := s.contexts c
      (s.setRequest r { req with placement := .done, wakePending := false }).setContext c
        { ctx with pending := if req.internal then ctx.pending else ctx.pending - 1 }
  | .yield => s.appendLocked c r
  | .wait =>
      let req := s.requests r
      let ctx := s.contexts c
      if req.wakePending then
        (s.setRequest r { req with wakePending := false, waitGen := req.waitGen + 1 }).appendLocked c r
      else
        { (s.setRequest r { req with placement := .waiting }).setContext c
            { ctx with waiting := ctx.waiting + 1 } with
          waiting := s.waiting + 1 }

/-- The section of `runTurn` behind the turn. -/
def endTurn (c : ContextId) (r : RequestId) (o : Outcome) : Runtime × List CoreFrame :=
  let s := (s.settle c r o).note (.ended c r)
  let s := (s.setContext c { s.contexts c with execution := .idle }).scheduleIfIdleLocked c
  (s.closeIfDrainedLocked c true,
    .endBusy :: ((if o = .done then [.onDone r] else []) ++ s.closingHook c (s.drained c)))

/-- The section of `closeDiscarding`. -/
def discard (c : ContextId) : Runtime :=
  let ctx := s.contexts c
  let lifecycle := if ctx.lifecycle = .opened then .draining else ctx.lifecycle
  let linked := ctx.execution = .scheduled ∧ c ∈ s.ready
  let pending := ctx.pending - ctx.fifo.countP fun r => !(s.requests r).internal
  let s' : Runtime :=
    { s with
      requests := fun r =>
        if r ∈ ctx.fifo then { s.requests r with placement := .done, wakePending := false }
        else s.requests r
      ready := if linked then s.ready.erase c else s.ready }
  ((s'.setContext c { ctx with
    lifecycle := lifecycle
    fifo := []
    pending := pending
    execution := if linked then .idle else ctx.execution }).note
      (.discarded c ctx.fifo)).closeIfDrainedLocked c false

/-- The section of `arm`. -/
def arm (t : TimerId) (deadlineNs : ℤ) (noLater : Bool) : Runtime :=
  let timer := s.timers t
  if s.state ≠ .running then s
  else if noLater && (timer.firePending && timer.current ||
      timer.armed && timer.deadlineNs ≤ deadlineNs) then s
  else
    let s := { s.setTimer t { timer with
      gen := timer.gen + 1
      deadlineNs := deadlineNs
      order := s.timerOrder
      armed := true } with timerOrder := s.timerOrder + 1 }
    { s with heap := s.insertTimer t (s.heap.erase t) }.note (.armed t (timer.gen + 1) deadlineNs)

def cancelTimer (t : TimerId) : Runtime :=
  let timer := s.timers t
  { s.setTimer t { timer with gen := timer.gen + 1, armed := false } with
    heap := s.heap.erase t }.note (.cancelled t)

/-- Run a frame; none when the application does not do so. -/
def run (ch : Choice) (s : Runtime) : CoreFrame → Option (Runtime × List CoreFrame)
  | .submit exec c r => some ({ s with busy := s.busy + 1 }, [.submitOpen exec c r, .endBusy])
  | .submitOpen exec c r =>
      if s.state = .running then some (s, [.admission exec c r])
      else some (s.note (.refused r .retiring), [])
  | .admission exec c r => some (s.admission exec c r)
  | .countTurn c r => some ({ s with busy := s.busy + 1 }, [turnFrame c r])
  | .submitInternal c r b => some ({ s with busy := s.busy + 1 }, [.admitInternal c r b])
  | .admitInternal c r b =>
      some ((s.admitInternal c r).1, .endBusy :: refusedFire b r (s.admitInternal c r).2)
  | .wakeRequest r gen =>
      (s.requests r).context.map fun c =>
        ({ s with busy := s.busy + 1 }, [.wake c r gen, .endBusy])
  | .wake c r gen => some (s.wake c r gen, [])
  | .endBusy => some ({ s with busy := s.busy - 1 }, if s.busy = 1 then [.endedLast] else [])
  | .endedLast => some (s, if s.state = .retiring then [.tryStop] else [])
  | .releaseOwner => some ({ s with owners := s.owners - 1 }, if s.owners = 1 then [.retire] else [])
  | .retire =>
      some ({ s with
        state := .retiring
        timers := fun t => if t ∈ s.heap then { s.timers t with
          armed := false
          gen := (s.timers t).gen + 1 } else s.timers t
        heap := [] }, [.tryStop])
  | .tryRetainOwner => some (if s.owners = 0 then s else { s with owners := s.owners + 1 }, [])
  | .tryStop => some (s, if s.state = .retiring then [.tryStopBusy] else [])
  | .tryStopBusy => some (s, if s.busy = 0 then [.tryStopWaiting] else [])
  | .tryStopWaiting => some (s, if s.waiting = 0 then [.tryStopReady] else [])
  | .tryStopReady =>
      some (if s.ready = [] ∧ s.state = .retiring then { s with state := .backendStopped }.note .stopped
        else s, [])
  | .runNextIn lane => some ({ s with busy := s.busy + 1 }, [.takeReady lane])
  | .takeReady lane =>
      match s.takeReadyLocked lane with
      | none => some (s, [.endBusy])
      | some (c, ready) => some ({ s with ready := ready }, [.claim lane c])
  | .claim lane c => some (s.claim lane c)
  | .turn c r prepared =>
      match ch with
      | .call k => some (s, [k.frame true, .turn c r prepared])
      | .prepareWait => some ((s.setRequest r { s.requests r with
          waitGen := (s.requests r).waitGen + 1
          wakePending := false }).note (.prepareWait r), [.turn c r true])
      | .finish o => if o = .wait ∧ !prepared then none else some (s, [.endTurn c r o])
  | .timerRun c t =>
      let timer := s.timers t
      let s := s.setTimer t { timer with firePending := false }
      if timer.current then
        some (s.note (.callback t timer.gen), [.callback c t, .timerRan c t])
      else some (s, [.timerRan c t])
  | .callback c t =>
      match ch with
      | .call k => some (s, [k.frame true, .callback c t])
      | .prepareWait => some ((s.setRequest (.timer t) { s.requests (.timer t) with
          waitGen := (s.requests (.timer t)).waitGen + 1
          wakePending := false }).note (.prepareWait (.timer t)), [.callback c t])
      | .finish _ => some (s, [])
  | .timerRan c t =>
      some (s, [.endTurn c (.timer t) (if (s.timers t).firePending then .yield else .done)])
  | .endTurn c r o => some (s.endTurn c r o)
  | .onDone _ => some (s, [.hook])
  | .onClosed c => some (s.note (.onClosed c), [.hook])
  | .hook =>
      match ch with
      | .call k => some (s, [k.frame false, .hook])
      | .prepareWait => none
      | .finish _ => some (s, [])
  | .arm t d noLater => some (s.arm t d noLater, [])
  | .cancelTimer t => some (s.cancelTimer t, [])
  | .fireDueTimers now =>
      some ({ s with busy := s.busy + 1 }.note (.fireDueTimers now), [.popDue now, .endBusy])
  | .popDue now =>
      match s.heap with
      | [] => some (s, [])
      | t :: heap =>
          let timer := s.timers t
          let c := timer.context
          if now < timer.deadlineNs then some (s, [])
          else some ((({ s with heap := heap }.setTimer t { timer with
              armed := false
              fireGen := timer.gen
              firePending := true }).setContext c { s.contexts c with
                firing := (s.contexts c).firing + 1 }).note (.due t timer.gen now),
            [.submitInternal c (.timer t) .fire, .endFire c, .popDue now])
  | .fireClosed t => some (s.setTimer t { s.timers t with firePending := false }, [])
  | .endFire c =>
      let s := s.setContext c { s.contexts c with firing := (s.contexts c).firing - 1 }
      some (s.closeIfDrainedLocked c true, s.closingHook c (s.drained c))
  | .close c =>
      let ctx := s.contexts c
      let s := s.setContext c { ctx with
        lifecycle := if ctx.lifecycle = .opened then .draining else ctx.lifecycle }
      some (s.closeIfDrainedLocked c false, [])
  | .closeDiscarding c => some ({ s with busy := s.busy + 1 }, [.discard c, .endBusy])
  | .discard c => some (s.discard c, [])

end Runtime

/-! ### The machine -/

/-- A thread outside makes a call, or a thread takes its turn. -/
inductive CoreAction where
  | call (k : Call)
  | turn (i : ℕ) (ch : Choice)

abbrev CoreMachine := Threads Runtime CoreFrame

namespace CoreMachine

/-- A runtime before its first use; what the contexts and timers are was set before. -/
def init (contexts : ContextId → Context) (timers : TimerId → Timer) (inlineTurns : ExecutorId → ℕ) :
    CoreMachine :=
  ⟨{ contexts := fun c => { pendingLimit := (contexts c).pendingLimit
                            lane := (contexts c).lane
                            onClosed := (contexts c).onClosed }
     timers := fun t => { context := (timers t).context }
     inlineLeft := inlineTurns }, []⟩

def step (m : CoreMachine) : CoreAction → Option CoreMachine
  | .call k => some (m.spawn m.shared [k.frame false])
  | .turn i ch => m.turn (Runtime.run ch) i

end CoreMachine

end Zzdds.Core
