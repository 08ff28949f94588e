import Zzdds.Runtime.Wakes

/-! # Runs of the runtime's contexts

What the contexts, the requests and the threads have in common at every moment of every run. -/

namespace Zzdds.Core

open Zzdds.Lib

/-- A wake of the request on its way to another context. -/
def CoreFrame.wakesElsewhere (c : ContextId) (r : RequestId) : CoreFrame → Bool
  | .wake c' r' _ => r' == r && c' != c
  | _ => false

namespace CoreMachine

/-- `wakeRequest` reads a request's context with no gate held, so a request is not submitted to another
context while a wake of it is on its way. -/
def KeepsHome (m : CoreMachine) (c : ContextId) (r : RequestId) : Prop :=
  ∀ f ∈ m.threads.flatten, f.wakesElsewhere c r = false

instance (m : CoreMachine) (c : ContextId) (r : RequestId) : Decidable (m.KeepsHome c r) :=
  inferInstanceAs (Decidable (∀ f ∈ m.threads.flatten, _))

def Allowed (m : CoreMachine) : CoreAction → Prop
  | .turn i _ => ∀ p ∈ (m.next i).bind CoreFrame.admits, m.KeepsHome p.1 p.2
  | .call _ => True

instance (m : CoreMachine) : ∀ x, Decidable (m.Allowed x)
  | .turn i _ => inferInstanceAs (Decidable (∀ p ∈ (m.next i).bind CoreFrame.admits, _))
  | .call _ => isTrue trivial

/-- The frames that are in a role. -/
def inRole (m : CoreMachine) (ρ : Role) : ℕ := tally CoreFrame.roles m.frames ρ

/-- The frames about to run the closing hook of a context. -/
def hooksOf (m : CoreMachine) (c : ContextId) : ℕ := tally CoreFrame.hooks m.frames c

/-- The turns of a request that has prepared a wait and may yet wait. -/
def waitsOf (m : CoreMachine) (r : RequestId) : ℕ := tally CoreFrame.waits m.frames r

/-- The contexts take turns. -/
structure TakesTurns (m : CoreMachine) : Prop where
  /-- At most one turn of a context is in progress, while it is running. -/
  turn : ∀ c, m.inRole (.turn c) = if (m.shared.contexts c).execution = .running then 1 else 0
  /-- Requests run in the order they became ready, and a context is closed once, when nothing is queued
  or runs, and runs nothing afterwards; its hook runs once if an ending closed it, and only then. -/
  life : ∀ c, ∃ l, Life.after c m.shared.history = some l ∧ l.queue = (m.shared.contexts c).fifo ∧
    (∀ r, l.running = some r ↔ m.inRole (.run c r) ≠ 0) ∧
    (l.closedBy ≠ none ↔ (m.shared.contexts c).lifecycle = .closed) ∧
    m.hooksOf c + l.hooked.toNat =
      if (m.shared.contexts c).onClosed ∧ l.closedBy = some true then 1 else 0
  /-- A ready request is queued at its context once, and nothing else is queued. -/
  queued : ∀ c r, (m.shared.contexts c).fifo.count r =
    if (m.shared.requests r).At c .ready then 1 else 0
  placed : ∀ r, (m.shared.requests r).placement = .ready → (m.shared.requests r).context ≠ none
  /-- A context with work queued is scheduled, claimed or running. -/
  awake : ∀ c, (m.shared.contexts c).fifo ≠ [] → (m.shared.contexts c).execution ≠ .idle
  /-- A scheduled context is in the ready queue or held by a claim, once. -/
  scheduled : ∀ c, m.shared.ready.count c + m.inRole (.claim c) =
    if (m.shared.contexts c).execution = .scheduled then 1 else 0
  pending : ∀ c, Counted (fun r => (m.shared.requests r).External c) (m.shared.contexts c).pending
  limit : ∀ c, (m.shared.contexts c).pending ≤ (m.shared.contexts c).pendingLimit
  /-- A request woken since it last prepared a wait does not wait, nor will its turn let it. -/
  woken : ∀ r, wokenSince r m.shared.history → (m.shared.requests r).placement ≠ .waiting ∧
    (m.waitsOf r ≠ 0 → (m.shared.requests r).wakePending)
  closed : ∀ c, (m.shared.contexts c).lifecycle = .closed → (m.shared.contexts c).execution = .idle ∧
    (m.shared.contexts c).fifo = [] ∧ (m.shared.contexts c).waiting = 0

/-! ### Turns of threads -/

variable {m m' : CoreMachine}

section turn

variable {i : ℕ} {ch : Choice} {f : CoreFrame} {fs new : List CoreFrame} {rest : Multiset CoreFrame}

/-- A thread runs a frame. -/
structure Turned (m m' : CoreMachine) (i : ℕ) (ch : Choice) (f : CoreFrame) (fs new : List CoreFrame)
    (rest : Multiset CoreFrame) : Prop where
  thread : m.threads[i]? = some (f :: fs)
  frames : m.frames = f ::ₘ (↑fs + rest)
  run : m.shared.run ch f = some (m'.shared, new)
  frames' : m'.frames = ↑new + (↑fs + rest)
  threads' : m'.threads = m.threads.set i (new ++ fs)

theorem turned (h : m.turn (Runtime.run ch) i = some m') : ∃ f fs new rest,
    Turned m m' i ch f fs new rest := by
  obtain ⟨f, fs, new, rest, hi, hframes, hrun, hframes', hthreads⟩ := Threads.turn_threads h
  exact ⟨f, fs, new, rest, hi, hframes, hrun, hframes', hthreads⟩

namespace Turned

variable (ht : Turned m m' i ch f fs new rest)
include ht

theorem mem_self : f ∈ m.frames := by
  rw [ht.frames]
  exact Multiset.mem_cons_self _ _

/-- A frame after the turn was put there or was there before. -/
theorem mem_or {g : CoreFrame} (hg : g ∈ m'.frames) : g ∈ new ∨ g ∈ m.frames := by
  rw [ht.frames', Multiset.mem_add] at hg
  refine hg.imp_right fun hg => ?_
  rw [ht.frames]
  exact Multiset.mem_cons_of_mem hg

theorem mem_new {g : CoreFrame} (hg : g ∈ new) : g ∈ m'.frames := by
  rw [ht.frames', Multiset.mem_add]
  exact .inl hg

/-- A frame before the turn is the one run or is there afterwards. -/
theorem mem_old {g : CoreFrame} (hg : g ∈ m.frames) : g = f ∨ g ∈ m'.frames := by
  rw [ht.frames] at hg
  rw [ht.frames', Multiset.mem_add]
  exact (Multiset.mem_cons.mp hg).imp_right .inr

theorem next : m.next i = some f := by
  rw [Threads.next, ht.thread]
  rfl

end Turned

end turn

/-! ### Runs -/

/-- The invariants joined. -/
structure Sound (m : CoreMachine) : Prop where
  sched : m.shared.Sched m.inRole
  lives : m.shared.Lives m.inRole m.hooksOf
  woken : m.shared.Woken m.waitsOf

theorem init_sound (contexts : ContextId → Context) (timers : TimerId → Timer)
    (inlineTurns : ExecutorId → ℕ) : (init contexts timers inlineTurns).Sound where
  sched := by
    refine ⟨fun c => ⟨rfl, rfl, fun h => absurd rfl h, .of_false ?_, .of_false ?_, Nat.zero_le _, nofun⟩,
      fun c r => ⟨rfl, rfl, fun h => absurd rfl h⟩, .of_false nofun, fun r h => absurd rfl h⟩
    · exact fun r h => absurd h.1 nofun
    · exact fun r h => absurd rfl h.2.2.1
  lives c := by
    refine ⟨{}, rfl, rfl, fun r => iff_of_false nofun fun h => h rfl, iff_of_false (fun h => h rfl) nofun,
      ?_⟩
    rw [if_neg fun h => nomatch h.2]
    rfl
  woken r := ⟨nofun, nofun⟩

theorem tally_spawn {ρ : Type} [DecidableEq ρ] (g : CoreFrame → List ρ) {k : Call} {sh : Runtime}
    (hg : g (k.frame false) = []) :
    (fun r => tally g (m.spawn sh [k.frame false]).frames r) = fun r => tally g m.frames r := by
  funext r
  rw [Threads.spawn_frames, tally_add_eq_also, List.flatMap_singleton, hg, also_nil]

theorem mem_wake {c : ContextId} {r : RequestId} {fs : Multiset CoreFrame}
    (h : tally CoreFrame.roles fs (.wake c r) ≠ 0) : ∃ gen, .wake c r gen ∈ fs := by
  obtain ⟨f, hf, hr⟩ := (tally_ne_zero _).mp h
  cases f with
  | wake c' r' gen =>
    cases List.mem_singleton.mp hr
    exact ⟨gen, hf⟩
  | _ => simp [CoreFrame.roles] at hr

theorem step_sound {x : CoreAction} (h : m.Sound) (hok : m.Allowed x) (hs : m.step x = some m') :
    m'.Sound := by
  cases x with
  | call k =>
    cases hs
    have hroles : inRole (m.spawn m.shared [k.frame false]) = m.inRole :=
      tally_spawn CoreFrame.roles (roles_frame k false)
    have hhooks : hooksOf (m.spawn m.shared [k.frame false]) = m.hooksOf :=
      tally_spawn CoreFrame.hooks (Runtime.hooks_frame k false)
    have hwaits : waitsOf (m.spawn m.shared [k.frame false]) = m.waitsOf :=
      tally_spawn CoreFrame.waits (waits_frame k false)
    refine ⟨?_, ?_, ?_⟩
    · rw [hroles]
      exact h.sched
    · rw [hroles, hhooks]
      exact h.lives
    · rw [hwaits]
      exact h.woken
  | turn i ch =>
    obtain ⟨f, new, rest, hnext, hframes, hrun, hframes'⟩ := Threads.turn_frames hs
    obtain ⟨hsched, hlives, hwoken⟩ := h
    have hroles : m.inRole = also f.roles (tally CoreFrame.roles rest) := by
      funext ρ
      rw [inRole, hframes, tally_cons_eq_also]
    have hhooks : m.hooksOf = also f.hooks (tally CoreFrame.hooks rest) := by
      funext c
      rw [hooksOf, hframes, tally_cons_eq_also]
    have hwaits : m.waitsOf = also f.waits (tally CoreFrame.waits rest) := by
      funext r
      rw [waitsOf, hframes, tally_cons_eq_also]
    have hroles' : m'.inRole = also (new.flatMap CoreFrame.roles) (tally CoreFrame.roles rest) := by
      funext ρ
      rw [inRole, hframes', tally_add_eq_also]
    have hhooks' : m'.hooksOf = also (new.flatMap CoreFrame.hooks) (tally CoreFrame.hooks rest) := by
      funext c
      rw [hooksOf, hframes', tally_add_eq_also]
    have hwaits' : m'.waitsOf = also (new.flatMap CoreFrame.waits) (tally CoreFrame.waits rest) := by
      funext r
      rw [waitsOf, hframes', tally_add_eq_also]
    rw [hroles] at hsched hlives
    rw [hhooks] at hlives
    rw [hwaits] at hwoken
    have hhome : ∀ c r, f.admits = some (c, r) → ∀ c', tally CoreFrame.roles rest (.wake c' r) ≠ 0 →
        c' = c := by
      intro c r hadmits c' hne
      obtain ⟨gen, hgen⟩ := mem_wake hne
      have hmem : CoreFrame.wake c' r gen ∈ m.threads.flatten := by
        rw [← Multiset.mem_coe]
        change _ ∈ m.frames
        rw [hframes]
        exact Multiset.mem_cons_of_mem hgen
      have hhome := hok (c, r) (by rw [hnext]; exact hadmits) _ hmem
      simpa [CoreFrame.wakesElsewhere] using hhome
    refine ⟨?_, ?_, ?_⟩
    · rw [hroles']
      exact hsched.run hhome hrun
    · rw [hroles', hhooks']
      exact hlives.run hsched (fun c r => tally_run_le rest c r) hrun
    · rw [hwaits']
      exact hwoken.run hsched (fun r => tally_waits) hrun

theorem Sound.takesTurns (h : m.Sound) : m.TakesTurns where
  turn c := (h.sched.contexts c).running
  life c := by
    obtain ⟨l, hl, hqueue, hrunning, hclosed, hhooks⟩ := h.lives c
    exact ⟨l, hl, hqueue, hrunning, hclosed, hhooks⟩
  queued c r := (h.sched.requests c r).fifo
  placed r hr := h.sched.placed r (by rw [hr]; decide)
  awake c := (h.sched.contexts c).queued
  scheduled c := (h.sched.contexts c).scheduled
  pending c := (h.sched.contexts c).pending
  limit c := (h.sched.contexts c).limit
  woken r hr := ⟨(h.woken r).placed hr, (h.woken r).pending hr⟩
  closed c hcl := by
    obtain ⟨hidle, hzero⟩ := (h.sched.contexts c).closed hcl
    refine ⟨hidle, ?_, hzero⟩
    by_contra hne
    exact (h.sched.contexts c).queued hne hidle

/-- Contexts take turns, in every run. -/
theorem takes_turns {contexts : ContextId → Context} {timers : TimerId → Timer}
    {inlineTurns : ExecutorId → ℕ} {as : List CoreAction}
    (h : Run step Allowed (init contexts timers inlineTurns) as m) : m.TakesTurns :=
  (h.inv (init_sound contexts timers inlineTurns) fun _ _ _ => step_sound).takesTurns

/-- A request runs on the submitting thread and prepares a wait, is woken before its turn has ended, and
so runs again; meanwhile its context is closed. -/
def wokenRun : List CoreAction :=
  .call (.submit (some 0) 0 (.submitted 0)) :: List.replicate 4 (.turn 0 (.finish .done)) ++
    [.turn 0 .prepareWait, .call (.wakeRequest (.submitted 0) 1)] ++
    List.replicate 2 (.turn 1 (.finish .done)) ++ List.replicate 2 (.turn 0 (.finish .wait)) ++
    .call (.runNextIn none) :: List.replicate 3 (.turn 2 (.finish .done)) ++
    [.call (.close 0), .turn 3 (.finish .done)] ++ List.replicate 6 (.turn 2 (.finish .done))

theorem takes_turns_woken : ∃ m,
    Run step Allowed (init (fun _ => { pendingLimit := 1, onClosed := true }) (fun t => { context := t })
      fun _ => 1) wokenRun m ∧
    m.shared.history = [.ready 0 (.submitted 0), .started 0 (.submitted 0), .prepareWait (.submitted 0),
      .woken (.submitted 0), .ready 0 (.submitted 0), .ended 0 (.submitted 0),
      .started 0 (.submitted 0), .ended 0 (.submitted 0), .closed 0 true, .onClosed 0] ∧
    m.TakesTurns := by
  obtain ⟨m, hrun, hhistory⟩ := exists_run_of_exec step Allowed
    (init (fun _ => { pendingLimit := 1, onClosed := true }) (fun t => { context := t }) fun _ => 1)
    wokenRun
    (p := fun m => m.shared.history = [.ready 0 (.submitted 0), .started 0 (.submitted 0),
      .prepareWait (.submitted 0), .woken (.submitted 0), .ready 0 (.submitted 0),
      .ended 0 (.submitted 0), .started 0 (.submitted 0), .ended 0 (.submitted 0), .closed 0 true,
      .onClosed 0]) (by decide +kernel)
  exact ⟨m, hrun, hhistory, takes_turns hrun⟩

end CoreMachine

end Zzdds.Core
