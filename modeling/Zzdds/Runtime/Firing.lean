import Zzdds.Runtime.Timers

/-! # No fire is lost

What a timer's fire, its request and its turn have in common, as long as a turn that starts finds its fire
not yet started and one that ends leaves none behind. -/

namespace Zzdds.Core

open Zzdds.Lib

def RequestId.ofTimer : RequestId → Bool
  | .submitted _ => false
  | .timer _ => true

/-! ### Closed contexts stay closed -/

theorem Life.closedBy_of_foldlM {c : ContextId} {es : List RuntimeEvent} {l l' : Life}
    (h : es.foldlM (Life.next c) l = some l') (hclosed : l.closedBy ≠ none) : l'.closedBy ≠ none := by
  induction es generalizing l with
  | nil =>
    cases h
    exact hclosed
  | cons e es ih =>
    rw [List.foldlM_cons] at h
    obtain ⟨l₁, he, h⟩ := Option.bind_eq_some_iff.mp h
    refine ih h ?_
    cases e <;> simp only [Life.next] at he
    case closed => split_ifs at he <;> cases he <;> simp_all
    all_goals first | cases he | split_ifs at he <;> cases he
    all_goals exact hclosed

namespace CoreMachine

variable {m m' : CoreMachine}

theorem Sound.closed {c : ContextId} {es : List RuntimeEvent} (h : m.Sound) (h' : m'.Sound)
    (hhistory : m'.shared.history = m.shared.history ++ es)
    (hclosed : (m.shared.contexts c).lifecycle = .closed) : (m'.shared.contexts c).lifecycle = .closed := by
  obtain ⟨l, hl, hmatches⟩ := h.lives c
  obtain ⟨l', hl', hmatches'⟩ := h'.lives c
  rw [hhistory, Life.after, List.foldlM_append] at hl'
  rw [Life.after] at hl
  rw [hl] at hl'
  exact hmatches'.closed.mp (Life.closedBy_of_foldlM hl' (hmatches.closed.mpr hclosed))

/-! ### Conditions -/

/-- Only fires submit the requests of timers, and none of these is discarded. -/
def OwnFires (m : CoreMachine) : CoreAction → Prop
  | .call _ => True
  | .turn i _ =>
      match m.next i with
      | some (.admission _ _ (.timer _)) => False
      | some (.admitInternal _ (.timer _) b) => b = .fire
      | some (.discard c) => ∀ r ∈ (m.shared.contexts c).fifo, r.ofTimer = false
      | _ => True

/-- A turn of a timer whose last fire is of the current arming starts that fire, not again one that has
been started, and is not 2^32 armings behind; and a turn does not end for good while a fire is pending that
nothing will submit any more. -/
def KeepsFires (m : CoreMachine) : CoreAction → Prop
  | .call _ => True
  | .turn i _ =>
      match m.next i with
      | some (.timerRun _ t) => (m.shared.timers t).current →
          (m.shared.timers t).gen = (m.shared.timers t).fireGen ∧ (m.shared.timers t).firePending
      | some (.endTurn _ (.timer t) .done) => (m.shared.timers t).firePending →
          ∃ f ∈ m.threads.flatten, f.fires t
      | _ => True

/-- `OwnFires` of a turn, from what its thread is at. -/
def OwnFiresAt (m : CoreMachine) (f : Option CoreFrame) : Prop :=
  match f with
  | some (.admission _ _ (.timer _)) => False
  | some (.admitInternal _ (.timer _) b) => b = .fire
  | some (.discard c) => ∀ r ∈ (m.shared.contexts c).fifo, r.ofTimer = false
  | _ => True

/-- `KeepsFires` of a turn, from what its thread is at. -/
def KeepsFiresAt (m : CoreMachine) (f : Option CoreFrame) : Prop :=
  match f with
  | some (.timerRun _ t) => (m.shared.timers t).current →
      (m.shared.timers t).gen = (m.shared.timers t).fireGen ∧ (m.shared.timers t).firePending
  | some (.endTurn _ (.timer t) .done) => (m.shared.timers t).firePending →
      ∃ f ∈ m.threads.flatten, f.fires t
  | _ => True

instance (m : CoreMachine) (f : Option CoreFrame) : Decidable (m.OwnFiresAt f) := by
  unfold OwnFiresAt
  split <;> infer_instance

instance (m : CoreMachine) (f : Option CoreFrame) : Decidable (m.KeepsFiresAt f) := by
  unfold KeepsFiresAt
  split <;> infer_instance

instance (m : CoreMachine) : (x : CoreAction) → Decidable (m.OwnFires x)
  | .call _ => .isTrue trivial
  | .turn i _ => inferInstanceAs (Decidable (m.OwnFiresAt (m.next i)))

instance (m : CoreMachine) : (x : CoreAction) → Decidable (m.KeepsFires x)
  | .call _ => .isTrue trivial
  | .turn i _ => inferInstanceAs (Decidable (m.KeepsFiresAt (m.next i)))

/-! ### The invariant -/

structure Firing (m : CoreMachine) : Prop where
  heap : m.shared.HeapOrdered
  stray : ∀ f ∈ m.frames, f.stray = false
  /-- A fire is on its way to its timer's context. -/
  submits : ∀ c t, (.submitInternal c (.timer t) .fire ∈ m.frames ∨
    .admitInternal c (.timer t) .fire ∈ m.frames) → c = (m.shared.timers t).context
  closed : ∀ t, .fireClosed t ∈ m.frames →
    (m.shared.contexts (m.shared.timers t).context).lifecycle = .closed
  waits : ∀ t, (m.shared.requests (.timer t)).placement ≠ .waiting
  timed : ∀ t, m.shared.state = .running →
    (m.shared.contexts (m.shared.timers t).context).lifecycle ≠ .closed →
      m.shared.Timed (fun now => .popDue now ∈ m.frames) t
  pending : ∀ t, (m.shared.contexts (m.shared.timers t).context).lifecycle ≠ .closed →
    (m.shared.timers t).firePending → (∃ f ∈ m.frames, f.fires t) ∨ m.shared.Live (.timer t)

theorem init_firing (contexts : ContextId → Context) (timers : TimerId → Timer)
    (inlineTurns : ExecutorId → ℕ) : (init contexts timers inlineTurns).Firing where
  heap := ⟨fun _ => iff_of_false List.not_mem_nil nofun, .nil⟩
  stray _ hf := absurd hf (Multiset.notMem_zero _)
  submits _ _ h := h.elim (absurd · (Multiset.notMem_zero _)) (absurd · (Multiset.notMem_zero _))
  closed _ h := absurd h (Multiset.notMem_zero _)
  waits _ := nofun
  timed _ _ _ := ⟨le_rfl, none, rfl, rfl, nofun⟩
  pending _ _ := nofun

/-- A thread makes a call. -/
theorem Firing.call {k : Call} (h : m.Firing) : Firing (m.spawn m.shared [k.frame false]) := by
  have hmem : ∀ f ∈ (m.spawn m.shared [k.frame false]).frames, f = k.frame false ∨ f ∈ m.frames := by
    intro f hf
    rw [Threads.spawn_frames, Multiset.mem_add] at hf
    exact hf.imp_left fun hf => List.mem_singleton.mp (Multiset.mem_coe.mp hf)
  have hsub : ∀ f ∈ m.frames, f ∈ (m.spawn m.shared [k.frame false]).frames := by
    intro f hf
    rw [Threads.spawn_frames, Multiset.mem_add]
    exact .inr hf
  have hframe : (k.frame false).stray = false ∧
      (∀ c t, k.frame false ≠ .submitInternal c (.timer t) .fire) ∧
      (∀ c t, k.frame false ≠ .admitInternal c (.timer t) .fire) ∧
      ∀ t, k.frame false ≠ .fireClosed t := by
    cases k with
    | submitInternal c r => cases r <;> exact ⟨rfl, nofun, nofun, nofun⟩
    | _ => exact ⟨rfl, nofun, nofun, nofun⟩
  obtain ⟨hstray, hsubmit, hentry, hclosed⟩ := hframe
  refine ⟨h.heap, ?_, ?_, ?_, h.waits, ?_, ?_⟩
  · intro f hf
    rcases hmem f hf with rfl | hf
    · exact hstray
    · exact h.stray f hf
  · intro c t hf
    refine h.submits c t (hf.imp (fun hf => ?_) fun hf => ?_)
    · exact (hmem _ hf).resolve_left fun heq => hsubmit c t heq.symm
    · exact (hmem _ hf).resolve_left fun heq => hentry c t heq.symm
  · intro t hf
    exact h.closed t ((hmem _ hf).resolve_left fun heq => hclosed t heq.symm)
  · intro t hstate hopen
    exact (h.timed t hstate hopen).same rfl rfl fun now _ _ hnow => hsub _ hnow
  · intro t hopen hpending
    exact (h.pending t hopen hpending).imp_left fun ⟨f, hf, hfires⟩ => ⟨f, hsub f hf, hfires⟩

/-! ### A thread takes its turn -/

section turn

variable {i : ℕ} {ch : Choice} {f : CoreFrame} {fs new : List CoreFrame} {rest : Multiset CoreFrame}

namespace Turned

variable (ht : Turned m m' i ch f fs new rest)
include ht

theorem launches {g : CoreFrame} (hg : g ∈ new) : m.shared.Launches f g :=
  Runtime.run_launches ht.run g hg

theorem context (t : TimerId) : (m'.shared.timers t).context = (m.shared.timers t).context :=
  Runtime.run_context ht.run t

/-- A context that is not closed was not. -/
theorem opened (hs : m.Sound) (hs' : m'.Sound) {c : ContextId}
    (h : (m'.shared.contexts c).lifecycle ≠ .closed) : (m.shared.contexts c).lifecycle ≠ .closed := by
  obtain ⟨es, hes, -⟩ := Runtime.run_adds ht.run
  exact fun hclosed => h (hs.closed hs' hes hclosed)

theorem stray (h : m.Firing) (hown : m.OwnFires (.turn i ch)) : ∀ g ∈ m'.frames, g.stray = false := by
  intro g hg
  rcases ht.mem_or hg with hg | hg
  · by_contra hne
    rcases (ht.launches hg).stray (by simpa using hne) with hf | ⟨exec, c, t, rfl⟩
    · rw [h.stray f ht.mem_self] at hf
      cases hf
    · simp only [OwnFires, ht.next] at hown
  · exact h.stray g hg

theorem submits (h : m.Firing) (c : ContextId) (t : TimerId)
    (hg : .submitInternal c (.timer t) .fire ∈ m'.frames ∨ .admitInternal c (.timer t) .fire ∈ m'.frames) :
    c = (m'.shared.timers t).context := by
  rw [ht.context]
  rcases hg with hg | hg
  · rcases ht.mem_or hg with hg | hg
    · exact (ht.launches hg).submit c t rfl
    · exact h.submits c t (.inl hg)
  · rcases ht.mem_or hg with hg | hg
    · exact h.submits c t (.inl ((ht.launches hg).admits c t rfl ▸ ht.mem_self))
    · exact h.submits c t (.inr hg)

theorem closed (h : m.Firing) (hs : m.Sound) (hs' : m'.Sound) (t : TimerId)
    (hg : .fireClosed t ∈ m'.frames) :
    (m'.shared.contexts (m'.shared.timers t).context).lifecycle = .closed := by
  by_contra hopen
  rw [ht.context] at hopen
  have hopen := ht.opened hs hs' hopen
  rcases ht.mem_or hg with hg | hg
  · obtain ⟨c, rfl, hclosed⟩ := (ht.launches hg).closed t rfl
    rw [← h.submits c t (.inr ht.mem_self)] at hopen
    exact hopen hclosed
  · exact hopen (h.closed t hg)

theorem not_discarded (hown : m.OwnFires (.turn i ch)) (t : TimerId) (c : ContextId)
    (hf : f = .discard c) : .timer t ∉ (m.shared.contexts c).fifo := by
  intro hin
  subst hf
  simp only [OwnFires, ht.next] at hown
  exact absurd (hown _ hin) (by rintro ⟨⟩)

theorem waits (h : m.Firing) (hown : m.OwnFires (.turn i ch)) (t : TimerId) :
    (m'.shared.requests (.timer t)).placement ≠ .waiting := by
  have hlive : m'.shared.Live (.timer t) → (m'.shared.requests (.timer t)).placement ≠ .waiting := by
    rintro (hp | hp) <;> rw [hp] <;> decide
  by_cases hend : ∃ c o, f = .endTurn c (.timer t) o
  · obtain ⟨c, o, rfl⟩ := hend
    obtain ⟨heq, -⟩ := Runtime.out_eq ht.run
    rw [heq, Runtime.endTurn_requests, Function.update_self]
    cases o with
    | done => simp [Runtime.settle]
    | yield => simp [Runtime.settle]
    | wait => exact absurd (h.stray _ ht.mem_self) (by rintro ⟨⟩)
  · rcases Runtime.run_placement (.timer t) (fun c o hf => hend ⟨c, o, hf⟩) (ht.not_discarded hown t) ht.run
      with heq | hlive'
    · rw [heq]
      exact h.waits t
    · exact hlive hlive'

theorem timed (h : m.Firing) (hs : m.Sound) (hs' : m'.Sound) (hkeeps : m.KeepsFires (.turn i ch))
    (t : TimerId) (hstate : m'.shared.state = .running)
    (hopen : (m'.shared.contexts (m'.shared.timers t).context).lifecycle ≠ .closed) :
    m'.shared.Timed (fun now => .popDue now ∈ m'.frames) t := by
  rw [ht.context] at hopen
  have hopen := ht.opened hs hs' hopen
  have hold : m.shared.state = .running := by
    rcases Runtime.run_state ht.run with heq | ⟨-, heq⟩ | ⟨-, -, -, heq⟩
    · exact heq.symm.trans hstate
    · rw [heq] at hstate
      cases hstate
    · rw [heq] at hstate
      cases hstate
  refine (h.timed t hold hopen).run h.heap hstate (fun hf => ?_) (fun c hf => ?_) (fun now hnow => ?_)
    (fun now hnow => ht.mem_new hnow) ht.run
  · exact hopen (h.closed t (hf ▸ ht.mem_self))
  · subst hf
    simpa only [KeepsFires, ht.next] using hkeeps
  · exact (ht.mem_old hnow).imp_left Eq.symm

/-- A fire that is submitted finds its request queued or running, or queues it. -/
theorem submitted (h : m.Firing) {c : ContextId} {t : TimerId} (hf : f = .admitInternal c (.timer t) .fire)
    (hopen : (m.shared.contexts (m.shared.timers t).context).lifecycle ≠ .closed) :
    m'.shared.Live (.timer t) := by
  subst hf
  rw [← h.submits c t (.inr ht.mem_self)] at hopen
  obtain ⟨heq, -⟩ := Runtime.out_eq ht.run
  rw [heq]
  unfold Runtime.admitInternal
  dsimp only
  rw [if_neg hopen]
  split
  next hbusy =>
    have hplacement : m.shared.Live (.timer t) := by
      cases hp : (m.shared.requests (.timer t)).placement with
      | new => exact absurd hp hbusy.1
      | ready => exact .inl hp
      | running => exact .inr hp
      | waiting => exact absurd hp (h.waits t)
      | done => exact absurd hp hbusy.2
    exact hplacement
  next => exact .inl (by simp)

theorem pending (h : m.Firing) (hs : m.Sound) (hs' : m'.Sound) (hown : m.OwnFires (.turn i ch))
    (hkeeps : m.KeepsFires (.turn i ch)) (t : TimerId)
    (hopen : (m'.shared.contexts (m'.shared.timers t).context).lifecycle ≠ .closed)
    (hpending : (m'.shared.timers t).firePending) :
    (∃ g ∈ m'.frames, g.fires t) ∨ m'.shared.Live (.timer t) := by
  rw [ht.context] at hopen
  have hopen := ht.opened hs hs' hopen
  rcases Runtime.run_pending ht.run hpending with hold | hnew
  · have hfires : ∀ g ∈ m.frames, g.fires t →
        (∃ g ∈ m'.frames, g.fires t) ∨ m'.shared.Live (.timer t) := by
      intro g hg hfires
      rcases ht.mem_old hg with rfl | hg
      · unfold CoreFrame.fires at hfires
        split at hfires
        next c t' =>
          have ht' : t' = t := by simpa using hfires
          obtain ⟨-, hnew⟩ := Runtime.out_eq ht.run
          refine .inl ⟨.admitInternal c (.timer t') .fire, ht.mem_new ?_, by simp [CoreFrame.fires, ht']⟩
          rw [hnew]
          exact List.mem_cons_self
        next c t' =>
          have ht' : t' = t := by simpa using hfires
          exact .inr (ht.submitted h (by rw [ht']) hopen)
        next => cases hfires
      · exact .inl ⟨g, hg, hfires⟩
    rcases h.pending t hopen hold with ⟨g, hg, hg'⟩ | hlive
    · exact hfires g hg hg'
    by_cases hend : ∃ c o, f = .endTurn c (.timer t) o
    · obtain ⟨c, o, rfl⟩ := hend
      obtain ⟨heq, -⟩ := Runtime.out_eq ht.run
      cases o with
      | done =>
        simp only [KeepsFires, ht.next] at hkeeps
        obtain ⟨g, hg, hg'⟩ := hkeeps hold
        exact hfires g (Multiset.mem_coe.mpr hg) hg'
      | yield =>
        refine .inr (.inl ?_)
        rw [heq, Runtime.endTurn_requests, Function.update_self]
        simp [Runtime.settle]
      | wait => exact absurd (h.stray _ ht.mem_self) (by rintro ⟨⟩)
    · rcases Runtime.run_placement (.timer t) (fun c o hf => hend ⟨c, o, hf⟩) (ht.not_discarded hown t)
        ht.run with heq | hlive'
      · rw [Runtime.Live, heq]
        exact .inr hlive
      · exact .inr hlive'
  · exact .inl ⟨_, ht.mem_new hnew, by simp [CoreFrame.fires]⟩

end Turned

end turn

/-! ### Runs -/

theorem step_firing {x : CoreAction} (h : m.Firing) (hs : m.Sound) (hs' : m'.Sound) (hown : m.OwnFires x)
    (hkeeps : m.KeepsFires x) (hstep : m.step x = some m') : m'.Firing := by
  cases x with
  | call k =>
    cases hstep
    exact h.call
  | turn i ch =>
    obtain ⟨f, fs, new, rest, ht⟩ := turned hstep
    exact ⟨h.heap.run ht.run, ht.stray h hown, ht.submits h, ht.closed h hs hs', ht.waits h hown,
      ht.timed h hs hs' hkeeps, ht.pending h hs hs' hown hkeeps⟩

/-- No `fireDueTimers` and no turn is in progress, and nothing is queued. -/
def AtRest (m : CoreMachine) : Prop :=
  (∀ f ∈ m.frames, f.active = false) ∧ ∀ c, (m.shared.contexts c).fifo = []

/-- The fires of a timer are those of its armings. -/
structure Fires (m : CoreMachine) (t : TimerId) : Prop where
  /-- Its callback runs for its current arming only, once, and not before due timers were fired at or after
  the deadline; at rest it has run if due timers were fired at or after the deadline. -/
  arming : ∃ a, Arming.after t m.shared.history = some a ∧ (m.AtRest → ∀ a' ∈ a, a'.due → a'.ran)
  notPending : m.AtRest → (m.shared.timers t).firePending = false
  /-- It can be armed. -/
  arms : m.AtRest → ∀ deadlineNs, ((m.shared.arm t deadlineNs true).timers t).armed ∧
    ((m.shared.arm t deadlineNs true).timers t).deadlineNs ≤ deadlineNs

theorem Firing.not_pending {t : TimerId} (h : m.Firing) (hs : m.Sound)
    (hopen : (m.shared.contexts (m.shared.timers t).context).lifecycle ≠ .closed) (hrest : m.AtRest) :
    (m.shared.timers t).firePending = false := by
  by_contra hne
  rcases h.pending t hopen (by simpa using hne) with ⟨f, hf, hfires⟩ | hlive
  · have hactive := CoreFrame.active_of_fires hfires
    rw [hrest.1 f hf] at hactive
    cases hactive
  · have hnew : (m.shared.requests (.timer t)).placement ≠ .new := by
      rcases hlive with hp | hp <;> rw [hp] <;> decide
    obtain ⟨c, hc⟩ := Option.ne_none_iff_exists'.mp (hs.sched.placed _ hnew)
    rcases hlive with hready | hrunning
    · have hcount := (hs.sched.requests c (.timer t)).fifo
      rw [hrest.2 c, if_pos ⟨hready, hc⟩] at hcount
      cases hcount
    · have hrun := (hs.sched.requests c (.timer t)).run
      rw [if_pos ⟨hrunning, hc⟩] at hrun
      have hne : m.inRole (.run c (.timer t)) ≠ 0 := by
        rw [hrun]
        decide
      obtain ⟨f, hf, hr⟩ := (tally_ne_zero CoreFrame.roles).mp hne
      have hactive := CoreFrame.active_of_run hr
      rw [hrest.1 f hf] at hactive
      cases hactive

/-- With no fire pending a timer is armed, if it is not armed for an earlier time. -/
theorem arm_of_not_pending {s : Runtime} {t : TimerId} (hstate : s.state = .running)
    (hpending : (s.timers t).firePending = false) (deadlineNs : ℤ) :
    ((s.arm t deadlineNs true).timers t).armed ∧
      ((s.arm t deadlineNs true).timers t).deadlineNs ≤ deadlineNs := by
  rw [Runtime.arm]
  dsimp only
  rw [if_neg fun h => h hstate, hpending]
  split
  next hearlier => simpa using hearlier
  next => exact ⟨by simp [Runtime.note, Runtime.setTimer], by simp [Runtime.note, Runtime.setTimer]⟩

theorem Firing.fires {t : TimerId} (h : m.Firing) (hs : m.Sound) (hstate : m.shared.state = .running)
    (hopen : (m.shared.contexts (m.shared.timers t).context).lifecycle ≠ .closed) : m.Fires t where
  arming := by
    obtain ⟨-, a, ha, hkeeps⟩ := h.timed t hstate hopen
    refine ⟨a, ha, fun hrest a' ha' hdue => ?_⟩
    cases ha'
    have htaken : a'.taken := by
      refine (hkeeps.due hdue).resolve_right ?_
      rintro ⟨now, -, hnow⟩
      exact absurd (hrest.1 _ hnow) nofun
    by_contra hran
    have hpending := hkeeps.pending htaken (by simpa using hran)
    rw [h.not_pending hs hopen hrest] at hpending
    cases hpending
  notPending := h.not_pending hs hopen
  arms hrest := arm_of_not_pending hstate (h.not_pending hs hopen hrest)

theorem timers_fire {contexts : ContextId → Context} {timers : TimerId → Timer}
    {inlineTurns : ExecutorId → ℕ} {as : List CoreAction}
    (h : Run step (fun m x => m.Allowed x ∧ m.OwnFires x ∧ m.KeepsFires x)
      (init contexts timers inlineTurns) as m) (t : TimerId) (hstate : m.shared.state = .running)
    (hopen : (m.shared.contexts (m.shared.timers t).context).lifecycle ≠ .closed) : m.Fires t := by
  have hinv : m.Sound ∧ m.Firing := by
    refine h.inv (I := fun m => m.Sound ∧ m.Firing)
      ⟨init_sound contexts timers inlineTurns, init_firing contexts timers inlineTurns⟩ ?_
    rintro m x m' ⟨hs, hf⟩ ⟨hallowed, hown, hkeeps⟩ hstep
    have hs' := step_sound hs hallowed hstep
    exact ⟨hs', step_firing hf hs hs' hown hkeeps hstep⟩
  exact hinv.2.fires hinv.1 hstate hopen

/-- With no thread left and nothing ready, nothing is queued. -/
theorem Sound.atRest (hs : m.Sound) (hidle : ∀ fs ∈ m.threads, fs = []) (hready : m.shared.ready = []) :
    m.AtRest := by
  have hframes : m.frames = 0 := by
    rw [Threads.frames, List.flatten_eq_nil_iff.mpr hidle]
    rfl
  refine ⟨fun f hf => absurd (hframes ▸ hf) (Multiset.notMem_zero f), fun c => ?_⟩
  have hzero : ∀ ρ, m.inRole ρ = 0 := by
    intro ρ
    rw [inRole, hframes, tally_zero]
  have hc := hs.sched.contexts c
  have hscheduled := hc.scheduled
  have hrunning := hc.running
  rw [hzero, hready] at hscheduled
  rw [hzero] at hrunning
  by_contra hne
  refine hc.queued hne ?_
  cases hexec : (m.shared.contexts c).execution with
  | idle => rfl
  | scheduled =>
    rw [if_pos hexec] at hscheduled
    cases hscheduled
  | running =>
    rw [if_pos hexec] at hrunning
    cases hrunning

/-- A timer is armed and fired, and its callback arms it again.  The turn looks for a fire and finds none;
the timer is fired, and the fire finds its request running; the turn ends. -/
def lostFireRun : List CoreAction :=
  [.call (.arm 0 10 false), .turn 0 (.finish .done), .call (.fireDueTimers 10)] ++
    List.replicate 9 (.turn 1 (.finish .done)) ++
    .call (.runNextIn none) :: List.replicate 4 (.turn 2 (.finish .done)) ++
    [.turn 2 (.call (.arm 0 20 false))] ++ List.replicate 3 (.turn 2 (.finish .done)) ++
    .call (.fireDueTimers 20) :: List.replicate 8 (.turn 3 (.finish .done)) ++
    List.replicate 5 (.turn 2 (.finish .done))

theorem fire_lost : ∃ m, Run step (fun m x => m.Allowed x ∧ m.OwnFires x)
      (init (fun _ => { pendingLimit := 1 }) (fun t => { context := t }) fun _ => 0) lostFireRun m ∧
    m.shared.state = .running ∧ (m.shared.contexts (m.shared.timers 0).context).lifecycle = .opened ∧
    m.AtRest ∧ (m.shared.timers 0).firePending ∧ ¬ m.Fires 0 := by
  obtain ⟨m, hrun, hstate, hopened, hpending, hidle, hready⟩ := exists_run_of_exec step
    (fun m x => m.Allowed x ∧ m.OwnFires x)
    (init (fun _ => { pendingLimit := 1 }) (fun t => { context := t }) fun _ => 0) lostFireRun
    (p := fun m => m.shared.state = .running ∧
      (m.shared.contexts (m.shared.timers 0).context).lifecycle = .opened ∧
      (m.shared.timers 0).firePending ∧ m.threads.all List.isEmpty ∧ m.shared.ready = [])
    (by decide +kernel)
  have hs : m.Sound := (hrun.mono fun _ _ h => h.1).inv (init_sound _ _ _) fun _ _ _ => step_sound
  have hrest : m.AtRest := by
    refine hs.atRest (fun fs hfs => ?_) hready
    exact List.isEmpty_iff.mp (List.all_eq_true.mp hidle fs hfs)
  refine ⟨m, hrun, hstate, hopened, hrest, hpending, fun h => ?_⟩
  rw [h.notPending hrest] at hpending
  cases hpending

/-- The timer is fired again before the turn looks for a fire, which then runs again. -/
def firedAgainRun : List CoreAction :=
  [.call (.arm 0 10 false), .turn 0 (.finish .done), .call (.fireDueTimers 10)] ++
    List.replicate 9 (.turn 1 (.finish .done)) ++
    .call (.runNextIn none) :: List.replicate 4 (.turn 2 (.finish .done)) ++
    [.turn 2 (.call (.arm 0 20 false))] ++ List.replicate 2 (.turn 2 (.finish .done)) ++
    .call (.fireDueTimers 20) :: List.replicate 8 (.turn 3 (.finish .done)) ++
    List.replicate 3 (.turn 2 (.finish .done)) ++
    .call (.runNextIn none) :: List.replicate 11 (.turn 4 (.finish .done))

theorem timers_fire_again : ∃ m, Run step (fun m x => m.Allowed x ∧ m.OwnFires x ∧ m.KeepsFires x)
      (init (fun _ => { pendingLimit := 1 }) (fun t => { context := t }) fun _ => 0) firedAgainRun m ∧
    Arming.after 0 m.shared.history = some (some ⟨2, 20, true, true, true⟩) ∧ m.Fires 0 := by
  obtain ⟨m, hrun, hafter, hstate, hopened⟩ := exists_run_of_exec step
    (fun m x => m.Allowed x ∧ m.OwnFires x ∧ m.KeepsFires x)
    (init (fun _ => { pendingLimit := 1 }) (fun t => { context := t }) fun _ => 0) firedAgainRun
    (p := fun m => Arming.after 0 m.shared.history = some (some ⟨2, 20, true, true, true⟩) ∧
      m.shared.state = .running ∧
      (m.shared.contexts (m.shared.timers 0).context).lifecycle = .opened) (by decide +kernel)
  exact ⟨m, hrun, hafter, timers_fire hrun 0 hstate (by rw [hopened]; decide)⟩

end CoreMachine

end Zzdds.Core
