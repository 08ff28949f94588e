import Zzdds.Runtime.Control
import Zzdds.Runtime.Turns

/-! # Retirement

Who may still bring work in, and what `tryStop` has seen of that.  An admission or a turn is counted
`busy`, by itself or by the thread it is made on. -/

namespace Zzdds.Core

open Zzdds.Lib

/-! ### Frames -/

inductive StopRole where
  /-- It ends with `endBusy`. -/
  | busy
  | retire
deriving DecidableEq, Repr

namespace CoreFrame

def stopRoles : CoreFrame → List StopRole
  | .endBusy | .takeReady _ | .claim .. | .admitInternal .. => [.busy]
  | .turn .. | .timerRun .. | .timerRan .. | .endTurn .. => [.busy]
  | .retire => [.retire]
  | _ => []

/-- It is counted by a frame of the same thread that waits for it. -/
def leans : CoreFrame → Bool
  | .submitOpen .. | .admission .. | .countTurn .. | .wake .. | .popDue _ | .discard _ => true
  | .submitInternal _ _ b => b != .owner
  | .callback .. => true
  | _ => false

/-- A submission by the holder of an owner reference. -/
def owned : CoreFrame → Bool
  | .submitInternal _ _ b => b == .owner
  | .admitInternal _ _ b => b == .owner
  | _ => false

/-- An admission that may yet queue or start a request, a claim, or a turn. -/
def works : CoreFrame → Bool
  | .admission .. | .countTurn .. | .submitInternal .. | .admitInternal .. | .claim .. => true
  | .turn .. | .timerRun .. | .callback .. | .timerRan .. | .endTurn .. => true
  | _ => false

/-- A `tryStop` that saw the runtime retire. -/
def trying : CoreFrame → Bool
  | .tryStopBusy | .tryStopWaiting | .tryStopReady => true
  | _ => false

/-- A `tryStop` that saw nothing in progress. -/
def past : CoreFrame → Bool
  | .tryStopWaiting | .tryStopReady => true
  | _ => false

/-- It will see to it that the runtime stops if nothing is left. -/
def stops : CoreFrame → Bool
  | .endedLast | .tryStop | .tryStopBusy | .tryStopWaiting | .tryStopReady => true
  | _ => false

/-- It changes the state or the count of owners. -/
def rules : CoreFrame → Bool
  | .releaseOwner | .retire | .tryRetainOwner | .tryStopReady => true
  | _ => false

end CoreFrame

/-- Something becomes ready, runs or stops. -/
def RuntimeEvent.moves : RuntimeEvent → Prop
  | .ready .. | .started .. | .ended .. | .callback .. | .stopped => True
  | _ => False

theorem stopRoles_turnFrame (c : ContextId) (r : RequestId) : (turnFrame c r).stopRoles = [.busy] := by
  cases r <;> rfl

theorem stopRoles_frame (k : Call) (inTurn : Bool) : (k.frame inTurn).stopRoles = [] := by
  cases k <;> rfl

theorem stopRoles_refusedFire (b : Submitter) (r : RequestId) (err : Option SubmitError) :
    (refusedFire b r err).flatMap CoreFrame.stopRoles = [] := by
  unfold refusedFire
  split <;> rfl

theorem stopRoles_closingHook (s : Runtime) (c : ContextId) (closed : Bool) :
    (s.closingHook c closed).flatMap CoreFrame.stopRoles = [] := by
  rw [Runtime.closingHook]
  split <;> rfl

section also

variable (n : StopRole → ℕ)

theorem also_busy : also [.busy] n .busy = n .busy + 1 := Nat.add_comm _ _

theorem also_busy_retire : also [.busy] n .retire = n .retire := Nat.zero_add _

theorem also_retire : also [.retire] n .retire = n .retire + 1 := Nat.add_comm _ _

theorem also_retire_busy : also [.retire] n .busy = n .busy := Nat.zero_add _

end also

/-! ### What a thread counts -/

/-- Every frame that leans has a counted one below it. -/
def Backed : List CoreFrame → Prop
  | [] => True
  | f :: fs => (f.leans → ∃ g ∈ fs, .busy ∈ g.stopRoles) ∧ Backed fs

/-- Frames that do not lean may be put on top. -/
theorem Backed.append {new fs : List CoreFrame} (h : Backed fs) (hnew : ∀ f ∈ new, f.leans = false) :
    Backed (new ++ fs) := by
  induction new with
  | nil => exact h
  | cons f new ih =>
    refine ⟨fun hl => ?_, ih fun g hg => hnew g (List.mem_cons_of_mem _ hg)⟩
    rw [hnew f List.mem_cons_self] at hl
    cases hl

namespace Runtime

variable {s s' : Runtime} {ch : Choice} {f : CoreFrame} {new : List CoreFrame}

theorem leans_closingHook (s : Runtime) (c : ContextId) (closed : Bool) :
    ∀ f ∈ s.closingHook c closed, f.leans = false := by
  intro f hf
  rw [closingHook] at hf
  split at hf
  · cases List.mem_singleton.mp hf
    rfl
  · cases hf

theorem leans_refusedFire (b : Submitter) (r : RequestId) (err : Option SubmitError) :
    ∀ f ∈ refusedFire b r err, f.leans = false := by
  intro f hf
  unfold refusedFire at hf
  split at hf
  · cases List.mem_singleton.mp hf
    rfl
  · cases hf

theorem leans_turnFrame (c : ContextId) (r : RequestId) : (turnFrame c r).leans = false := by
  cases r <;> rfl

theorem leans_frame (k : Call) : (k.frame false).leans = false := by
  cases k <;> rfl

theorem run_backed {fs : List CoreFrame} (h : Backed (f :: fs)) (hrun : s.run ch f = some (s', new)) :
    Backed (new ++ fs) := by
  obtain ⟨hlean, hfs⟩ := h
  cases f with
  | submit exec c r =>
    cases hrun
    exact ⟨fun _ => ⟨.endBusy, List.mem_cons_self, by decide⟩, (by rintro ⟨⟩), hfs⟩
  | submitOpen exec c r =>
    simp only [run] at hrun
    split at hrun <;> cases hrun
    · exact ⟨fun _ => hlean rfl, hfs⟩
    · exact hfs
  | admission exec c r =>
    obtain ⟨-, rfl⟩ := out_eq hrun
    unfold Runtime.admission
    dsimp only
    split_ifs
    · exact hfs
    · exact hfs
    · exact hfs
    · split
      · exact ⟨fun _ => hlean rfl, hfs⟩
      · exact hfs
  | countTurn c r =>
    cases hrun
    refine hfs.append fun g hg => ?_
    rw [List.mem_singleton.mp hg]
    exact leans_turnFrame c r
  | admitInternal c r b =>
    obtain ⟨-, rfl⟩ := out_eq hrun
    refine hfs.append fun g hg => ?_
    rcases List.mem_cons.mp hg with rfl | hg
    · rfl
    · exact leans_refusedFire _ _ _ g hg
  | wakeRequest r gen =>
    simp only [run] at hrun
    obtain ⟨c, -, hrun⟩ := Option.map_eq_some_iff.mp hrun
    cases hrun
    exact ⟨fun _ => ⟨.endBusy, List.mem_cons_self, by decide⟩, (by rintro ⟨⟩), hfs⟩
  | claim lane c =>
    obtain ⟨-, rfl⟩ := out_eq hrun
    unfold Runtime.claim
    dsimp only
    split
    · refine hfs.append fun g hg => ?_
      rcases List.mem_cons.mp hg with rfl | hg
      · rfl
      · rcases List.mem_append.mp hg with hg | hg
        · exact leans_closingHook _ _ _ g hg
        · cases List.mem_singleton.mp hg
          rfl
    · refine hfs.append fun g hg => ?_
      rw [List.mem_singleton.mp hg]
      exact leans_turnFrame _ _
  | takeReady lane =>
    simp only [run] at hrun
    split at hrun <;> cases hrun <;> exact ⟨(by rintro ⟨⟩), hfs⟩
  | turn c r prepared =>
    cases ch with
    | call k =>
      cases hrun
      exact ⟨fun _ => ⟨_, List.mem_cons_self, by simp [CoreFrame.stopRoles]⟩, (by rintro ⟨⟩), hfs⟩
    | prepareWait =>
      cases hrun
      exact ⟨(by rintro ⟨⟩), hfs⟩
    | finish o =>
      simp only [run] at hrun
      split at hrun <;> cases hrun
      exact ⟨(by rintro ⟨⟩), hfs⟩
  | timerRun c t =>
    simp only [run] at hrun
    split at hrun <;> cases hrun
    · exact ⟨fun _ => ⟨_, List.mem_cons_self, by simp [CoreFrame.stopRoles]⟩, (by rintro ⟨⟩), hfs⟩
    · exact ⟨(by rintro ⟨⟩), hfs⟩
  | callback c t =>
    cases ch with
    | call k =>
      cases hrun
      obtain ⟨g, hg, hbusy⟩ := hlean rfl
      exact ⟨fun _ => ⟨g, List.mem_cons_of_mem _ hg, hbusy⟩, fun _ => ⟨g, hg, hbusy⟩, hfs⟩
    | prepareWait =>
      cases hrun
      exact ⟨hlean, hfs⟩
    | finish o =>
      cases hrun
      exact hfs
  | endTurn c r o =>
    obtain ⟨-, rfl⟩ := out_eq hrun
    refine hfs.append fun g hg => ?_
    rcases List.mem_cons.mp hg with rfl | hg
    · rfl
    rcases List.mem_append.mp hg with hg | hg
    · split at hg
      · cases List.mem_singleton.mp hg
        rfl
      · cases hg
    · exact leans_closingHook _ _ _ g hg
  | hook =>
    cases ch with
    | call k =>
      cases hrun
      refine ⟨fun hl => ?_, (by rintro ⟨⟩), hfs⟩
      rw [leans_frame] at hl
      cases hl
    | prepareWait => cases hrun
    | finish o =>
      cases hrun
      exact hfs
  | popDue now =>
    simp only [run] at hrun
    split at hrun
    · cases hrun
      exact hfs
    · split at hrun <;> cases hrun
      · exact hfs
      · obtain ⟨g, hg, hbusy⟩ := hlean rfl
        exact ⟨fun _ => ⟨g, by simp [hg], hbusy⟩, (by rintro ⟨⟩), fun _ => ⟨g, hg, hbusy⟩, hfs⟩
  | fireDueTimers now =>
    cases hrun
    exact ⟨fun _ => ⟨.endBusy, List.mem_cons_self, by decide⟩, (by rintro ⟨⟩), hfs⟩
  | endFire c =>
    obtain ⟨-, rfl⟩ := out_eq hrun
    exact hfs.append (leans_closingHook _ _ _)
  | closeDiscarding c =>
    cases hrun
    exact ⟨fun _ => ⟨.endBusy, List.mem_cons_self, by decide⟩, (by rintro ⟨⟩), hfs⟩
  | _ =>
    simp only [run] at hrun
    cases hrun
    first
      | exact hfs
      | exact ⟨(by rintro ⟨⟩), hfs⟩
      | split <;> first | exact hfs | exact ⟨(by rintro ⟨⟩), hfs⟩

/-! ### What is counted -/

/-- A frame that steers nothing hands on what it counts. -/
theorem run_stopRoles (hf : CoreFrame.steers f = false) (hrun : s.run ch f = some (s', new)) :
    new.flatMap CoreFrame.stopRoles = f.stopRoles := by
  cases f with
  | submitOpen exec c r =>
    simp only [run] at hrun
    split at hrun <;> cases hrun <;> rfl
  | admission exec c r =>
    obtain ⟨-, rfl⟩ := out_eq hrun
    unfold Runtime.admission
    dsimp only
    split_ifs
    · rfl
    · rfl
    · rfl
    · split <;> rfl
  | admitInternal c r b =>
    obtain ⟨-, rfl⟩ := out_eq hrun
    rw [List.flatMap_cons, stopRoles_refusedFire]
    rfl
  | wake c r gen =>
    cases hrun
    rfl
  | takeReady lane =>
    simp only [run] at hrun
    split at hrun <;> cases hrun <;> rfl
  | claim lane c =>
    obtain ⟨-, rfl⟩ := out_eq hrun
    unfold Runtime.claim
    dsimp only
    split
    · rw [List.flatMap_cons, List.flatMap_append, stopRoles_closingHook]
      rfl
    · rw [List.flatMap_singleton, stopRoles_turnFrame]
      rfl
  | turn c r prepared =>
    cases ch with
    | call k =>
      cases hrun
      rw [List.flatMap_cons, stopRoles_frame]
      rfl
    | prepareWait =>
      cases hrun
      rfl
    | finish o =>
      simp only [run] at hrun
      split at hrun <;> cases hrun
      rfl
  | callback c t =>
    cases ch with
    | call k =>
      cases hrun
      rw [List.flatMap_cons, stopRoles_frame]
      rfl
    | _ =>
      cases hrun
      rfl
  | hook =>
    cases ch with
    | call k =>
      cases hrun
      rw [List.flatMap_cons, stopRoles_frame]
      rfl
    | prepareWait => cases hrun
    | finish o =>
      cases hrun
      rfl
  | endTurn c r o =>
    obtain ⟨-, rfl⟩ := out_eq hrun
    rw [Runtime.endTurn, List.flatMap_cons, List.flatMap_append, stopRoles_closingHook]
    split <;> rfl
  | endFire c =>
    obtain ⟨-, rfl⟩ := out_eq hrun
    exact stopRoles_closingHook _ _ _
  | endedLast =>
    cases hrun
    split <;> rfl
  | tryStop =>
    cases hrun
    split <;> rfl
  | tryStopBusy =>
    cases hrun
    split <;> rfl
  | tryStopWaiting =>
    cases hrun
    split <;> rfl
  | close c =>
    cases hrun
    rfl
  | discard c =>
    cases hrun
    rfl
  | onDone r =>
    cases hrun
    rfl
  | onClosed c =>
    cases hrun
    rfl
  | timerRan c t =>
    cases hrun
    rfl
  | _ => cases hf

/-- The counts of what is in progress and of owners agree with the frames. -/
structure Counts (s : Runtime) (n : StopRole → ℕ) : Prop where
  busy : s.busy = n .busy
  retire : n .retire = if s.owners = 0 ∧ s.state = .running then 1 else 0
  released : s.state ≠ .running → s.owners = 0 ∧ s.heap = []

theorem Counts.same {n : StopRole → ℕ} (h : s.Counts n) (hcontrol : s'.control = s.control) :
    s'.Counts n := by
  obtain ⟨hbusy, hretire, hreleased⟩ := h
  have hstate : s'.state = s.state := congrArg Control.state hcontrol
  have howners : s'.owners = s.owners := congrArg Control.owners hcontrol
  have hheap : s'.heap = s.heap := congrArg Control.heap hcontrol
  refine ⟨(congrArg Control.busy hcontrol).trans hbusy, ?_, ?_⟩
  · rw [hstate, howners]
    exact hretire
  · rw [hstate, howners, hheap]
    exact hreleased

/-- Something begins that ends with `endBusy`. -/
theorem Counts.begin {n : StopRole → ℕ} (h : s.Counts n) :
    { s with busy := s.busy + 1 }.Counts (also [.busy] n) where
  busy := by
    rw [also_busy, ← h.busy]
  retire := by
    rw [also_busy_retire]
    exact h.retire
  released := h.released

theorem Counts.run {n : StopRole → ℕ} (h : s.Counts (also f.stopRoles n))
    (hrelease : f = .releaseOwner → s.owners ≠ 0) (hrun : s.run ch f = some (s', new)) :
    s'.Counts (also (new.flatMap CoreFrame.stopRoles) n) := by
  by_cases hf : CoreFrame.steers f = false
  · rw [run_stopRoles hf hrun]
    exact h.same (run_control hf hrun)
  cases f with
  | submit exec c r =>
    cases hrun
    exact Counts.begin (by simpa only [CoreFrame.stopRoles, also_nil] using h)
  | countTurn c r =>
    cases hrun
    rw [List.flatMap_singleton, stopRoles_turnFrame]
    exact Counts.begin (by simpa only [CoreFrame.stopRoles, also_nil] using h)
  | submitInternal c r b =>
    cases hrun
    exact Counts.begin (by simpa only [CoreFrame.stopRoles, also_nil] using h)
  | wakeRequest r gen =>
    simp only [Runtime.run] at hrun
    obtain ⟨c, -, hrun⟩ := Option.map_eq_some_iff.mp hrun
    cases hrun
    exact Counts.begin (by simpa only [CoreFrame.stopRoles, also_nil] using h)
  | runNextIn lane =>
    cases hrun
    exact Counts.begin (by simpa only [CoreFrame.stopRoles, also_nil] using h)
  | fireDueTimers now =>
    cases hrun
    have h : s.Counts n := by simpa only [CoreFrame.stopRoles, also_nil] using h
    exact h.begin.same rfl
  | closeDiscarding c =>
    cases hrun
    exact Counts.begin (by simpa only [CoreFrame.stopRoles, also_nil] using h)
  | endBusy =>
    obtain ⟨hbusy, hretire, hreleased⟩ := h
    rw [CoreFrame.stopRoles, also_busy] at hbusy
    rw [CoreFrame.stopRoles, also_busy_retire] at hretire
    cases hrun
    have hnew : (if s.busy = 1 then [CoreFrame.endedLast] else []).flatMap CoreFrame.stopRoles = [] := by
      split <;> rfl
    rw [hnew, also_nil]
    refine ⟨?_, hretire, hreleased⟩
    change s.busy - 1 = n .busy
    rw [hbusy]
    rfl
  | releaseOwner =>
    have howners := hrelease rfl
    have h : s.Counts n := by simpa only [CoreFrame.stopRoles, also_nil] using h
    obtain ⟨hbusy, hretire, hreleased⟩ := h
    rw [if_neg fun h => howners h.1] at hretire
    cases hrun
    have hstate : s.state = .running := by
      by_contra hne
      exact howners (hreleased hne).1
    by_cases hone : s.owners = 1
    · rw [if_pos hone, List.flatMap_singleton, CoreFrame.stopRoles]
      refine ⟨?_, ?_, fun hne => absurd hstate hne⟩
      · rw [also_retire_busy]
        exact hbusy
      · rw [also_retire, hretire, if_pos ⟨by simp only [hone], hstate⟩]
    · rw [if_neg hone, List.flatMap_nil, also_nil]
      refine ⟨hbusy, ?_, fun hne => absurd hstate hne⟩
      rw [hretire, if_neg]
      rintro ⟨hzero, -⟩
      dsimp only at hzero
      omega
  | retire =>
    obtain ⟨hbusy, hretire, -⟩ := h
    rw [CoreFrame.stopRoles, also_retire_busy] at hbusy
    rw [CoreFrame.stopRoles, also_retire] at hretire
    cases hrun
    rw [List.flatMap_singleton, show CoreFrame.tryStop.stopRoles = [] from rfl, also_nil]
    split at hretire
    next hzero =>
      refine ⟨hbusy, ?_, fun _ => ⟨hzero.1, rfl⟩⟩
      rw [if_neg (by rintro ⟨-, ⟨⟩⟩)]
      exact Nat.succ.inj hretire
    next => cases hretire
  | tryRetainOwner =>
    cases hrun
    split
    · exact h
    next howners =>
      obtain ⟨hbusy, hretire, hreleased⟩ := h
      refine ⟨hbusy, ?_, fun hne => absurd (hreleased hne).1 howners⟩
      rw [if_neg (by rintro ⟨⟨⟩, -⟩)]
      rw [if_neg fun h => howners h.1] at hretire
      exact hretire
  | tryStopReady =>
    cases hrun
    split
    next hstop =>
      obtain ⟨hbusy, hretire, hreleased⟩ := h
      refine ⟨hbusy, ?_, fun _ => hreleased (by rw [hstop.2]; decide)⟩
      rw [if_neg (by rintro ⟨-, ⟨⟩⟩)]
      rw [hstop.2, if_neg (by rintro ⟨-, ⟨⟩⟩)] at hretire
      exact hretire
    · exact h
  | timerRun c t =>
    simp only [Runtime.run] at hrun
    split at hrun <;> cases hrun <;> exact ⟨h.busy, h.retire, h.released⟩
  | arm t d noLater =>
    cases hrun
    rw [Runtime.arm]
    dsimp only
    split_ifs with hstate hlater
    · exact h
    · exact h
    · exact ⟨h.busy, h.retire, fun hne => absurd hne hstate⟩
  | cancelTimer t =>
    cases hrun
    refine ⟨h.busy, h.retire, fun hne => ⟨(h.released hne).1, ?_⟩⟩
    change s.heap.erase t = []
    rw [(h.released hne).2]
    rfl
  | popDue now =>
    simp only [Runtime.run] at hrun
    split at hrun
    · cases hrun
      exact h
    next t heap hheap =>
      split at hrun <;> cases hrun
      · exact h
      · refine ⟨h.busy, h.retire, fun hne => ?_⟩
        have hnil := (h.released hne).2
        rw [hheap] at hnil
        cases hnil
  | fireClosed t =>
    cases hrun
    exact ⟨h.busy, h.retire, h.released⟩
  | _ => exact absurd rfl hf

/-! ### What a frame leads to -/

/-- What a frame puts in its place, where it matters for retirement. -/
structure Begets (s : Runtime) (ch : Choice) (f g : CoreFrame) : Prop where
  trying : g.trying → f.trying ∨ s.state = .retiring
  past : g.past → f.past ∨ f = .tryStopBusy ∧ s.busy = 0
  ready : g = .tryStopReady → s.waiting = 0
  owned : g.owned → f.owned ∨ f = .hook ∧ ∃ c r, ch = .call (.submitInternal c r)
  works : g.works → f.works ∨ g.owned ∨ s.state = .running ∨ s.heap ≠ [] ∨
    ∃ lane c ready, f = .takeReady lane ∧ s.takeReadyLocked lane = some (c, ready)

theorem not_past_of_trying {g : CoreFrame} (h : g.trying = false) : ¬ g.past := by
  intro hpast
  cases g
  case tryStopWaiting => cases h
  case tryStopReady => cases h
  all_goals cases hpast

theorem not_owned_of_works {g : CoreFrame} (h : g.works = false) : ¬ g.owned := by
  intro howned
  cases g
  case submitInternal => cases h
  case admitInternal => cases h
  all_goals cases howned

/-- A frame that has nothing to do with retirement. -/
theorem Begets.other {g : CoreFrame} (htrying : g.trying = false) (hworks : g.works = false) :
    s.Begets ch f g where
  trying h := by
    rw [htrying] at h
    cases h
  past h := absurd h (not_past_of_trying htrying)
  ready h := by
    rw [h] at htrying
    cases htrying
  owned h := absurd h (not_owned_of_works hworks)
  works h := by
    rw [hworks] at h
    cases h

/-- A frame that works in the place of one that does. -/
theorem Begets.work {g : CoreFrame} (hf : f.works) (hg : g.owned = false) (htrying : g.trying = false) :
    s.Begets ch f g where
  trying h := by
    rw [htrying] at h
    cases h
  past h := absurd h (not_past_of_trying htrying)
  ready h := by
    rw [h] at htrying
    cases htrying
  owned h := by
    rw [hg] at h
    cases h
  works _ := .inl hf

theorem begets_closingHook {s' : Runtime} (c : ContextId) (closed : Bool) :
    ∀ g ∈ s'.closingHook c closed, s.Begets ch f g := by
  intro g hg
  rw [closingHook] at hg
  split at hg
  · cases List.mem_singleton.mp hg
    exact .other rfl rfl
  · cases hg

theorem begets_turnFrame (hf : f.works) (c : ContextId) (r : RequestId) :
    s.Begets ch f (turnFrame c r) := by
  cases r <;> exact .work hf rfl rfl

theorem begets_turn_call (hf : f.works) (k : Call) : s.Begets ch f (k.frame true) := by
  cases k <;> first | exact .other rfl rfl | exact .work hf rfl rfl

theorem run_begets (hrun : s.run ch f = some (s', new)) : ∀ g ∈ new, s.Begets ch f g := by
  intro g hg
  cases f with
  | submitOpen exec c r =>
    simp only [run] at hrun
    split at hrun <;> cases hrun
    next hrunning =>
      cases List.mem_singleton.mp hg
      exact ⟨(by rintro ⟨⟩), (by rintro ⟨⟩), (by rintro ⟨⟩), (by rintro ⟨⟩), fun _ => .inr (.inr (.inl hrunning))⟩
    · cases hg
  | admission exec c r =>
    obtain ⟨-, rfl⟩ := out_eq hrun
    unfold Runtime.admission at hg
    dsimp only at hg
    split_ifs at hg
    · cases hg
    · cases hg
    · cases hg
    · split at hg
      · cases List.mem_singleton.mp hg
        exact .work rfl rfl rfl
      · cases hg
  | admitInternal c r b =>
    obtain ⟨-, rfl⟩ := out_eq hrun
    rcases List.mem_cons.mp hg with rfl | hg
    · exact .other rfl rfl
    unfold refusedFire at hg
    split at hg
    · cases List.mem_singleton.mp hg
      exact .other rfl rfl
    · cases hg
  | countTurn c r =>
    cases hrun
    cases List.mem_singleton.mp hg
    exact begets_turnFrame rfl c r
  | submitInternal c r b =>
    cases hrun
    cases List.mem_singleton.mp hg
    exact ⟨(by rintro ⟨⟩), (by rintro ⟨⟩), (by rintro ⟨⟩), fun h => .inl h, fun _ => .inl rfl⟩
  | wakeRequest r gen =>
    simp only [run] at hrun
    obtain ⟨c, -, hrun⟩ := Option.map_eq_some_iff.mp hrun
    cases hrun
    simp only [List.mem_cons, List.not_mem_nil, or_false] at hg
    rcases hg with rfl | rfl <;> exact .other rfl rfl
  | endBusy =>
    cases hrun
    split at hg
    · cases List.mem_singleton.mp hg
      exact .other rfl rfl
    · cases hg
  | endedLast =>
    cases hrun
    split at hg
    · cases List.mem_singleton.mp hg
      exact .other rfl rfl
    · cases hg
  | releaseOwner =>
    cases hrun
    split at hg
    · cases List.mem_singleton.mp hg
      exact .other rfl rfl
    · cases hg
  | retire =>
    cases hrun
    cases List.mem_singleton.mp hg
    exact .other rfl rfl
  | tryStop =>
    cases hrun
    split at hg
    next hretiring =>
      cases List.mem_singleton.mp hg
      exact ⟨fun _ => .inr hretiring, (by rintro ⟨⟩), (by rintro ⟨⟩), (by rintro ⟨⟩), (by rintro ⟨⟩)⟩
    · cases hg
  | tryStopBusy =>
    cases hrun
    split at hg
    next hbusy =>
      cases List.mem_singleton.mp hg
      exact ⟨fun _ => .inl rfl, fun _ => .inr ⟨rfl, hbusy⟩, (by rintro ⟨⟩), (by rintro ⟨⟩), (by rintro ⟨⟩)⟩
    · cases hg
  | tryStopWaiting =>
    cases hrun
    split at hg
    next hwaiting =>
      cases List.mem_singleton.mp hg
      exact ⟨fun _ => .inl rfl, fun _ => .inl rfl, fun _ => hwaiting, (by rintro ⟨⟩), (by rintro ⟨⟩)⟩
    · cases hg
  | takeReady lane =>
    simp only [run] at hrun
    split at hrun
    · cases hrun
      cases List.mem_singleton.mp hg
      exact .other rfl rfl
    next c ready htake =>
      cases hrun
      cases List.mem_singleton.mp hg
      exact ⟨(by rintro ⟨⟩), (by rintro ⟨⟩), (by rintro ⟨⟩), (by rintro ⟨⟩), fun _ => .inr (.inr (.inr (.inr ⟨lane, c, ready, rfl, htake⟩)))⟩
  | claim lane c =>
    obtain ⟨-, rfl⟩ := out_eq hrun
    unfold Runtime.claim at hg
    dsimp only at hg
    split at hg
    · rcases List.mem_cons.mp hg with rfl | hg
      · exact .other rfl rfl
      rcases List.mem_append.mp hg with hg | hg
      · exact begets_closingHook _ _ g hg
      · cases List.mem_singleton.mp hg
        exact .other rfl rfl
    · cases List.mem_singleton.mp hg
      exact begets_turnFrame rfl _ _
  | turn c r prepared =>
    cases ch with
    | call k =>
      cases hrun
      simp only [List.mem_cons, List.not_mem_nil, or_false] at hg
      rcases hg with rfl | rfl
      · exact begets_turn_call rfl k
      · exact .work rfl rfl rfl
    | prepareWait =>
      cases hrun
      cases List.mem_singleton.mp hg
      exact .work rfl rfl rfl
    | finish o =>
      simp only [run] at hrun
      split at hrun <;> cases hrun
      cases List.mem_singleton.mp hg
      exact .work rfl rfl rfl
  | timerRun c t =>
    simp only [run] at hrun
    split at hrun <;> cases hrun
    · simp only [List.mem_cons, List.not_mem_nil, or_false] at hg
      rcases hg with rfl | rfl <;> exact .work rfl rfl rfl
    · cases List.mem_singleton.mp hg
      exact .work rfl rfl rfl
  | callback c t =>
    cases ch with
    | call k =>
      cases hrun
      simp only [List.mem_cons, List.not_mem_nil, or_false] at hg
      rcases hg with rfl | rfl
      · exact begets_turn_call rfl k
      · exact .work rfl rfl rfl
    | prepareWait =>
      cases hrun
      cases List.mem_singleton.mp hg
      exact .work rfl rfl rfl
    | finish o =>
      cases hrun
      cases hg
  | timerRan c t =>
    cases hrun
    cases List.mem_singleton.mp hg
    exact .work rfl rfl rfl
  | endTurn c r o =>
    obtain ⟨-, rfl⟩ := out_eq hrun
    rcases List.mem_cons.mp hg with rfl | hg
    · exact .other rfl rfl
    rcases List.mem_append.mp hg with hg | hg
    · split at hg
      · cases List.mem_singleton.mp hg
        exact .other rfl rfl
      · cases hg
    · exact begets_closingHook _ _ g hg
  | hook =>
    cases ch with
    | call k =>
      cases hrun
      simp only [List.mem_cons, List.not_mem_nil, or_false] at hg
      rcases hg with rfl | rfl
      · cases k with
        | submitInternal c r =>
          exact ⟨(by rintro ⟨⟩), (by rintro ⟨⟩), (by rintro ⟨⟩), fun _ => .inr ⟨rfl, c, r, rfl⟩, fun _ => .inr (.inl rfl)⟩
        | _ => exact .other rfl rfl
      · exact .other rfl rfl
    | prepareWait => cases hrun
    | finish o =>
      cases hrun
      cases hg
  | popDue now =>
    simp only [run] at hrun
    split at hrun
    · cases hrun
      cases hg
    next t heap hheap =>
      split at hrun
      · cases hrun
        cases hg
      · cases hrun
        simp only [List.mem_cons, List.not_mem_nil, or_false] at hg
        rcases hg with rfl | rfl | rfl
        · refine ⟨(by rintro ⟨⟩), (by rintro ⟨⟩), (by rintro ⟨⟩), (by rintro ⟨⟩), fun _ => .inr (.inr (.inr (.inl ?_)))⟩
          rw [hheap]
          exact (by rintro ⟨⟩)
        · exact .other rfl rfl
        · exact .other rfl rfl
  | endFire c =>
    obtain ⟨-, rfl⟩ := out_eq hrun
    exact begets_closingHook _ _ g hg
  | submit exec c r =>
    cases hrun
    simp only [List.mem_cons, List.not_mem_nil, or_false] at hg
    rcases hg with rfl | rfl <;> exact .other rfl rfl
  | runNextIn lane =>
    cases hrun
    cases List.mem_singleton.mp hg
    exact .other rfl rfl
  | onDone r =>
    cases hrun
    cases List.mem_singleton.mp hg
    exact .other rfl rfl
  | onClosed c =>
    cases hrun
    cases List.mem_singleton.mp hg
    exact .other rfl rfl
  | fireDueTimers now =>
    cases hrun
    simp only [List.mem_cons, List.not_mem_nil, or_false] at hg
    rcases hg with rfl | rfl <;> exact .other rfl rfl
  | closeDiscarding c =>
    cases hrun
    simp only [List.mem_cons, List.not_mem_nil, or_false] at hg
    rcases hg with rfl | rfl <;> exact .other rfl rfl
  | _ =>
    cases hrun
    cases hg

/-! ### What is left -/

/-- With nothing waiting, a frame that does not work makes nothing ready. -/
theorem run_quiet {n : Role → ℕ} (hs : s.Sched n) (hwaiting : s.waiting = 0) (hworks : f.works = false)
    (hstop : f = .tryStopReady → s.state ≠ .retiring) (hrun : s.run ch f = some (s', new)) :
    s'.waiting = 0 ∧ (s.ready = [] → s'.ready = []) ∧ Adds (fun e => ¬ e.moves) s s' := by
  cases f with
  | submitOpen exec c r =>
    simp only [run] at hrun
    split at hrun <;> cases hrun
    · exact ⟨hwaiting, id, .same rfl⟩
    · exact ⟨hwaiting, id, .note rfl (by simp [RuntimeEvent.moves])⟩
  | wakeRequest r gen =>
    simp only [run] at hrun
    obtain ⟨c, -, hrun⟩ := Option.map_eq_some_iff.mp hrun
    cases hrun
    exact ⟨hwaiting, id, .same rfl⟩
  | wake c r gen =>
    cases hrun
    have hnot : (s.requests r).placement ≠ .waiting :=
      fun hw => (hwaiting ▸ hs.waiting).not_of_zero r hw
    unfold Runtime.wake
    dsimp only
    split_ifs
    · exact ⟨hwaiting, id, .same rfl⟩
    split
    · exact ⟨hwaiting, id, .note (e := .woken r) (by simp) (by simp [RuntimeEvent.moves])⟩
    next hw => exact absurd hw hnot
    · exact ⟨hwaiting, id, .note (e := .woken r) (by simp) (by simp [RuntimeEvent.moves])⟩
  | tryRetainOwner =>
    cases hrun
    split <;> exact ⟨hwaiting, id, .same rfl⟩
  | tryStopReady =>
    cases hrun
    rw [if_neg fun h => hstop rfl h.2]
    exact ⟨hwaiting, id, .same rfl⟩
  | takeReady lane =>
    simp only [run] at hrun
    split at hrun
    · cases hrun
      exact ⟨hwaiting, id, .same rfl⟩
    next c ready htake =>
      cases hrun
      refine ⟨hwaiting, fun hnil => ?_, .same rfl⟩
      rw [takeReadyLocked, hnil] at htake
      cases htake
  | onClosed c =>
    cases hrun
    exact ⟨hwaiting, id, .note rfl (by simp [RuntimeEvent.moves])⟩
  | hook =>
    cases ch with
    | prepareWait => cases hrun
    | _ =>
      cases hrun
      exact ⟨hwaiting, id, .same rfl⟩
  | arm t d noLater =>
    cases hrun
    rw [Runtime.arm]
    dsimp only
    split_ifs
    · exact ⟨hwaiting, id, .same rfl⟩
    · exact ⟨hwaiting, id, .same rfl⟩
    · exact ⟨hwaiting, id, .note rfl (by simp [RuntimeEvent.moves])⟩
  | cancelTimer t =>
    cases hrun
    exact ⟨hwaiting, id, .note rfl (by simp [RuntimeEvent.moves])⟩
  | fireDueTimers now =>
    cases hrun
    exact ⟨hwaiting, id, .note rfl (by simp [RuntimeEvent.moves])⟩
  | popDue now =>
    simp only [run] at hrun
    split at hrun
    · cases hrun
      exact ⟨hwaiting, id, .same rfl⟩
    · split at hrun <;> cases hrun
      · exact ⟨hwaiting, id, .same rfl⟩
      · exact ⟨hwaiting, id, .note rfl (by simp [RuntimeEvent.moves])⟩
  | endFire c =>
    obtain ⟨rfl, -⟩ := out_eq hrun
    refine ⟨?_, fun hnil => ?_, .trans (.same rfl) (adds_closeIfDrained true (by simp [RuntimeEvent.moves]))⟩
    · rw [closeIfDrainedLocked_waiting]
      exact hwaiting
    · rw [closeIfDrainedLocked_ready]
      exact hnil
  | close c =>
    cases hrun
    refine ⟨?_, fun hnil => ?_, .trans (.same rfl) (adds_closeIfDrained false (by simp [RuntimeEvent.moves]))⟩
    · rw [closeIfDrainedLocked_waiting]
      exact hwaiting
    · rw [closeIfDrainedLocked_ready]
      exact hnil
  | discard c =>
    cases hrun
    refine ⟨(discard_waiting s c).trans hwaiting, fun hnil => ?_,
      adds_discard (by simp [RuntimeEvent.moves]) (by simp [RuntimeEvent.moves])⟩
    rw [discard_ready, hnil]
    split <;> rfl
  | _ =>
    first
      | cases hrun
        exact ⟨hwaiting, id, .same rfl⟩
      | cases hworks

/-- A frame that is not counted leaves what waits and what is ready alone. -/
theorem run_placid (hlean : f.leans = false) (hroles : .busy ∉ f.stopRoles)
    (hrun : s.run ch f = some (s', new)) : s'.ready = s.ready ∧ s'.waiting = s.waiting := by
  cases f with
  | submitInternal c r b =>
    cases hrun
    exact ⟨rfl, rfl⟩
  | wakeRequest r gen =>
    simp only [run] at hrun
    obtain ⟨c, -, hrun⟩ := Option.map_eq_some_iff.mp hrun
    cases hrun
    exact ⟨rfl, rfl⟩
  | tryRetainOwner =>
    cases hrun
    split <;> exact ⟨rfl, rfl⟩
  | tryStopReady =>
    cases hrun
    split <;> exact ⟨rfl, rfl⟩
  | hook =>
    cases ch with
    | prepareWait => cases hrun
    | _ =>
      cases hrun
      exact ⟨rfl, rfl⟩
  | arm t d noLater =>
    cases hrun
    rw [Runtime.arm]
    dsimp only
    split_ifs <;> exact ⟨rfl, rfl⟩
  | endFire c =>
    obtain ⟨rfl, -⟩ := out_eq hrun
    exact ⟨closeIfDrainedLocked_ready _ c true, closeIfDrainedLocked_waiting _ c true⟩
  | close c =>
    cases hrun
    exact ⟨closeIfDrainedLocked_ready _ c false, closeIfDrainedLocked_waiting _ c false⟩
  | _ =>
    first
      | exact absurd List.mem_cons_self hroles
      | cases hrun
        exact ⟨rfl, rfl⟩
      | cases hlean

/-- What is counted stays counted until `endBusy`. -/
theorem run_busy (hbusy : .busy ∈ f.stopRoles) (hf : f ≠ .endBusy) (hrun : s.run ch f = some (s', new)) :
    .busy ∈ new.flatMap CoreFrame.stopRoles := by
  by_cases hsteers : CoreFrame.steers f = false
  · rw [run_stopRoles hsteers hrun]
    exact hbusy
  cases f with
  | endBusy => exact absurd rfl hf
  | timerRun c t =>
    simp only [run] at hrun
    split at hrun <;> cases hrun <;> simp [CoreFrame.stopRoles]
  | _ => first | exact absurd rfl hsteers | simp [CoreFrame.stopRoles] at hbusy

/-- Only what belongs to retirement changes the state or the count of owners. -/
theorem run_steady (hf : f.rules = false) (hrun : s.run ch f = some (s', new)) :
    s'.state = s.state ∧ s'.owners = s.owners := by
  by_cases hsteers : CoreFrame.steers f = false
  · exact ⟨congrArg Control.state (run_control hsteers hrun),
      congrArg Control.owners (run_control hsteers hrun)⟩
  cases f with
  | wakeRequest r gen =>
    simp only [run] at hrun
    obtain ⟨c, -, hrun⟩ := Option.map_eq_some_iff.mp hrun
    cases hrun
    exact ⟨rfl, rfl⟩
  | timerRun c t =>
    simp only [run] at hrun
    split at hrun <;> cases hrun <;> exact ⟨rfl, rfl⟩
  | arm t d noLater =>
    cases hrun
    rw [Runtime.arm]
    dsimp only
    split_ifs <;> exact ⟨rfl, rfl⟩
  | popDue now =>
    simp only [run] at hrun
    split at hrun
    · cases hrun
      exact ⟨rfl, rfl⟩
    · split at hrun <;> cases hrun <;> exact ⟨rfl, rfl⟩
  | _ =>
    first
      | exact absurd rfl hsteers
      | cases hrun
        exact ⟨rfl, rfl⟩
      | cases hf

theorem run_state (hrun : s.run ch f = some (s', new)) : s'.state = s.state ∨
    f = .retire ∧ s'.state = .retiring ∨ f = .tryStopReady ∧ s.ready = [] ∧ s.state = .retiring ∧
      s' = { s with state := .backendStopped }.note .stopped := by
  by_cases hf : f.rules = false
  · exact .inl (run_steady hf hrun).1
  cases f with
  | releaseOwner =>
    cases hrun
    exact .inl rfl
  | retire =>
    cases hrun
    exact .inr (.inl ⟨rfl, rfl⟩)
  | tryRetainOwner =>
    cases hrun
    split <;> exact .inl rfl
  | tryStopReady =>
    cases hrun
    split
    next h => exact .inr (.inr ⟨rfl, h.1, h.2, rfl⟩)
    · exact .inl rfl
  | _ => exact absurd rfl hf

theorem run_owners (hrun : s.run ch f = some (s', new)) (howners : s'.owners = 0) :
    s.owners = 0 ∨ f = .releaseOwner ∧ s.owners ≤ 1 := by
  by_cases hf : f.rules = false
  · exact .inl ((run_steady hf hrun).2.symm.trans howners)
  cases f with
  | releaseOwner =>
    cases hrun
    exact .inr ⟨rfl, Nat.sub_eq_zero_iff_le.mp howners⟩
  | retire =>
    cases hrun
    exact .inl howners
  | tryRetainOwner =>
    cases hrun
    split at howners
    · exact .inl howners
    · cases howners
  | tryStopReady =>
    cases hrun
    split at howners <;> exact .inl howners
  | _ => exact absurd rfl hf

end Runtime

end Zzdds.Core
