import Zzdds.Runtime.Retirement

/-! # When the runtime stops

`tryStop` reads what is in progress, what waits and what is ready one after the other.  What it has read
stays so if nothing is taken from the ready queue between its reads. -/

namespace Zzdds.Core

open Zzdds.Lib

/-! ### Frames -/

/-- What works is counted, by itself or by a frame that waits for it, or its submitter holds an owner
reference. -/
theorem CoreFrame.counted_of_works {f : CoreFrame} (h : f.works) :
    .busy ∈ f.stopRoles ∨ f.leans ∨ f.owned := by
  cases f with
  | submitInternal c r b => cases b <;> simp [leans, owned]
  | _ => first | exact .inl List.mem_cons_self | exact .inr (.inl rfl) | cases h

theorem CoreFrame.stops_of_past {f : CoreFrame} (h : f.past) : f.trying ∧ f.works = false := by
  cases f <;> first | exact ⟨rfl, rfl⟩ | cases h

theorem CoreFrame.works_of_roles {f : CoreFrame} {ρ : Role} {c : ContextId}
    (hρ : ρ = .claim c ∨ ρ = .turn c) (hr : ρ ∈ f.roles) : f.works := by
  cases f with
  | wake c' r gen =>
    rw [List.mem_singleton.mp hr] at hρ
    rcases hρ with hρ | hρ <;> cases hρ
  | _ => first | rfl | exact absurd hr List.not_mem_nil

theorem Backed.busy_of_leans {fs : List CoreFrame} (h : Backed fs) {f : CoreFrame} (hf : f ∈ fs)
    (hlean : f.leans) : ∃ g ∈ fs, .busy ∈ g.stopRoles := by
  induction fs with
  | nil => cases hf
  | cons f' fs ih =>
    rcases List.mem_cons.mp hf with rfl | hf
    · obtain ⟨g, hg, hbusy⟩ := h.1 hlean
      exact ⟨g, List.mem_cons_of_mem _ hg, hbusy⟩
    · obtain ⟨g, hg, hbusy⟩ := ih h.2 hf
      exact ⟨g, List.mem_cons_of_mem _ hg, hbusy⟩

/-- Internal work from outside any turn. -/
def Call.internal : Call → Bool
  | .submitInternal .. => true
  | _ => false

namespace CoreMachine

variable {m m' : CoreMachine}

/-! ### Conditions -/

/-- Internal work is submitted by turns and by holders of an owner reference, who keep it until the
submission has returned. -/
def Held (m : CoreMachine) : CoreAction → Prop
  | .call k => k.internal → m.shared.owners ≠ 0
  | .turn i ch =>
      match m.next i, ch with
      | some .hook, .call k => k.internal → m.shared.owners ≠ 0
      | some .releaseOwner, _ => m.shared.owners ≠ 0 ∧
          (m.shared.owners = 1 → ∀ f ∈ m.threads.flatten, f.owned = false)
      | _, _ => True

instance (m : CoreMachine) (x : CoreAction) : Decidable (m.Held x) := by
  unfold Held
  split
  · infer_instance
  · split <;> infer_instance

/-- No context is taken from the ready queue while a `tryStop` is between its reads. -/
def KeepsReady (m : CoreMachine) : CoreAction → Prop
  | .call _ => True
  | .turn i _ =>
      match m.next i with
      | some (.takeReady lane) => (m.shared.takeReadyLocked lane).isSome →
          ∀ f ∈ m.threads.flatten, f.past = false
      | _ => True

instance (m : CoreMachine) (x : CoreAction) : Decidable (m.KeepsReady x) := by
  unfold KeepsReady
  split
  · infer_instance
  · split <;> infer_instance

/-! ### The invariant -/

structure Retiring (m : CoreMachine) : Prop where
  counts : m.shared.Counts (tally CoreFrame.stopRoles m.frames)
  backed : ∀ fs ∈ m.threads, Backed fs
  owned : m.shared.owners = 0 → ∀ f ∈ m.frames, f.owned = false
  trying : m.shared.state = .running → ∀ f ∈ m.frames, f.trying = false
  past : (m.shared.state = .backendStopped ∨ ∃ f ∈ m.frames, f.past) → ∀ f ∈ m.frames, f.works = false
  waiting : (m.shared.state = .backendStopped ∨ .tryStopReady ∈ m.frames) → m.shared.waiting = 0
  ready : m.shared.state = .backendStopped → m.shared.ready = []
  /-- The last to end sees to it that the runtime stops. -/
  will : m.shared.state = .retiring → m.shared.busy = 0 → m.shared.waiting = 0 → m.shared.ready = [] →
    ∃ f ∈ m.frames, f.stops
  stopped : .stopped ∈ m.shared.history ↔ m.shared.state = .backendStopped
  history : m.shared.history.Pairwise fun e e' => e = .stopped → ¬ e'.moves

theorem init_retiring (contexts : ContextId → Context) (timers : TimerId → Timer)
    (inlineTurns : ExecutorId → ℕ) : (init contexts timers inlineTurns).Retiring where
  counts := ⟨rfl, rfl, fun h => absurd rfl h⟩
  backed := nofun
  owned := nofun
  trying _ f hf := absurd hf (Multiset.notMem_zero f)
  past _ f hf := absurd hf (Multiset.notMem_zero f)
  waiting _ := rfl
  ready := nofun
  will := nofun
  stopped := iff_of_false nofun nofun
  history := .nil

/-- With nothing in progress and no owner left, nothing works. -/
theorem Retiring.idle (h : m.Retiring) (hbusy : m.shared.busy = 0) (howners : m.shared.owners = 0) :
    ∀ f ∈ m.frames, f.works = false := by
  have hzero : ∀ f ∈ m.frames, .busy ∉ f.stopRoles := by
    intro f hf hr
    have hne := (tally_ne_zero CoreFrame.stopRoles).mpr ⟨f, hf, hr⟩
    exact hne (h.counts.busy.symm.trans hbusy)
  intro f hf
  by_contra hworks
  rcases f.counted_of_works (by simpa using hworks) with hr | hlean | howned
  · exact hzero f hf hr
  · obtain ⟨fs, hfs, hmem⟩ := List.mem_flatten.mp (Multiset.mem_coe.mp hf)
    obtain ⟨g, hg, hr⟩ := (h.backed fs hfs).busy_of_leans hmem hlean
    exact hzero g (Multiset.mem_coe.mpr (List.mem_flatten.mpr ⟨fs, hfs, hg⟩)) hr
  · rw [h.owned howners f hf] at howned
    cases howned

theorem Retiring.not_running (h : m.Retiring) {f : CoreFrame} (hf : f ∈ m.frames) (htrying : f.trying) :
    m.shared.state ≠ .running := by
  intro hstate
  rw [h.trying hstate f hf] at htrying
  cases htrying

theorem Retiring.not_running_of_past (h : m.Retiring)
    (hp : m.shared.state = .backendStopped ∨ ∃ f ∈ m.frames, f.past) : m.shared.state ≠ .running := by
  rcases hp with hp | ⟨f, hf, hpast⟩
  · rw [hp]
    decide
  · exact h.not_running hf (CoreFrame.stops_of_past hpast).1

/-- A thread makes a call. -/
theorem Retiring.call {k : Call} (h : m.Retiring) (hheld : k.internal → m.shared.owners ≠ 0) :
    Retiring (m.spawn m.shared [k.frame false]) := by
  have hmem : ∀ f ∈ (m.spawn m.shared [k.frame false]).frames, f = k.frame false ∨ f ∈ m.frames := by
    intro f hf
    rw [Threads.spawn_frames, Multiset.mem_add] at hf
    exact hf.imp_left fun hf => List.mem_singleton.mp (Multiset.mem_coe.mp hf)
  have hsub : ∀ f ∈ m.frames, f ∈ (m.spawn m.shared [k.frame false]).frames := by
    intro f hf
    rw [Threads.spawn_frames, Multiset.mem_add]
    exact .inr hf
  have htrying : (k.frame false).trying = false := by cases k <;> rfl
  have hpast : (∃ f ∈ (m.spawn m.shared [k.frame false]).frames, f.past) → ∃ f ∈ m.frames, f.past := by
    rintro ⟨f, hf, hp⟩
    rcases hmem f hf with rfl | hf
    · exact absurd hp (Runtime.not_past_of_trying htrying)
    · exact ⟨f, hf, hp⟩
  refine ⟨?_, ?_, ?_, ?_, ?_, ?_, h.ready, ?_, h.stopped, h.history⟩
  · have htally : tally CoreFrame.stopRoles (m.spawn m.shared [k.frame false]).frames =
        tally CoreFrame.stopRoles m.frames := tally_spawn CoreFrame.stopRoles (stopRoles_frame k false)
    rw [htally]
    exact h.counts
  · intro fs hfs
    rcases List.mem_append.mp hfs with hfs | hfs
    · exact h.backed fs hfs
    · rw [List.mem_singleton.mp hfs]
      refine ⟨fun hl => ?_, trivial⟩
      rw [Runtime.leans_frame] at hl
      cases hl
  · intro howners f hf
    rcases hmem f hf with rfl | hf
    · cases k with
      | submitInternal c r => exact absurd howners (hheld rfl)
      | _ => rfl
    · exact h.owned howners f hf
  · intro hstate f hf
    rcases hmem f hf with rfl | hf
    · exact htrying
    · exact h.trying hstate f hf
  · intro hp f hf
    have hpast := hp.imp_right hpast
    rcases hmem f hf with rfl | hf
    · cases k with
      | submitInternal c r =>
        exact absurd (h.counts.released (h.not_running_of_past hpast)).1 (hheld rfl)
      | _ => rfl
    · exact h.past hpast f hf
  · intro hp
    refine h.waiting (hp.imp_right fun hf => ?_)
    rcases hmem _ hf with heq | hf
    · rw [← heq] at htrying
      cases htrying
    · exact hf
  · intro hstate hbusy hwaiting hready
    obtain ⟨f, hf, hstops⟩ := h.will hstate hbusy hwaiting hready
    exact ⟨f, hsub f hf, hstops⟩

/-! ### A thread takes its turn -/

section turn

variable {i : ℕ} {ch : Choice} {f : CoreFrame} {fs new : List CoreFrame} {rest : Multiset CoreFrame}

namespace Turned

variable (ht : Turned m m' i ch f fs new rest)
include ht

theorem begets {g : CoreFrame} (hg : g ∈ new) : m.shared.Begets ch f g :=
  Runtime.run_begets ht.run g hg

theorem counts (h : m.Retiring) (hheld : m.Held (.turn i ch)) :
    m'.shared.Counts (tally CoreFrame.stopRoles m'.frames) := by
  have hcounts := h.counts
  rw [ht.frames, tally_cons_eq_also] at hcounts
  rw [ht.frames', tally_add_eq_also]
  refine hcounts.run (fun hf => ?_) ht.run
  subst hf
  simp only [Held, ht.next] at hheld
  exact hheld.1

theorem backed (h : m.Retiring) : ∀ fs' ∈ m'.threads, Backed fs' := by
  intro fs' hfs'
  rw [ht.threads'] at hfs'
  rcases List.mem_or_eq_of_mem_set hfs' with hfs' | rfl
  · exact h.backed fs' hfs'
  · exact Runtime.run_backed (h.backed _ (List.mem_of_getElem? ht.thread)) ht.run

/-- A hook submits internal work only while there are owners. -/
theorem owners_of_hook (hheld : m.Held (.turn i ch)) {c : ContextId} {r : RequestId} (hf : f = .hook)
    (hch : ch = .call (.submitInternal c r)) : m.shared.owners ≠ 0 := by
  subst hf hch
  simp only [Held, ht.next] at hheld
  exact hheld rfl

theorem owned (h : m.Retiring) (hheld : m.Held (.turn i ch)) (howners : m'.shared.owners = 0) :
    ∀ g ∈ m'.frames, g.owned = false := by
  have hold : (∀ g ∈ m.frames, g.owned = false) ∧ (f = .hook → m.shared.owners = 0) := by
    rcases Runtime.run_owners ht.run howners with hzero | ⟨hf, hle⟩
    · exact ⟨h.owned hzero, fun _ => hzero⟩
    · refine ⟨?_, fun hhook => by rw [hf] at hhook; cases hhook⟩
      simp only [Held, ht.next, hf] at hheld
      intro g hg
      exact hheld.2 (by have := hheld.1; omega) g (Multiset.mem_coe.mp hg)
  intro g hg
  rcases ht.mem_or hg with hg | hg
  · by_contra hne
    rcases (ht.begets hg).owned (by simpa using hne) with howned | ⟨hf, c, r, hch⟩
    · rw [hold.1 f ht.mem_self] at howned
      cases howned
    · exact ht.owners_of_hook hheld hf hch (hold.2 hf)
  · exact hold.1 g hg

theorem trying (h : m.Retiring) (hstate : m'.shared.state = .running) :
    ∀ g ∈ m'.frames, g.trying = false := by
  have hold : m.shared.state = .running := by
    rcases Runtime.run_state ht.run with heq | ⟨-, heq⟩ | ⟨-, -, -, heq⟩
    · exact heq.symm.trans hstate
    · rw [heq] at hstate
      cases hstate
    · rw [heq] at hstate
      cases hstate
  intro g hg
  rcases ht.mem_or hg with hg | hg
  · by_contra hne
    rcases (ht.begets hg).trying (by simpa using hne) with htrying | hretiring
    · rw [h.trying hold f ht.mem_self] at htrying
      cases htrying
    · rw [hold] at hretiring
      cases hretiring
  · exact h.trying hold g hg

/-- A `tryStop` has seen nothing in progress, before the turn or by it. -/
theorem past_cases
    (hp : m'.shared.state = .backendStopped ∨ ∃ g ∈ m'.frames, g.past) :
    (m.shared.state = .backendStopped ∨ ∃ g ∈ m.frames, g.past) ∨
      f = .tryStopBusy ∧ m.shared.busy = 0 := by
  rcases hp with hstopped | ⟨g, hg, hpast⟩
  · rcases Runtime.run_state ht.run with heq | ⟨-, heq⟩ | ⟨hf, -⟩
    · exact .inl (.inl (heq.symm.trans hstopped))
    · rw [heq] at hstopped
      cases hstopped
    · exact .inl (.inr ⟨f, ht.mem_self, by rw [hf]; rfl⟩)
  · rcases ht.mem_or hg with hg | hg
    · rcases (ht.begets hg).past hpast with hpast | hbusy
      · exact .inl (.inr ⟨f, ht.mem_self, hpast⟩)
      · exact .inr hbusy
    · exact .inl (.inr ⟨g, hg, hpast⟩)

/-- Before the turn nothing worked either. -/
theorem still (h : m.Retiring) (hp : m'.shared.state = .backendStopped ∨ ∃ g ∈ m'.frames, g.past) :
    m.shared.state ≠ .running ∧ ∀ g ∈ m.frames, g.works = false := by
  rcases ht.past_cases hp with hp | ⟨hf, hbusy⟩
  · exact ⟨h.not_running_of_past hp, h.past hp⟩
  · have hstate := h.not_running ht.mem_self (by rw [hf]; rfl)
    exact ⟨hstate, h.idle hbusy (h.counts.released hstate).1⟩

theorem past (h : m.Retiring) (hheld : m.Held (.turn i ch)) (hkeeps : m.KeepsReady (.turn i ch))
    (hp : m'.shared.state = .backendStopped ∨ ∃ g ∈ m'.frames, g.past) :
    ∀ g ∈ m'.frames, g.works = false := by
  obtain ⟨hstate, hworks⟩ := ht.still h hp
  obtain ⟨howners, hheap⟩ := h.counts.released hstate
  intro g hg
  rcases ht.mem_or hg with hg | hg
  · by_contra hne
    have hb := ht.begets hg
    rcases hb.works (by simpa using hne) with hf | howned | hrunning | hne' | ⟨lane, c, ready, hf, htake⟩
    · rw [hworks f ht.mem_self] at hf
      cases hf
    · rcases hb.owned howned with howned | ⟨hf, c, r, hch⟩
      · exact Runtime.not_owned_of_works (hworks f ht.mem_self) howned
      · exact ht.owners_of_hook hheld hf hch howners
    · exact hstate hrunning
    · exact hne' hheap
    · rcases ht.past_cases hp with (hstopped | ⟨g', hg', hpast⟩) | ⟨hf', -⟩
      · rw [Runtime.takeReadyLocked, h.ready hstopped] at htake
        cases htake
      · simp only [KeepsReady, ht.next, hf] at hkeeps
        rw [hkeeps (by rw [htake]; rfl) g' (Multiset.mem_coe.mp hg')] at hpast
        cases hpast
      · rw [hf] at hf'
        cases hf'
  · exact hworks g hg

/-- What does not wait does not begin to, when nothing works. -/
theorem waiting_eq_zero (hs : m.Sound) (hworks : f.works = false) (hwaiting : m.shared.waiting = 0) :
    m'.shared.waiting = 0 := by
  by_cases hf : f = .tryStopReady
  · subst hf
    exact (Runtime.run_placid rfl List.not_mem_nil ht.run).2.trans hwaiting
  · exact (Runtime.run_quiet hs.sched hwaiting hworks (fun h => absurd h hf) ht.run).1

theorem waiting (h : m.Retiring) (hs : m.Sound)
    (hp : m'.shared.state = .backendStopped ∨ .tryStopReady ∈ m'.frames) : m'.shared.waiting = 0 := by
  have hworks := (ht.still h (hp.imp_right fun hg => ⟨_, hg, rfl⟩)).2 f ht.mem_self
  refine ht.waiting_eq_zero hs hworks ?_
  rcases hp with hstopped | hg
  · rcases Runtime.run_state ht.run with heq | ⟨-, heq⟩ | ⟨hf, -⟩
    · exact h.waiting (.inl (heq.symm.trans hstopped))
    · rw [heq] at hstopped
      cases hstopped
    · exact h.waiting (.inr (hf ▸ ht.mem_self))
  · rcases ht.mem_or hg with hg | hg
    · exact (ht.begets hg).ready rfl
    · exact h.waiting (.inr hg)

theorem ready (h : m.Retiring) (hs : m.Sound) (hstopped : m'.shared.state = .backendStopped) :
    m'.shared.ready = [] := by
  rcases Runtime.run_state ht.run with heq | ⟨-, heq⟩ | ⟨-, hready, -, heq⟩
  · have hold := heq.symm.trans hstopped
    have hworks := h.past (.inl hold) f ht.mem_self
    refine (Runtime.run_quiet hs.sched (h.waiting (.inl hold)) hworks (fun _ => ?_) ht.run).2.1
      (h.ready hold)
    rw [hold]
    decide
  · rw [heq] at hstopped
    cases hstopped
  · rw [heq]
    exact hready

/-- A `tryStop` goes on as long as nothing is left. -/
theorem goes_on (hf : f.stops) (hstate : m'.shared.state = .retiring) (hbusy : m'.shared.busy = 0)
    (hwaiting : m'.shared.waiting = 0) (hready : m'.shared.ready = []) : ∃ g ∈ new, g.stops := by
  have hrun := ht.run
  cases f with
  | endedLast =>
    obtain ⟨heq, rfl⟩ := Runtime.out_eq hrun
    have hold : m.shared.state = .retiring := (congrArg Runtime.state heq).symm.trans hstate
    exact ⟨.tryStop, by simp [hold], rfl⟩
  | tryStop =>
    obtain ⟨heq, rfl⟩ := Runtime.out_eq hrun
    have hold : m.shared.state = .retiring := (congrArg Runtime.state heq).symm.trans hstate
    exact ⟨.tryStopBusy, by simp [hold], rfl⟩
  | tryStopBusy =>
    obtain ⟨heq, rfl⟩ := Runtime.out_eq hrun
    have hold : m.shared.busy = 0 := (congrArg Runtime.busy heq).symm.trans hbusy
    exact ⟨.tryStopWaiting, by simp [hold], rfl⟩
  | tryStopWaiting =>
    obtain ⟨heq, rfl⟩ := Runtime.out_eq hrun
    have hold : m.shared.waiting = 0 := (congrArg Runtime.waiting heq).symm.trans hwaiting
    exact ⟨.tryStopReady, by simp [hold], rfl⟩
  | tryStopReady =>
    obtain ⟨heq, -⟩ := Runtime.out_eq hrun
    rw [heq] at hstate hready
    dsimp only at hstate hready
    split at hstate
    · cases hstate
    next hne =>
      rw [if_neg hne] at hready
      exact absurd ⟨hready, hstate⟩ hne
  | _ => cases hf

theorem will (h : m.Retiring) (hheld : m.Held (.turn i ch)) (hstate : m'.shared.state = .retiring)
    (hbusy : m'.shared.busy = 0) (hwaiting : m'.shared.waiting = 0) (hready : m'.shared.ready = []) :
    ∃ g ∈ m'.frames, g.stops := by
  have hcounted : ∀ g ∈ m'.frames, .busy ∉ g.stopRoles := by
    intro g hg hr
    have hne := (tally_ne_zero CoreFrame.stopRoles).mpr ⟨g, hg, hr⟩
    exact hne ((ht.counts h hheld).busy.symm.trans hbusy)
  by_cases hf : f.stops
  · obtain ⟨g, hg, hstops⟩ := ht.goes_on hf hstate hbusy hwaiting hready
    exact ⟨g, ht.mem_new hg, hstops⟩
  by_cases hretire : f = .retire
  · have hrun := ht.run
    rw [hretire] at hrun
    obtain ⟨-, rfl⟩ := Runtime.out_eq hrun
    exact ⟨.tryStop, ht.mem_new List.mem_cons_self, rfl⟩
  by_cases hend : f = .endBusy
  · have hrun := ht.run
    rw [hend] at hrun
    obtain ⟨heq, rfl⟩ := Runtime.out_eq hrun
    have hpos : m.shared.busy ≠ 0 := by
      rw [h.counts.busy]
      exact (tally_ne_zero CoreFrame.stopRoles).mpr ⟨f, ht.mem_self, by rw [hend]; exact List.mem_cons_self⟩
    rw [heq] at hbusy
    have hone : m.shared.busy = 1 := by
      dsimp only at hbusy
      omega
    exact ⟨.endedLast, ht.mem_new (by simp [hone]), rfl⟩
  have hroles : .busy ∉ f.stopRoles := by
    intro hr
    obtain ⟨g, hg, hr'⟩ := List.mem_flatMap.mp (Runtime.run_busy hr hend ht.run)
    exact hcounted g (ht.mem_new hg) hr'
  have hlean : f.leans = false := by
    by_contra hne
    obtain ⟨g, hg, hr⟩ := (h.backed _ (List.mem_of_getElem? ht.thread)).1 (by simpa using hne)
    refine hcounted g ?_ hr
    rw [ht.frames', Multiset.mem_add, Multiset.mem_add]
    exact .inr (.inl (Multiset.mem_coe.mpr hg))
  obtain ⟨hready', hwaiting'⟩ := Runtime.run_placid hlean hroles ht.run
  have hstate' : m.shared.state = .retiring := by
    rcases Runtime.run_state ht.run with heq | ⟨hf', -⟩ | ⟨hf', -⟩
    · exact heq.symm.trans hstate
    · exact absurd hf' hretire
    · rw [hf'] at hf
      exact absurd rfl hf
  have hbusy' : m.shared.busy = 0 := by
    rw [h.counts.busy]
    by_contra hne
    obtain ⟨g, hg, hr⟩ := (tally_ne_zero CoreFrame.stopRoles).mp hne
    rcases ht.mem_old hg with rfl | hg
    · exact hroles hr
    · exact hcounted g hg hr
  obtain ⟨g, hg, hstops⟩ := h.will hstate' hbusy' (hwaiting'.symm.trans hwaiting) (hready'.symm.trans hready)
  rcases ht.mem_old hg with rfl | hg
  · exact absurd hstops hf
  · exact ⟨g, hg, hstops⟩

/-- It stops where the last `tryStop` finds nothing ready, and nothing moves afterwards. -/
theorem noted (h : m.Retiring) (hs : m.Sound) :
    (.stopped ∈ m'.shared.history ↔ m'.shared.state = .backendStopped) ∧
      m'.shared.history.Pairwise fun e e' => e = .stopped → ¬ e'.moves := by
  have hretire : f = .retire → m.shared.state = .running := by
    intro hf
    by_contra hne
    have hcount := h.counts.retire
    rw [if_neg fun h => hne h.2] at hcount
    refine (tally_ne_zero CoreFrame.stopRoles).mpr ⟨f, ht.mem_self, ?_⟩ hcount
    rw [hf]
    exact List.mem_cons_self
  by_cases hstop : f = .tryStopReady ∧ m.shared.state = .retiring
  · obtain ⟨hf, hretiring⟩ := hstop
    have hnot : .stopped ∉ m.shared.history := by
      rw [h.stopped, hretiring]
      decide
    rcases Runtime.run_state ht.run with heq | ⟨hf', -⟩ | ⟨-, -, -, heq⟩
    · have hrun := ht.run
      rw [hf] at hrun
      obtain ⟨heq', -⟩ := Runtime.out_eq hrun
      split at heq'
      · rw [heq', hretiring] at heq
        cases heq
      · rw [heq']
        exact ⟨h.stopped, h.history⟩
    · rw [hf] at hf'
      cases hf'
    · rw [heq]
      refine ⟨iff_of_true (by simp) rfl, ?_⟩
      rw [Runtime.note_history]
      refine List.pairwise_append.mpr ⟨h.history, List.pairwise_singleton _ _, fun e he e' _ hes => ?_⟩
      exact absurd (hes ▸ he) hnot
  · have hadds : ∃ es, m'.shared.history = m.shared.history ++ es ∧ .stopped ∉ es ∧
        (m.shared.state = .backendStopped → ∀ e ∈ es, ¬ e.moves) := by
      by_cases hold : m.shared.state = .backendStopped
      · obtain ⟨-, -, es, hes, hmoves⟩ := Runtime.run_quiet hs.sched (h.waiting (.inl hold))
          (h.past (.inl hold) f ht.mem_self) (fun hf hr => hstop ⟨hf, hr⟩) ht.run
        exact ⟨es, hes, fun hin => hmoves _ hin trivial, fun _ => hmoves⟩
      · by_cases hf : f = .tryStopReady
        · have hrun := ht.run
          rw [hf] at hrun
          obtain ⟨heq, -⟩ := Runtime.out_eq hrun
          rw [if_neg fun h => hstop ⟨hf, h.2⟩] at heq
          exact ⟨[], by rw [heq, List.append_nil], nofun, nofun⟩
        · obtain ⟨es, hes, hne⟩ := Runtime.run_adds ht.run
          exact ⟨es, hes, fun hin => hf (hne _ hin rfl), fun hst => absurd hst hold⟩
    obtain ⟨es, hes, hnot, hmoves⟩ := hadds
    have hstate : m'.shared.state = .backendStopped ↔ m.shared.state = .backendStopped := by
      rcases Runtime.run_state ht.run with heq | ⟨hf, heq⟩ | ⟨hf, -, hretiring, -⟩
      · rw [heq]
      · rw [heq, hretire hf]
        decide
      · exact absurd ⟨hf, hretiring⟩ hstop
    rw [hes, List.mem_append, or_iff_left hnot, hstate]
    refine ⟨h.stopped, List.pairwise_append.mpr ⟨h.history, ?_, fun e he e' he' hst => ?_⟩⟩
    · exact List.pairwise_of_forall_mem_list fun e he e' _ hst => absurd (hst ▸ he) hnot
    · exact hmoves (h.stopped.mp (hst ▸ he)) e' he'

end Turned

end turn

/-! ### Runs -/

theorem step_retiring {x : CoreAction} (h : m.Retiring) (hs : m.Sound) (hheld : m.Held x)
    (hkeeps : m.KeepsReady x) (hstep : m.step x = some m') : m'.Retiring := by
  cases x with
  | call k =>
    cases hstep
    exact h.call hheld
  | turn i ch =>
    obtain ⟨f, fs, new, rest, ht⟩ := turned hstep
    obtain ⟨hstopped, hhistory⟩ := ht.noted h hs
    exact ⟨ht.counts h hheld, ht.backed h, ht.owned h hheld, ht.trying h, ht.past h hheld hkeeps,
      ht.waiting h hs, ht.ready h hs, ht.will h hheld, hstopped, hhistory⟩

/-- The runtime stops when nothing is left to run, and only then. -/
structure Stops (m : CoreMachine) : Prop where
  once : m.shared.history.count .stopped ≤ 1
  released : .stopped ∈ m.shared.history → m.shared.owners = 0
  /-- Nothing becomes ready or runs afterwards. -/
  quiet : m.shared.history.Pairwise fun e e' => e = .stopped → ¬ e'.moves
  left : .stopped ∈ m.shared.history → m.shared.state = .backendStopped ∧
    (∀ f ∈ m.frames, f.works = false) ∧ m.shared.waiting = 0 ∧
    (∀ r, (m.shared.requests r).placement ≠ .waiting) ∧ m.shared.ready = [] ∧
    ∀ c, (m.shared.contexts c).execution = .idle ∧ (m.shared.contexts c).fifo = []
  stopped : m.Idle → m.shared.owners = 0 → m.shared.waiting = 0 → m.shared.ready = [] →
    m.shared.state = .backendStopped

theorem count_stopped_le_one {es : List RuntimeEvent}
    (h : es.Pairwise fun e e' => e = .stopped → ¬ e'.moves) : es.count .stopped ≤ 1 := by
  induction h with
  | nil => exact Nat.zero_le 1
  | @cons e es hrest _ ih =>
    rw [List.count_cons]
    split
    next he =>
      have hnot : .stopped ∉ es := fun hin => hrest _ hin (by simpa using he) trivial
      rw [List.count_eq_zero_of_not_mem hnot]
    next => exact ih

/-- Where nothing works, no context runs or is being claimed. -/
theorem inRole_eq_zero (h : ∀ f ∈ m.frames, f.works = false) {ρ : Role} {c : ContextId}
    (hρ : ρ = .claim c ∨ ρ = .turn c) : m.inRole ρ = 0 := by
  by_contra hne
  obtain ⟨f, hf, hr⟩ := (tally_ne_zero CoreFrame.roles).mp hne
  have hworks := f.works_of_roles hρ hr
  rw [h f hf] at hworks
  cases hworks

theorem Retiring.stops (h : m.Retiring) (hs : m.Sound) : m.Stops where
  once := count_stopped_le_one h.history
  released hst := (h.counts.released (by rw [h.stopped.mp hst]; decide)).1
  quiet := h.history
  left hst := by
    have hstate := h.stopped.mp hst
    have hworks := h.past (.inl hstate)
    have hwaiting := h.waiting (.inl hstate)
    have hready := h.ready hstate
    refine ⟨hstate, hworks, hwaiting, fun r hr => ?_, hready, fun c => ?_⟩
    · exact (hwaiting ▸ hs.sched.waiting).not_of_zero r hr
    have hc := hs.sched.contexts c
    have hidle : (m.shared.contexts c).execution = .idle := by
      have hscheduled := hc.scheduled
      have hrunning := hc.running
      rw [inRole_eq_zero hworks (.inl rfl), hready] at hscheduled
      rw [inRole_eq_zero hworks (.inr rfl)] at hrunning
      cases hexec : (m.shared.contexts c).execution with
      | idle => rfl
      | scheduled =>
        rw [if_pos hexec] at hscheduled
        cases hscheduled
      | running =>
        rw [if_pos hexec] at hrunning
        cases hrunning
    refine ⟨hidle, ?_⟩
    by_contra hne
    exact hc.queued hne hidle
  stopped hidle howners hwaiting hready := by
    have hzero : m.frames = 0 := hidle
    have hcount := h.counts.retire
    have hbusy := h.counts.busy
    rw [hzero, tally_zero] at hcount hbusy
    cases hstate : m.shared.state with
    | running =>
      rw [if_pos ⟨howners, hstate⟩] at hcount
      cases hcount
    | retiring =>
      obtain ⟨f, hf, -⟩ := h.will hstate hbusy hwaiting hready
      rw [hzero] at hf
      exact absurd hf (Multiset.notMem_zero f)
    | backendStopped => rfl

/-- A runtime that takes nothing from the ready queue while a `tryStop` reads stops with nothing left. -/
theorem stops_with_nothing_left {contexts : ContextId → Context} {timers : TimerId → Timer}
    {inlineTurns : ExecutorId → ℕ} {as : List CoreAction}
    (h : Run step (fun m x => m.Allowed x ∧ m.Held x ∧ m.KeepsReady x)
      (init contexts timers inlineTurns) as m) : m.Stops := by
  have hinv : m.Sound ∧ m.Retiring := by
    refine h.inv (I := fun m => m.Sound ∧ m.Retiring)
      ⟨init_sound contexts timers inlineTurns, init_retiring contexts timers inlineTurns⟩ ?_
    rintro m x m' ⟨hs, hr⟩ ⟨hallowed, hheld, hkeeps⟩ hstep
    exact ⟨step_sound hs hallowed hstep, step_retiring hr hs hheld hkeeps hstep⟩
  exact hinv.2.stops hinv.1

/-- A request waits when the last owner is released.  The release finds nothing in progress; then the
request is woken and taken, and the release finds nothing waiting and nothing ready. -/
def racingRun : List CoreAction :=
  .call (.submit none 0 (.submitted 0)) :: List.replicate 5 (.turn 0 (.finish .done)) ++
    .call (.runNextIn none) :: List.replicate 3 (.turn 1 (.finish .done)) ++
    [.turn 1 .prepareWait] ++ List.replicate 4 (.turn 1 (.finish .wait)) ++
    .call .releaseOwner :: List.replicate 4 (.turn 2 (.finish .done)) ++
    .call (.wakeRequest (.submitted 0) 1) :: List.replicate 4 (.turn 3 (.finish .done)) ++
    .call (.runNextIn none) :: List.replicate 3 (.turn 4 (.finish .done)) ++
    List.replicate 2 (.turn 2 (.finish .done))

theorem stops_with_a_turn : ∃ m,
    Run step (fun m x => m.Allowed x ∧ m.Held x)
      (init (fun _ => { pendingLimit := 1 }) (fun t => { context := t }) fun _ => 0) racingRun m ∧
    m.shared.state = .backendStopped ∧ (m.shared.contexts 0).execution = .running ∧
    m.shared.busy = 1 ∧ ¬ m.Stops := by
  obtain ⟨m, hrun, hstate, hexec, hbusy, hstopped⟩ := exists_run_of_exec step
    (fun m x => m.Allowed x ∧ m.Held x)
    (init (fun _ => { pendingLimit := 1 }) (fun t => { context := t }) fun _ => 0) racingRun
    (p := fun m => m.shared.state = .backendStopped ∧ (m.shared.contexts 0).execution = .running ∧
      m.shared.busy = 1 ∧ .stopped ∈ m.shared.history) (by decide +kernel)
  refine ⟨m, hrun, hstate, hexec, hbusy, fun h => ?_⟩
  obtain ⟨-, -, -, -, -, hidle⟩ := h.left hstopped
  rw [(hidle 0).1] at hexec
  cases hexec

/-- The request is woken before the last owner is released, and its turn ends after that. -/
def retiredRun : List CoreAction :=
  .call (.submit none 0 (.submitted 0)) :: List.replicate 5 (.turn 0 (.finish .done)) ++
    .call (.runNextIn none) :: List.replicate 3 (.turn 1 (.finish .done)) ++
    [.turn 1 .prepareWait] ++ List.replicate 4 (.turn 1 (.finish .wait)) ++
    .call (.wakeRequest (.submitted 0) 1) :: List.replicate 4 (.turn 2 (.finish .done)) ++
    .call (.runNextIn none) :: List.replicate 3 (.turn 3 (.finish .done)) ++
    .call .releaseOwner :: List.replicate 4 (.turn 4 (.finish .done)) ++
    List.replicate 10 (.turn 3 (.finish .done))

theorem stops_with_nothing_left_retired : ∃ m,
    Run step (fun m x => m.Allowed x ∧ m.Held x ∧ m.KeepsReady x)
      (init (fun _ => { pendingLimit := 1 }) (fun t => { context := t }) fun _ => 0) retiredRun m ∧
    .stopped ∈ m.shared.history ∧ m.Stops := by
  obtain ⟨m, hrun, hstopped⟩ := exists_run_of_exec step
    (fun m x => m.Allowed x ∧ m.Held x ∧ m.KeepsReady x)
    (init (fun _ => { pendingLimit := 1 }) (fun t => { context := t }) fun _ => 0) retiredRun
    (p := fun m => .stopped ∈ m.shared.history) (by decide +kernel)
  exact ⟨m, hrun, hstopped, stops_with_nothing_left hrun⟩

end CoreMachine

end Zzdds.Core
