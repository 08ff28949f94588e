import Mathlib.Data.Prod.Lex
import Zzdds.Runtime.HeapRuns
import Zzdds.Runtime.Timers

/-! # The runtime with its heap as it is linked

The runtime has its armed timers in a list here, in the order in which they are due.  Beside it the
heap of timers goes through what the sections of the runtime do to it.  It stands for the list in
every state (`Stands`): so the list's first timer is at its root, and no section waits for it
(`linked_after_run`). -/

namespace Zzdds.Core

open Lib Forest

/-! ### The sections -/

/-- What a section of the runtime does to the heap of timers.  The loop that pops all of them ends
with a pop that finds none. -/
def Runtime.heapOps (s : Runtime) (h : HeapMachine) : CoreFrame → List HeapOp
  | .arm t d noLater =>
      let timer := s.timers t
      if s.state ≠ .running then []
      else if noLater && (timer.firePending && timer.current ||
          timer.armed && timer.deadlineNs ≤ d) then []
      else (if timer.armed then [.remove t] else []) ++
        [.insert t { h.heap.timers t with deadlineNs := d, order := s.timerOrder }]
  | .cancelTimer t => if (s.timers t).armed then [.remove t] else []
  | .popDue now =>
      match h.heap.peek with
      | some t => if now < (h.heap.timers t).deadlineNs then [] else [.pop]
      | none => []
  | .retire => List.replicate (h.contents.length + 1) .pop
  | _ => []

/-- Operations one after the other, their loops with a bound on the iterations. -/
def HeapMachine.steps (fuel : ℕ) (h : HeapMachine) (ops : List HeapOp) : Option HeapMachine :=
  ops.foldlM (fun h op => h.step (op, fuel)) h

structure LinkedMachine where
  core : CoreMachine
  heap : HeapMachine

/-- A step of the runtime, and what it does to the heap with as many iterations as there are
timers. -/
def LinkedMachine.step (x : LinkedMachine) (a : CoreAction) : Option LinkedMachine := do
  let core ← x.core.step a
  let ops := match a with
    | .call _ => []
    | .turn i _ => (x.core.next i).elim [] (x.core.shared.heapOps x.heap)
  let heap ← x.heap.steps x.heap.contents.length ops
  some ⟨core, heap⟩

/-! ### The heap stands for the list -/

def Timer.key (t : Timer) : ℤ ×ₗ ℕ := toLex (t.deadlineNs, t.order)

theorem Timer.less_iff {a b : Timer} : a.less b ↔ a.key < b.key := by
  simp [Timer.less, Timer.key, Prod.Lex.toLex_lt_toLex]

theorem HeapTimer.less_iff {a b : HeapTimer} : a.less b ↔ toLex a.key < toLex b.key := by
  simp [HeapTimer.less, HeapTimer.key, Prod.Lex.toLex_lt_toLex]

namespace Runtime

variable {s s' : Runtime} {t : TimerId}

theorem insertTimer_perm (heap : List TimerId) : (s.insertTimer t heap).Perm (t :: heap) := by
  induction heap with
  | nil => exact .refl _
  | cons a heap ih =>
    rw [insertTimer]
    split
    · exact .refl _
    · exact (ih.cons a).trans (.swap ..)

theorem insertTimer_keys {heap : List TimerId}
    (hne : ∀ u ∈ heap, (s.timers u).key ≠ (s.timers t).key)
    (h : heap.Pairwise fun t u => (s.timers t).key < (s.timers u).key) :
    (s.insertTimer t heap).Pairwise fun t u => (s.timers t).key < (s.timers u).key := by
  induction heap with
  | nil => exact List.pairwise_singleton _ _
  | cons a heap ih =>
    obtain ⟨ha, hheap⟩ := List.pairwise_cons.mp h
    obtain ⟨hat, hne⟩ := List.forall_mem_cons.mp hne
    rw [insertTimer]
    split
    next hless =>
      have hta := Timer.less_iff.mp hless
      exact List.pairwise_cons.mpr
        ⟨List.forall_mem_cons.mpr ⟨hta, fun b hb => hta.trans (ha b hb)⟩, h⟩
    next hless =>
      have hlt := lt_of_le_of_ne (not_lt.mp fun h => hless (Timer.less_iff.mpr h)) hat
      refine List.pairwise_cons.mpr ⟨fun b hb => ?_, ih hne hheap⟩
      rcases mem_insertTimer.mp hb with rfl | hb
      · exact hlt
      · exact ha b hb

theorem run_timerOrder {ch : Choice} {f : CoreFrame} {new : List CoreFrame}
    (hf : ∀ t d noLater, f ≠ .arm t d noLater) (hrun : s.run ch f = some (s', new)) :
    s'.timerOrder = s.timerOrder := by
  by_cases hsteers : CoreFrame.steers f = false
  · exact congrArg Control.timerOrder (run_control hsteers hrun)
  cases f with
  | wakeRequest r gen =>
    obtain ⟨c, -, hrun⟩ := Option.map_eq_some_iff.mp hrun
    cases hrun
    rfl
  | arm t d noLater => exact absurd rfl (hf t d noLater)
  | timerRun c t =>
    simp only [run] at hrun
    split at hrun <;> cases hrun <;> rfl
  | popDue now =>
    simp only [run] at hrun
    split at hrun
    · cases hrun
      rfl
    · split at hrun <;> cases hrun <;> rfl
  | tryRetainOwner | tryStopReady =>
    cases hrun
    split <;> rfl
  | _ =>
    first
      | exact absurd rfl hsteers
      | cases hrun
        rfl

end Runtime

/-- The timers of the heap are those in the list, which are in its order. -/
structure Stands (h : HeapMachine) (s : Runtime) : Prop where
  sound : h.Sound
  perm : s.heap.Perm h.contents
  sorted : s.heap.Pairwise fun t u => (s.timers t).key < (s.timers u).key
  key : ∀ t ∈ s.heap, toLex (h.heap.timers t).key = (s.timers t).key
  older : ∀ t ∈ s.heap, (s.timers t).order < s.timerOrder

namespace Stands

variable {h : HeapMachine} {s s' : Runtime} {t : TimerId} {fuel : ℕ}

/-- The first timer of the list is the root. -/
theorem peek_eq (hs : Stands h s) : h.heap.peek = s.heap.head? := by
  obtain ⟨hnone, hleast⟩ := hs.sound.root_least
  rw [TimerHeap.peek]
  cases hroot : h.heap.root with
  | none =>
    have hperm := hs.perm
    rw [hnone.mp hroot] at hperm
    rw [hperm.eq_nil]
    rfl
  | some r =>
    obtain ⟨hr, hleast⟩ := hleast r hroot
    have hmem := hs.perm.mem_iff.mpr hr
    have hin : ∀ u ∈ s.heap, ¬ (s.timers u).key < (s.timers r).key := by
      intro u hu hlt
      rw [← hs.key u hu, ← hs.key r hmem, ← HeapTimer.less_iff,
        hleast u (hs.perm.mem_iff.mp hu)] at hlt
      cases hlt
    have hsorted := hs.sorted
    cases hl : s.heap with
    | nil => cases hl ▸ hmem
    | cons a l =>
      rw [hl] at hmem hsorted hin
      rcases List.mem_cons.mp hmem with rfl | hmem
      · rfl
      · exact absurd (List.rel_of_pairwise_cons hsorted hmem) (hin a List.mem_cons_self)

/-- What the heap has of its timers does not change. -/
theorem congr (hs : Stands h s) (hheap : s'.heap = s.heap)
    (htimers : ∀ t ∈ s.heap, (s'.timers t).key = (s.timers t).key)
    (horder : s'.timerOrder = s.timerOrder) : Stands h s' := by
  refine ⟨hs.sound, hheap ▸ hs.perm, ?_, ?_, ?_⟩ <;> rw [hheap]
  · refine hs.sorted.imp_of_mem fun ht hu htu => ?_
    rw [htimers _ ht, htimers _ hu]
    exact htu
  · intro t ht
    rw [htimers t ht]
    exact hs.key t ht
  · intro t ht
    rw [horder, (Prod.mk.inj (toLex.injective (htimers t ht))).2]
    exact hs.older t ht

/-- A timer leaves the heap. -/
theorem leave {h' : HeapMachine} (hs : Stands h s) (hsound : h'.Sound)
    (hcontents : h'.contents = h.contents.erase t)
    (hkey : ∀ u, (h'.heap.timers u).key = (h.heap.timers u).key) :
    Stands h' { s with heap := s.heap.erase t } := by
  have hsub {u : TimerId} (hu : u ∈ s.heap.erase t) : u ∈ s.heap := List.mem_of_mem_erase hu
  refine ⟨hsound, hcontents ▸ hs.perm.erase t, hs.sorted.sublist List.erase_sublist, fun u hu => ?_,
    fun u hu => hs.older u (hsub hu)⟩
  rw [hkey]
  exact hs.key u (hsub hu)

theorem pop {l : List TimerId} (hs : Stands h s) (hl : s.heap = t :: l)
    (hfuel : h.contents.length ≤ fuel) :
    ∃ h', h.step (.pop, fuel) = some h' ∧ h'.contents.length ≤ fuel ∧
      Stands h' { s with heap := l } := by
  have hroot : h.heap.root = some t := hs.peek_eq.trans (congrArg _ hl)
  obtain ⟨h', hstep, hsound, hcontents, hkey⟩ :=
    @HeapMachine.Sound.exists_keeps h .pop fuel hs.sound trivial hfuel
  rw [HeapMachine.after, hroot] at hcontents
  have hs' := hs.leave hsound hcontents hkey
  rw [hl, List.erase_cons_head] at hs'
  refine ⟨h', hstep, ?_, hs'⟩
  rw [hcontents]
  exact List.erase_sublist.length_le.trans hfuel

/-- A timer is armed that is not in the heap, after all that are. -/
theorem insert (timer : HeapTimer) (fuel : ℕ) (hs : Stands h s) (ht : t ∉ s.heap)
    (hheap : s'.heap = s'.insertTimer t s.heap) (hkey : toLex timer.key = (s'.timers t).key)
    (hself : (s'.timers t).order = s.timerOrder) (hother : ∀ u, u ≠ t → s'.timers u = s.timers u)
    (horder : s'.timerOrder = s.timerOrder + 1) :
    ∃ h', h.step (.insert t timer, fuel) = some h' ∧ Stands h' s' := by
  obtain ⟨h', hstep, hsound, hcontents, hkeys⟩ := @HeapMachine.Sound.exists_keeps h
    (.insert t timer) _ hs.sound (fun hmem => ht (hs.perm.mem_iff.mpr hmem)) le_rfl
  have hold {u : TimerId} (hu : u ∈ s.heap) : s'.timers u = s.timers u :=
    hother u (ne_of_mem_of_not_mem hu ht)
  refine ⟨h', hstep, hsound, ?_, ?_, ?_, ?_⟩ <;> rw [hheap]
  · exact (Runtime.insertTimer_perm _).trans (hcontents ▸ hs.perm.cons t)
  · refine Runtime.insertTimer_keys (fun u hu heq => ?_)
      (hs.sorted.imp_of_mem fun hu hv huv => by rwa [hold hu, hold hv])
    have := hs.older u hu
    rw [hold hu] at heq
    have := (Prod.mk.inj (toLex.injective heq)).2
    omega
  · intro u hu
    rw [hkeys, HeapMachine.written]
    rcases Runtime.mem_insertTimer.mp hu with rfl | hu
    · rw [Function.update_self, hkey]
    · rw [Function.update_of_ne (ne_of_mem_of_not_mem hu ht), hold hu, hs.key u hu]
  · intro u hu
    rw [horder]
    rcases Runtime.mem_insertTimer.mp hu with rfl | hu
    · omega
    · have := hs.older u hu
      rw [hold hu]
      omega

/-- A timer is disarmed, if it is armed. -/
theorem disarm (hs : Stands h s) (hord : s.HeapOrdered) (hfuel : h.contents.length ≤ fuel) :
    ∃ h', h.steps fuel (if (s.timers t).armed then [.remove t] else []) = some h' ∧
      Stands h' { s with heap := s.heap.erase t } := by
  by_cases harmed : (s.timers t).armed
  · obtain ⟨h', hstep, hsound, hcontents, hkey⟩ := @HeapMachine.Sound.exists_keeps h (.remove t)
      fuel hs.sound (hs.perm.mem_iff.mp ((hord.mem t).mpr harmed)) hfuel
    refine ⟨h', ?_, hs.leave hsound hcontents hkey⟩
    rw [if_pos harmed, HeapMachine.steps, List.foldlM_cons, hstep]
    rfl
  · rw [if_neg harmed, List.erase_of_not_mem fun hmem => harmed ((hord.mem t).mp hmem)]
    exact ⟨h, rfl, hs⟩

/-- All timers are popped, one after the other. -/
theorem popAll : ∀ {l : List TimerId} {h : HeapMachine} {s : Runtime}, Stands h s → s.heap = l →
    h.contents.length ≤ fuel → ∃ h', h.steps fuel (List.replicate (l.length + 1) .pop) = some h' ∧
      Stands h' { s with heap := [] }
  | [], h, s, hs, hl, _ => by
      refine ⟨h, ?_, hs.congr hl.symm (fun _ _ => rfl) rfl⟩
      have hroot : h.heap.root = none := hs.peek_eq.trans (congrArg _ hl)
      change (h.step (.pop, fuel)).bind some = some h
      rw [HeapMachine.step, TimerHeap.pop, hroot]
      rfl
  | t :: l, h, s, hs, hl, hfuel => by
      obtain ⟨h₁, hstep, hlength, hs₁⟩ := hs.pop hl hfuel
      obtain ⟨h', hsteps, hs'⟩ := hs₁.popAll rfl hlength
      refine ⟨h', ?_, hs'⟩
      rw [HeapMachine.steps, List.length_cons, List.replicate_succ, List.foldlM_cons, hstep]
      exact hsteps

theorem run {ch : Choice} {f : CoreFrame} {new : List CoreFrame} (hs : Stands h s)
    (hord : s.HeapOrdered) (hrun : s.run ch f = some (s', new)) :
    ∃ h', h.steps h.contents.length (s.heapOps h f) = some h' ∧ Stands h' s' := by
  have hset : ∀ {s' : Runtime} {t : TimerId} {timer : Timer},
      s'.timers = Function.update s.timers t timer → timer.key = (s.timers t).key →
        ∀ u, (s'.timers u).key = (s.timers u).key := by
    intro s' t timer htimers hkey u
    rw [htimers, Function.update_apply]
    split
    next hu => rw [hkey, hu]
    next => rfl
  by_cases hf : f.times = false
  · have hops : s.heapOps h f = [] := by cases f <;> first | rfl | cases hf
    obtain ⟨htimers, hheap, -⟩ := Runtime.run_untimed hf hrun
    refine ⟨h, by rw [hops]; rfl, hs.congr hheap (fun _ _ => by rw [htimers]) ?_⟩
    exact Runtime.run_timerOrder (by rintro _ _ _ rfl; cases hf) hrun
  cases f with
  | retire =>
    cases hrun
    obtain ⟨h', hsteps, hs'⟩ := hs.popAll rfl le_rfl
    rw [hs.perm.length_eq] at hsteps
    exact ⟨h', hsteps, hs'.congr rfl (fun _ hu => absurd hu List.not_mem_nil) rfl⟩
  | timerRun c t =>
    simp only [Runtime.run] at hrun
    split at hrun <;> cases hrun <;>
      exact ⟨h, rfl, hs.congr rfl (fun u _ => hset rfl (by rfl) u) rfl⟩
  | fireClosed t =>
    cases hrun
    exact ⟨h, rfl, hs.congr rfl (fun u _ => hset rfl (by rfl) u) rfl⟩
  | fireDueTimers now =>
    cases hrun
    exact ⟨h, rfl, hs.congr rfl (fun _ _ => rfl) rfl⟩
  | cancelTimer t =>
    cases hrun
    obtain ⟨h', hsteps, hs'⟩ := hs.disarm (t := t) hord le_rfl
    exact ⟨h', hsteps, hs'.congr rfl (fun u _ => hset rfl (by rfl) u) rfl⟩
  | arm t d noLater =>
    cases hrun
    obtain ⟨h₁, hsteps, hs₁⟩ := hs.disarm (t := t) hord le_rfl
    simp only [Runtime.heapOps, Runtime.arm]
    generalize (if (s.timers t).armed then [HeapOp.remove t] else []) = ops at hsteps ⊢
    split_ifs
    · exact ⟨h, rfl, hs⟩
    · exact ⟨h, rfl, hs⟩
    refine Exists.imp (fun h₂ h => ⟨?_, h.2⟩) (hs₁.insert (t := t)
      { h.heap.timers t with deadlineNs := d, order := s.timerOrder } h.contents.length
      (fun hin => (hord.nodup.mem_erase_iff.mp hin).1 rfl) ?_ ?_ ?_ ?_ ?_)
    · rw [HeapMachine.steps, List.foldlM_append, ← HeapMachine.steps, hsteps]
      exact (bind_pure _).trans h.1
    · change Runtime.insertTimer _ t (s.heap.erase t) = _
      exact (Runtime.insertTimer_congr (by rfl) _).symm
    · simp [Runtime.setTimer, Runtime.note, HeapTimer.key, Timer.key]
    · simp [Runtime.setTimer, Runtime.note]
    · exact fun u hu => Function.update_of_ne hu ..
    · rfl
  | popDue now =>
    have hdeadline {t : TimerId} (ht : t ∈ s.heap) :
        (h.heap.timers t).deadlineNs = (s.timers t).deadlineNs :=
      (Prod.mk.inj (toLex.injective (hs.key t ht))).1
    rcases Runtime.popDue_cases hrun with ⟨rfl, -, hhead⟩ | ⟨t, hpops, -⟩
    · refine ⟨h, ?_, hs⟩
      simp only [Runtime.heapOps, hs.peek_eq]
      cases hl : s'.heap.head? with
      | none => rfl
      | some t =>
        dsimp only
        rw [hdeadline (List.mem_of_head? hl), if_pos (hhead t hl)]
        rfl
    · have hin : t ∈ s.heap := hpops.heap ▸ List.mem_cons_self
      have horder := Runtime.run_timerOrder (by rintro _ _ _ ⟨⟩) hrun
      obtain ⟨h', hstep, -, hs'⟩ := hs.pop hpops.heap le_rfl
      refine ⟨h', ?_, hs'.congr rfl (fun u _ => hset hpops.timers rfl u) horder⟩
      simp only [Runtime.heapOps, hs.peek_eq, hpops.heap, List.head?_cons]
      rw [hdeadline hin, if_neg (Int.not_lt.mpr hpops.due), HeapMachine.steps, List.foldlM_cons,
        hstep]
      rfl
  | _ => exact absurd rfl hf

end Stands

/-- Whatever was called and whichever turns were taken, the heap has gone through what the sections
of the runtime do to it; its timers are the armed ones, and its root is the one that the runtime
fires next. -/
theorem linked_after_run {contexts : ContextId → Context} {timers : TimerId → Timer}
    {inlineTurns : ExecutorId → ℕ} {as : List CoreAction} {m : CoreMachine} (links : Timers)
    (h : Run CoreMachine.step (fun _ _ => True) (.init contexts timers inlineTurns) as m) :
    ∃ heap, Run LinkedMachine.step (fun _ _ => True)
        ⟨.init contexts timers inlineTurns, .init links⟩ as ⟨m, heap⟩ ∧
      heap.Sound ∧ heap.heap.peek = m.shared.heap.head? ∧
      ∀ t, t ∈ heap.contents ↔ (m.shared.timers t).armed := by
  suffices ∃ heap, Run LinkedMachine.step (fun _ _ => True)
      ⟨.init contexts timers inlineTurns, .init links⟩ as ⟨m, heap⟩ ∧ Stands heap m.shared ∧
        m.shared.HeapOrdered by
    obtain ⟨heap, hrun, hs, hord⟩ := this
    exact ⟨heap, hrun, hs.sound, hs.peek_eq, fun t => hs.perm.mem_iff.symm.trans (hord.mem t)⟩
  induction h with
  | nil =>
    refine ⟨.init links, .nil, ⟨HeapMachine.sound_init links, .nil, .nil, ?_, ?_⟩, ?_, .nil⟩
    · exact fun t ht => absurd ht List.not_mem_nil
    · exact fun t ht => absurd ht List.not_mem_nil
    · exact fun t => iff_of_false List.not_mem_nil Bool.false_ne_true
  | @snoc as a m m' _ _ hstep ih =>
    obtain ⟨heap, hrun, hs, hord⟩ := ih
    cases a with
    | call k =>
      cases hstep
      exact ⟨heap, hrun.snoc trivial rfl, hs, hord⟩
    | turn i ch =>
      obtain ⟨f, fs, new, -, hi, -, hf, -⟩ := Threads.turn_threads hstep
      obtain ⟨heap', hsteps, hs'⟩ := hs.run hord hf
      refine ⟨heap', hrun.snoc trivial ?_, hs', hord.run hf⟩
      simp only [LinkedMachine.step, hstep, Threads.next, hi, Option.bind_some, List.head?_cons,
        Option.elim_some, hsteps, Option.bind_eq_bind]

theorem linked_after_run_armed : ∃ x : LinkedMachine, x.heap.heap.peek = some 1 ∧ x.heap.Sound := by
  obtain ⟨m, hrun, hhead⟩ := exists_run_of_exec CoreMachine.step (fun _ _ => True)
    (.init (fun _ => { pendingLimit := 1 }) (fun t => { context := t }) fun _ => 0)
    [.call (.arm 0 5 false), .turn 0 (.finish .done), .call (.arm 1 3 false),
      .turn 1 (.finish .done)] (p := fun m => m.shared.heap.head? = some 1) ⟨_, rfl, rfl⟩
  obtain ⟨heap, -, hsound, hpeek, -⟩ :=
    linked_after_run (fun _ => ⟨0, 0, some 7, none, some 7⟩) hrun
  exact ⟨⟨m, heap⟩, hpeek.trans hhead, hsound⟩

end Zzdds.Core
