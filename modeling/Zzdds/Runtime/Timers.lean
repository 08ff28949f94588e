import Zzdds.Runtime.Arming
import Zzdds.Runtime.Retirement

/-! # Timers fire

A fire is taken from the heap under the runtime's gate and submitted under its context's, so a turn of
the timer may run between the two, or end behind its last look for a fire. -/

namespace Zzdds.Core

open Zzdds.Lib

/-! ### The heap -/

namespace Runtime

variable {s s' : Runtime} {t : TimerId}

/-- What is armed is in the heap, once, and the heap is in the order of the deadlines. -/
structure HeapOrdered (s : Runtime) : Prop where
  mem : ∀ t, t ∈ s.heap ↔ (s.timers t).armed
  sorted : s.heap.Pairwise fun t t' => t ≠ t' ∧ (s.timers t).deadlineNs ≤ (s.timers t').deadlineNs

theorem HeapOrdered.congr (h : s.HeapOrdered) (hheap : s'.heap = s.heap)
    (harmed : ∀ t, (s'.timers t).armed = (s.timers t).armed)
    (hdeadline : ∀ t, (s'.timers t).deadlineNs = (s.timers t).deadlineNs) : s'.HeapOrdered where
  mem t := by
    rw [hheap, harmed]
    exact h.mem t
  sorted := by
    rw [hheap]
    simpa only [hdeadline] using h.sorted

theorem HeapOrdered.nodup (h : s.HeapOrdered) : s.heap.Nodup := h.sorted.imp fun h => h.1

/-- A timer leaves the heap and is not armed. -/
theorem HeapOrdered.erase (h : s.HeapOrdered) (hheap : s'.heap = s.heap.erase t)
    (harmed : (s'.timers t).armed = false) (hother : ∀ t', t' ≠ t → s'.timers t' = s.timers t') :
    s'.HeapOrdered where
  mem t' := by
    rw [hheap, h.nodup.mem_erase_iff]
    by_cases ht : t' = t
    · subst ht
      simp [harmed]
    · rw [hother t' ht, h.mem]
      exact and_iff_right ht
  sorted := by
    rw [hheap]
    refine (h.sorted.sublist List.erase_sublist).imp_of_mem fun ha hb hab => ?_
    rw [hother _ (h.nodup.mem_erase_iff.mp ha).1, hother _ (h.nodup.mem_erase_iff.mp hb).1]
    exact hab

theorem mem_insertTimer {t' : TimerId} {heap : List TimerId} :
    t' ∈ s.insertTimer t heap ↔ t' = t ∨ t' ∈ heap := by
  induction heap with
  | nil => simp [insertTimer]
  | cons a heap ih =>
    rw [insertTimer]
    split
    · simp
    · rw [List.mem_cons, ih, List.mem_cons]
      tauto

theorem less_deadline {a b : Timer} : a.less b = true → a.deadlineNs ≤ b.deadlineNs := by
  simp only [Timer.less, Bool.or_eq_true, Bool.and_eq_true, decide_eq_true_eq, beq_iff_eq]
  omega

theorem deadline_of_not_less {a b : Timer} : a.less b = false → b.deadlineNs ≤ a.deadlineNs := by
  simp only [Timer.less, Bool.or_eq_false_iff, Bool.and_eq_false_iff, decide_eq_false_iff_not,
    beq_eq_false_iff_ne]
  omega

theorem insertTimer_sorted {heap : List TimerId} (hnot : t ∉ heap)
    (h : heap.Pairwise fun t t' => t ≠ t' ∧ (s.timers t).deadlineNs ≤ (s.timers t').deadlineNs) :
    (s.insertTimer t heap).Pairwise fun t t' => t ≠ t' ∧ (s.timers t).deadlineNs ≤ (s.timers t').deadlineNs := by
  induction heap with
  | nil => exact List.pairwise_singleton _ _
  | cons a heap ih =>
    obtain ⟨ha, hheap⟩ := List.pairwise_cons.mp h
    have hne : t ≠ a := fun heq => hnot (heq ▸ List.mem_cons_self)
    rw [insertTimer]
    split
    next hless =>
      refine List.pairwise_cons.mpr ⟨fun b hb => ?_, h⟩
      have hab := less_deadline hless
      rcases List.mem_cons.mp hb with rfl | hb'
      · exact ⟨hne, hab⟩
      · exact ⟨fun heq => hnot (heq ▸ hb), hab.trans (ha b hb').2⟩
    next hless =>
      refine List.pairwise_cons.mpr ⟨fun b hb => ?_, ih (fun hin => hnot (List.mem_cons_of_mem _ hin)) hheap⟩
      rcases mem_insertTimer.mp hb with rfl | hb
      · exact ⟨hne.symm, deadline_of_not_less (by simpa using hless)⟩
      · exact ha b hb

theorem insertTimer_congr (h : s'.timers = s.timers) (heap : List TimerId) :
    s'.insertTimer t heap = s.insertTimer t heap := by
  induction heap with
  | nil => rfl
  | cons a heap ih => rw [insertTimer, insertTimer, h, ih]

/-- A timer is armed. -/
structure Arms (s s' : Runtime) (t : TimerId) (deadlineNs : ℤ) : Prop where
  timers : s'.timers = Function.update s.timers t { s.timers t with
    gen := (s.timers t).gen + 1
    deadlineNs := deadlineNs
    order := s.timerOrder
    armed := true }
  heap : s'.heap = s'.insertTimer t (s.heap.erase t)
  history : s'.history = s.history ++ [.armed t ((s.timers t).gen + 1) deadlineNs]

theorem arm_cases (s : Runtime) (t : TimerId) (deadlineNs : ℤ) (noLater : Bool) :
    s.arm t deadlineNs noLater = s ∨ s.Arms (s.arm t deadlineNs noLater) t deadlineNs := by
  rw [arm]
  dsimp only
  split_ifs
  · exact .inl rfl
  · exact .inl rfl
  · refine .inr ⟨rfl, ?_, rfl⟩
    change Runtime.insertTimer _ t (s.heap.erase t) = _
    exact (insertTimer_congr (by rfl) _).symm

/-- A fire takes the first timer of the heap. -/
structure Pops (s s' : Runtime) (t : TimerId) (now : ℤ) : Prop where
  due : (s.timers t).deadlineNs ≤ now
  heap : s.heap = t :: s'.heap
  timers : s'.timers = Function.update s.timers t { s.timers t with
    armed := false
    fireGen := (s.timers t).gen
    firePending := true }
  history : s'.history = s.history ++ [.due t (s.timers t).gen now]

theorem popDue_cases {ch : Choice} {now : ℤ} {new : List CoreFrame}
    (hrun : s.run ch (.popDue now) = some (s', new)) :
    s' = s ∧ new = [] ∧ (∀ t ∈ s.heap.head?, now < (s.timers t).deadlineNs) ∨
      ∃ t, s.Pops s' t now ∧ new = [.submitInternal (s.timers t).context (.timer t) .fire,
        .endFire (s.timers t).context, .popDue now] := by
  simp only [run] at hrun
  split at hrun
  next hheap =>
    cases hrun
    exact .inl ⟨rfl, rfl, by rw [hheap]; exact (by rintro _ ⟨⟩)⟩
  next t heap hheap =>
    split at hrun
    next hlt =>
      cases hrun
      refine .inl ⟨rfl, rfl, fun t' ht' => ?_⟩
      rw [hheap] at ht'
      cases ht'
      exact hlt
    next hle =>
      cases hrun
      exact .inr ⟨t, ⟨Int.not_lt.mp hle, hheap, rfl, rfl⟩, rfl⟩

/-- A timer is armed anew. -/
theorem HeapOrdered.insert (h : s.HeapOrdered) (hheap : s'.heap = s'.insertTimer t (s.heap.erase t))
    (harmed : (s'.timers t).armed) (hother : ∀ t', t' ≠ t → s'.timers t' = s.timers t') :
    s'.HeapOrdered where
  mem t' := by
    rw [hheap, mem_insertTimer, h.nodup.mem_erase_iff]
    by_cases ht : t' = t
    · subst ht
      simp [harmed]
    · rw [hother t' ht, ← h.mem]
      simp [ht]
  sorted := by
    rw [hheap]
    refine insertTimer_sorted (fun hin => (h.nodup.mem_erase_iff.mp hin).1 rfl) ?_
    refine (h.sorted.sublist List.erase_sublist).imp_of_mem fun ha hb hab => ?_
    rw [hother _ (h.nodup.mem_erase_iff.mp ha).1, hother _ (h.nodup.mem_erase_iff.mp hb).1]
    exact hab

theorem HeapOrdered.run {ch : Choice} {f : CoreFrame} {new : List CoreFrame} (h : s.HeapOrdered)
    (hrun : s.run ch f = some (s', new)) : s'.HeapOrdered := by
  by_cases hf : f.times = false
  · obtain ⟨htimers, hheap, -⟩ := run_untimed hf hrun
    exact h.congr hheap (fun t => by rw [htimers]) fun t => by rw [htimers]
  cases f with
  | retire =>
    cases hrun
    refine ⟨fun t => iff_of_false List.not_mem_nil ?_, .nil⟩
    dsimp only
    split
    · simp
    next hnot => exact fun harmed => hnot ((h.mem t).mpr harmed)
  | timerRun c t =>
    have hset : ∀ t', ((s.setTimer t { s.timers t with firePending := false }).timers t').armed =
        (s.timers t').armed ∧ ((s.setTimer t { s.timers t with firePending := false }).timers t').deadlineNs =
          (s.timers t').deadlineNs := by
      intro t'
      by_cases ht : t' = t <;> simp [setTimer, ht]
    simp only [Runtime.run] at hrun
    split at hrun <;> cases hrun <;> exact h.congr rfl (fun t' => (hset t').1) fun t' => (hset t').2
  | fireClosed t =>
    cases hrun
    refine h.congr rfl (fun t' => ?_) fun t' => ?_
    · by_cases ht : t' = t <;> simp [setTimer, ht]
    · by_cases ht : t' = t <;> simp [setTimer, ht]
  | cancelTimer t =>
    cases hrun
    exact h.erase rfl (by simp [Runtime.cancelTimer, setTimer, Runtime.note])
      fun t' ht => by simp [Runtime.cancelTimer, setTimer, Runtime.note, ht]
  | fireDueTimers now =>
    cases hrun
    exact h.congr rfl (fun _ => rfl) fun _ => rfl
  | arm t d noLater =>
    cases hrun
    rcases arm_cases s t d noLater with heq | harms
    · rw [heq]
      exact h
    · refine h.insert harms.heap ?_ fun t' ht => ?_
      · rw [harms.timers, Function.update_self]
      · rw [harms.timers, Function.update_of_ne ht]
  | popDue now =>
    rcases popDue_cases hrun with ⟨rfl, -⟩ | ⟨t, hpops, -⟩
    · exact h
    · refine h.erase (t := t) ?_ ?_ fun t' ht => ?_
      · rw [hpops.heap, List.erase_cons_head]
      · rw [hpops.timers, Function.update_self]
      · rw [hpops.timers, Function.update_of_ne ht]
  | _ => exact absurd rfl hf

end Runtime

/-! ### Armings -/

/-- How far the current arming of a timer is, with fires that take what is due up to some times on their
way. -/
structure Arming.Of (a : Arming) (timer : Timer) (pops : ℤ → Prop) : Prop where
  gen : a.gen = timer.gen
  deadline : a.deadlineNs = timer.deadlineNs
  armed : timer.armed = !a.taken
  taken : a.taken ↔ timer.fireGen = timer.gen
  ran : a.ran → a.taken ∧ timer.firePending = false
  pending : a.taken → a.ran = false → timer.firePending
  due : a.due → a.taken ∨ ∃ now, a.deadlineNs ≤ now ∧ pops now

def Timer.Keeps (timer : Timer) (pops : ℤ → Prop) : Option Arming → Prop
  | none => timer.armed = false ∧ (timer.firePending → timer.fireGen ≠ timer.gen)
  | some a => a.Of timer pops

theorem Timer.Keeps.mono {timer : Timer} {pops pops' : ℤ → Prop} {a : Option Arming}
    (h : timer.Keeps pops a) (hpops : ∀ now, timer.armed → timer.deadlineNs ≤ now → pops now → pops' now) :
    timer.Keeps pops' a := by
  cases a with
  | none => exact h
  | some a =>
    refine ⟨h.gen, h.deadline, h.armed, h.taken, h.ran, h.pending, fun hdue => ?_⟩
    cases htaken : a.taken with
    | true => exact .inl rfl
    | false =>
      rcases h.due hdue with htaken' | ⟨now, hle, hnow⟩
      · rw [htaken] at htaken'
        cases htaken'
      · exact .inr ⟨now, hle, hpops now (by rw [h.armed, htaken]; rfl) (h.deadline ▸ hle) hnow⟩

namespace Runtime

variable {s s' : Runtime} {t : TimerId} {pops pops' : ℤ → Prop}

structure Timed (s : Runtime) (pops : ℤ → Prop) (t : TimerId) : Prop where
  older : (s.timers t).fireGen ≤ (s.timers t).gen
  arming : ∃ a, Arming.after t s.history = some a ∧ (s.timers t).Keeps pops a

/-- Nothing happens to a timer. -/
theorem Timed.same (h : s.Timed pops t) (htimer : s'.timers t = s.timers t)
    (hafter : Arming.after t s'.history = Arming.after t s.history)
    (hpops : ∀ now, (s.timers t).armed → (s.timers t).deadlineNs ≤ now → pops now → pops' now) :
    s'.Timed pops' t := by
  obtain ⟨holder, a, ha, hkeeps⟩ := h
  refine ⟨htimer ▸ holder, a, hafter.trans ha, ?_⟩
  rw [htimer]
  exact hkeeps.mono hpops

theorem after_other {es : List RuntimeEvent} {e : RuntimeEvent} (he : ∀ a, Arming.next t a e = some a) :
    Arming.after t (es ++ [e]) = Arming.after t es := by
  cases h : Arming.after t es with
  | none =>
    rw [Arming.after] at h ⊢
    rw [List.foldlM_append, h]
    rfl
  | some a => exact Arming.after_append h (he a)

/-- A timer is armed anew. -/
theorem Timed.arm {deadlineNs : ℤ} (h : s.Timed pops t) (harms : s.Arms s' t deadlineNs) :
    s'.Timed pops' t := by
  obtain ⟨holder, a, ha, -⟩ := h
  refine ⟨?_, some ⟨(s.timers t).gen + 1, deadlineNs, false, false, false⟩, ?_, ?_⟩
  · rw [harms.timers, Function.update_self]
    exact Nat.le_succ_of_le holder
  · rw [harms.history]
    exact Arming.after_append ha (by simp [Arming.next])
  · rw [harms.timers, Function.update_self]
    refine ⟨rfl, rfl, rfl, ?_, nofun, nofun, nofun⟩
    exact iff_of_false nofun (Nat.lt_succ_of_le holder).ne

theorem Timed.cancel (h : s.Timed pops t) : (s.cancelTimer t).Timed pops' t := by
  obtain ⟨holder, a, ha, -⟩ := h
  have htimer : (s.cancelTimer t).timers t =
      { s.timers t with gen := (s.timers t).gen + 1, armed := false } := Function.update_self ..
  refine ⟨?_, none, Arming.after_append ha (by simp [Arming.next]), ?_⟩
  · rw [htimer]
    exact Nat.le_succ_of_le holder
  · rw [htimer]
    exact ⟨rfl, fun _ => (Nat.lt_succ_of_le holder).ne⟩

/-- A fire takes the timer. -/
theorem Timed.pop {now : ℤ} (h : s.Timed pops t) (harmed : (s.timers t).armed) (hp : s.Pops s' t now) :
    s'.Timed pops' t := by
  obtain ⟨holder, a, ha, hkeeps⟩ := h
  cases a with
  | none =>
    rw [hkeeps.1] at harmed
    cases harmed
  | some a =>
    have htaken : a.taken = false := by
      rw [hkeeps.armed] at harmed
      simpa using harmed
    have hran : a.ran = false := by
      by_contra hne
      rw [(hkeeps.ran (by simpa using hne)).1] at htaken
      cases htaken
    refine ⟨?_, some { a with taken := true }, ?_, ?_⟩
    · rw [hp.timers, Function.update_self]
    · rw [hp.history]
      refine Arming.after_append ha ?_
      rw [Arming.next, if_neg (fun h => h rfl)]
      exact if_pos ⟨hkeeps.gen, hkeeps.deadline ▸ hp.due, htaken⟩
    · rw [hp.timers, Function.update_self]
      exact ⟨hkeeps.gen, hkeeps.deadline, rfl, iff_of_true rfl rfl, fun h => absurd h (by simp [hran]),
        fun _ _ => rfl, fun _ => .inl rfl⟩

/-- A turn of the timer starts. -/
theorem Timed.start {c : ContextId} {ch : Choice} {new : List CoreFrame} (h : s.Timed pops t)
    (hkeep : (s.timers t).current → (s.timers t).gen = (s.timers t).fireGen ∧ (s.timers t).firePending)
    (hpops : ∀ now, pops now → pops' now) (hrun : s.run ch (.timerRun c t) = some (s', new)) :
    s'.Timed pops' t := by
  obtain ⟨holder, a, ha, hkeeps⟩ := h
  simp only [run] at hrun
  split at hrun
  next hcurrent =>
    obtain ⟨hgen, hpending⟩ := hkeep hcurrent
    cases hrun
    have htimer : ((s.setTimer t { s.timers t with firePending := false }).note
        (.callback t (s.timers t).gen)).timers t = { s.timers t with firePending := false } :=
      Function.update_self ..
    cases a with
    | none => exact absurd hgen.symm (hkeeps.2 hpending)
    | some a =>
      have htaken : a.taken := hkeeps.taken.mpr hgen.symm
      have hran : a.ran = false := by
        by_contra hne
        rw [(hkeeps.ran (by simpa using hne)).2] at hpending
        cases hpending
      refine ⟨?_, some { a with ran := true }, ?_, ?_⟩
      · rw [htimer]
        exact holder
      · refine Arming.after_append ha ?_
        rw [Arming.next, if_neg (fun h => h rfl)]
        exact if_pos ⟨hkeeps.gen, htaken, hran⟩
      · rw [htimer]
        exact ⟨hkeeps.gen, hkeeps.deadline, hkeeps.armed, hkeeps.taken, fun _ => ⟨htaken, rfl⟩,
          fun _ hran => absurd hran.symm Bool.false_ne_true, fun _ => .inl htaken⟩
  next hcurrent =>
    cases hrun
    have hgen : (s.timers t).fireGen ≠ (s.timers t).gen := by
      intro heq
      refine hcurrent ?_
      rw [Timer.current, sameGen, heq]
      exact beq_self_eq_true _
    have htimer : (s.setTimer t { s.timers t with firePending := false }).timers t =
        { s.timers t with firePending := false } := Function.update_self ..
    refine ⟨?_, a, ha, ?_⟩
    · rw [htimer]
      exact holder
    rw [htimer]
    cases a with
    | none => exact ⟨hkeeps.1, fun h => absurd h Bool.false_ne_true⟩
    | some a =>
      have htaken : ¬ a.taken := fun h => hgen (hkeeps.taken.mp h)
      exact ⟨hkeeps.gen, hkeeps.deadline, hkeeps.armed, hkeeps.taken, fun h => ⟨(hkeeps.ran h).1, rfl⟩,
        fun h => absurd h htaken,
        fun h => (hkeeps.due h).imp_right (Exists.imp fun now => And.imp_right (hpops now))⟩

theorem Timed.fireDueTimers {now : ℤ} (h : s.Timed pops t) (htimers : s'.timers = s.timers)
    (hhistory : s'.history = s.history ++ [.fireDueTimers now]) (hnow : pops' now)
    (hpops : ∀ now, pops now → pops' now) : s'.Timed pops' t := by
  obtain ⟨holder, a, ha, hkeeps⟩ := h
  have hafter : Arming.after t s'.history = some (a.map fun a =>
      { a with due := a.due || a.deadlineNs ≤ now }) := by
    rw [hhistory]
    exact Arming.after_append ha rfl
  rw [← htimers] at holder hkeeps
  refine ⟨holder, _, hafter, ?_⟩
  cases a with
  | none => exact hkeeps
  | some a =>
    refine ⟨hkeeps.gen, hkeeps.deadline, hkeeps.armed, hkeeps.taken, hkeeps.ran, hkeeps.pending,
      fun hdue => ?_⟩
    simp only [Bool.or_eq_true, decide_eq_true_eq] at hdue
    rcases hdue with hdue | hle
    · exact (hkeeps.due hdue).imp_right fun ⟨now', hle, hnow'⟩ => ⟨now', hle, hpops now' hnow'⟩
    · exact .inr ⟨now, hle, hnow⟩

/-- A frame that runs leaves a timer as far as its arming says. -/
theorem Timed.run {ch : Choice} {f : CoreFrame} {new : List CoreFrame} (h : s.Timed pops t)
    (hheap : s.HeapOrdered) (hstate : s'.state = .running) (hclosed : f ≠ .fireClosed t)
    (hkeep : ∀ c, f = .timerRun c t → (s.timers t).current →
      (s.timers t).gen = (s.timers t).fireGen ∧ (s.timers t).firePending)
    (hpops : ∀ now, pops now → f = .popDue now ∨ pops' now) (hnew : ∀ now, .popDue now ∈ new → pops' now)
    (hrun : s.run ch f = some (s', new)) : s'.Timed pops' t := by
  have hpops' : (∀ now, f ≠ .popDue now) → ∀ now, pops now → pops' now :=
    fun hne now hnow => (hpops now hnow).resolve_left (hne now)
  by_cases hf : f.times = false
  · obtain ⟨htimers, -, es, hes, huntimed⟩ := run_untimed hf hrun
    refine h.same (by rw [htimers]) ?_ fun now _ _ => hpops' (fun now heq => ?_) now
    · rw [hes]
      exact Arming.after_untimed huntimed
    · rw [heq] at hf
      cases hf
  cases f with
  | retire =>
    cases hrun
    cases hstate
  | timerRun c t' =>
    by_cases ht : t' = t
    · subst ht
      exact h.start (hkeep c rfl) (hpops' (by rintro _ ⟨⟩)) hrun
    · have htimer : (s.setTimer t' { s.timers t' with firePending := false }).timers t = s.timers t :=
        Function.update_of_ne (Ne.symm ht) ..
      simp only [Runtime.run] at hrun
      split at hrun <;> cases hrun
      · exact h.same htimer (after_other fun a => if_pos ht) fun now _ _ => hpops' (by rintro _ ⟨⟩) now
      · exact h.same htimer rfl fun now _ _ => hpops' (by rintro _ ⟨⟩) now
  | arm t' d noLater =>
    cases hrun
    rcases arm_cases s t' d noLater with heq | harms
    · rw [heq]
      exact h.same rfl rfl fun now _ _ => hpops' (by rintro _ ⟨⟩) now
    · by_cases ht : t' = t
      · subst ht
        exact h.arm harms
      · refine h.same ?_ ?_ fun now _ _ => hpops' (by rintro _ ⟨⟩) now
        · rw [harms.timers, Function.update_of_ne (Ne.symm ht)]
        · rw [harms.history]
          exact after_other fun a => congrArg some (if_neg ht)
  | cancelTimer t' =>
    cases hrun
    by_cases ht : t' = t
    · subst ht
      exact h.cancel
    · exact h.same (Function.update_of_ne (Ne.symm ht) ..) (after_other fun a => congrArg some (if_neg ht))
        fun now _ _ => hpops' (by rintro _ ⟨⟩) now
  | fireDueTimers now =>
    cases hrun
    exact h.fireDueTimers rfl rfl (hnew now List.mem_cons_self) (hpops' (by rintro _ ⟨⟩))
  | popDue now =>
    rcases popDue_cases hrun with ⟨rfl, -, hhead⟩ | ⟨t', hp, hnew'⟩
    · -- what is armed falls due later than the first of the heap
      refine h.same rfl rfl fun now' harmed hle hnow => (hpops now' hnow).resolve_left fun heq => ?_
      cases heq
      cases hh : s'.heap with
      | nil =>
        have hmem := (hheap.mem t).mpr harmed
        rw [hh] at hmem
        cases hmem
      | cons t₀ heap =>
        have hlt := hhead t₀ (by rw [hh]; rfl)
        have hmem := (hheap.mem t).mpr harmed
        have hsorted := hheap.sorted
        rw [hh] at hmem hsorted
        rcases List.mem_cons.mp hmem with rfl | hmem
        · omega
        · have := ((List.pairwise_cons.mp hsorted).1 t hmem).2
          omega
    · have hall : ∀ now', pops now' → pops' now' := by
        intro now' hnow
        rcases hpops now' hnow with heq | hnow
        · cases heq
          exact hnew now (by simp [hnew'])
        · exact hnow
      by_cases ht : t' = t
      · subst ht
        exact h.pop ((hheap.mem t').mp (by rw [hp.heap]; exact List.mem_cons_self)) hp
      · refine h.same ?_ ?_ fun now _ _ => hall now
        · rw [hp.timers, Function.update_of_ne (Ne.symm ht)]
        · rw [hp.history]
          exact after_other fun a => if_pos ht
  | fireClosed t' =>
    cases hrun
    have ht : t' ≠ t := fun heq => hclosed (by rw [heq])
    exact h.same (Function.update_of_ne (Ne.symm ht) ..) rfl fun now _ _ => hpops' (by rintro _ ⟨⟩) now
  | _ => exact absurd rfl hf

theorem run_context {ch : Choice} {f : CoreFrame} {new : List CoreFrame}
    (hrun : s.run ch f = some (s', new)) (t : TimerId) :
    (s'.timers t).context = (s.timers t).context := by
  have hset : ∀ {t' : TimerId} {timer : Timer}, s'.timers = Function.update s.timers t' timer →
      timer.context = (s.timers t').context → (s'.timers t).context = (s.timers t).context := by
    intro t' timer htimers hcontext
    rw [htimers, Function.update_apply]
    split
    next ht => rw [hcontext, ht]
    next => rfl
  by_cases hf : f.times = false
  · rw [(run_untimed hf hrun).1]
  cases f with
  | retire =>
    cases hrun
    dsimp only
    split <;> rfl
  | timerRun c t' =>
    simp only [run] at hrun
    split at hrun <;> cases hrun <;> exact hset rfl rfl
  | arm t' d noLater =>
    cases hrun
    rcases arm_cases s t' d noLater with heq | harms
    · rw [heq]
    · exact hset harms.timers rfl
  | cancelTimer t' =>
    cases hrun
    exact hset rfl rfl
  | fireDueTimers now =>
    cases hrun
    rfl
  | popDue now =>
    rcases popDue_cases hrun with ⟨rfl, -⟩ | ⟨t', hp, -⟩
    · rfl
    · exact hset hp.timers rfl
  | fireClosed t' =>
    cases hrun
    exact hset rfl rfl
  | _ => exact absurd rfl hf

/-- A fire is pending from when it is taken. -/
theorem run_pending {ch : Choice} {f : CoreFrame} {new : List CoreFrame}
    (hrun : s.run ch f = some (s', new)) (h : (s'.timers t).firePending) :
    (s.timers t).firePending ∨ .submitInternal (s.timers t).context (.timer t) .fire ∈ new := by
  have hset : ∀ {t' : TimerId} {timer : Timer}, s'.timers = Function.update s.timers t' timer →
      (timer.firePending → (s.timers t').firePending) → (s.timers t).firePending := by
    intro t' timer htimers hpending
    rw [htimers, Function.update_apply] at h
    split at h
    next ht =>
      rw [ht]
      exact hpending h
    next => exact h
  by_cases hf : f.times = false
  · rw [(run_untimed hf hrun).1] at h
    exact .inl h
  cases f with
  | retire =>
    cases hrun
    dsimp only at h
    split at h <;> exact .inl h
  | timerRun c t' =>
    simp only [run] at hrun
    split at hrun <;> cases hrun <;> exact .inl (hset rfl (by rintro ⟨⟩))
  | arm t' d noLater =>
    cases hrun
    rcases arm_cases s t' d noLater with heq | harms
    · rw [heq] at h
      exact .inl h
    · exact .inl (hset harms.timers id)
  | cancelTimer t' =>
    cases hrun
    exact .inl (hset rfl id)
  | fireDueTimers now =>
    cases hrun
    exact .inl h
  | popDue now =>
    rcases popDue_cases hrun with ⟨rfl, -⟩ | ⟨t', hp, rfl⟩
    · exact .inl h
    · by_cases ht : t = t'
      · subst ht
        exact .inr List.mem_cons_self
      · rw [hp.timers, Function.update_of_ne ht] at h
        exact .inl h
  | fireClosed t' =>
    cases hrun
    exact .inl (hset rfl (by rintro ⟨⟩))
  | _ => exact absurd rfl hf

end Runtime

/-! ### Frames -/

namespace CoreFrame

/-- A fire of a timer on its way to its context. -/
def fires (t : TimerId) : CoreFrame → Bool
  | .submitInternal _ (.timer t') .fire | .admitInternal _ (.timer t') .fire => t' == t
  | _ => false

/-- No turn of a timer does this. -/
def stray : CoreFrame → Bool
  | .countTurn _ (.timer _) | .turn _ (.timer _) _ | .endTurn _ (.timer _) .wait => true
  | _ => false

/-- A `fireDueTimers` or a turn in progress. -/
def active : CoreFrame → Bool
  | .fireDueTimers _ | .popDue _ | .fireClosed _ | .endFire _ => true
  | .submitInternal _ _ b | .admitInternal _ _ b => b == .fire
  | .countTurn .. | .turn .. | .timerRun .. | .callback .. | .timerRan .. | .endTurn .. => true
  | _ => false

theorem active_of_fires {t : TimerId} {f : CoreFrame} (h : f.fires t) : f.active := by
  unfold fires at h
  split at h <;> first | rfl | cases h

theorem active_of_run {c : ContextId} {r : RequestId} {f : CoreFrame} (h : .run c r ∈ f.roles) :
    f.active := by
  cases f with
  | claim lane c' => simp [roles] at h
  | wake c' r' gen => simp [roles] at h
  | _ => first | rfl | exact absurd h List.not_mem_nil

end CoreFrame

namespace Runtime

variable {s s' : Runtime} {ch : Choice} {f : CoreFrame} {new : List CoreFrame}

/-- What a frame puts in its place, where it matters for timers. -/
structure Launches (s : Runtime) (f g : CoreFrame) : Prop where
  submit : ∀ c t, g = .submitInternal c (.timer t) .fire → c = (s.timers t).context
  admits : ∀ c t, g = .admitInternal c (.timer t) .fire → f = .submitInternal c (.timer t) .fire
  closed : ∀ t, g = .fireClosed t →
    ∃ c, f = .admitInternal c (.timer t) .fire ∧ (s.contexts c).lifecycle = .closed
  stray : g.stray → f.stray ∨ ∃ exec c t, f = .admission exec c (.timer t)

theorem Launches.other {g : CoreFrame} (hfires : ∀ t, g.fires t = false) (hclosed : ∀ t, g ≠ .fireClosed t)
    (hstray : g.stray = false) : s.Launches f g where
  submit c t h := by
    have := hfires t
    rw [h, CoreFrame.fires, beq_self_eq_true] at this
    cases this
  admits c t h := by
    have := hfires t
    rw [h, CoreFrame.fires, beq_self_eq_true] at this
    cases this
  closed t h := absurd h (hclosed t)
  stray h := by
    rw [hstray] at h
    cases h

theorem launches_closingHook {s' : Runtime} (c : ContextId) (closed : Bool) :
    ∀ g ∈ s'.closingHook c closed, s.Launches f g := by
  intro g hg
  rw [closingHook] at hg
  split at hg
  · cases List.mem_singleton.mp hg
    exact .other (fun _ => rfl) (by rintro _ ⟨⟩) rfl
  · cases hg

theorem launches_turnFrame (c : ContextId) (r : RequestId) : s.Launches f (turnFrame c r) := by
  cases r <;> exact .other (fun _ => rfl) nofun rfl

theorem launches_frame (k : Call) (inTurn : Bool) : s.Launches f (k.frame inTurn) := by
  cases k with
  | submitInternal c r =>
    cases inTurn <;> cases r <;> exact .other (fun _ => rfl) nofun rfl
  | _ => exact .other (fun _ => rfl) nofun rfl

theorem closed_of_refused {c : ContextId} {r : RequestId}
    (h : (s.admitInternal c r).2 = some .closed) : (s.contexts c).lifecycle = .closed := by
  unfold Runtime.admitInternal at h
  dsimp only at h
  by_contra hne
  rw [if_neg hne] at h
  split at h <;> cases h

theorem run_launches (hrun : s.run ch f = some (s', new)) : ∀ g ∈ new, s.Launches f g := by
  intro g hg
  cases f with
  | submit exec c r =>
    cases hrun
    simp only [List.mem_cons, List.not_mem_nil, or_false] at hg
    rcases hg with rfl | rfl <;> exact .other (fun _ => rfl) (by rintro _ ⟨⟩) rfl
  | submitOpen exec c r =>
    simp only [run] at hrun
    split at hrun <;> cases hrun
    · cases List.mem_singleton.mp hg
      exact .other (fun _ => rfl) (by rintro _ ⟨⟩) rfl
    · cases hg
  | admission exec c r =>
    obtain ⟨-, rfl⟩ := out_eq hrun
    unfold Runtime.admission at hg
    dsimp only at hg
    split_ifs at hg
    · cases hg
    · cases hg
    · cases hg
    · split at hg
      · cases List.mem_singleton.mp hg
        cases r with
        | submitted n => exact .other (fun _ => rfl) (by rintro _ ⟨⟩) rfl
        | timer t => exact ⟨by rintro _ _ ⟨⟩, by rintro _ _ ⟨⟩, by rintro _ ⟨⟩, fun _ => .inr ⟨exec, c, t, rfl⟩⟩
      · cases hg
  | countTurn c r =>
    cases hrun
    cases List.mem_singleton.mp hg
    exact launches_turnFrame c r
  | submitInternal c r b =>
    cases hrun
    cases List.mem_singleton.mp hg
    refine ⟨by rintro _ _ ⟨⟩, fun c' t h => ?_, by rintro _ ⟨⟩, by rintro ⟨⟩⟩
    cases h
    rfl
  | admitInternal c r b =>
    obtain ⟨-, rfl⟩ := out_eq hrun
    rcases List.mem_cons.mp hg with rfl | hg
    · exact .other (fun _ => rfl) (by rintro _ ⟨⟩) rfl
    unfold refusedFire at hg
    split at hg
    next hout _ =>
      cases List.mem_singleton.mp hg
      refine ⟨by rintro _ _ ⟨⟩, by rintro _ _ ⟨⟩, fun t' h => ?_, by rintro ⟨⟩⟩
      cases h
      exact ⟨c, rfl, closed_of_refused hout⟩
    · cases hg
  | wakeRequest r gen =>
    simp only [run] at hrun
    obtain ⟨c, -, hrun⟩ := Option.map_eq_some_iff.mp hrun
    cases hrun
    simp only [List.mem_cons, List.not_mem_nil, or_false] at hg
    rcases hg with rfl | rfl <;> exact .other (fun _ => rfl) (by rintro _ ⟨⟩) rfl
  | endBusy =>
    cases hrun
    split at hg
    · cases List.mem_singleton.mp hg
      exact .other (fun _ => rfl) (by rintro _ ⟨⟩) rfl
    · cases hg
  | endedLast =>
    cases hrun
    split at hg
    · cases List.mem_singleton.mp hg
      exact .other (fun _ => rfl) (by rintro _ ⟨⟩) rfl
    · cases hg
  | releaseOwner =>
    cases hrun
    split at hg
    · cases List.mem_singleton.mp hg
      exact .other (fun _ => rfl) (by rintro _ ⟨⟩) rfl
    · cases hg
  | retire =>
    cases hrun
    cases List.mem_singleton.mp hg
    exact .other (fun _ => rfl) (by rintro _ ⟨⟩) rfl
  | tryStop =>
    cases hrun
    split at hg
    · cases List.mem_singleton.mp hg
      exact .other (fun _ => rfl) (by rintro _ ⟨⟩) rfl
    · cases hg
  | tryStopBusy =>
    cases hrun
    split at hg
    · cases List.mem_singleton.mp hg
      exact .other (fun _ => rfl) (by rintro _ ⟨⟩) rfl
    · cases hg
  | tryStopWaiting =>
    cases hrun
    split at hg
    · cases List.mem_singleton.mp hg
      exact .other (fun _ => rfl) (by rintro _ ⟨⟩) rfl
    · cases hg
  | runNextIn lane =>
    cases hrun
    cases List.mem_singleton.mp hg
    exact .other (fun _ => rfl) (by rintro _ ⟨⟩) rfl
  | takeReady lane =>
    simp only [run] at hrun
    split at hrun <;> cases hrun <;> cases List.mem_singleton.mp hg <;>
      exact .other (fun _ => rfl) (by rintro _ ⟨⟩) rfl
  | claim lane c =>
    obtain ⟨-, rfl⟩ := out_eq hrun
    unfold Runtime.claim at hg
    dsimp only at hg
    split at hg
    · rcases List.mem_cons.mp hg with rfl | hg
      · exact .other (fun _ => rfl) (by rintro _ ⟨⟩) rfl
      rcases List.mem_append.mp hg with hg | hg
      · exact launches_closingHook _ _ g hg
      · cases List.mem_singleton.mp hg
        exact .other (fun _ => rfl) (by rintro _ ⟨⟩) rfl
    · cases List.mem_singleton.mp hg
      exact launches_turnFrame _ _
  | turn c r prepared =>
    have hself : ∀ p, s.Launches (.turn c r prepared) (.turn c r p) :=
      fun p => ⟨by rintro _ _ ⟨⟩, by rintro _ _ ⟨⟩, by rintro _ ⟨⟩, fun h => .inl (by cases r <;> first | rfl | cases h)⟩
    cases ch with
    | call k =>
      cases hrun
      simp only [List.mem_cons, List.not_mem_nil, or_false] at hg
      rcases hg with rfl | rfl
      · exact launches_frame k true
      · exact hself prepared
    | prepareWait =>
      cases hrun
      cases List.mem_singleton.mp hg
      exact hself true
    | finish o =>
      simp only [run] at hrun
      split at hrun <;> cases hrun
      cases List.mem_singleton.mp hg
      refine ⟨by rintro _ _ ⟨⟩, by rintro _ _ ⟨⟩, by rintro _ ⟨⟩, fun h => .inl ?_⟩
      cases r with
      | submitted n => cases h
      | timer t => rfl
  | timerRun c t =>
    simp only [run] at hrun
    split at hrun <;> cases hrun
    · simp only [List.mem_cons, List.not_mem_nil, or_false] at hg
      rcases hg with rfl | rfl <;> exact .other (fun _ => rfl) (by rintro _ ⟨⟩) rfl
    · cases List.mem_singleton.mp hg
      exact .other (fun _ => rfl) (by rintro _ ⟨⟩) rfl
  | callback c t =>
    cases ch with
    | call k =>
      cases hrun
      simp only [List.mem_cons, List.not_mem_nil, or_false] at hg
      rcases hg with rfl | rfl
      · exact launches_frame k true
      · exact .other (fun _ => rfl) (by rintro _ ⟨⟩) rfl
    | prepareWait =>
      cases hrun
      cases List.mem_singleton.mp hg
      exact .other (fun _ => rfl) (by rintro _ ⟨⟩) rfl
    | finish o =>
      cases hrun
      cases hg
  | timerRan c t =>
    cases hrun
    cases List.mem_singleton.mp hg
    split <;> exact .other (fun _ => rfl) (by rintro _ ⟨⟩) rfl
  | endTurn c r o =>
    obtain ⟨-, rfl⟩ := out_eq hrun
    rcases List.mem_cons.mp hg with rfl | hg
    · exact .other (fun _ => rfl) (by rintro _ ⟨⟩) rfl
    rcases List.mem_append.mp hg with hg | hg
    · split at hg
      · cases List.mem_singleton.mp hg
        exact .other (fun _ => rfl) (by rintro _ ⟨⟩) rfl
      · cases hg
    · exact launches_closingHook _ _ g hg
  | onDone r =>
    cases hrun
    cases List.mem_singleton.mp hg
    exact .other (fun _ => rfl) (by rintro _ ⟨⟩) rfl
  | onClosed c =>
    cases hrun
    cases List.mem_singleton.mp hg
    exact .other (fun _ => rfl) (by rintro _ ⟨⟩) rfl
  | hook =>
    cases ch with
    | call k =>
      cases hrun
      simp only [List.mem_cons, List.not_mem_nil, or_false] at hg
      rcases hg with rfl | rfl
      · exact launches_frame k false
      · exact .other (fun _ => rfl) (by rintro _ ⟨⟩) rfl
    | prepareWait => cases hrun
    | finish o =>
      cases hrun
      cases hg
  | fireDueTimers now =>
    cases hrun
    simp only [List.mem_cons, List.not_mem_nil, or_false] at hg
    rcases hg with rfl | rfl <;> exact .other (fun _ => rfl) (by rintro _ ⟨⟩) rfl
  | popDue now =>
    rcases popDue_cases hrun with ⟨-, rfl, -⟩ | ⟨t, -, rfl⟩
    · cases hg
    · simp only [List.mem_cons, List.not_mem_nil, or_false] at hg
      rcases hg with rfl | rfl | rfl
      · refine ⟨fun c t' h => ?_, by rintro _ _ ⟨⟩, by rintro _ ⟨⟩, by rintro ⟨⟩⟩
        cases h
        rfl
      · exact .other (fun _ => rfl) (by rintro _ ⟨⟩) rfl
      · exact .other (fun _ => rfl) (by rintro _ ⟨⟩) rfl
  | endFire c =>
    obtain ⟨-, rfl⟩ := out_eq hrun
    exact launches_closingHook _ _ g hg
  | closeDiscarding c =>
    cases hrun
    simp only [List.mem_cons, List.not_mem_nil, or_false] at hg
    rcases hg with rfl | rfl <;> exact .other (fun _ => rfl) (by rintro _ ⟨⟩) rfl
  | _ =>
    cases hrun
    cases hg

end Runtime

end Zzdds.Core
