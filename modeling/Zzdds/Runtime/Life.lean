import Zzdds.Runtime.Scheduling

/-! # The life of a context

What a context is for: requests queue up, they run one at a time in that order, and when none is left a
context that takes no more is closed, once.  The history of a runtime is such a life for each of its
contexts. -/

namespace Zzdds.Core

open Zzdds.Lib

structure Life where
  queue : List RequestId := []
  running : Option RequestId := none
  /-- How it was closed: by the end of a turn, claim or fire, or else by its owner. -/
  closedBy : Option Bool := none
  /-- Its closing hook has run. -/
  hooked : Bool := false
deriving DecidableEq, Repr

namespace Life

/-- What an event makes of the life of a context; none when it must not happen. -/
def next (c : ContextId) (l : Life) : RuntimeEvent → Option Life
  | .ready c' r =>
      if c' ≠ c then some l
      else if l.closedBy = none then some { l with queue := l.queue ++ [r] } else none
  | .started c' r =>
      if c' ≠ c then some l
      else if l.queue.head? = some r ∧ l.running = none ∧ l.closedBy = none then
        some { l with queue := l.queue.tail, running := some r }
      else none
  | .ended c' r =>
      if c' ≠ c then some l
      else if l.running = some r then some { l with running := none } else none
  | .discarded c' rs =>
      if c' ≠ c then some l
      else if rs = l.queue then some { l with queue := [] } else none
  | .closed c' ending =>
      if c' ≠ c then some l
      else if l.queue = [] ∧ l.running = none ∧ l.closedBy = none then
        some { l with closedBy := some ending }
      else none
  | .onClosed c' =>
      if c' ≠ c then some l
      else if l.closedBy = some true ∧ l.hooked = false then some { l with hooked := true } else none
  | _ => some l

/-- The life of a context after some events. -/
def after (c : ContextId) (events : List RuntimeEvent) : Option Life := events.foldlM (next c) {}

theorem after_append {c : ContextId} {events es : List RuntimeEvent} {l l' : Life}
    (h : after c events = some l) (hes : es.foldlM (next c) l = some l') :
    after c (events ++ es) = some l' := by
  rw [after, List.foldlM_append]
  rw [after] at h
  rw [h]
  exact hes

/-- An event that says nothing of a context. -/
def Silent (c : ContextId) (e : RuntimeEvent) : Prop := ∀ l, next c l e = some l

theorem foldlM_silent {c : ContextId} {es : List RuntimeEvent} (h : ∀ e ∈ es, Silent c e) (l : Life) :
    es.foldlM (next c) l = some l := by
  induction es with
  | nil => rfl
  | cons e es ih =>
    rw [List.foldlM_cons, h e List.mem_cons_self]
    exact ih fun e' he' => h e' (List.mem_cons_of_mem _ he')

end Life

/-! ### Hooks and turns of the threads -/

/-- The contexts whose closing hook a frame is about to run. -/
def CoreFrame.hooks : CoreFrame → List ContextId
  | .onClosed c => [c]
  | _ => []

theorem CoreFrame.count_run (f : CoreFrame) (c : ContextId) (r : RequestId) :
    f.roles.count (.run c r) ≤ f.roles.count (.turn c) := by
  cases f <;> grind [CoreFrame.roles]

/-- What runs is a turn. -/
theorem tally_run_le (fs : Multiset CoreFrame) (c : ContextId) (r : RequestId) :
    tally CoreFrame.roles fs (.run c r) ≤ tally CoreFrame.roles fs (.turn c) := by
  induction fs using Multiset.induction with
  | empty => exact le_rfl
  | cons f fs ih =>
    rw [tally_cons]
    exact Nat.add_le_add (f.count_run c r) ih

namespace Runtime

variable {s s' : Runtime} {n n' : Role → ℕ} {k k' : ContextId → ℕ} {c : ContextId} {r : RequestId}

/-- A context is where its life has got to. -/
structure Matches (s : Runtime) (n : Role → ℕ) (k : ContextId → ℕ) (c : ContextId) (l : Life) : Prop where
  queue : l.queue = (s.contexts c).fifo
  running : ∀ r, l.running = some r ↔ n (.run c r) ≠ 0
  closed : l.closedBy ≠ none ↔ (s.contexts c).lifecycle = .closed
  hooks : k c + l.hooked.toNat = if (s.contexts c).onClosed ∧ l.closedBy = some true then 1 else 0

def Lives (s : Runtime) (n : Role → ℕ) (k : ContextId → ℕ) : Prop :=
  ∀ c, ∃ l, Life.after c s.history = some l ∧ s.Matches n k c l

/-- What is done to one context. -/
theorem Lives.change (c : ContextId) (es : List RuntimeEvent) (h : s.Lives n k) (hhistory : s'.history = s.history ++ es)
    (hes : ∀ e ∈ es, ∀ c', c' ≠ c → Life.Silent c' e)
    (hcontexts : ∀ c', c' ≠ c → s'.contexts c' = s.contexts c')
    (hn : ∀ c' r', c' ≠ c → n' (.run c' r') = n (.run c' r')) (hk : ∀ c', c' ≠ c → k' c' = k c')
    (hc : ∀ l, s.Matches n k c l → ∃ l', es.foldlM (Life.next c) l = some l' ∧ s'.Matches n' k' c l') :
    s'.Lives n' k' := by
  intro c'
  obtain ⟨l, hl, hm⟩ := h c'
  rw [hhistory]
  by_cases heq : c' = c
  · subst heq
    obtain ⟨l', hl', hm'⟩ := hc l hm
    exact ⟨l', Life.after_append hl hl', hm'⟩
  · refine ⟨l, Life.after_append hl (Life.foldlM_silent (fun e he => hes e he c' heq) l), ?_⟩
    obtain ⟨hqueue, hrunning, hclosed, hhooks⟩ := hm
    refine ⟨?_, fun r' => ?_, ?_, ?_⟩
    · rw [hcontexts c' heq]
      exact hqueue
    · rw [hn c' r' heq]
      exact hrunning r'
    · rw [hcontexts c' heq]
      exact hclosed
    · rw [hk c' heq, hcontexts c' heq]
      exact hhooks

/-- Nothing is done to any. -/
theorem Lives.still (es : List RuntimeEvent) (h : s.Lives n k) (hhistory : s'.history = s.history ++ es)
    (hes : ∀ e ∈ es, ∀ c', Life.Silent c' e)
    (hcontexts : ∀ c, (s'.contexts c).fifo = (s.contexts c).fifo ∧
      ((s'.contexts c).lifecycle = .closed ↔ (s.contexts c).lifecycle = .closed) ∧
        (s'.contexts c).onClosed = (s.contexts c).onClosed)
    (hn : ∀ c r, n' (.run c r) = n (.run c r)) : s'.Lives n' k := by
  intro c
  obtain ⟨l, hl, hqueue, hrunning, hclosed, hhooks⟩ := h c
  obtain ⟨hfifo, hlifecycle, hhook⟩ := hcontexts c
  rw [hhistory]
  refine ⟨l, Life.after_append hl (Life.foldlM_silent (fun e he => hes e he c) l), ?_, fun r => ?_, ?_, ?_⟩
  · rw [hfifo]
    exact hqueue
  · rw [hn]
    exact hrunning r
  · rw [hlifecycle]
    exact hclosed
  · rw [hhook]
    exact hhooks

/-! ### The sections -/

@[simp] theorem note_history (s : Runtime) (e : RuntimeEvent) : (s.note e).history = s.history ++ [e] :=
  rfl

@[simp] theorem setRequest_history (s : Runtime) (r : RequestId) (req : Request) :
    (s.setRequest r req).history = s.history := rfl

@[simp] theorem setContext_history (s : Runtime) (c : ContextId) (ctx : Context) :
    (s.setContext c ctx).history = s.history := rfl

@[simp] theorem appendLocked_history (s : Runtime) (c : ContextId) (r : RequestId) :
    (s.appendLocked c r).history = s.history ++ [.ready c r] := rfl

@[simp] theorem scheduleIfIdleLocked_history (s : Runtime) (c : ContextId) :
    (s.scheduleIfIdleLocked c).history = s.history := by
  rw [scheduleIfIdleLocked]
  split <;> rfl

theorem closeIfDrainedLocked_history (s : Runtime) (c : ContextId) (ending : Bool) :
    (s.closeIfDrainedLocked c ending).history =
      s.history ++ if s.drained c then [.closed c ending] else [] := by
  rw [closeIfDrainedLocked, drained]
  split
  · rfl
  · exact (List.append_nil _).symm

theorem Lives.note (e : RuntimeEvent) (h : s.Lives n k) (he : ∀ c, Life.Silent c e)
    (hhistory : s'.history = s.history ++ [e]) (hcontexts : s'.contexts = s.contexts) :
    s'.Lives n k := by
  refine h.still [e] hhistory (fun e' he' => ?_) (fun c => ?_) fun _ _ => rfl
  · cases List.mem_singleton.mp he'
    exact he
  · rw [hcontexts]
    exact ⟨rfl, Iff.rfl, rfl⟩

theorem Lives.same (h : s.Lives n k) (hhistory : s'.history = s.history)
    (hcontexts : s'.contexts = s.contexts) : s'.Lives n k :=
  h.still [] (by rw [hhistory, List.append_nil]) nofun
    (fun c => by rw [hcontexts]; exact ⟨rfl, Iff.rfl, rfl⟩) fun _ _ => rfl

theorem Lives.roles (h : s.Lives n k) (hn : ∀ c r, n' (.run c r) = n (.run c r)) : s.Lives n' k :=
  h.still [] (List.append_nil _).symm nofun (fun _ => ⟨rfl, Iff.rfl, rfl⟩) hn

theorem Lives.setContext (c : ContextId) (ctx : Context) (h : s.Lives n k) (hhistory : s'.history = s.history)
    (hcontexts : s'.contexts = Function.update s.contexts c ctx)
    (hfifo : ctx.fifo = (s.contexts c).fifo)
    (hclosed : ctx.lifecycle = .closed ↔ (s.contexts c).lifecycle = .closed)
    (hhook : ctx.onClosed = (s.contexts c).onClosed) : s'.Lives n k := by
  refine h.still [] (by rw [hhistory, List.append_nil]) nofun (fun c' => ?_) fun _ _ => rfl
  rw [hcontexts, Function.update_apply]
  split
  next hc =>
    rw [hc]
    exact ⟨hfifo, hclosed, hhook⟩
  next => exact ⟨rfl, Iff.rfl, rfl⟩

/-- A request is queued. -/
theorem Lives.enqueue (r : RequestId) (ctx : Context) (h : s.Lives n k)
    (hhistory : s'.history = s.history ++ [.ready c r])
    (hcontexts : s'.contexts = Function.update s.contexts c ctx)
    (hfifo : ctx.fifo = (s.contexts c).fifo ++ [r]) (hlifecycle : ctx.lifecycle = (s.contexts c).lifecycle)
    (hhook : ctx.onClosed = (s.contexts c).onClosed) (hopen : (s.contexts c).lifecycle ≠ .closed) :
    s'.Lives n k := by
  refine h.change c _ hhistory ?_ ?_ (fun _ _ _ => rfl) (fun _ _ => rfl) ?_
  · intro e he c' hne l
    cases List.mem_singleton.mp he
    exact if_pos hne.symm
  · intro c' hne
    rw [hcontexts, Function.update_of_ne hne]
  · rintro l ⟨hqueue, hrunning, hclosed, hhooks⟩
    have hnone : l.closedBy = none := by
      by_contra hne
      exact hopen (hclosed.mp hne)
    refine ⟨{ l with queue := l.queue ++ [r] }, ?_, ?_, hrunning, ?_, ?_⟩
    · simp [Life.next, hnone]
    all_goals rw [hcontexts, Function.update_self]
    · rw [hfifo, hqueue]
    · rw [hlifecycle]
      exact hclosed
    · rw [hhook]
      exact hhooks

/-- A turn starts. -/
theorem Lives.start {req : Request} {rest : List RequestId} {ctx : Context} (h : s.Lives n k)
    (hcons : (s.contexts c).fifo = r :: rest) (hopen : (s.contexts c).lifecycle ≠ .closed)
    (hidle : ∀ r, n (.run c r) = 0) (hfifo : ctx.fifo = rest)
    (hclosed : ctx.lifecycle = (s.contexts c).lifecycle) (hhook : ctx.onClosed = (s.contexts c).onClosed) :
    (((s.setContext c ctx).setRequest r req).note (.started c r)).Lives (also [.turn c, .run c r] n) k := by
  refine h.change c [.started c r] (by simp) ?_ ?_ ?_ (fun _ _ => rfl) ?_
  · intro e he c' hne l
    cases List.mem_singleton.mp he
    exact if_pos hne.symm
  · intro c' hne
    simp [hne]
  · intro c' r' hne
    simp [also, hne.symm]
  · rintro l ⟨hqueue, hrunning, hcl, hhooks⟩
    have hnone : l.closedBy = none := by
      by_contra hne
      exact hopen (hcl.mp hne)
    have hnrun : l.running = none := by
      rcases hr : l.running with _ | r
      · rfl
      · exact absurd (hidle r) ((hrunning r).mp hr)
    refine ⟨{ l with queue := l.queue.tail, running := some r }, ?_, ?_, ?_, ?_, ?_⟩
    · simp [Life.next, hqueue, hcons, hnone, hnrun]
    · simp [hqueue, hcons, hfifo]
    · intro r'
      by_cases hr : r = r'
      · simp [also, hr]
      · simp [also, hr, hidle]
    · simpa [hclosed] using hcl
    · simpa [hhook] using hhooks

/-- A turn ends. -/
theorem Lives.stop (h : s.Lives (also [.turn c, .run c r] n) k) (hidle : ∀ r, n (.run c r) = 0) :
    (s.note (.ended c r)).Lives n k := by
  refine h.change c [.ended c r] rfl ?_ (fun _ _ => rfl) ?_ (fun _ _ => rfl) ?_
  · intro e he c' hne l
    cases List.mem_singleton.mp he
    exact if_pos hne.symm
  · intro c' r' hne
    simp [also, hne.symm]
  · rintro l ⟨hqueue, hrunning, hcl, hhooks⟩
    have hrun : l.running = some r := (hrunning r).mpr (by simp [also])
    refine ⟨{ l with running := none }, ?_, hqueue, fun r' => ?_, hcl, hhooks⟩
    · simp [Life.next, hrun]
    · simp [hidle]

/-- The hooks that are left to the one who closes a context. -/
theorem hooks_closingHook (s : Runtime) (c : ContextId) (closed : Bool) :
    (s.closingHook c closed).flatMap CoreFrame.hooks =
      if closed ∧ (s.contexts c).onClosed then [c] else [] := by
  rw [closingHook]
  by_cases h : closed ∧ (s.contexts c).onClosed
  · rw [if_pos h, if_pos (by simpa using h)]
    rfl
  · rw [if_neg h, if_neg (by simpa using h)]
    rfl

/-- A context that has nothing left is closed, and its hook is left to the one who does so. -/
theorem Lives.closeIfDrained (c : ContextId) (ending : Bool) (h : s.Lives n k)
    (hrun : s.drained c → ∀ r, n (.run c r) = 0) :
    (s.closeIfDrainedLocked c ending).Lives n
      (also (if s.drained c ∧ ending ∧ (s.contexts c).onClosed then [c] else []) k) := by
  refine h.change c _ (closeIfDrainedLocked_history s c ending) ?_ ?_ (fun _ _ _ => rfl) ?_ ?_
  · intro e he c' hne l
    split at he
    · cases List.mem_singleton.mp he
      exact if_pos hne.symm
    · cases he
  · intro c' hne
    simp [hne]
  · intro c' hne
    split
    · simp [also, hne.symm]
    · simp
  · rintro l ⟨hqueue, hrunning, hclosed, hhooks⟩
    by_cases hd : s.drained c
    · have hctx : ((s.closeIfDrainedLocked c ending).contexts c) =
          { s.contexts c with lifecycle := .closed } := by
        simp [Context.closeIfDrained, show (s.contexts c).drained from hd]
      have hdr : (s.contexts c).lifecycle = .draining ∧ (s.contexts c).fifo = [] := by
        have hd : (s.contexts c).drained := hd
        simp only [Context.drained, Bool.and_eq_true, beq_iff_eq, List.isEmpty_iff] at hd
        exact ⟨hd.1.1.1.1, hd.1.1.2⟩
      have hnone : l.closedBy = none := by
        by_contra hne
        have := hclosed.mp hne
        rw [hdr.1] at this
        cases this
      have hidle : l.running = none := by
        rcases hr : l.running with _ | r
        · rfl
        · exact absurd (hrun hd r) ((hrunning r).mp hr)
      refine ⟨{ l with closedBy := some ending }, ?_, ?_, ?_, ?_, ?_⟩
      · rw [if_pos hd]
        simp [Life.next, hqueue, hdr.2, hidle, hnone]
      · rw [hctx]
        exact hqueue
      · exact hrunning
      · rw [hctx]
        exact iff_of_true (by rintro ⟨⟩) rfl
      · rw [hctx]
        rw [hnone] at hhooks
        cases ending <;> cases ho : (s.contexts c).onClosed <;> simp_all [also]
    · have hctx : ((s.closeIfDrainedLocked c ending).contexts c) = s.contexts c := by
        simp [Context.closeIfDrained, show ¬ (s.contexts c).drained from hd]
      rw [if_neg hd]
      refine ⟨l, rfl, ?_, hrunning, ?_, ?_⟩
      · rw [hctx]
        exact hqueue
      · rw [hctx]
        exact hclosed
      · rw [hctx, if_neg fun h => hd h.1, also_nil]
        exact hhooks

/-- A submitting thread starts the turn. -/
theorem Lives.inline {req : Request} {ctx : Context} {inlineLeft : ExecutorId → ℕ} (h : s.Lives n k)
    (hnil : (s.contexts c).fifo = []) (hopen : (s.contexts c).lifecycle ≠ .closed)
    (hidle : ∀ r, n (.run c r) = 0) (hfifo : ctx.fifo = [])
    (hclosed : ctx.lifecycle = (s.contexts c).lifecycle) (hhook : ctx.onClosed = (s.contexts c).onClosed) :
    (((({ s with inlineLeft := inlineLeft }.setContext c ctx).setRequest r req).note (.ready c r)).note
      (.started c r)).Lives (also [.turn c, .run c r] n) k := by
  refine h.change c [.ready c r, .started c r] (by simp) ?_ ?_ ?_ (fun _ _ => rfl) ?_
  · intro e he c' hne l
    rcases List.mem_cons.mp he with rfl | he
    · exact if_pos hne.symm
    · cases List.mem_singleton.mp he
      exact if_pos hne.symm
  · intro c' hne
    simp [hne]
  · intro c' r' hne
    simp [also, hne.symm]
  · rintro l ⟨hqueue, hrunning, hcl, hhooks⟩
    have hnone : l.closedBy = none := by
      by_contra hne
      exact hopen (hcl.mp hne)
    have hnrun : l.running = none := by
      rcases hr : l.running with _ | r
      · rfl
      · exact absurd (hidle r) ((hrunning r).mp hr)
    refine ⟨{ l with running := some r }, ?_, ?_, ?_, ?_, ?_⟩
    · simp [Life.next, hqueue, hnil, hnone, hnrun]
    · simp [hqueue, hnil, hfifo]
    · intro r'
      by_cases hr : r = r'
      · simp [also, hr]
      · simp [also, hr, hidle]
    · simpa [hclosed] using hcl
    · simpa [hhook] using hhooks

theorem Lives.admission {exec : Option ExecutorId} (h : s.Lives n k)
    (hidle : (s.contexts c).execution = .idle → ∀ r, n (.run c r) = 0) :
    (s.admission exec c r).1.Lives (also ((s.admission exec c r).2.flatMap CoreFrame.roles) n) k := by
  unfold Runtime.admission
  dsimp only
  split_ifs with hopen hbusy hlimit
  · rw [List.flatMap_nil, also_nil]
    exact h.note _ (fun _ _ => rfl) rfl rfl
  · rw [List.flatMap_nil, also_nil]
    exact h.note _ (fun _ _ => rfl) rfl rfl
  · rw [List.flatMap_nil, also_nil]
    exact h.note _ (fun _ _ => rfl) rfl rfl
  have hnclosed : (s.contexts c).lifecycle ≠ .closed := by
    rw [not_not.mp hopen]
    decide
  split
  next e he =>
    obtain ⟨-, hexec, hnil⟩ := of_decide_eq_true (Option.filter_eq_some_iff.mp he).2
    exact h.inline hnil hnclosed (hidle hexec) hnil rfl rfl
  next =>
    rw [List.flatMap_nil, also_nil]
    refine h.enqueue r { s.contexts c with
      pending := (s.contexts c).pending + 1
      fifo := (s.contexts c).fifo ++ [r] }.schedule ?_ ?_ ?_ ?_ ?_ hnclosed
    all_goals simp

theorem Lives.admitInternal (h : s.Lives n k) : (s.admitInternal c r).1.Lives n k := by
  unfold Runtime.admitInternal
  dsimp only
  split_ifs with hclosed hbusy
  · exact h.note _ (fun _ _ => rfl) rfl rfl
  · exact h.note _ (fun _ _ => rfl) rfl rfl
  · refine h.enqueue r { s.contexts c with fifo := (s.contexts c).fifo ++ [r] }.schedule ?_ ?_ ?_ ?_ ?_
      hclosed
    all_goals simp

theorem Lives.wake {gen : ℕ} (h : s.Lives n k)
    (hopen : (s.requests r).placement = .waiting → (s.contexts c).lifecycle ≠ .closed) :
    (s.wake c r gen).Lives n k := by
  have hnote : (s.note (.woken r)).Lives n k := h.note _ (fun _ _ => rfl) rfl rfl
  unfold Runtime.wake
  dsimp only
  split_ifs
  · exact h
  split
  · exact hnote.same rfl rfl
  next hwaiting =>
    refine hnote.enqueue r { s.contexts c with
      waiting := (s.contexts c).waiting - 1
      fifo := (s.contexts c).fifo ++ [r] }.schedule ?_ ?_ ?_ ?_ ?_ (hopen hwaiting)
    all_goals simp
  · exact hnote

theorem Lives.claim {lane : Option Lane} (h : s.Lives n k) (hopen : (s.contexts c).lifecycle ≠ .closed)
    (hidle : ∀ r, n (.run c r) = 0) :
    (s.claim lane c).1.Lives (also ((s.claim lane c).2.flatMap CoreFrame.roles) n)
      (also ((s.claim lane c).2.flatMap CoreFrame.hooks) k) := by
  unfold Runtime.claim
  dsimp only
  split
  next hnil =>
    have hset : (s.setContext c { s.contexts c with execution := .idle }).Lives n k :=
      h.setContext c _ rfl rfl rfl Iff.rfl rfl
    have hcl := hset.closeIfDrained c true fun _ => hidle
    rw [List.flatMap_cons, List.flatMap_cons, List.flatMap_append, List.flatMap_append,
      roles_closingHook, hooks_closingHook]
    simpa [CoreFrame.roles, CoreFrame.hooks] using hcl
  next r rest hcons =>
    rw [List.flatMap_singleton, List.flatMap_singleton, roles_turnFrame]
    have hhooks : (turnFrame c r).hooks = [] := by cases r <;> rfl
    rw [hhooks, also_nil]
    exact h.start hcons hopen hidle rfl rfl rfl

theorem Lives.settle (h : s.Lives n k) (r : RequestId) (hopen : (s.contexts c).lifecycle ≠ .closed) (o : Outcome) :
    (s.settle c r o).Lives n k := by
  unfold Runtime.settle
  cases o with
  | done => exact h.setContext c _ rfl rfl rfl Iff.rfl rfl
  | yield => exact h.enqueue r _ rfl rfl rfl rfl rfl hopen
  | wait =>
    dsimp only
    split
    · exact h.enqueue r _ rfl rfl rfl rfl rfl hopen
    · exact h.setContext c _ rfl rfl rfl Iff.rfl rfl

theorem Lives.endTurn {o : Outcome} (h : s.Lives (also [.turn c, .run c r] n) k)
    (hopen : (s.contexts c).lifecycle ≠ .closed) (hidle : ∀ r, n (.run c r) = 0) :
    (s.endTurn c r o).1.Lives n (also ((s.endTurn c r o).2.flatMap CoreFrame.hooks) k) := by
  have hstop := (h.settle r hopen o).stop hidle
  have hset : ((((s.settle c r o).note (.ended c r)).setContext c
      { (s.settle c r o).contexts c with execution := .idle }).scheduleIfIdleLocked c).Lives n k := by
    refine hstop.setContext c { (s.settle c r o).contexts c with execution := .idle }.schedule ?_ ?_ ?_ ?_ ?_
    all_goals simp
  have hcl := hset.closeIfDrained c true fun _ => hidle
  unfold Runtime.endTurn
  rw [List.flatMap_cons, List.flatMap_append, hooks_closingHook]
  have hdone : (if o = .done then [CoreFrame.onDone r] else []).flatMap CoreFrame.hooks = [] := by
    split <;> rfl
  rw [hdone]
  simpa [CoreFrame.hooks] using hcl

theorem Lives.discard (h : s.Lives n k)
    (hidle : (s.contexts c).execution ≠ .running → ∀ r, n (.run c r) = 0) :
    (s.discard c).Lives n k := by
  unfold Runtime.discard
  dsimp only
  generalize hpre : ((Runtime.setContext _ c _).note (.discarded c (s.contexts c).fifo)) = s₁
  have hhistory : s₁.history = s.history ++ [.discarded c (s.contexts c).fifo] := by
    rw [← hpre]
    rfl
  have hcontexts : ∀ c', c' ≠ c → s₁.contexts c' = s.contexts c' := by
    intro c' hne
    rw [← hpre, note_contexts, setContext_contexts, Function.update_of_ne hne]
  have hself : (s₁.contexts c).fifo = [] ∧
      ((s₁.contexts c).lifecycle = .closed ↔ (s.contexts c).lifecycle = .closed) ∧
        (s₁.contexts c).onClosed = (s.contexts c).onClosed ∧
          ((s₁.contexts c).execution = .idle → (s.contexts c).execution ≠ .running) := by
    rw [← hpre, note_contexts, setContext_contexts, Function.update_self]
    refine ⟨rfl, ?_, rfl, ?_⟩
    · dsimp only
      split
      next ho => exact iff_of_false nofun (by rw [ho]; decide)
      next => exact Iff.rfl
    · dsimp only
      split
      next hl => exact fun _ => by rw [hl.1]; decide
      next => exact fun hi => by rw [hi]; decide
  obtain ⟨hfifo, hlifecycle, hhook, hexec⟩ := hself
  have hlives : s₁.Lives n k := by
    refine h.change c _ hhistory ?_ hcontexts (fun _ _ _ => rfl) (fun _ _ => rfl) ?_
    · intro e he c' hne l
      cases List.mem_singleton.mp he
      exact if_pos hne.symm
    · rintro l ⟨hqueue, hrunning, hclosed, hhooks⟩
      refine ⟨{ l with queue := [] }, ?_, hfifo.symm, hrunning, ?_, ?_⟩
      · simp [Life.next, hqueue]
      · rw [hlifecycle]
        exact hclosed
      · rw [hhook]
        exact hhooks
  have hcl := hlives.closeIfDrained c false fun hd => hidle (hexec ?_)
  · simpa using hcl
  · have hd : (s₁.contexts c).drained := hd
    simp only [Context.drained, Bool.and_eq_true, beq_iff_eq, List.isEmpty_iff] at hd
    exact hd.1.1.1.2

/-- A fire's hold on its context ends, or its owner closes it. -/
theorem Lives.drain (c : ContextId) (ctx : Context) (ending : Bool) (h : s.Lives n k)
    (hidle : (s.contexts c).execution = .idle → ∀ r, n (.run c r) = 0)
    (hexec : ctx.execution = (s.contexts c).execution) (hfifo : ctx.fifo = (s.contexts c).fifo)
    (hclosed : ctx.lifecycle = .closed ↔ (s.contexts c).lifecycle = .closed)
    (hhook : ctx.onClosed = (s.contexts c).onClosed) :
    ((s.setContext c ctx).closeIfDrainedLocked c ending).Lives n
      (also (if (s.setContext c ctx).drained c ∧ ending ∧ (s.contexts c).onClosed then [c] else []) k) := by
  have hset : (s.setContext c ctx).Lives n k := h.setContext c ctx rfl rfl hfifo hclosed hhook
  have hcl := hset.closeIfDrained c ending fun hd => hidle ?_
  · simpa [hhook] using hcl
  · have hd : ((s.setContext c ctx).contexts c).drained := hd
    simp only [Context.drained, Bool.and_eq_true, beq_iff_eq, List.isEmpty_iff] at hd
    rw [← hexec]
    simpa using hd.1.1.1.2

/-! ### One step -/

theorem hooks_admission (s : Runtime) (exec : Option ExecutorId) (c : ContextId) (r : RequestId) :
    (s.admission exec c r).2.flatMap CoreFrame.hooks = [] := by
  unfold Runtime.admission
  dsimp only
  split_ifs
  · rfl
  · rfl
  · rfl
  · split <;> rfl

theorem hooks_turnFrame (c : ContextId) (r : RequestId) : (turnFrame c r).hooks = [] := by
  cases r <;> rfl

theorem hooks_frame (call : Call) (inTurn : Bool) : (call.frame inTurn).hooks = [] := by
  cases call <;> rfl

theorem hooks_refusedFire (b : Submitter) (r : RequestId) (err : Option SubmitError) :
    (refusedFire b r err).flatMap CoreFrame.hooks = [] := by
  unfold refusedFire
  split <;> rfl

/-- The hook of a closed context runs. -/
theorem Lives.onClosed (h : s.Lives n (also [c] k)) : (s.note (.onClosed c)).Lives n k := by
  refine h.change c [.onClosed c] rfl ?_ (fun _ _ => rfl) (fun _ _ _ => rfl) ?_ ?_
  · intro e he c' hne l
    cases List.mem_singleton.mp he
    exact if_pos hne.symm
  · intro c' hne
    simp [also, hne.symm]
  · rintro l ⟨hqueue, hrunning, hclosed, hhooks⟩
    have hboth : l.closedBy = some true ∧ l.hooked = false := by
      by_contra hne
      split at hhooks
      next hc =>
        have hh : l.hooked = true := by
          by_contra hf
          exact hne ⟨hc.2, by simpa using hf⟩
        simp [also, hh] at hhooks
      next => simp [also] at hhooks
    refine ⟨{ l with hooked := true }, ?_, hqueue, hrunning, hclosed, ?_⟩
    · simp [Life.next, hboth]
    · simp only [hboth.2, also, List.count_singleton_self] at hhooks
      rw [note_contexts, ← hhooks]
      exact Nat.add_comm _ _

theorem Sched.run_eq_zero (h : s.Sched n) (hle : ∀ c r, n (.run c r) ≤ n (.turn c))
    (hexec : (s.contexts c).execution ≠ .running) (r : RequestId) : n (.run c r) = 0 := by
  have hturn := (h.contexts c).running
  rw [if_neg hexec] at hturn
  exact Nat.le_zero.mp (hturn ▸ hle c r)

theorem Sched.open_of_busy (h : s.Sched n) (hexec : (s.contexts c).execution ≠ .idle) :
    (s.contexts c).lifecycle ≠ .closed :=
  fun hcl => hexec ((h.contexts c).closed hcl).1

theorem Lives.run {ch : Choice} {f : CoreFrame} {new : List CoreFrame} (hs : s.Sched (also f.roles n))
    (hle : ∀ c r, n (.run c r) ≤ n (.turn c)) (h : s.Lives (also f.roles n) (also f.hooks k))
    (hrun : s.run ch f = some (s', new)) :
    s'.Lives (also (new.flatMap CoreFrame.roles) n) (also (new.flatMap CoreFrame.hooks) k) := by
  have hidle : ∀ {c}, (s.contexts c).execution ≠ .running → ∀ r, also f.roles n (.run c r) = 0 :=
    fun hexec r => hs.run_eq_zero (fun c r => Nat.add_le_add (f.count_run c r) (hle c r)) hexec r
  cases f with
  | submit exec c r =>
    cases hrun
    exact h.same rfl rfl
  | submitOpen exec c r =>
    simp only [Runtime.run] at hrun
    split at hrun <;> cases hrun
    · exact h.same rfl rfl
    · exact h.note _ (fun _ _ => rfl) rfl rfl
  | admission exec c r =>
    obtain ⟨rfl, rfl⟩ := out_eq hrun
    rw [hooks_admission]
    exact (also_nil n ▸ h).admission fun hi r => also_nil n ▸ hidle (by rw [hi]; decide) r
  | countTurn c r =>
    cases hrun
    rw [List.flatMap_singleton, List.flatMap_singleton, roles_turnFrame, hooks_turnFrame]
    exact h.same rfl rfl
  | submitInternal c r b =>
    cases hrun
    exact h.same rfl rfl
  | admitInternal c r b =>
    obtain ⟨rfl, rfl⟩ := out_eq hrun
    rw [List.flatMap_cons, List.flatMap_cons, roles_refusedFire, hooks_refusedFire]
    exact h.admitInternal
  | wakeRequest r gen =>
    simp only [Runtime.run] at hrun
    obtain ⟨c, hc, hrun⟩ := Option.map_eq_some_iff.mp hrun
    cases hrun
    exact Lives.roles (h.same rfl rfl) fun _ _ => rfl
  | wake c r gen =>
    cases hrun
    refine Lives.roles (Lives.wake h fun hw hcl => ?_) fun _ _ => rfl
    have hzero := ((hs.contexts c).closed hcl).2
    have hc := (hs.requests c r).wake (by simp [also, CoreFrame.roles])
    have hpos := (hs.contexts c).waiting.pos (a := r) ⟨hw, hc⟩
    omega
  | endBusy =>
    simp only [Runtime.run] at hrun
    cases hrun
    split <;> exact h.same rfl rfl
  | endedLast =>
    simp only [Runtime.run] at hrun
    cases hrun
    split <;> exact h
  | releaseOwner =>
    simp only [Runtime.run] at hrun
    cases hrun
    split <;> exact h.same rfl rfl
  | retire =>
    cases hrun
    exact h.same rfl rfl
  | tryRetainOwner =>
    simp only [Runtime.run] at hrun
    cases hrun
    split <;> exact h.same rfl rfl
  | tryStop =>
    simp only [Runtime.run] at hrun
    cases hrun
    split <;> exact h
  | tryStopBusy =>
    simp only [Runtime.run] at hrun
    cases hrun
    split <;> exact h
  | tryStopWaiting =>
    simp only [Runtime.run] at hrun
    cases hrun
    split <;> exact h
  | tryStopReady =>
    simp only [Runtime.run] at hrun
    cases hrun
    split
    · exact h.note .stopped (fun _ _ => rfl) rfl rfl
    · exact h
  | runNextIn lane =>
    cases hrun
    exact h.same rfl rfl
  | takeReady lane =>
    simp only [Runtime.run] at hrun
    split at hrun
    · cases hrun
      exact h
    next c ready htake =>
      cases hrun
      exact Lives.roles (h.same rfl rfl) fun _ _ => rfl
  | claim lane c =>
    obtain ⟨rfl, rfl⟩ := out_eq hrun
    have hexec : (s.contexts c).execution = .scheduled := by
      by_contra hne
      have := (hs.contexts c).scheduled
      rw [if_neg hne] at this
      simp [also, CoreFrame.roles] at this
    have hn : ∀ r, n (.run c r) = 0 := fun r =>
      (Nat.zero_add _).symm.trans (hidle (c := c) (by rw [hexec]; decide) r)
    have h : s.Lives n k := also_nil k ▸ h.roles fun c' r => (Nat.zero_add _).symm
    exact h.claim (hs.open_of_busy (by rw [hexec]; decide)) hn
  | turn c r prepared =>
    cases ch with
    | call call =>
      cases hrun
      simp only [List.flatMap_cons, roles_frame, hooks_frame]
      exact h
    | prepareWait =>
      cases hrun
      exact h.note (.prepareWait r) (fun _ _ => rfl) rfl rfl
    | finish o =>
      simp only [Runtime.run] at hrun
      split at hrun <;> cases hrun
      exact h
  | timerRun c t =>
    simp only [Runtime.run] at hrun
    split at hrun <;> cases hrun
    · exact h.note (.callback t _) (fun _ _ => rfl) rfl rfl
    · exact h.same rfl rfl
  | callback c t =>
    cases ch with
    | call call =>
      cases hrun
      simp only [List.flatMap_cons, roles_frame, hooks_frame]
      exact h
    | prepareWait =>
      cases hrun
      exact h.note (.prepareWait (.timer t)) (fun _ _ => rfl) rfl rfl
    | finish o =>
      cases hrun
      exact h
  | timerRan c t =>
    cases hrun
    exact h
  | endTurn c r o =>
    obtain ⟨rfl, rfl⟩ := out_eq hrun
    rw [roles_endTurn, also_nil]
    have hexec : (s.contexts c).execution = .running := by
      by_contra hne
      have := (hs.contexts c).running
      rw [if_neg hne] at this
      simp [also, CoreFrame.roles] at this
    have hturn : n (.turn c) = 0 := by
      have := (hs.contexts c).running
      rw [if_pos hexec] at this
      simp only [also, CoreFrame.roles, List.count_cons_self] at this
      omega
    refine Lives.endTurn (also_nil k ▸ h) (hs.open_of_busy (by rw [hexec]; decide)) fun r => ?_
    exact Nat.le_zero.mp (hturn ▸ hle c r)
  | onDone r =>
    cases hrun
    exact h
  | onClosed c =>
    cases hrun
    exact (also_nil k).symm ▸ Lives.onClosed h
  | hook =>
    cases ch with
    | call call =>
      cases hrun
      simp only [List.flatMap_cons, roles_frame, hooks_frame]
      exact h
    | prepareWait => cases hrun
    | finish o =>
      cases hrun
      exact h
  | arm t d noLater =>
    obtain ⟨rfl, rfl⟩ := out_eq hrun
    unfold Runtime.arm
    dsimp only
    split_ifs
    · exact h.same rfl rfl
    · exact h.same rfl rfl
    · exact h.note (.armed t _ d) (fun _ _ => rfl) rfl rfl
  | cancelTimer t =>
    cases hrun
    exact h.note (.cancelled t) (fun _ _ => rfl) rfl rfl
  | fireDueTimers now =>
    cases hrun
    exact h.note (.fireDueTimers now) (fun _ _ => rfl) rfl rfl
  | popDue now =>
    simp only [Runtime.run] at hrun
    split at hrun
    · cases hrun
      exact h
    · split at hrun <;> cases hrun
      · exact h
      next t heap _ _ =>
        refine h.still [.due t (s.timers t).gen now] rfl (fun e he => ?_) (fun c => ?_) fun _ _ => rfl
        · cases List.mem_singleton.mp he
          exact fun _ _ => rfl
        · rw [note_contexts, setContext_contexts, Function.update_apply]
          split
          next hc =>
            rw [hc]
            exact ⟨rfl, Iff.rfl, rfl⟩
          next => exact ⟨rfl, Iff.rfl, rfl⟩
  | fireClosed t =>
    cases hrun
    exact h.same rfl rfl
  | endFire c =>
    obtain ⟨rfl, rfl⟩ := out_eq hrun
    rw [roles_closingHook, hooks_closingHook, also_nil]
    have hdrain := Lives.drain c { s.contexts c with firing := (s.contexts c).firing - 1 } true
      (also_nil n ▸ also_nil k ▸ h) (fun hi r => also_nil n ▸ hidle (by rw [hi]; decide) r)
      rfl rfl Iff.rfl rfl
    simpa using hdrain
  | close c =>
    obtain ⟨rfl, rfl⟩ := out_eq hrun
    let lifecycle := if (s.contexts c).lifecycle = Lifecycle.opened then .draining
      else (s.contexts c).lifecycle
    have hclosed : lifecycle = .closed ↔ (s.contexts c).lifecycle = .closed := by
      unfold lifecycle
      split
      next ho => exact iff_of_false (by rintro ⟨⟩) (by rw [ho]; decide)
      next => exact Iff.rfl
    have hdrain := Lives.drain c { s.contexts c with lifecycle := lifecycle } false h (fun hi r => hidle (by rw [hi]; decide) r) rfl rfl hclosed rfl
    simp only [Bool.false_eq_true, false_and, and_false, if_false, also_nil] at hdrain
    exact hdrain
  | closeDiscarding c =>
    cases hrun
    exact h.same rfl rfl
  | discard c =>
    cases hrun
    exact h.discard hidle

end Runtime

end Zzdds.Core
