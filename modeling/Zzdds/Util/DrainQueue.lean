import Zzdds.Lib.Run
import Zzdds.Lib.Threads

/-! # Work handed over and drained

`DrainQueue` of `drain_queue.zig`, pushed to and drained by any number of threads.  A step is one
critical section of the queue's lock, or the begin or the end of one call of `process`; what
`process` does, and what a thread does of its own, is any sequence of pushes and drains.  Memory may
be missing for a push. -/

namespace Zzdds.Util

open Lib

variable {T : Type}

/-! ### The queue -/

/-- A call of `process`. -/
inductive ProcessEvent (T : Type) where
  | began (item : T)
  | ended (item : T)
deriving DecidableEq

/-- The queue.  `pushed`, which is not in the source, is everything ever pushed, and `log` the calls
of `process`. -/
structure DrainQueue (T : Type) where
  items : List T := []
  draining : Bool := false
  pushed : List T := []
  log : List (ProcessEvent T) := []
deriving DecidableEq

/-- What a thread is in: a push, a drain that has not looked at the queue yet, the loop of a drain
over what is left of its batch, in a call of `process` where it has an item, or code of its own. -/
inductive DrainFrame (T : Type) where
  | push (item : T)
  | drain
  | batch (now : Option T) (rest : List T)
  | code
deriving DecidableEq

/-- What code outside the queue does next. -/
inductive CodeMove (T : Type) where
  | push (item : T)
  | drain
  | leave

namespace DrainQueue

variable (q : DrainQueue T)

def push (item : T) : DrainQueue T :=
  { q with items := q.items ++ [item], pushed := q.pushed ++ [item] }

/-- The head of the loop of `drain`, which takes all that is queued. -/
def nextBatch : DrainQueue T × List (DrainFrame T) :=
  if q.items.isEmpty then ({ q with draining := false }, [])
  else ({ q with items := [] }, [.batch none q.items])

def drain : DrainQueue T × List (DrainFrame T) :=
  if q.draining then (q, []) else { q with draining := true }.nextBatch

/-- A step; `full` says that there is no memory for it. -/
def run (move : CodeMove T) (full : Bool) (q : DrainQueue T) :
    DrainFrame T → Option (DrainQueue T × List (DrainFrame T))
  | .push item => some (if full then q else q.push item, [])
  | .drain => some q.drain
  | .batch none [] => some q.nextBatch
  | .batch none (item :: rest) =>
      some ({ q with log := q.log ++ [.began item] }, [.batch (some item) rest])
  | .batch (some item) rest =>
    match move with
    | .push x => some (q, [.push x, .batch (some item) rest])
    | .drain => some (q, [.drain, .batch (some item) rest])
    | .leave => some ({ q with log := q.log ++ [.ended item] }, [.batch none rest])
  | .code =>
    match move with
    | .push x => some (q, [.push x, .code])
    | .drain => some (q, [.drain, .code])
    | .leave => some (q, [])

end DrainQueue

/-! ### Threads -/

/-- A queue and its threads.  `owing` are the threads that pushed something and have not begun a
drain since. -/
structure DrainThreads (T : Type) where
  threads : Threads (DrainQueue T) (DrainFrame T)
  owing : List ℕ := []

inductive DrainAction (T : Type) where
  | spawn
  | turn (i : ℕ) (move : CodeMove T) (full : Bool)

namespace DrainThreads

/-- Who owes a drain once a thread has run a frame. -/
def owingAfter (owing : List ℕ) (i : ℕ) (full : Bool) : Option (DrainFrame T) → List ℕ
  | some (.push _) => if full then owing else owing.insert i
  | some .drain => owing.filter (· ≠ i)
  | _ => owing

def step (d : DrainThreads T) : DrainAction T → Option (DrainThreads T)
  | .spawn => some { d with threads := d.threads.spawn d.threads.shared [.code] }
  | .turn i move full => (d.threads.turn (DrainQueue.run move full) i).map fun threads =>
      { threads := threads, owing := owingAfter d.owing i full (d.threads.next i) }

def queue (d : DrainThreads T) : DrainQueue T := d.threads.shared

/-- An empty queue no thread has used. -/
def init : DrainThreads T := { threads := ⟨{}, []⟩ }

def DrainRun : List (DrainAction T) → DrainThreads T → Prop := Run step (fun _ _ => True) init

end DrainThreads

/-! ### What every step keeps -/

/-- The calls of `process` for some items one after the other, the last one under way if there is
one. -/
def oneByOne (done : List T) (now : Option T) : List (ProcessEvent T) :=
  done.flatMap (fun item => [.began item, .ended item]) ++ now.toList.map .began

theorem oneByOne_began (done : List T) (item : T) :
    oneByOne done none ++ [.began item] = oneByOne done (some item) := by
  rw [oneByOne, oneByOne, Option.toList_none, List.map_nil, List.append_nil]
  rfl

theorem oneByOne_ended (done : List T) (item : T) :
    oneByOne done (some item) ++ [.ended item] = oneByOne (done ++ [item]) none := by
  rw [oneByOne, oneByOne, List.flatMap_append, List.append_assoc, Option.toList_none, List.map_nil,
    List.append_nil]
  rfl

/-- A frame of no running drain. -/
def DrainFrame.calm : DrainFrame T → Bool
  | .batch _ _ => false
  | _ => true

/-- Either nothing is drained, or there is the loop of one drain; what was pushed is what has been
processed, what the drain is at, what is left of its batch, and what is queued. -/
inductive Sound (q : DrainQueue T) : Multiset (DrainFrame T) → Prop
  | idle {fs : Multiset (DrainFrame T)} {done : List T} (hcalm : ∀ f ∈ fs, f.calm = true)
      (hflag : q.draining = false) (hlog : q.log = oneByOne done none)
      (hpushed : q.pushed = done ++ q.items) : Sound q fs
  | active {fs : Multiset (DrainFrame T)} {done rest : List T} {now : Option T}
      (hcalm : ∀ f ∈ fs, f.calm = true) (hflag : q.draining = true)
      (hlog : q.log = oneByOne done now)
      (hpushed : q.pushed = done ++ (now.toList ++ (rest ++ q.items))) :
      Sound q (.batch now rest ::ₘ fs)

namespace Sound

variable {q q' : DrainQueue T} {fs rest : Multiset (DrainFrame T)} {new : List (DrainFrame T)}
  {f : DrainFrame T} {move : CodeMove T} {full : Bool}

/-- More frames of no running drain, and what is pushed. -/
theorem push {item : T} (h : Sound q fs) : Sound (q.push item) fs := by
  cases h with
  | idle hcalm hflag hlog hpushed =>
    refine idle hcalm hflag hlog ?_
    show q.pushed ++ [item] = _ ++ (q.items ++ [item])
    rw [hpushed, List.append_assoc]
  | active hcalm hflag hlog hpushed =>
    refine active hcalm hflag hlog ?_
    show q.pushed ++ [item] = _ ++ (_ ++ (_ ++ (q.items ++ [item])))
    simp only [hpushed, List.append_assoc]

theorem cons (h : Sound q fs) (hf : f.calm = true) : Sound q (f ::ₘ fs) := by
  cases h with
  | idle hcalm hflag hlog hpushed =>
    exact idle (Multiset.forall_mem_cons.mpr ⟨hf, hcalm⟩) hflag hlog hpushed
  | active hcalm hflag hlog hpushed =>
    rw [Multiset.cons_swap]
    exact active (Multiset.forall_mem_cons.mpr ⟨hf, hcalm⟩) hflag hlog hpushed

/-- A call on top of a frame. -/
theorem call {g : DrainFrame T} (h : Sound q (f ::ₘ fs)) (hg : g.calm = true) :
    Sound q (↑[g, f] + fs) := by
  rw [← Multiset.cons_coe, Multiset.coe_singleton, Multiset.cons_add, Multiset.singleton_add]
  exact h.cons hg

theorem tail (h : Sound q (f ::ₘ fs)) (hf : f.calm = true) : Sound q fs := by
  generalize hall : f ::ₘ fs = all at h
  cases h with
  | idle hcalm hflag hlog hpushed =>
    subst hall
    exact idle (Multiset.forall_mem_cons.mp hcalm).2 hflag hlog hpushed
  | active hcalm hflag hlog hpushed =>
    rcases Multiset.cons_eq_cons.mp hall with ⟨rfl, -⟩ | ⟨-, cs, rfl, rfl⟩
    · cases hf
    · exact active (Multiset.forall_mem_cons.mp hcalm).2 hflag hlog hpushed

/-- The loop of a drain is that of the only one. -/
theorem of_batch {now : Option T} {left : List T} (h : Sound q (.batch now left ::ₘ fs)) :
    (∀ f ∈ fs, f.calm = true) ∧ q.draining = true ∧ ∃ done, q.log = oneByOne done now ∧
      q.pushed = done ++ (now.toList ++ (left ++ q.items)) := by
  generalize hall : DrainFrame.batch now left ::ₘ fs = all at h
  cases h with
  | idle hcalm =>
    subst hall
    cases hcalm _ (Multiset.mem_cons_self _ _)
  | active hcalm hflag hlog hpushed =>
    rcases Multiset.cons_eq_cons.mp hall with ⟨heq, rfl⟩ | ⟨-, cs, -, rfl⟩
    · cases heq
      exact ⟨hcalm, hflag, _, hlog, hpushed⟩
    · cases hcalm _ (Multiset.mem_cons_self _ _)

/-- The head of the loop. -/
theorem nextBatch {done : List T} (hcalm : ∀ f ∈ fs, f.calm = true) (hflag : q.draining = true)
    (hlog : q.log = oneByOne done none) (hpushed : q.pushed = done ++ q.items) :
    Sound q.nextBatch.1 (↑q.nextBatch.2 + fs) := by
  unfold DrainQueue.nextBatch
  split_ifs
  · exact idle (by simpa using hcalm) rfl hlog hpushed
  · exact active hcalm hflag hlog (by simpa using hpushed)

theorem drain (h : Sound q fs) : Sound q.drain.1 (↑q.drain.2 + fs) := by
  unfold DrainQueue.drain
  split_ifs with hrunning
  · simpa using h
  · cases h with
    | idle hcalm hflag hlog hpushed => exact nextBatch hcalm rfl hlog hpushed
    | active hcalm hflag => exact absurd hflag hrunning

theorem run (h : Sound q (f ::ₘ rest)) (hrun : DrainQueue.run move full q f = some (q', new)) :
    Sound q' (↑new + rest) := by
  cases f with
  | push item =>
    cases hrun
    have hrest := h.tail rfl
    rw [Multiset.coe_nil, zero_add]
    split_ifs
    · exact hrest
    · exact hrest.push
  | drain =>
    have hdrain := (h.tail rfl).drain
    rw [show q.drain = (q', new) from Option.some.inj hrun] at hdrain
    exact hdrain
  | batch now left =>
    obtain ⟨hcalm, hflag, done, hlog, hpushed⟩ := h.of_batch
    cases now with
    | none =>
      cases left with
      | nil =>
        have hnext := nextBatch hcalm hflag hlog hpushed
        rw [show q.nextBatch = (q', new) from Option.some.inj hrun] at hnext
        exact hnext
      | cons item left =>
        cases hrun
        exact active hcalm hflag ((congrArg (· ++ _) hlog).trans (oneByOne_began done item)) hpushed
    | some item =>
      cases move with
      | push x =>
        cases hrun
        exact h.call rfl
      | drain =>
        cases hrun
        exact h.call rfl
      | leave =>
        cases hrun
        refine active hcalm hflag ((congrArg (· ++ _) hlog).trans (oneByOne_ended done item)) ?_
        rw [List.append_assoc]
        exact hpushed
  | code =>
    cases move with
    | push x =>
      cases hrun
      exact h.call rfl
    | drain =>
      cases hrun
      exact h.call rfl
    | leave =>
      cases hrun
      simpa using h.tail rfl

/-- The loop of a drain leaves nothing queued unless it goes on. -/
theorem nextBatch_leaves (hflag : q.draining = true) :
    q.nextBatch.1.draining = true ∨ q.nextBatch.1.items = [] := by
  unfold DrainQueue.nextBatch
  split_ifs with hempty
  · exact .inr (List.isEmpty_iff.mp hempty)
  · exact .inl hflag

/-- Where a frame leaves something queued and no drain running, it is a push or leaves the queue
alone. -/
theorem leaves (h : Sound q (f ::ₘ rest)) (hrun : DrainQueue.run move full q f = some (q', new)) :
    (∃ item, f = .push item ∧ q' = if full then q else q.push item) ∨ q'.draining = true ∨
      q'.items = [] ∨ (f = .code ∧ q' = q) := by
  have hq' {out : DrainQueue T × List (DrainFrame T)} (hout : some out = some (q', new)) :
      q' = out.1 := congrArg Prod.fst (Option.some.inj hout).symm
  cases f with
  | push item => exact .inl ⟨item, rfl, hq' hrun⟩
  | drain =>
    right
    rw [hq' hrun, DrainQueue.drain]
    split_ifs with hrunning
    · exact .inl hrunning
    · exact (nextBatch_leaves rfl).imp_right .inl
  | batch now left =>
    obtain ⟨-, hflag, -⟩ := h.of_batch
    cases now with
    | none =>
      cases left with
      | nil =>
        rw [hq' hrun]
        exact .inr ((nextBatch_leaves hflag).imp_right .inl)
      | cons item left =>
        rw [hq' hrun]
        exact .inr (.inl hflag)
    | some item =>
      cases move <;>
      · rw [hq' hrun]
        exact .inr (.inl hflag)
  | code => cases move <;> exact .inr (.inr (.inr ⟨rfl, hq' hrun⟩))

end Sound

namespace DrainThreads

variable {d d' : DrainThreads T} {acts : List (DrainAction T)}

/-- What is queued while nothing drains it is owed for. -/
def Owed (d : DrainThreads T) : Prop :=
  d.queue.draining = false → d.queue.items ≠ [] → d.owing ≠ []

theorem sound_step {a : DrainAction T} (h : Sound d.queue d.threads.frames)
    (hs : d.step a = some d') : Sound d'.queue d'.threads.frames := by
  cases a with
  | spawn =>
    cases hs
    show Sound d.queue (d.threads.spawn d.threads.shared [DrainFrame.code]).frames
    rw [Threads.spawn_frames]
    exact h.cons rfl
  | turn i move full =>
    obtain ⟨t, hturn, rfl⟩ := Option.map_eq_some_iff.mp hs
    obtain ⟨f, new, rest, -, hframes, hrun, hframes'⟩ := Threads.turn_frames hturn
    rw [hframes] at h
    show Sound t.shared t.frames
    rw [hframes']
    exact h.run hrun

theorem owed_step {a : DrainAction T} (hsound : Sound d.queue d.threads.frames) (h : d.Owed)
    (hs : d.step a = some d') : d'.Owed := by
  cases a with
  | spawn =>
    cases hs
    exact h
  | turn i move full =>
    obtain ⟨t, hturn, rfl⟩ := Option.map_eq_some_iff.mp hs
    obtain ⟨f, new, rest, hnext, hframes, hrun, -⟩ := Threads.turn_frames hturn
    rw [hframes] at hsound
    unfold Owed queue at h ⊢
    rw [hnext]
    intro hflag hitems
    dsimp only at hflag hitems ⊢
    rcases hsound.leaves hrun with ⟨item, rfl, hq⟩ | hd | hempty | ⟨rfl, hq⟩
    · cases full with
      | true =>
        rw [hq] at hflag hitems
        exact h hflag hitems
      | false => exact List.ne_nil_of_mem (List.mem_insert_self (a := i) (l := d.owing))
    · rw [hd] at hflag
      cases hflag
    · exact absurd hempty hitems
    · rw [hq] at hflag hitems
      exact h hflag hitems

theorem DrainRun.sound (h : DrainRun acts d) : Sound d.queue d.threads.frames ∧ d.Owed := by
  refine Run.inv (I := fun d => Sound d.queue d.threads.frames ∧ d.Owed) h ?_
    fun _ _ _ hs _ hstep => ⟨sound_step hs.1 hstep, owed_step hs.1 hs.2 hstep⟩
  exact ⟨@Sound.idle _ _ _ [] (fun _ hf => (nomatch hf)) rfl rfl rfl, fun _ hne => absurd rfl hne⟩

/-- A drain, begun or about to. -/
def drains : DrainFrame T → Bool
  | .drain => true
  | .batch _ _ => true
  | _ => false

/-- **Everything is processed once, in order, and nothing is left behind.**  The calls of `process`
are one after the other, for a first part of what was pushed; and when no push is without a drain
begun after it on its thread, and no drain runs, nothing is queued and everything was processed. -/
theorem processed_in_order (h : DrainRun acts d) :
    (∃ done now, d.queue.log = oneByOne done now ∧ done ++ now.toList <+: d.queue.pushed) ∧
      (d.owing = [] → (∀ f ∈ d.threads.frames, drains f = false) →
        d.queue.items = [] ∧ d.queue.log = oneByOne d.queue.pushed none) := by
  obtain ⟨hsound, howed⟩ := h.sound
  generalize d.threads.frames = fs at hsound ⊢
  cases hsound with
  | @idle _ done hcalm hflag hlog hpushed =>
    refine ⟨⟨done, none, hlog, ?_⟩, fun hno _ => ?_⟩
    · rw [hpushed, Option.toList_none, List.append_nil]
      exact List.prefix_append _ _
    · have hempty : d.queue.items = [] := by
        by_contra hne
        exact howed hflag hne hno
      rw [hempty, List.append_nil] at hpushed
      exact ⟨hempty, hpushed ▸ hlog⟩
  | @active _ done rest now hcalm hflag hlog hpushed =>
    refine ⟨⟨done, now, hlog, ?_⟩, fun _ hnone => ?_⟩
    · rw [hpushed, ← List.append_assoc]
      exact List.prefix_append _ _
    · cases hnone _ (Multiset.mem_cons_self _ _)

/-- The first item's `process` queues another and drains, and so does a second thread meanwhile. -/
def reentrant : List (DrainAction ℕ) :=
  [.spawn, .spawn, .turn 0 (.push 1) false, .turn 0 .leave false, .turn 0 (.push 2) false,
    .turn 0 .leave false, .turn 0 .drain false, .turn 0 .leave false, .turn 0 .leave false,
    .turn 0 (.push 10) false, .turn 0 .leave false, .turn 1 (.push 20) false, .turn 1 .leave false,
    .turn 0 .drain false, .turn 0 .leave false, .turn 1 .drain false, .turn 1 .leave false,
    .turn 0 .leave false, .turn 0 .leave false, .turn 0 .leave false, .turn 0 .leave false,
    .turn 0 .leave false, .turn 0 .leave false, .turn 0 .leave false, .turn 0 .leave false,
    .turn 0 .leave false]

theorem processed_in_order_reentrant : ∃ d, DrainRun reentrant d ∧
    d.queue.pushed = [1, 2, 10, 20] ∧ d.queue.items = [] ∧
    d.queue.log = oneByOne d.queue.pushed none := by
  obtain ⟨d, hrun, hpushed, howing, hframes⟩ := exists_run_of_exec step (fun _ _ => True) init
    reentrant (p := fun d => d.queue.pushed = [1, 2, 10, 20] ∧ d.owing = [] ∧
      d.threads.threads.flatten = [.code, .code]) ⟨_, rfl, rfl, rfl, rfl⟩
  refine ⟨d, hrun, hpushed, (processed_in_order hrun).2 howing fun f hf => ?_⟩
  rw [Threads.frames, hframes, Multiset.mem_coe] at hf
  simp only [List.mem_cons, List.not_mem_nil, or_false, or_self] at hf
  rw [hf]
  rfl

end DrainThreads

end Zzdds.Util
