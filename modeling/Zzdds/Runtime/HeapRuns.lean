import Zzdds.Lib.Run
import Zzdds.Runtime.TimerHeap

/-! # Runs of the heap of timers

Timers are inserted that are not in the heap, whatever their memory holds, removed that are in it,
and popped.  After any of these the links form one tree in heap order with just the timers in the
heap (`Sound`); so no operation loops, and a pop gives a timer that none in the heap precedes. -/

namespace Zzdds.Core

open Lib Forest

/-- What is done to the heap.  A timer is written before it is inserted. -/
inductive HeapOp where
  | insert (t : TimerId) (timer : HeapTimer)
  | remove (t : TimerId)
  | pop
deriving DecidableEq, Repr

structure HeapMachine where
  heap : TimerHeap
  /-- The timers inserted and not yet removed or popped. -/
  contents : List TimerId := []

namespace HeapMachine

def init (timers : Timers) : HeapMachine := { heap := { timers := timers } }

variable (s : HeapMachine)

/-- Only timers not in the heap are inserted, and only timers in it are removed. -/
def Legal : HeapOp → Prop
  | .insert t _ => t ∉ s.contents
  | .remove t => t ∈ s.contents
  | .pop => True

instance (op : HeapOp) : Decidable (s.Legal op) :=
  match op with
  | .insert t _ => inferInstanceAs (Decidable (t ∉ s.contents))
  | .remove t => inferInstanceAs (Decidable (t ∈ s.contents))
  | .pop => .isTrue trivial

/-- An operation, and how many iterations its loops may take. -/
def step (a : HeapOp × ℕ) : Option HeapMachine :=
  match a with
  | (.insert t timer, _) =>
    let heap := { s.heap with timers := Function.update s.heap.timers t timer }
    some ⟨heap.insert t, t :: s.contents⟩
  | (.remove t, fuel) => (s.heap.remove fuel t).map fun heap => ⟨heap, s.contents.erase t⟩
  | (.pop, fuel) => (s.heap.pop fuel).map fun (heap, popped) =>
      ⟨heap, popped.elim s.contents s.contents.erase⟩

/-- The timers in the heap after an operation. -/
def after : HeapOp → List TimerId
  | .insert t _ => t :: s.contents
  | .remove t => s.contents.erase t
  | .pop => s.heap.root.elim s.contents s.contents.erase

/-- The timers with what is written before an operation. -/
def written : HeapOp → Timers
  | .insert t timer => Function.update s.heap.timers t timer
  | _ => s.heap.timers

/-- The links form one tree in heap order, of the timers in the heap, each once. -/
def Sound : Prop :=
  ∃ f, IsHeap s.heap.timers s.heap.root f ∧ f.nodes.Perm s.contents

/-- What a pop gives is in the heap, and no timer in the heap is less. -/
def PopsLeast : Prop :=
  ∀ fuel heap popped, s.heap.pop fuel = some (heap, popped) →
    (popped = none ↔ s.contents = []) ∧ ∀ t, popped = some t → t ∈ s.contents ∧
      ∀ u ∈ s.contents, (s.heap.timers u).less (s.heap.timers t) = false

variable {s} {op : HeapOp} {fuel : ℕ}

theorem sound_init (timers : Timers) : (init timers).Sound :=
  ⟨nil, ⟨rfl, Nat.zero_le _, trivial, List.nodup_nil⟩, .refl _⟩

/-- With enough iterations an operation returns, and keeps the tree and all keys. -/
theorem Sound.exists_keeps (h : s.Sound) (hlegal : s.Legal op) (hfuel : s.contents.length ≤ fuel) :
    ∃ s', s.step (op, fuel) = some s' ∧ s'.Sound ∧ s'.contents = s.after op ∧
      ∀ u, (s'.heap.timers u).key = (s.written op u).key := by
  obtain ⟨f, hheap, hperm⟩ := h
  have hfuel' : f.nodes.length ≤ fuel := hperm.length_eq ▸ hfuel
  cases op with
  | insert t timer =>
    have ht : t ∉ f.nodes := fun hmem => hlegal (hperm.mem_iff.mp hmem)
    have hother {u : TimerId} (hu : u ∈ f.nodes) :
        Function.update s.heap.timers t timer u = s.heap.timers u := by
      refine Function.update_of_ne ?_ ..
      rintro rfl
      exact ht hu
    have hwritten : IsHeap (Function.update s.heap.timers t timer) s.heap.root f := by
      refine ⟨hheap.linked.congr fun u hu => hother hu, hheap.single, ?_, hheap.nodup⟩
      exact hheap.ordered.congr fun u v hu hv huv => by
        rw [Timers.precedes, hother hu, hother hv]
        exact huv
    obtain ⟨g, hg, hnodes, hkeeps⟩ := TimerHeap.insert_spec
      (h := ⟨Function.update s.heap.timers t timer, s.heap.root⟩) hwritten ht
    exact ⟨_, rfl, ⟨g, hg, hnodes.trans (hperm.cons t)⟩, rfl, hkeeps.key⟩
  | remove t =>
    obtain ⟨h', g, hremove, hg, hnodes, hkeeps⟩ :=
      TimerHeap.remove_spec hheap (hperm.mem_iff.mpr hlegal) hfuel'
    refine ⟨_, by rw [step, hremove]; rfl, ⟨g, hg, ?_⟩, rfl, hkeeps.key⟩
    exact (List.cons_perm_iff_perm_erase.mp (hnodes.symm.trans hperm)).2
  | pop =>
    cases hroot : s.heap.root with
    | none =>
      have hpop : s.heap.pop fuel = some (s.heap, none) := by
        rw [TimerHeap.pop, hroot]
      exact ⟨s, by rw [step, hpop]; rfl, ⟨f, hheap, hperm⟩, by rw [after, hroot]; rfl,
        fun _ => rfl⟩
    | some r =>
      obtain ⟨h', g, hpop, hg, hnodes, hkeeps⟩ := TimerHeap.pop_spec hheap hroot hfuel'
      refine ⟨_, by rw [step, hpop]; rfl, ⟨g, hg, ?_⟩, by rw [after, hroot], hkeeps.key⟩
      exact (List.cons_perm_iff_perm_erase.mp (hnodes.symm.trans hperm)).2

theorem Sound.exists_step (h : s.Sound) (hlegal : s.Legal op) (hfuel : s.contents.length ≤ fuel) :
    ∃ s', s.step (op, fuel) = some s' ∧ s'.Sound :=
  (h.exists_keeps hlegal hfuel).imp fun _ h => ⟨h.1, h.2.1⟩

/-- Iterations that are not taken change nothing. -/
theorem step_mono {s' : HeapMachine} {k : ℕ} (h : s.step (op, fuel) = some s') (hle : fuel ≤ k) :
    s.step (op, k) = some s' := by
  cases op with
  | insert t timer => exact h
  | remove t =>
    obtain ⟨heap, hremove, hs'⟩ := Option.map_eq_some_iff.mp h
    rw [step, TimerHeap.remove_mono hremove hle]
    exact congrArg some hs'
  | pop =>
    obtain ⟨y, hpop, hs'⟩ := Option.map_eq_some_iff.mp h
    rw [step, TimerHeap.pop_mono hpop hle]
    exact congrArg some hs'

theorem Sound.step {s' : HeapMachine} (h : s.Sound) (hlegal : s.Legal op)
    (hstep : s.step (op, fuel) = some s') : s'.Sound := by
  obtain ⟨t, ht, hsound⟩ := h.exists_step hlegal (le_max_right fuel s.contents.length)
  cases (step_mono hstep (le_max_left _ _)).symm.trans ht
  exact hsound

/-- The root is the least timer. -/
theorem Sound.root_least (h : s.Sound) : (s.heap.root = none ↔ s.contents = []) ∧
    ∀ t, s.heap.root = some t → t ∈ s.contents ∧
      ∀ u ∈ s.contents, (s.heap.timers u).less (s.heap.timers t) = false := by
  obtain ⟨f, hheap, hperm⟩ := h
  cases hroot : s.heap.root with
  | none =>
    have hnil : f = nil := by
      cases f with
      | nil => rfl
      | node => cases hroot.symm.trans hheap.linked.1
    rw [hnil] at hperm
    exact ⟨⟨fun _ => hperm.nil_eq.symm, fun _ => rfl⟩, (by rintro _ ⟨⟩)⟩
  | some r =>
    obtain ⟨hr, hle⟩ := TimerHeap.root_precedes hheap hroot
    have hmem := hperm.mem_iff.mp hr
    refine ⟨⟨(by rintro ⟨⟩), fun hnil => (List.not_mem_nil (hnil ▸ hmem)).elim⟩, ?_⟩
    rintro t ⟨⟩
    refine ⟨hmem, fun u hu => ?_⟩
    rcases hle u (hperm.mem_iff.mpr hu) with rfl | hle
    · exact not_less_of_precedes (.inr ⟨rfl, le_rfl⟩)
    · exact not_less_of_precedes hle

theorem Sound.popsLeast (h : s.Sound) : s.PopsLeast := by
  intro fuel heap popped hpop
  have hpopped : popped = s.heap.root := by
    cases hroot : s.heap.root with
    | none =>
      rw [TimerHeap.pop, hroot] at hpop
      cases hpop
      rfl
    | some r =>
      rw [TimerHeap.pop, hroot] at hpop
      obtain ⟨x, -, hx⟩ := Option.bind_eq_some_iff.mp hpop
      cases hx
      rfl
  rw [hpopped]
  exact h.root_least

/-- Whatever was inserted, removed and popped, the links form one tree in heap order of just the
timers in the heap; every operation ends, within as many iterations of each loop as there are timers
in the heap, and a pop gives the least one. -/
theorem tree_after_run {timers : Timers} {as : List (HeapOp × ℕ)}
    (h : Run step (fun s a => s.Legal a.1) (init timers) as s) :
    s.Sound ∧ s.PopsLeast ∧ ∀ op fuel, s.Legal op → s.contents.length ≤ fuel →
      ∃ s', s.step (op, fuel) = some s' ∧ s'.Sound := by
  have hsound : s.Sound := h.inv (sound_init timers) fun _ _ _ hs hlegal hstep =>
    hs.step hlegal hstep
  exact ⟨hsound, hsound.popsLeast, fun _ _ hlegal hfuel => hsound.exists_step hlegal hfuel⟩

theorem tree_after_run_five : ∃ s : HeapMachine, s.contents = [2] ∧ s.Sound ∧ s.PopsLeast := by
  obtain ⟨s, hrun, hcontents⟩ := exists_run_of_exec step (fun s a => s.Legal a.1)
    (init fun _ => ⟨0, 0, some 7, some 7, some 7⟩)
    [(.insert 0 ⟨5, 0, none, some 1, none⟩, 0), (.insert 1 ⟨3, 1, none, none, none⟩, 0),
      (.insert 2 ⟨4, 2, none, none, none⟩, 0), (.remove 0, 3), (.pop, 2)]
    (p := fun s => s.contents = [2]) ⟨_, rfl, rfl⟩
  exact ⟨s, hcontents, (tree_after_run hrun).1, (tree_after_run hrun).2.1⟩

end HeapMachine

end Zzdds.Core
