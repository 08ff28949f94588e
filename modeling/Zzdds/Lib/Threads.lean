import Mathlib.Algebra.BigOperators.Group.Multiset.Basic
import Mathlib.Data.Multiset.AddSub
import Mathlib.Algebra.Order.Ring.Nat

/-! # Threads that share a state

Each thread is a stack of frames, the top one to run next.  Running a frame changes the shared state
and puts other frames in its place.  The order in which threads take their turns is arbitrary, so
what is proved of all threads is proved of the multiset of their frames: a turn takes one frame out
and puts some in (`turn_frames`). -/

namespace Zzdds.Lib

universe u v

structure Threads (σ : Type u) (φ : Type v) where
  shared : σ
  threads : List (List φ) := []

namespace Threads

variable {σ : Type u} {φ : Type v} {t t' : Threads σ φ} {run : σ → φ → Option (σ × List φ)} {i : ℕ}

/-- The frames of all threads. -/
def frames (t : Threads σ φ) : Multiset φ := ↑t.threads.flatten

/-- No thread has anything left to run. -/
def Idle (t : Threads σ φ) : Prop := t.frames = 0

/-- Start a thread. -/
def spawn (t : Threads σ φ) (shared : σ) (fs : List φ) : Threads σ φ :=
  ⟨shared, t.threads ++ [fs]⟩

/-- The `i`-th thread runs its next frame. -/
def turn (run : σ → φ → Option (σ × List φ)) (t : Threads σ φ) (i : ℕ) : Option (Threads σ φ) :=
  match t.threads[i]? with
  | some (f :: fs) => (run t.shared f).map fun out => ⟨out.1, t.threads.set i (out.2 ++ fs)⟩
  | _ => none

/-- The frame a turn runs. -/
def next (t : Threads σ φ) (i : ℕ) : Option φ := t.threads[i]?.bind (·.head?)

@[simp] theorem frames_nil (sh : σ) : (⟨sh, []⟩ : Threads σ φ).frames = 0 := rfl

@[simp] theorem spawn_shared (sh : σ) (fs : List φ) : (t.spawn sh fs).shared = sh := rfl

@[simp] theorem spawn_frames (sh : σ) (fs : List φ) :
    (t.spawn sh fs).frames = ↑fs + t.frames := by
  rw [frames, spawn, List.flatten_append, List.flatten_singleton, ← Multiset.coe_add, add_comm]
  rfl

/-- What a turn does, of the thread's other frames and of the other threads. -/
theorem turn_threads (h : t.turn run i = some t') : ∃ f fs new rest,
    t.threads[i]? = some (f :: fs) ∧ t.frames = f ::ₘ (↑fs + rest) ∧
      run t.shared f = some (t'.shared, new) ∧ t'.frames = ↑new + (↑fs + rest) ∧
      t'.threads = t.threads.set i (new ++ fs) := by
  unfold turn at h
  split at h
  next f fs hi =>
    obtain ⟨⟨shared, new⟩, hrun, rfl⟩ := Option.map_eq_some_iff.mp h
    obtain ⟨hlt, hget⟩ := List.getElem?_eq_some_iff.mp hi
    have hold : t.threads = t.threads.take i ++ (f :: fs) :: t.threads.drop (i + 1) := by
      rw [← hget, List.getElem_cons_drop, List.take_append_drop]
    refine ⟨f, fs, new, ↑((t.threads.take i).flatten ++ (t.threads.drop (i + 1)).flatten), hi, ?_,
      hrun, ?_, rfl⟩
    · have hflat : t.threads.flatten =
          (t.threads.take i).flatten ++ f :: (fs ++ (t.threads.drop (i + 1)).flatten) := by
        conv_lhs => rw [hold]
        simp
      rw [frames, hflat, Multiset.coe_add, Multiset.cons_coe, Multiset.coe_eq_coe]
      exact List.perm_middle.trans (List.Perm.cons f (List.perm_append_comm_assoc _ _ _))
    · have hflat : (t.threads.set i (new ++ fs)).flatten = (t.threads.take i).flatten ++
          (new ++ (fs ++ (t.threads.drop (i + 1)).flatten)) := by
        rw [List.set_eq_take_append_cons_drop, if_pos hlt]
        simp
      rw [frames, hflat, Multiset.coe_add, Multiset.coe_add, Multiset.coe_eq_coe]
      exact (List.perm_append_comm_assoc _ _ _).trans
        (List.Perm.append_left new (List.perm_append_comm_assoc _ _ _))
  next => cases h

/-- What a turn does. -/
theorem turn_frames (h : t.turn run i = some t') : ∃ f new rest,
    t.next i = some f ∧ t.frames = f ::ₘ rest ∧ run t.shared f = some (t'.shared, new) ∧
      t'.frames = ↑new + rest := by
  obtain ⟨f, fs, new, rest, hi, hframes, hrun, hframes', -⟩ := turn_threads h
  refine ⟨f, new, ↑fs + rest, ?_, hframes, hrun, hframes'⟩
  rw [next, hi]
  rfl

theorem mem_of_next {f : φ} (h : t.next i = some f) : f ∈ t.frames := by
  obtain ⟨fs, hfs, hf⟩ := Option.bind_eq_some_iff.mp h
  exact Multiset.mem_coe.mpr
    (List.mem_flatten_of_mem (List.mem_of_getElem? hfs) (List.mem_of_mem_head? hf))

/-- A thread that cannot take its turn. -/
theorem run_of_turn_eq_none {f : φ} (h : t.next i = some f) (hturn : t.turn run i = none) :
    run t.shared f = none := by
  obtain ⟨fs, hfs, hf⟩ := Option.bind_eq_some_iff.mp h
  cases fs with
  | nil => cases hf
  | cons f' fs =>
    cases hf
    rw [turn, hfs] at hturn
    exact Option.map_eq_none_iff.mp hturn

end Threads

/-! ### Roles

Of the frames often only their roles matter, and of these how many there are. -/

variable {φ : Type v} {ρ : Type} [DecidableEq ρ]

/-- How many times a role is taken. -/
def tally (roles : φ → List ρ) (fs : Multiset φ) (r : ρ) : ℕ :=
  (fs.map fun f => (roles f).count r).sum

section tally

variable (roles : φ → List ρ)

theorem tally_zero : tally roles 0 = fun _ => 0 := rfl

theorem tally_cons (f : φ) (fs : Multiset φ) :
    tally roles (f ::ₘ fs) = fun r => (roles f).count r + tally roles fs r := by
  funext r
  rw [tally, Multiset.map_cons, Multiset.sum_cons]
  rfl

theorem tally_coe_add (new : List φ) (fs : Multiset φ) : tally roles (↑new + fs) =
    fun r => (new.map fun f => (roles f).count r).sum + tally roles fs r := by
  funext r
  rw [tally, Multiset.map_add, Multiset.sum_add]
  rfl

theorem tally_ne_zero {fs : Multiset φ} {r : ρ} :
    tally roles fs r ≠ 0 ↔ ∃ f ∈ fs, r ∈ roles f := by
  constructor
  · intro h
    by_contra hne
    refine h (Multiset.sum_eq_zero fun x hx => ?_)
    obtain ⟨f, hf, rfl⟩ := Multiset.mem_map.mp hx
    exact List.count_eq_zero.mpr fun hr => hne ⟨f, hf, hr⟩
  · rintro ⟨f, hf, hr⟩
    obtain ⟨rest, rfl⟩ := Multiset.exists_cons_of_mem hf
    have := List.count_pos_iff.mpr hr
    rw [tally_cons]
    dsimp only
    omega

/-- A tally with some roles more. -/
def also (ρs : List ρ) (n : ρ → ℕ) : ρ → ℕ := fun r => ρs.count r + n r

@[simp] theorem also_nil (n : ρ → ℕ) : also [] n = n := by
  funext r
  exact Nat.zero_add _

theorem also_cons (a : ρ) (ρs : List ρ) (n : ρ → ℕ) (r : ρ) :
    also (a :: ρs) n r = (if a = r then 1 else 0) + also ρs n r := by
  rw [also, also, List.count_cons]
  simp only [beq_iff_eq]
  omega

theorem also_append (l₁ l₂ : List ρ) (n : ρ → ℕ) : also (l₁ ++ l₂) n = also l₁ (also l₂ n) := by
  funext r
  rw [also, also, also, List.count_append, Nat.add_assoc]

theorem also_comm (l₁ l₂ : List ρ) (n : ρ → ℕ) : also l₁ (also l₂ n) = also l₂ (also l₁ n) := by
  funext r
  rw [also, also, also, also, Nat.add_left_comm]

theorem tally_le_tally {r r' : ρ} (h : ∀ f, (roles f).count r ≤ (roles f).count r')
    (fs : Multiset φ) : tally roles fs r ≤ tally roles fs r' := by
  induction fs using Multiset.induction_on with
  | empty => exact le_rfl
  | cons f fs ih =>
    rw [tally_cons]
    exact Nat.add_le_add (h f) ih

theorem tally_cons_eq_also (f : φ) (fs : Multiset φ) :
    tally roles (f ::ₘ fs) = also (roles f) (tally roles fs) := tally_cons roles f fs

theorem tally_add_eq_also (new : List φ) (fs : Multiset φ) :
    tally roles (↑new + fs) = also (new.flatMap roles) (tally roles fs) := by
  rw [tally_coe_add]
  funext r
  rw [also, List.count_flatMap]
  rfl

end tally

end Zzdds.Lib
