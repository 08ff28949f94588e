/-! # Runs of a machine

A machine is a step function: from a state and an action it gives the next state, or none when the
action cannot be taken.  A `Run` is a sequence of actions taken one after the other, each in a
state in which it meets a condition. -/

namespace Zzdds.Lib

universe u v

variable {σ : Type u} {α : Type v} {step : σ → α → Option σ} {ok ok' : σ → α → Prop}

/-- The state after some actions from `s₀` on. -/
inductive Run (step : σ → α → Option σ) (ok : σ → α → Prop) (s₀ : σ) : List α → σ → Prop
  | nil : Run step ok s₀ [] s₀
  | snoc {as : List α} {a : α} {s s' : σ} (h : Run step ok s₀ as s) (hok : ok s a)
      (hs : step s a = some s') : Run step ok s₀ (as ++ [a]) s'

namespace Run

variable {s₀ s : σ} {as : List α}

theorem single {a : α} (hok : ok s₀ a) (hs : step s₀ a = some s) : Run step ok s₀ [a] s :=
  .snoc .nil hok hs

theorem append {bs : List α} {s' : σ} (h : Run step ok s₀ as s) (h' : Run step ok s bs s') :
    Run step ok s₀ (as ++ bs) s' := by
  induction h' with
  | nil =>
    rw [List.append_nil]
    exact h
  | snoc _ hok hs ih =>
    rw [← List.append_assoc]
    exact ih.snoc hok hs

theorem eq_of_nil (h : Run step ok s₀ [] s) : s = s₀ := by
  generalize hl : ([] : List α) = l at h
  cases h with
  | nil => rfl
  | snoc _ _ _ =>
    exact absurd hl.symm (List.append_ne_nil_of_right_ne_nil _ (List.cons_ne_nil _ _))

/-- A run of at least one action begins with it. -/
theorem of_cons {a : α} (h : Run step ok s₀ (a :: as) s) :
    ok s₀ a ∧ ∃ s₁, step s₀ a = some s₁ ∧ Run step ok s₁ as s := by
  generalize hl : a :: as = l at h
  induction h generalizing as with
  | nil => cases hl
  | @snoc bs b s s' hrun hok hs ih =>
    cases bs with
    | nil =>
      obtain ⟨rfl, rfl⟩ := List.cons.inj hl
      cases hrun.eq_of_nil
      exact ⟨hok, s', hs, .nil⟩
    | cons c bs =>
      obtain ⟨rfl, rfl⟩ := List.cons.inj hl
      obtain ⟨ha, s₁, hs₁, hrest⟩ := ih rfl
      exact ⟨ha, s₁, hs₁, hrest.snoc hok hs⟩

/-- What the start meets and every step keeps holds throughout. -/
theorem inv {I : σ → Prop} (h : Run step ok s₀ as s) (h₀ : I s₀)
    (hstep : ∀ s a s', I s → ok s a → step s a = some s' → I s') : I s := by
  induction h with
  | nil => exact h₀
  | snoc _ hok hs ih => exact hstep _ _ _ ih hok hs

/-- A run under a condition is one under a weaker condition. -/
theorem mono (h : Run step ok s₀ as s) (hok : ∀ s a, ok s a → ok' s a) : Run step ok' s₀ as s := by
  induction h with
  | nil => exact .nil
  | snoc _ ha hs ih => exact ih.snoc (hok _ _ ha) hs

end Run

/-- Take the actions one after the other, each only if it meets the condition. -/
def exec (step : σ → α → Option σ) (ok : σ → α → Prop) [∀ s a, Decidable (ok s a)] :
    σ → List α → Option σ
  | s, [] => some s
  | s, a :: as => if ok s a then (step s a).bind (fun s' => exec step ok s' as) else none

theorem run_of_exec [∀ s a, Decidable (ok s a)] : ∀ (as : List α) {s s' : σ},
    exec step ok s as = some s' → Run step ok s as s'
  | [], _, _, h => by
      cases h
      exact .nil
  | a :: as, s, s', h => by
      rw [exec] at h
      split at h
      next hok =>
        obtain ⟨s₁, hs, h⟩ := Option.bind_eq_some_iff.mp h
        exact (Run.single hok hs).append (run_of_exec as h)
      next => cases h

theorem exists_run_of_exec (step : σ → α → Option σ) (ok : σ → α → Prop)
    [∀ s a, Decidable (ok s a)] (s : σ) (as : List α) {p : σ → Prop}
    (h : ∃ s', exec step ok s as = some s' ∧ p s') : ∃ s', Run step ok s as s' ∧ p s' := by
  obtain ⟨s', hs, hp⟩ := h
  exact ⟨s', run_of_exec as hs, hp⟩

end Zzdds.Lib
