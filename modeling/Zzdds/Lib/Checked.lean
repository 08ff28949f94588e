import Mathlib.Tactic

/-! # Checked computations over a state

A computation of a language with checked arithmetic and checked indexing ends in one of
three ways: it returns, it raises an error its type declares, or it stops the program at a
failed check.  `Outcome` keeps the three apart, so that a program logic can say of a
function that it never stops the program, whatever it returns or raises.

`Checked σ ε` is the monad of such computations over a state `σ`.  `Safe I R p` says that
from every state satisfying `I`, the computation `p` does not trap, and if it returns it
re-establishes `I` and moves along `R`; `Safe.bind` composes such facts when `R` is
transitive. -/

namespace Zzdds.Lib

/-- How a checked computation ends. -/
inductive Outcome (ε α : Type) where
  | ok (a : α)
  | error (e : ε)
  | trap
deriving DecidableEq, Repr

namespace Outcome

variable {ε α β : Type}

def bind (x : Outcome ε α) (f : α → Outcome ε β) : Outcome ε β :=
  match x with
  | ok a => f a
  | error e => error e
  | trap => trap

def map (f : α → β) (x : Outcome ε α) : Outcome ε β := x.bind (fun a => ok (f a))

/-- The computation does not trap, and `P` holds of what it returns. -/
def Holds (P : α → Prop) : Outcome ε α → Prop
  | ok a => P a
  | error _ => True
  | trap => False

theorem bind_eq_ok {x : Outcome ε α} {f : α → Outcome ε β} {b : β} :
    x.bind f = ok b ↔ ∃ a, x = ok a ∧ f a = ok b := by
  cases x <;> simp [bind]

theorem bind_eq_trap {x : Outcome ε α} {f : α → Outcome ε β} :
    x.bind f = trap ↔ x = trap ∨ ∃ a, x = ok a ∧ f a = trap := by
  cases x <;> simp [bind]

theorem Holds.ne_trap {P : α → Prop} {x : Outcome ε α} (h : x.Holds P) : x ≠ trap := by
  rintro rfl
  exact h

theorem Holds.of_ok {P : α → Prop} {x : Outcome ε α} {a : α} (h : x.Holds P) (e : x = ok a) :
    P a := by
  rw [e] at h
  exact h

instance : Monad (Outcome ε) where
  pure := ok
  bind := bind

/-- An error under a condition. -/
def reject (c : Prop) [Decidable c] (e : ε) : Outcome ε Unit := if c then error e else ok ()

theorem Holds.mono {P Q : α → Prop} {x : Outcome ε α} (h : x.Holds P) (hpq : ∀ a, P a → Q a) :
    x.Holds Q := by
  cases x with
  | ok a => exact hpq a h
  | error e => trivial
  | trap => exact h

theorem Holds.bind {P : α → Prop} {Q : β → Prop} {x : Outcome ε α} {f : α → Outcome ε β}
    (h : x.Holds P) (hf : ∀ a, P a → (f a).Holds Q) : (x >>= f).Holds Q := by
  cases x with
  | ok a => exact hf a h
  | error e => trivial
  | trap => exact h

theorem reject_holds {c : Prop} [Decidable c] {e : ε} : (reject c e).Holds fun _ => ¬c := by
  unfold reject
  split
  next => trivial
  next hc => exact hc

end Outcome

/-- A checked computation over the state `σ` with errors `ε`. -/
def Checked (σ ε α : Type) : Type := σ → Outcome ε (α × σ)

namespace Checked

variable {σ ε α β : Type}

instance : Monad (Checked σ ε) where
  pure a := fun s => .ok (a, s)
  bind p f := fun s => (p s).bind (fun as => f as.1 as.2)

/-- Raise a declared error. -/
def throw (e : ε) : Checked σ ε α := fun _ => .error e

theorem pure_apply (a : α) (s : σ) : (pure a : Checked σ ε α) s = .ok (a, s) := rfl

theorem bind_apply (p : Checked σ ε α) (f : α → Checked σ ε β) (s : σ) :
    (p >>= f) s = (p s).bind (fun as => f as.1 as.2) := rfl

/-- Running a bind whose first part returns. -/
theorem bind_of_ok {p : Checked σ ε α} {f : α → Checked σ ε β} {s s' : σ} {a : α}
    (h : p s = .ok (a, s')) : (p >>= f) s = f a s' := by
  rw [bind_apply, h]
  rfl

theorem bind_eq_ok {p : Checked σ ε α} {f : α → Checked σ ε β} {s s' : σ} {b : β} :
    (p >>= f) s = .ok (b, s') ↔ ∃ a s₁, p s = .ok (a, s₁) ∧ f a s₁ = .ok (b, s') := by
  rw [bind_apply, Outcome.bind_eq_ok]
  simp

theorem bind_eq_trap {p : Checked σ ε α} {f : α → Checked σ ε β} {s : σ} :
    (p >>= f) s = .trap ↔ p s = .trap ∨ ∃ a s₁, p s = .ok (a, s₁) ∧ f a s₁ = .trap := by
  rw [bind_apply, Outcome.bind_eq_trap]
  simp

/-- From every state of `I`, `p` does not trap, and returns in `I` after a move along `R`. -/
def Safe (I : σ → Prop) (R : σ → σ → Prop) (p : Checked σ ε α) : Prop :=
  ∀ s, I s → (p s).Holds (fun as => I as.2 ∧ R s as.2)

section rules
variable {I : σ → Prop} {R : σ → σ → Prop}

theorem Safe.pure (hR : ∀ s, R s s) (a : α) : Safe I R (Pure.pure a : Checked σ ε α) :=
  fun s hs => ⟨hs, hR s⟩

theorem Safe.throw (e : ε) : Safe I R (Checked.throw e : Checked σ ε α) :=
  fun _ _ => True.intro

theorem Safe.bind (hR : ∀ s₁ s₂ s₃, R s₁ s₂ → R s₂ s₃ → R s₁ s₃) {p : Checked σ ε α}
    {f : α → Checked σ ε β} (hp : Safe I R p) (hf : ∀ a, Safe I R (f a)) :
    Safe I R (p >>= f) := by
  intro s hs
  have h := hp s hs
  rw [bind_apply]
  cases hps : p s with
  | trap =>
      rw [hps] at h
      exact h.elim
  | error e => trivial
  | ok as =>
      rw [hps] at h
      have h' := hf as.1 as.2 h.1
      simp only [Outcome.bind]
      cases hfs : f as.1 as.2 with
      | trap =>
          rw [hfs] at h'
          exact h'.elim
      | error e => trivial
      | ok bs =>
          rw [hfs] at h'
          exact ⟨h'.1, hR _ _ _ h.2 h'.2⟩

end rules

end Checked

end Zzdds.Lib
