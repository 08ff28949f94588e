import Mathlib.Data.Set.Finite.Lemmas

/-! # Arbitration

Candidates of different strength apply for one office; some of them contend for it, and one may hold
it.  An arbiter that looks at the holder alone admits a candidate if there is no holder, if it holds
the office itself, or if it is stronger than the holder.  It decides by the strongest contender
exactly if the office is well `Held`. -/

namespace Zzdds.Lib

universe u v

@[ext] structure Contest (α : Type u) (β : Type v) where
  candidates : List α
  contends : α → Prop
  strength : α → β
  holder : Option α

namespace Contest

variable {α : Type u} {β : Type v} [LinearOrder β] {c c' : Contest α β} {a b : α}

/-- The arbiter looks at the holder only. -/
def Admits (c : Contest α β) (a : α) : Prop :=
  ∀ o ∈ c.holder, o = a ∨ c.strength o < c.strength a

/-- No contender is stronger than another candidate. -/
def Open (c : Contest α β) : Prop :=
  ∀ b, c.contends b → ∀ a ∈ c.candidates, a ≠ b → c.strength b ≤ c.strength a

/-- No other contender is stronger than `o`, and `o` contends, unless all others are stronger. -/
def HeldBy (c : Contest α β) (o : α) : Prop :=
  (∀ b, c.contends b → b ≠ o → c.strength b ≤ c.strength o) ∧
    ((∃ a ∈ c.candidates, a ≠ o ∧ c.strength a ≤ c.strength o) → c.contends o)

def Held (c : Contest α β) : Prop := c.holder.elim c.Open c.HeldBy

end Contest

end Zzdds.Lib
