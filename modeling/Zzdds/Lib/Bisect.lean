import Mathlib.Tactic

/-! # Bisection

The first place of a range from which on a test fails, for a test that passes up to some place and
fails from there on. -/

namespace Zzdds.Lib

def bisect (p : ℕ → Bool) (lo hi : ℕ) : ℕ :=
  if lo < hi then
    let mid := lo + (hi - lo) / 2
    if p mid then bisect p (mid + 1) hi else bisect p lo mid
  else lo
termination_by hi - lo

variable {p : ℕ → Bool} {lo hi : ℕ}

/-- The test passes before the place found. -/
theorem passes_of_lt_bisect (hp : ∀ i j, i ≤ j → p j = true → p i = true) {i : ℕ} (hlo : lo ≤ i)
    (hi' : i < bisect p lo hi) : p i = true := by
  fun_induction bisect p lo hi with
  | case1 lo hi hlt mid hmid ih =>
    rcases Nat.lt_or_ge mid i with h | h
    · exact ih h hi'
    · exact hp i mid h hmid
  | case2 lo hi hlt mid hmid ih => exact ih hlo hi'
  | case3 lo hi hlt => omega

/-- It fails from there on. -/
theorem fails_of_bisect_le (hp : ∀ i j, i ≤ j → p j = true → p i = true) {i : ℕ}
    (hle : bisect p lo hi ≤ i) (hlt : i < hi) : p i = false := by
  fun_induction bisect p lo hi with
  | case1 lo hi h mid hmid ih => exact ih hle hlt
  | case2 lo hi h mid hmid ih =>
    rcases Nat.lt_or_ge i mid with him | him
    · exact ih hle him
    · rw [Bool.eq_false_iff]
      exact fun hi' => hmid (hp mid i him hi')
  | case3 lo hi h => omega

end Zzdds.Lib
