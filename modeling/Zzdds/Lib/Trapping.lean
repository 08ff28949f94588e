import Mathlib.Tactic

/-! # Arithmetic that stops the program

Operations of fixed-width integers in a language that checks them: an unsigned addition,
multiplication or conversion that reaches `bound`, an unsigned subtraction below zero, a division
by zero, a slice beyond the end of its buffer and a signed result that is no `i64` each stop the
program, which is `none`.  Each operation has the rule for when it returns and one for when it
stops, or one that says both. -/

namespace Zzdds.Lib.Trapping

/-- The values a `u32` has. -/
abbrev u32 : ℕ := 2 ^ 32

/-- The values a `usize` has. -/
abbrev usize : ℕ := 2 ^ 64

def add (bound a b : ℕ) : Option ℕ := if a + b < bound then some (a + b) else none

def sub (a b : ℕ) : Option ℕ := if b ≤ a then some (a - b) else none

def mul (bound a b : ℕ) : Option ℕ := if a * b < bound then some (a * b) else none

def div (a b : ℕ) : Option ℕ := if b = 0 then none else some (a / b)

/-- The `len` elements from `start` on of a buffer of `total`. -/
def slice (start len total : ℕ) : Option Unit := if start + len ≤ total then some () else none

/-- A conversion of `a` to a type of `bound` values. -/
def narrow (bound a : ℕ) : Option ℕ := if a < bound then some a else none

/-- The result of a signed 64-bit operation. -/
def i64 (n : ℤ) : Option ℤ := if -2 ^ 63 ≤ n ∧ n < 2 ^ 63 then some n else none

/-- A signed result that is made only under a condition. -/
def i64When (c : Prop) [Decidable c] (n : ℤ) : Option Unit :=
  if c then (i64 n).map (fun _ => ()) else some ()

variable {bound a b start len total r : ℕ} {m n : ℤ}

theorem add_of_lt (h : a + b < bound) : add bound a b = some (a + b) := if_pos h

theorem add_eq_none : add bound a b = none ↔ bound ≤ a + b := by
  rw [add]
  split <;> simp_all

theorem sub_of_le (h : b ≤ a) : sub a b = some (a - b) := if_pos h

theorem sub_eq_none : sub a b = none ↔ a < b := by
  rw [sub]
  split <;> simp_all

theorem mul_of_lt (h : a * b < bound) : mul bound a b = some (a * b) := if_pos h

theorem div_of_pos (h : 0 < b) : div a b = some (a / b) := if_neg h.ne'

theorem slice_of_le (h : start + len ≤ total) : slice start len total = some () := if_pos h

theorem add_eq_some : add bound a b = some r ↔ a + b < bound ∧ r = a + b := by
  rw [add]
  split <;> simp_all [eq_comm]

theorem mul_eq_some : mul bound a b = some r ↔ a * b < bound ∧ r = a * b := by
  rw [mul]
  split <;> simp_all [eq_comm]

theorem narrow_eq_some : narrow bound a = some r ↔ a < bound ∧ r = a := by
  rw [narrow]
  split <;> simp_all [eq_comm]

theorem narrow_of_lt (h : a < bound) : narrow bound a = some a := if_pos h

theorem i64_eq_some : i64 n = some m ↔ (-2 ^ 63 ≤ n ∧ n < 2 ^ 63) ∧ m = n := by
  rw [i64]
  split <;> simp_all [eq_comm]

theorem i64When_eq_some {c : Prop} [Decidable c] :
    i64When c n = some () ↔ (c → -2 ^ 63 ≤ n ∧ n < 2 ^ 63) := by
  unfold i64When i64
  split <;> simp_all

theorem i64_of_mem (h : -2 ^ 63 ≤ n ∧ n < 2 ^ 63) : i64 n = some n := if_pos h

end Zzdds.Lib.Trapping
