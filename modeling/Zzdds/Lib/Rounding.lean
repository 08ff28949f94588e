import Mathlib.Tactic

/-! # A number of parts in parts of another size

A part is `1 / a` of a whole.  `rescale a b n` is the number of `1 / b` parts nearest to `n` of the
`1 / a` parts; half a part goes up.  To smaller parts it keeps numbers apart, so that the way back
finds them again. -/

namespace Zzdds.Lib

def rescale (a b n : ℕ) : ℕ := (n * b + a / 2) / a

variable {a b m n : ℕ}

theorem rescale_mono (h : m ≤ n) : rescale a b m ≤ rescale a b n :=
  Nat.div_le_div_right (Nat.add_le_add_right (Nat.mul_le_mul_right b h) _)

theorem rescale_whole (ha : 0 < a) : rescale a b a = b := by
  have hlt : a / 2 < a := Nat.div_lt_self ha one_lt_two
  rw [rescale, Nat.add_comm, Nat.add_mul_div_left _ _ ha, Nat.div_eq_of_lt hlt, Nat.zero_add]

theorem rescale_lt (ha : 0 < a) (hab : a ≤ b) (h : m < n) : rescale a b m < rescale a b n := by
  have hstep : m * b + a / 2 + a ≤ n * b + a / 2 := by
    have hmul : (m + 1) * b ≤ n * b := Nat.mul_le_mul_right b h
    rw [Nat.succ_mul] at hmul
    omega
  calc rescale a b m < rescale a b m + 1 := Nat.lt_succ_self _
    _ = (m * b + a / 2 + a) / a := (Nat.add_div_right _ ha).symm
    _ ≤ rescale a b n := Nat.div_le_div_right hstep

/-- A number less than the whole stays less than it. -/
theorem rescale_lt_whole (ha : 0 < a) (hab : a ≤ b) (h : n < a) : rescale a b n < b :=
  (rescale_lt ha hab h).trans_eq (rescale_whole ha)

theorem rescale_le_whole (ha : 0 < a) (h : n ≤ a) : rescale a b n ≤ b :=
  (rescale_mono h).trans_eq (rescale_whole ha)

/-- The nearest number of smaller parts is near enough to find the number again. -/
theorem rescale_rescale (ha : 0 < a) (hab : a < b) : rescale b a (rescale a b n) = n := by
  have hdiv : a * rescale a b n + (n * b + a / 2) % a = n * b + a / 2 := Nat.div_add_mod _ _
  have hmod : (n * b + a / 2) % a < a := Nat.mod_lt _ ha
  have hcomm : rescale a b n * a = a * rescale a b n := Nat.mul_comm _ _
  rw [rescale, Nat.div_eq_iff (ha.trans hab)]
  omega

end Zzdds.Lib
