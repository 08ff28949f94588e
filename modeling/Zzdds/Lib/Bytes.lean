import Mathlib.Tactic

/-! # Byte strings and little-endian integers

`Bytes n` is a byte string that carries its own width, so a field of a wire format that is
an array of `n` octets cannot be built with any other length.  `leBytes k v` writes the low
`k` octets of `v`, least significant first, and `leValue` reads octets back; `readInt`
reads them in either byte order.  The two facts every codec needs are `leBytes_length` and
`leValue_leBytes`. -/

namespace Zzdds.Lib

/-- A byte string of `n` octets. -/
structure Bytes (n : ℕ) where
  val : List UInt8
  len : val.length = n
deriving DecidableEq, Repr

namespace Bytes

/-- `n` zero octets. -/
def zeroes (n : ℕ) : Bytes n := ⟨List.replicate n 0, List.length_replicate⟩

@[ext] theorem ext {n : ℕ} {a b : Bytes n} (h : a.val = b.val) : a = b := by
  cases a
  cases b
  cases h
  rfl

@[simp] theorem length_val {n : ℕ} (b : Bytes n) : b.val.length = n := b.len

end Bytes

/-- The low `k` octets of `v`, least significant first. -/
def leBytes : ℕ → ℕ → List UInt8
  | 0, _ => []
  | k + 1, v => UInt8.ofNat v :: leBytes k (v / 256)

/-- The number little-endian octets spell. -/
def leValue : List UInt8 → ℕ
  | [] => 0
  | b :: bs => b.toNat + 256 * leValue bs

@[simp] theorem leBytes_length : ∀ k v : ℕ, (leBytes k v).length = k
  | 0, _ => rfl
  | k + 1, v => by simp [leBytes, leBytes_length k]

/-- Octets written and read back give the number, reduced to the width they hold. -/
theorem leValue_leBytes : ∀ k v : ℕ, leValue (leBytes k v) = v % 256 ^ k
  | 0, v => by simp [leBytes, leValue, Nat.mod_one]
  | k + 1, v => by
      have hb : (UInt8.ofNat v).toNat = v % 256 := by simp
      rw [leBytes, leValue, leValue_leBytes k, hb, pow_succ, Nat.mul_comm (256 ^ k) 256,
        Nat.mod_mul]

/-- `k` octets spell a number below `256 ^ k`. -/
theorem leValue_lt : ∀ bs : List UInt8, leValue bs < 256 ^ bs.length
  | [] => Nat.one_pos
  | b :: bs => by
      have ih := leValue_lt bs
      have hb : b.toNat < 256 := b.toNat_lt
      rw [leValue, List.length_cons, pow_succ]
      omega

/-- Read octets in the byte order `le` selects. -/
def readInt (le : Bool) (bs : List UInt8) : ℕ :=
  leValue (if le then bs else bs.reverse)

theorem readInt_lt (le : Bool) (bs : List UInt8) : readInt le bs < 256 ^ bs.length := by
  unfold readInt
  split
  · exact leValue_lt bs
  · have := leValue_lt bs.reverse
    rwa [List.length_reverse] at this

@[simp] theorem readInt_leBytes (k v : ℕ) : readInt true (leBytes k v) = v % 256 ^ k := by
  simp [readInt, leValue_leBytes]

end Zzdds.Lib
