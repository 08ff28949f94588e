import Zzdds.Lib.Trapping
import Zzdds.Rtps.Message.Submessage

/-! # Number sets bit by bit

A set of numbers is a base and a bitmap whose most significant bit stands for the base.
`Bitmap.bit_setBit` says what setting one bit does to any other, `Bitmap.bit_foldl_setBit` what a
loop that sets the bits of a window leaves, and `SequenceNumberSet.contains_iff` and
`FragmentNumberSet.contains_iff` read membership off the bitmap.  `containsChecked` is membership with
each subtraction and each index a step that can stop the program. -/

namespace Zzdds.Rtps

namespace Bitmap

/-- No bit of the empty bitmap is set. -/
@[simp] theorem bit_zeroes (i : ℕ) : zeroes.bit i = false := by
  have hword : (zeroes.words.getD (i / 32) 0) = 0 := by
    rw [zeroes, List.getD_eq_getElem?_getD, List.getElem?_replicate]
    split <;> rfl
  rw [bit, hword]
  simp

/-- Setting a bit sets that one and no other. -/
theorem bit_setBit (m : Bitmap) {offset : ℕ} (h : offset < 256) (i : ℕ) :
    (m.setBit offset).bit i = (m.bit i || decide (i = offset)) := by
  simp only [bit, setBit, List.getD_eq_getElem?_getD, List.getElem?_modify]
  by_cases hw : offset / 32 = i / 32
  · have hlt : i / 32 < m.words.length := by
      rw [m.len]
      omega
    have hmask : (UInt32.ofNat (2 ^ (31 - offset % 32))).toNat = 2 ^ (31 - offset % 32) :=
      UInt32.toNat_ofNat_of_lt'
        (Nat.pow_lt_pow_right (show 1 < 2 by decide) (show 31 - offset % 32 < 32 by omega))
    have hbit : 31 - offset % 32 = 31 - i % 32 ↔ i = offset := by omega
    rw [List.getElem?_eq_getElem hlt]
    simp [hw, hmask, Nat.testBit_or, Nat.testBit_two_pow, hbit]
  · have hne : i ≠ offset := fun e => hw (by rw [e])
    simp [hw, hne]

/-- A loop sets the bits of a window that `p` asks for. -/
theorem bit_foldl_setBit (p : ℕ → Bool) (i : ℕ) : ∀ (offsets : List ℕ) (m : Bitmap),
    (∀ o ∈ offsets, o < 256) →
    (offsets.foldl (fun m offset => if p offset then m else m.setBit offset) m).bit i =
      (m.bit i || (decide (i ∈ offsets) && !p i))
  | [], m, _ => by simp
  | o :: offsets, m, h => by
      have ho : o < 256 := h o List.mem_cons_self
      rw [List.foldl_cons, bit_foldl_setBit p i offsets _
        (fun o' ho' => h o' (List.mem_cons_of_mem o ho'))]
      by_cases hp : p o = true
      · by_cases e : i = o
        · simp [e, hp]
        · simp [e, hp]
      · rw [if_neg hp, bit_setBit m ho]
        by_cases e : i = o
        · simp [e, hp]
        · simp [e]

end Bitmap

/-- A sequence number is in the set when its bit is one of the `numBits` and is set. -/
theorem SequenceNumberSet.contains_iff {s : SequenceNumberSet} {sn : ℤ} :
    s.contains sn = true ↔
      ∃ i : ℕ, sn = s.base + i ∧ i < s.numBits ∧ s.bitmap.bit i = true := by
  unfold SequenceNumberSet.contains
  constructor
  · intro h
    split at h
    · cases h
    next hbase =>
      split at h
      · cases h
      next hbits => exact ⟨(sn - s.base).toNat, by omega, by omega, h⟩
  · rintro ⟨i, rfl, hi, hbit⟩
    have hoff : (s.base + i - s.base).toNat = i := by omega
    rw [hoff, if_neg (by omega), if_neg (by omega)]
    exact hbit

theorem FragmentNumberSet.contains_iff {s : FragmentNumberSet} {fn : ℕ} :
    s.contains fn = true ↔
      ∃ i : ℕ, fn = s.base + i ∧ i < s.numBits ∧ s.bitmap.bit i = true := by
  unfold FragmentNumberSet.contains
  constructor
  · intro h
    split at h
    · cases h
    next hbase =>
      split at h
      · cases h
      next hbits => exact ⟨fn - s.base, by omega, by omega, h⟩
  · rintro ⟨i, rfl, hi, hbit⟩
    have hoff : s.base + i - s.base = i := by omega
    rw [hoff, if_neg (by omega), if_neg (by omega)]
    exact hbit

/-! ### The arithmetic of membership -/

section arithmetic
open Zzdds.Lib Zzdds.Lib.Trapping

/-- `SequenceNumberSet.contains`. -/
def SequenceNumberSet.containsChecked (s : SequenceNumberSet) (sn : ℤ) : Option Bool :=
  if sn < s.base then some false
  else do
    let offset ← i64 (sn - s.base)
    if s.numBits ≤ offset.toNat then some false
    else
      -- `bitmap[offset / 32]`, one of its words
      slice (offset.toNat / 32) 1 8
      let _ ← sub 31 (offset.toNat % 32)
      some (s.bitmap.bit offset.toNat)

/-- `FragmentNumberSet.contains`. -/
def FragmentNumberSet.containsChecked (s : FragmentNumberSet) (fn : ℕ) : Option Bool :=
  if fn < s.base then some false
  else do
    let offset ← sub fn s.base
    if s.numBits ≤ offset then some false
    else
      slice (offset / 32) 1 8
      let _ ← sub 31 (offset % 32)
      some (s.bitmap.bit offset)

theorem SequenceNumberSet.containsChecked_eq_some {s : SequenceNumberSet} {sn : ℤ} {b : Bool}
    (hbits : s.numBits ≤ 256) :
    s.containsChecked sn = some b ↔ (s.base ≤ sn → sn - s.base < 2 ^ 63) ∧ b = s.contains sn := by
  unfold containsChecked contains
  by_cases hlt : sn < s.base
  · rw [if_pos hlt, if_pos hlt]
    simp [not_le.mpr hlt, eq_comm]
  · rw [if_neg hlt, if_neg hlt]
    simp only [Option.bind_eq_bind, Option.bind_eq_some_iff, i64_eq_some]
    constructor
    · rintro ⟨offset, ⟨⟨-, hfit⟩, rfl⟩, h⟩
      refine ⟨fun _ => hfit, ?_⟩
      split at h
      next hout =>
        rw [if_pos hout]
        simpa using h.symm
      next hin =>
        rw [if_neg hin]
        simp only [Option.bind_eq_some_iff] at h
        obtain ⟨_, -, _, -, h⟩ := h
        simpa using h.symm
    · rintro ⟨hfit, rfl⟩
      refine ⟨_, ⟨⟨by omega, hfit (not_lt.mp hlt)⟩, rfl⟩, ?_⟩
      split
      next => rfl
      next hin =>
        rw [slice_of_le (by omega), sub_of_le (by omega)]
        rfl

end arithmetic

end Zzdds.Rtps
