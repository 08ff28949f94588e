import Zzdds.Lib.RangeSet
import Zzdds.Rtps.Types

/-! # The received set

`received_set.zig`: the sequence numbers a reader has from one writer, as sorted ranges that
neither overlap nor touch.  The structure carries that invariant, and that every number in it
is at least `1`.  `mem_insert`, `mem_of_le_cumulativeAck` and `not_mem_cumulativeAck_succ` are
what the reader's proofs use. -/

namespace Zzdds.Rtps

open Zzdds.Lib

/-- Disjoint set of sequence numbers received from one writer. -/
structure ReceivedSet where
  ranges : List Range
  separated : RangeSet.Separated ranges
  valid : ∀ r ∈ ranges, 1 ≤ r.lo

namespace ReceivedSet

def empty : ReceivedSet := ⟨[], ⟨List.Pairwise.nil, by simp⟩, by simp⟩

/-- `sn` has been inserted. -/
def contains (s : ReceivedSet) (sn : ℤ) : Bool := RangeSet.contains s.ranges sn

instance : Membership ℤ ReceivedSet := ⟨fun s sn => s.contains sn = true⟩

instance (sn : ℤ) (s : ReceivedSet) : Decidable (sn ∈ s) :=
  inferInstanceAs (Decidable (_ = true))

theorem mem_iff {s : ReceivedSet} {sn : ℤ} : sn ∈ s ↔ RangeSet.Mem s.ranges sn :=
  RangeSet.contains_iff_mem s.separated

/-- Insert `sn`, coalescing with the ranges it touches.  Numbers below `1` are rejected, and
a number already there changes nothing. -/
def insert (s : ReceivedSet) (sn : ℤ) : ReceivedSet :=
  if h : sn < 1 ∨ s.contains sn = true then s
  else
    have hspec := RangeSet.insertPoint_spec s.separated
      (fun hm => h (.inr (mem_iff.mpr hm)))
    { ranges := RangeSet.insertPoint sn s.ranges
      separated := hspec.1
      valid := hspec.2.2 1 (by omega) s.valid }

/-- The highest number of the contiguous prefix that starts at `1`, or `0`. -/
def cumulativeAck (s : ReceivedSet) : ℤ := RangeSet.runEnd 1 s.ranges

/-- The highest number inserted, or `0`. -/
def max (s : ReceivedSet) : ℤ := RangeSet.max s.ranges

variable {s : ReceivedSet} {m n : ℤ}

theorem not_mem_empty (n : ℤ) : n ∉ empty := by
  rw [mem_iff]
  exact RangeSet.not_mem_nil n

theorem mem_insert : m ∈ s.insert n ↔ (m = n ∧ 1 ≤ n) ∨ m ∈ s := by
  unfold insert
  split
  next h =>
    refine ⟨.inr, fun h' => h'.elim (fun ⟨hm, hn⟩ => ?_) id⟩
    subst hm
    rcases h with h | h
    · omega
    · exact h
  next h =>
    have hspec := RangeSet.insertPoint_spec s.separated
      (fun hm => h (.inr (mem_iff.mpr hm)))
    rw [mem_iff, mem_iff]
    simp only [hspec.2.1]
    have : 1 ≤ n := by omega
    simp [this]

theorem cumulativeAck_nonneg (s : ReceivedSet) : 0 ≤ s.cumulativeAck := by
  have := RangeSet.start_le_runEnd_succ s.separated s.valid
  unfold cumulativeAck
  omega

theorem mem_of_le_cumulativeAck (h1 : 1 ≤ n) (h2 : n ≤ s.cumulativeAck) : n ∈ s :=
  mem_iff.mpr (RangeSet.mem_of_le_runEnd s.valid h1 h2)

theorem not_mem_cumulativeAck_succ (s : ReceivedSet) : s.cumulativeAck + 1 ∉ s :=
  fun h => RangeSet.not_mem_runEnd_succ s.separated (mem_iff.mp h)

/-- The cumulative acknowledgment is determined by the members. -/
theorem le_cumulativeAck_iff :
    n ≤ s.cumulativeAck ↔ ∀ m, 1 ≤ m → m ≤ n → m ∈ s := by
  constructor
  · intro hn m h1 h2
    exact mem_of_le_cumulativeAck h1 (h2.trans hn)
  · intro hall
    by_contra hc
    have h0 := s.cumulativeAck_nonneg
    exact s.not_mem_cumulativeAck_succ (hall _ (by omega) (by omega))

/-- Inserting never lowers the cumulative acknowledgment. -/
theorem cumulativeAck_mono {t : ReceivedSet} (h : ∀ m, m ∈ s → m ∈ t) :
    s.cumulativeAck ≤ t.cumulativeAck :=
  le_cumulativeAck_iff.mpr
    (fun m h1 h2 => h m (mem_of_le_cumulativeAck h1 h2))

/-- The number that is missing next brings the cumulative acknowledgment forward. -/
theorem le_cumulativeAck_insert (s : ReceivedSet) :
    s.cumulativeAck + 1 ≤ (s.insert (s.cumulativeAck + 1)).cumulativeAck := by
  rw [le_cumulativeAck_iff]
  intro m h1 h2
  rw [mem_insert]
  have h0 := s.cumulativeAck_nonneg
  by_cases e : m = s.cumulativeAck + 1
  · exact .inl ⟨e, by omega⟩
  · exact .inr (mem_of_le_cumulativeAck h1 (by omega))

/-- Any other number leaves it where it is. -/
theorem cumulativeAck_insert_of_ne (h : n ≠ s.cumulativeAck + 1) :
    (s.insert n).cumulativeAck = s.cumulativeAck := by
  have h0 := s.cumulativeAck_nonneg
  apply le_antisymm
  · by_contra hc
    have hm : s.cumulativeAck + 1 ∈ s.insert n := mem_of_le_cumulativeAck (by omega) (by omega)
    rcases mem_insert.mp hm with ⟨e, -⟩ | hm
    · exact h e.symm
    · exact s.not_mem_cumulativeAck_succ hm
  · exact cumulativeAck_mono (fun m hm => mem_insert.mpr (.inr hm))

end ReceivedSet

end Zzdds.Rtps
