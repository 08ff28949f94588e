import Zzdds.Rtps.Message.NumberSets
import Zzdds.Rtps.Reader.State

/-! # What a reader asks for

`WriterProxy.missingSnSet` answers a HEARTBEAT with a window that begins at the first number
not received.  `missingSnSet_sound_and_complete` says that the window acknowledges nothing that
was not received, asks for nothing that was, and asks for every missing number it has room for,
the first of all. -/

namespace Zzdds.Rtps

namespace WriterProxy

variable (wp : WriterProxy) (lastSn : ℤ)

/-- Nothing is missing: the set only acknowledges. -/
theorem missingSnSet_of_lt {wp : WriterProxy} {lastSn : ℤ}
    (h : lastSn < wp.received.cumulativeAck + 1) :
    wp.missingSnSet lastSn = ⟨lastSn + 1, 0, Bitmap.zeroes⟩ := if_pos h

/-- Something is missing: the window begins right after the cumulative acknowledgment. -/
theorem missingSnSet_of_le {wp : WriterProxy} {lastSn : ℤ}
    (h : wp.received.cumulativeAck + 1 ≤ lastSn) :
    (wp.missingSnSet lastSn).base = wp.received.cumulativeAck + 1 ∧
      (wp.missingSnSet lastSn).numBits = min (lastSn - wp.received.cumulativeAck).toNat 256 ∧
      ∀ i, (wp.missingSnSet lastSn).bitmap.bit i =
        (decide (i < min (lastSn - wp.received.cumulativeAck).toNat 256) &&
          !wp.received.contains (wp.received.cumulativeAck + 1 + i)) := by
  have hspan : lastSn - (wp.received.cumulativeAck + 1) + 1 =
      lastSn - wp.received.cumulativeAck := by omega
  unfold missingSnSet
  rw [if_neg (not_lt.mpr h)]
  dsimp only
  rw [hspan]
  refine ⟨rfl, rfl, fun i => ?_⟩
  rw [Bitmap.bit_foldl_setBit
    (fun offset : ℕ => wp.received.contains (wp.received.cumulativeAck + 1 + offset)) i]
  · simp
  · intro offset ho
    have := List.mem_range.mp ho
    omega

theorem base_missingSnSet_le : (wp.missingSnSet lastSn).base ≤ wp.received.cumulativeAck + 1 := by
  rcases lt_or_ge lastSn (wp.received.cumulativeAck + 1) with h | h
  · rw [missingSnSet_of_lt h]
    exact Int.add_one_le_iff.mpr h
  · exact le_of_eq (missingSnSet_of_le h).1

/-- Whatever bit is set stands for a number up to `lastSn` that was not received. -/
theorem of_bit_missingSnSet {i : ℕ} (h : (wp.missingSnSet lastSn).bitmap.bit i = true) :
    i < (wp.missingSnSet lastSn).numBits ∧ (wp.missingSnSet lastSn).base + i ≤ lastSn ∧
      (wp.missingSnSet lastSn).base + i ∉ wp.received := by
  rcases lt_or_ge lastSn (wp.received.cumulativeAck + 1) with hlt | hge
  · rw [missingSnSet_of_lt hlt, Bitmap.bit_zeroes] at h
    cases h
  · obtain ⟨hbase, hbits, hbit⟩ := missingSnSet_of_le hge
    rw [hbit i, Bool.and_eq_true, decide_eq_true_eq] at h
    obtain ⟨hi, hmiss⟩ := h
    rw [hbase, hbits]
    refine ⟨hi, by omega, fun hm => ?_⟩
    have hin : wp.received.contains (wp.received.cumulativeAck + 1 + i) = true := hm
    rw [hin] at hmiss
    cases hmiss

/-- Every number of the window that was not received is asked for. -/
theorem contains_missingSnSet {sn : ℤ} (h₁ : (wp.missingSnSet lastSn).base ≤ sn)
    (h₂ : sn ≤ min lastSn ((wp.missingSnSet lastSn).base + 255)) (hsn : sn ∉ wp.received) :
    (wp.missingSnSet lastSn).contains sn = true := by
  rcases lt_or_ge lastSn (wp.received.cumulativeAck + 1) with hlt | hge
  · rw [missingSnSet_of_lt hlt] at h₁
    have : lastSn + 1 ≤ sn := h₁
    omega
  · obtain ⟨hbase, hbits, hbit⟩ := missingSnSet_of_le hge
    rw [hbase] at h₁ h₂
    have hoff : sn = wp.received.cumulativeAck + 1 +
        ((sn - (wp.received.cumulativeAck + 1)).toNat : ℤ) := by omega
    rw [SequenceNumberSet.contains_iff]
    refine ⟨(sn - (wp.received.cumulativeAck + 1)).toNat, ?_, ?_, ?_⟩
    · rw [hbase]
      exact hoff
    · rw [hbits]
      omega
    · rw [hbit, ← hoff, Bool.and_eq_true, decide_eq_true_eq]
      refine ⟨by omega, ?_⟩
      rw [Bool.not_eq_true']
      exact Bool.eq_false_iff.mpr hsn

/-- The first number missing is the one after the cumulative acknowledgment. -/
theorem cumulativeAck_lt_of_missing {wp : WriterProxy} {sn : ℤ} (h₁ : 1 ≤ sn)
    (h : sn ∉ wp.received) : wp.received.cumulativeAck < sn := by
  by_contra hc
  exact h (ReceivedSet.mem_of_le_cumulativeAck h₁ (not_lt.mp hc))

/-- The set a reader answers a HEARTBEAT with acknowledges only numbers it has received or
been told are gone, asks only for numbers up to the writer's last that it lacks, asks for all of
those that fit in its 256 bits, and always for the first of them. -/
theorem missingSnSet_sound_and_complete :
    ((wp.missingSnSet lastSn).base ≤ wp.received.cumulativeAck + 1 ∧
      ∀ sn, 1 ≤ sn → sn < (wp.missingSnSet lastSn).base → sn ∈ wp.received) ∧
    ((∀ i, (wp.missingSnSet lastSn).bitmap.bit i = true →
        i < (wp.missingSnSet lastSn).numBits ∧ (wp.missingSnSet lastSn).base + i ≤ lastSn ∧
          (wp.missingSnSet lastSn).base + i ∉ wp.received) ∧
      ∀ sn, (wp.missingSnSet lastSn).contains sn = true →
        (wp.missingSnSet lastSn).base ≤ sn ∧ sn ≤ lastSn ∧ sn ∉ wp.received) ∧
    (∀ sn, (wp.missingSnSet lastSn).base ≤ sn →
      sn ≤ min lastSn ((wp.missingSnSet lastSn).base + 255) → sn ∉ wp.received →
        (wp.missingSnSet lastSn).contains sn = true) ∧
    (∀ sn, 1 ≤ sn → sn ≤ lastSn → sn ∉ wp.received →
      ∃ least, (wp.missingSnSet lastSn).contains least = true ∧
        IsLeast {m | 1 ≤ m ∧ m ≤ lastSn ∧ m ∉ wp.received} least) := by
  have hbase := wp.base_missingSnSet_le lastSn
  refine ⟨⟨hbase, fun sn h₁ h => ?_⟩, ⟨fun i => wp.of_bit_missingSnSet lastSn, fun sn h => ?_⟩,
    fun sn => wp.contains_missingSnSet lastSn, fun sn h₁ h₂ hsn => ?_⟩
  · exact ReceivedSet.mem_of_le_cumulativeAck h₁ (by omega)
  · obtain ⟨i, rfl, -, hbit⟩ := SequenceNumberSet.contains_iff.mp h
    obtain ⟨-, hle, hmiss⟩ := wp.of_bit_missingSnSet lastSn hbit
    exact ⟨by omega, hle, hmiss⟩
  · have hlt := cumulativeAck_lt_of_missing h₁ hsn
    have h0 := wp.received.cumulativeAck_nonneg
    obtain ⟨hb, -, -⟩ := @missingSnSet_of_le wp lastSn (by omega)
    have hfirst := wp.received.not_mem_cumulativeAck_succ
    refine ⟨wp.received.cumulativeAck + 1, ?_, ⟨by omega, by omega, hfirst⟩, ?_⟩
    · exact wp.contains_missingSnSet lastSn (le_of_eq hb) (by rw [hb]; omega) hfirst
    · rintro m ⟨hm, -, hmiss⟩
      exact cumulativeAck_lt_of_missing hm hmiss

end WriterProxy

end Zzdds.Rtps
