import Mathlib.Tactic

/-! # Sets of integers as sorted ranges

A finite set of integers kept as a list of ranges `[lo, hi]`, sorted, disjoint and not even
adjacent (`Separated`), so that a set has one representation.  `insertPoint` puts one integer
between the ranges around it and joins it with a neighbour it touches; `separated_insertPoint`
and `mem_insertPoint` are its specification.  `runEnd start` is the last integer of the run
that begins at `start`: everything up to it is in the set and the next integer is not. -/

namespace Zzdds.Lib

/-- The integers from `lo` to `hi`. -/
structure Range where
  lo : ℤ
  hi : ℤ
deriving DecidableEq, Repr

namespace RangeSet

/-- `n` is in one of the ranges. -/
def Mem (rs : List Range) (n : ℤ) : Prop := ∃ r ∈ rs, r.lo ≤ n ∧ n ≤ r.hi

/-- Sorted, disjoint and non-adjacent non-empty ranges. -/
def Separated (rs : List Range) : Prop :=
  rs.Pairwise (fun a b => a.hi + 1 < b.lo) ∧ ∀ r ∈ rs, r.lo ≤ r.hi

/-- Scan in order, stopping at the first range beyond `n`. -/
def contains : List Range → ℤ → Bool
  | [], _ => false
  | r :: rs, n => if n < r.lo then false else if n ≤ r.hi then true else contains rs n

/-- The run from `lo` to `n`, joined with the first of the later ranges if it touches it. -/
def joinSuccessor (lo n : ℤ) : List Range → List Range
  | [] => [⟨lo, n⟩]
  | s :: rest => if n + 1 = s.lo then ⟨lo, s.hi⟩ :: rest else ⟨lo, n⟩ :: s :: rest

/-- Insert `n`, which no range holds, in front of the first range that starts after it. -/
def insertPoint (n : ℤ) (rs : List Range) : List Range :=
  let before := rs.takeWhile (fun r => r.lo ≤ n)
  let later := rs.dropWhile (fun r => r.lo ≤ n)
  match before.getLast? with
  | none => joinSuccessor n n later
  | some p =>
      if p.hi + 1 = n then before.dropLast ++ joinSuccessor p.lo n later
      else before ++ joinSuccessor n n later

/-- The last integer of the run that begins at `start`, or `start - 1` when `start` is not in
the set. -/
def runEnd (start : ℤ) : List Range → ℤ
  | [] => start - 1
  | r :: _ => if start < r.lo then start - 1 else r.hi

/-- The largest integer of the set, or `0` for the empty one. -/
def max (rs : List Range) : ℤ := (rs.getLast?.map (·.hi)).getD 0

/-! ### Membership -/

theorem not_mem_nil (n : ℤ) : ¬ Mem [] n := by
  rintro ⟨r, hr, -⟩
  cases hr

theorem mem_cons {r : Range} {rs : List Range} {n : ℤ} :
    Mem (r :: rs) n ↔ (r.lo ≤ n ∧ n ≤ r.hi) ∨ Mem rs n := by
  simp [Mem]

theorem mem_append {rs ss : List Range} {n : ℤ} : Mem (rs ++ ss) n ↔ Mem rs n ∨ Mem ss n := by
  simp [Mem, or_and_right, exists_or]

theorem Separated.tail {r : Range} {rs : List Range} (h : Separated (r :: rs)) : Separated rs :=
  ⟨(List.pairwise_cons.mp h.1).2, fun s hs => h.2 s (List.mem_cons_of_mem r hs)⟩

theorem Separated.lt_of_mem {r : Range} {rs : List Range} (h : Separated (r :: rs)) {n : ℤ}
    (hn : Mem rs n) : r.hi + 1 < n := by
  obtain ⟨s, hs, hlo, -⟩ := hn
  have := (List.pairwise_cons.mp h.1).1 s hs
  omega

theorem contains_iff_mem {n : ℤ} : ∀ {rs : List Range}, Separated rs →
    (contains rs n = true ↔ Mem rs n)
  | [], _ => by simp [contains, not_mem_nil]
  | r :: rs, h => by
      have ih := contains_iff_mem (n := n) h.tail
      have hr := h.2 r List.mem_cons_self
      rw [contains, mem_cons]
      split
      · have : ¬ Mem rs n := fun hm => by
          have := h.lt_of_mem hm
          omega
        simp [this]
        omega
      · split
        · simp
          omega
        · rw [ih]
          constructor
          · exact Or.inr
          · rintro (h' | h')
            · omega
            · exact h'

/-! ### Insertion -/

/-- The two halves around `n` when no range holds it. -/
theorem split_around {n : ℤ} {rs : List Range} (h : Separated rs) (hn : ¬ Mem rs n) :
    (∀ r ∈ rs.takeWhile (fun r => r.lo ≤ n), r.hi < n) ∧
      ∀ r ∈ rs.dropWhile (fun r => r.lo ≤ n), n < r.lo := by
  induction rs with
  | nil => simp
  | cons r rs ih =>
      have hr := h.2 r List.mem_cons_self
      rw [mem_cons, not_or] at hn
      obtain ⟨h1, h2⟩ := ih h.tail hn.2
      by_cases hlo : r.lo ≤ n
      · rw [List.takeWhile_cons_of_pos (by simpa using hlo),
          List.dropWhile_cons_of_pos (by simpa using hlo)]
        refine ⟨fun s hs => ?_, h2⟩
        rcases List.mem_cons.mp hs with rfl | hs
        · omega
        · exact h1 s hs
      · rw [List.takeWhile_cons_of_neg (by simpa using hlo),
          List.dropWhile_cons_of_neg (by simpa using hlo)]
        refine ⟨by simp, fun s hs => ?_⟩
        rcases List.mem_cons.mp hs with rfl | hs
        · omega
        · have := (List.pairwise_cons.mp h.1).1 s hs
          omega

section join
variable {lo n : ℤ} {later : List Range}

theorem separated_joinSuccessor (h : Separated later) (hl : ∀ r ∈ later, n < r.lo)
    (hlo : lo ≤ n) : Separated (joinSuccessor lo n later) := by
  cases later with
  | nil => simpa [joinSuccessor, Separated] using hlo
  | cons s rest =>
      have hs := h.2 s List.mem_cons_self
      have hns := hl s List.mem_cons_self
      obtain ⟨hp, hrest⟩ := List.pairwise_cons.mp h.1
      rw [joinSuccessor]
      split
      · refine ⟨List.pairwise_cons.mpr ⟨hp, hrest⟩, fun r hr => ?_⟩
        rcases List.mem_cons.mp hr with rfl | hr
        · simp only
          omega
        · exact h.tail.2 r hr
      · refine ⟨List.pairwise_cons.mpr ⟨fun r hr => ?_, h.1⟩, fun r hr => ?_⟩
        · rcases List.mem_cons.mp hr with rfl | hr
          · simp only
            omega
          · have := hp r hr
            simp only
            omega
        · rcases List.mem_cons.mp hr with rfl | hr
          · exact hlo
          · exact h.2 r hr

theorem mem_joinSuccessor (h : Separated later) (hl : ∀ r ∈ later, n < r.lo) (hlo : lo ≤ n)
    {m : ℤ} : Mem (joinSuccessor lo n later) m ↔ (lo ≤ m ∧ m ≤ n) ∨ Mem later m := by
  cases later with
  | nil => simp [joinSuccessor, Mem]
  | cons s rest =>
      have hs := h.2 s List.mem_cons_self
      have hns := hl s List.mem_cons_self
      rw [joinSuccessor]
      split
      · simp only [mem_cons, ← or_assoc]
        refine or_congr_left ?_
        omega
      · simp only [mem_cons]

theorem lo_le_of_mem_joinSuccessor (hl : ∀ r ∈ later, n < r.lo) (hlo : lo ≤ n) :
    ∀ r ∈ joinSuccessor lo n later, lo ≤ r.lo := by
  cases later with
  | nil => simp [joinSuccessor]
  | cons s rest =>
      have hall : ∀ r ∈ s :: rest, lo ≤ r.lo := fun r hr => by
        have := hl r hr
        omega
      rw [joinSuccessor]
      split
      · intro r hr
        rcases List.mem_cons.mp hr with rfl | hr
        · exact le_rfl
        · exact hall r (List.mem_cons_of_mem s hr)
      · intro r hr
        rcases List.mem_cons.mp hr with rfl | hr
        · exact le_rfl
        · exact hall r hr

end join

theorem separated_append {rs ss : List Range} : Separated (rs ++ ss) ↔
    Separated rs ∧ Separated ss ∧ ∀ r ∈ rs, ∀ s ∈ ss, r.hi + 1 < s.lo := by
  simp only [Separated, List.pairwise_append, List.forall_mem_append]
  tauto

/-- Inserting keeps the ranges separated and adds exactly the point. -/
theorem insertPoint_spec {n : ℤ} {rs : List Range} (h : Separated rs) (hn : ¬ Mem rs n) :
    Separated (insertPoint n rs) ∧ (∀ m, Mem (insertPoint n rs) m ↔ m = n ∨ Mem rs m) ∧
      ∀ b : ℤ, b ≤ n → (∀ r ∈ rs, b ≤ r.lo) → ∀ r ∈ insertPoint n rs, b ≤ r.lo := by
  obtain ⟨hb, hl⟩ := split_around h hn
  have hsplit := List.takeWhile_append_dropWhile (p := fun r : Range => decide (r.lo ≤ n)) (l := rs)
  simp only [insertPoint]
  generalize rs.takeWhile (fun r => decide (r.lo ≤ n)) = before at hb hsplit ⊢
  generalize rs.dropWhile (fun r => decide (r.lo ≤ n)) = later at hl hsplit ⊢
  subst hsplit
  obtain ⟨hsb, hsl, hcross⟩ := separated_append.mp h
  rcases List.eq_nil_or_concat before with rfl | ⟨bs, p, rfl⟩
  · simp only [List.getLast?_nil, List.nil_append]
    refine ⟨separated_joinSuccessor hsl hl le_rfl, fun m => ?_, fun b hbn _ r hr => ?_⟩
    · rw [mem_joinSuccessor hsl hl le_rfl]
      exact or_congr_left (by omega)
    · exact hbn.trans (lo_le_of_mem_joinSuccessor hl le_rfl r hr)
  · have hp := hb p (by simp)
    have hpp := hsb.2 p (by simp)
    obtain ⟨hsbs, -, hbp⟩ := separated_append.mp (List.concat_eq_append ▸ hsb)
    simp only [List.concat_eq_append, List.getLast?_append, List.getLast?_singleton,
      Option.some_or, List.dropLast_concat] at *
    split
    next hadj =>
      have hlo : p.lo ≤ n := by omega
      refine ⟨separated_append.mpr ⟨hsbs, separated_joinSuccessor hsl hl hlo, ?_⟩, fun m => ?_, ?_⟩
      · intro r hr s hs
        have := hbp r hr p (by simp)
        have := lo_le_of_mem_joinSuccessor hl hlo s hs
        omega
      · rw [mem_append, mem_joinSuccessor hsl hl hlo, mem_append, mem_append, mem_cons]
        have : ¬ Mem [] m := not_mem_nil m
        by_cases h1 : Mem bs m <;> by_cases h2 : Mem later m <;> simp [h1, h2, this]
        omega
      · intro b hbn hall r hr
        rcases List.mem_append.mp hr with hr | hr
        · exact hall r (by simp [hr])
        · exact (hall p (by simp)).trans (lo_le_of_mem_joinSuccessor hl hlo r hr)
    next hadj =>
      refine ⟨separated_append.mpr ⟨hsb, separated_joinSuccessor hsl hl le_rfl, ?_⟩, fun m => ?_, ?_⟩
      · intro r hr s hs
        have h1 := lo_le_of_mem_joinSuccessor hl le_rfl s hs
        have h2 := hb r hr
        rcases List.mem_append.mp hr with hr | hr
        · have := hbp r hr p (by simp)
          omega
        · obtain rfl := List.mem_singleton.mp hr
          omega
      · rw [mem_append, mem_joinSuccessor hsl hl le_rfl, @mem_append (bs ++ [p])]
        by_cases h1 : Mem (bs ++ [p]) m <;> by_cases h2 : Mem later m <;> simp [h1, h2]
        omega
      · intro b hbn hall r hr
        rcases List.mem_append.mp hr with hr | hr
        · exact hall r (List.mem_append.mpr (.inl hr))
        · exact hbn.trans (lo_le_of_mem_joinSuccessor hl le_rfl r hr)

/-! ### The run from a starting point -/

section run
variable {start : ℤ} {rs : List Range}

theorem mem_of_le_runEnd (hs : ∀ r ∈ rs, start ≤ r.lo) {n : ℤ} (h1 : start ≤ n)
    (h2 : n ≤ runEnd start rs) : Mem rs n := by
  cases rs with
  | nil =>
      rw [runEnd] at h2
      omega
  | cons r rs =>
      rw [runEnd] at h2
      have := hs r List.mem_cons_self
      split at h2
      · omega
      · exact mem_cons.mpr (.inl ⟨by omega, h2⟩)

theorem not_mem_runEnd_succ (h : Separated rs) : ¬ Mem rs (runEnd start rs + 1) := by
  cases rs with
  | nil => exact not_mem_nil _
  | cons r rs =>
      intro hm
      rw [runEnd, mem_cons] at hm
      have hr := h.2 r List.mem_cons_self
      split at hm
      · rcases hm with hm | hm
        · omega
        · have := h.lt_of_mem hm
          omega
      · rcases hm with hm | hm
        · omega
        · have := h.lt_of_mem hm
          omega

theorem start_le_runEnd_succ (h : Separated rs) (hs : ∀ r ∈ rs, start ≤ r.lo) :
    start ≤ runEnd start rs + 1 := by
  cases rs with
  | nil =>
      rw [runEnd]
      omega
  | cons r rs =>
      have := h.2 r List.mem_cons_self
      have := hs r List.mem_cons_self
      rw [runEnd]
      split <;> omega

end run

end RangeSet

end Zzdds.Lib
