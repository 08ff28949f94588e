import Mathlib.Data.Int.Interval
import Mathlib.Data.List.TakeWhile
import Zzdds.Lib.Trapping
import Zzdds.Rtps.ReceivedSet

/-! # The received set as it is stored

The operations of the received set as they work on its list of ranges: by index, in place, and with
checked arithmetic, which stops the program where the number after the end of a range is no 64-bit
integer.  `insert_eq` says that they do what those on `ReceivedSet` do; so the ranges after any
calls are those of the set of the numbers inserted. -/

namespace Zzdds.Rtps.ReceivedRanges

open Lib Trapping RangeSet

inductive InsertError
  | outOfMemory
deriving DecidableEq, Repr

/-- The range at `idx` becomes part of the one before it, if that ends where it begins. -/
def coalescePredecessor (idx : ℕ) (sn : ℤ) (rs : List Range) : Option (ℕ × List Range) :=
  if 0 < idx then do
    let p ← rs[idx - 1]?
    if (← i64 (p.hi + 1)) = sn then
      let r ← rs[idx]?
      pure (idx - 1, (rs.set (idx - 1) { p with hi := r.hi }).eraseIdx idx)
    else pure (idx, rs)
  else pure (idx, rs)

/-- The range after `idx` becomes part of the one at `idx`, if it begins where that ends. -/
def coalesceSuccessor (idx : ℕ) (rs : List Range) : Option (List Range) :=
  if idx + 1 < rs.length then do
    let r ← rs[idx]?
    let s ← rs[idx + 1]?
    if (← i64 (r.hi + 1)) = s.lo then
      pure ((rs.set idx { r with hi := s.hi }).eraseIdx (idx + 1))
    else pure rs
  else pure rs

section Operations

variable (rs : List Range)

/-- Whether `sn` was new; `room` tells whether there is memory for one more range. -/
def insert (sn : ℤ) (room : Bool) : Option (Except InsertError Bool × List Range) :=
  if sn < 1 then some (.ok false, rs)
  else if contains rs sn then some (.ok false, rs)
  else if room then do
    let idx := rs.findIdx fun r => sn < r.lo
    let (idx, rs) ← coalescePredecessor idx sn (rs.insertIdx idx ⟨sn, sn⟩)
    let rs ← coalesceSuccessor idx rs
    pure (.ok true, rs)
  else some (.error .outOfMemory, rs)

def cumulativeAck : ℤ :=
  match rs with
  | [] => 0
  | first :: _ => if 1 < first.lo then 0 else first.hi

def max : ℤ :=
  match rs.getLast? with
  | none => 0
  | some last => last.hi

/-- Count the numbers from `lo` to `hi`, of which `n` are counted already. -/
def countFrom (lo hi n : ℤ) : List Range → Option ℤ
  | [] => some n
  | r :: rs =>
    if hi < r.lo then some n
    else
      let a := Max.max r.lo lo
      let b := Min.min r.hi hi
      if a ≤ b then do
        let length ← i64 ((← i64 (b - a)) + 1)
        countFrom lo hi (← i64 (n + length)) rs
      else countFrom lo hi n rs

def countBetween (lo hi : ℤ) : Option ℤ := countFrom lo hi 0 rs

end Operations

/-! ### Coalescing -/

section Coalescing

variable {before later : List Range} {p r : Range} {n : ℤ}

theorem getElem?_split : (before ++ p :: later)[before.length]? = some p := by simp

theorem getElem?_split_succ : (before ++ p :: r :: later)[before.length + 1]? = some r := by
  simp

/-- Two ranges next to each other are replaced by one. -/
theorem eraseIdx_set_split (s : Range) :
    ((before ++ p :: r :: later).set before.length s).eraseIdx (before.length + 1) =
      before ++ s :: later := by
  simp [List.eraseIdx_append_of_length_le]

theorem coalescePredecessor_zero {rs : List Range} :
    coalescePredecessor 0 n rs = some (0, rs) := if_neg (Nat.lt_irrefl 0)

theorem coalescePredecessor_of_adjacent (hadjacent : p.hi + 1 = n)
    (hn : -2 ^ 63 ≤ n ∧ n < 2 ^ 63) :
    coalescePredecessor (before.length + 1) n (before ++ p :: r :: later) =
      some (before.length, before ++ ⟨p.lo, r.hi⟩ :: later) := by
  rw [coalescePredecessor, if_pos (Nat.succ_pos _), Nat.add_sub_cancel, getElem?_split,
    getElem?_split_succ]
  simp only [Option.bind_eq_bind, Option.bind_some, eraseIdx_set_split]
  rw [hadjacent, i64_of_mem hn, Option.bind_some, if_pos rfl]
  rfl

theorem coalescePredecessor_of_gap (hgap : p.hi + 1 < n) (hlow : -2 ^ 63 ≤ p.hi)
    (hn : n < 2 ^ 63) :
    coalescePredecessor (before.length + 1) n (before ++ p :: r :: later) =
      some (before.length + 1, before ++ p :: r :: later) := by
  rw [coalescePredecessor, if_pos (Nat.succ_pos _), Nat.add_sub_cancel, getElem?_split]
  simp only [Option.bind_eq_bind, Option.bind_some]
  rw [i64_of_mem ⟨by omega, by omega⟩, Option.bind_some, if_neg hgap.ne]
  rfl

theorem coalesceSuccessor_eq (hlow : -2 ^ 63 ≤ r.hi) (hlater : ∀ s ∈ later, r.hi < s.lo)
    (hhigh : ∀ s ∈ later, s.lo < 2 ^ 63) :
    coalesceSuccessor before.length (before ++ r :: later) =
      some (before ++ joinSuccessor r.lo r.hi later) := by
  cases later with
  | nil =>
    rw [coalesceSuccessor, if_neg (by simp)]
    rfl
  | cons s rest =>
    have hlt := hlater s List.mem_cons_self
    have hs := hhigh s List.mem_cons_self
    rw [coalesceSuccessor, if_pos (by simp), getElem?_split, getElem?_split_succ, joinSuccessor]
    simp only [Option.bind_eq_bind, Option.bind_some, eraseIdx_set_split]
    rw [i64_of_mem ⟨by omega, by omega⟩, Option.bind_some]
    split_ifs <;> rfl

end Coalescing

/-! ### Insertion -/

/-- Every range is within the 64-bit integers from 1 on. -/
def Fits (rs : List Range) : Prop := ∀ r ∈ rs, 1 ≤ r.lo ∧ r.hi < 2 ^ 63

variable {rs : List Range} {n : ℤ}

theorem findIdx_split {before later : List Range} (hbefore : ∀ r ∈ before, r.lo ≤ n)
    (hlater : ∀ r ∈ later, n < r.lo) :
    (before ++ later).findIdx (fun r => n < r.lo) = before.length := by
  have hskip : before.findIdx (fun r => n < r.lo) = before.length :=
    List.findIdx_eq_length.mpr fun r hr => decide_eq_false (not_lt.mpr (hbefore r hr))
  have hfirst : later.findIdx (fun r => n < r.lo) = 0 := by
    cases later with
    | nil => rfl
    | cons r later => simp [List.findIdx_cons, hlater r List.mem_cons_self]
  rw [List.findIdx_append, hskip, if_neg (Nat.lt_irrefl _), hfirst, Nat.zero_add]

theorem insertIdx_split {before later : List Range} (r : Range) :
    (before ++ later).insertIdx before.length r = before ++ r :: later := by
  induction before with
  | nil => rfl
  | cons s before ih => exact congrArg (s :: ·) ih

/-- A new number goes where it belongs, and no test for adjacency overflows. -/
theorem insert_of_new (hs : Separated rs) (hfits : Fits rs) (hn : 1 ≤ n ∧ n < 2 ^ 63)
    (hnew : ¬ Mem rs n) : insert rs n true = some (.ok true, insertPoint n rs) := by
  have hcontains : contains rs n ≠ true := fun h => hnew ((contains_iff_mem hs).mp h)
  rw [insert, if_neg (not_lt.mpr hn.1), if_neg hcontains, if_pos rfl]
  obtain ⟨hbefore, hlater⟩ := split_around hs hnew
  have hsplit := List.takeWhile_append_dropWhile (p := fun r : Range => decide (r.lo ≤ n)) (l := rs)
  have hle : ∀ r ∈ rs.takeWhile (fun r => decide (r.lo ≤ n)), r.lo ≤ n := fun r hr => by
    simpa using List.mem_takeWhile_imp hr
  rw [insertPoint]
  generalize rs.takeWhile (fun r => decide (r.lo ≤ n)) = before at hbefore hsplit hle ⊢
  generalize rs.dropWhile (fun r => decide (r.lo ≤ n)) = later at hlater hsplit ⊢
  subst hsplit
  have hhigh : ∀ s ∈ later, s.lo < 2 ^ 63 := fun s hs' =>
    ((hs.2 s (List.mem_append_right _ hs')).trans_lt (hfits s (List.mem_append_right _ hs')).2)
  have hsuccessor (before : List Range) : coalesceSuccessor before.length
      (before ++ ⟨n, n⟩ :: later) = some (before ++ joinSuccessor n n later) :=
    coalesceSuccessor_eq (show -2 ^ 63 ≤ n by omega) hlater hhigh
  simp only [Option.bind_eq_bind]
  rw [findIdx_split hle hlater, insertIdx_split]
  rcases List.eq_nil_or_concat before with rfl | ⟨bs, p, rfl⟩
  · rw [List.length_nil, coalescePredecessor_zero, Option.bind_some]
    have hfirst : coalesceSuccessor 0 (⟨n, n⟩ :: later) = some (joinSuccessor n n later) :=
      hsuccessor []
    dsimp only
    rw [List.nil_append, hfirst]
    rfl
  · have hp := hbefore p (by simp)
    have hlow := hfits p (by simp)
    have hlo := hs.2 p (by simp)
    have hlast : (bs ++ [p]).getLast? = some p := by simp
    rw [List.concat_eq_append, List.length_append, List.length_singleton, List.append_assoc,
      List.singleton_append, hlast]
    dsimp only
    split_ifs with hadjacent
    · rw [coalescePredecessor_of_adjacent hadjacent ⟨by omega, hn.2⟩, Option.bind_some]
      dsimp only
      rw [coalesceSuccessor_eq (show -2 ^ 63 ≤ n by omega) hlater hhigh, Option.bind_some,
        List.dropLast_concat]
      rfl
    · rw [coalescePredecessor_of_gap (by omega) (by omega) hn.2, Option.bind_some]
      dsimp only
      have happend := hsuccessor (bs ++ [p])
      rw [List.length_append, List.length_singleton, List.append_assoc, List.singleton_append]
        at happend
      rw [happend, Option.bind_some]
      rfl

/-! ### Counting -/

section Counting

variable {r : Range} {lo hi : ℤ}

theorem ncard_interval (a b : ℤ) : {n : ℤ | a ≤ n ∧ n ≤ b}.ncard = (b + 1 - a).toNat := by
  rw [← Int.card_Icc, ← Set.ncard_coe_finset, Finset.coe_Icc]
  rfl

theorem finite_interval (a b : ℤ) : {n : ℤ | a ≤ n ∧ n ≤ b}.Finite :=
  Set.finite_Icc a b

/-- The numbers of the ranges from `lo` to `hi`. -/
def between (rs : List Range) (lo hi : ℤ) : Set ℤ := {n | lo ≤ n ∧ n ≤ hi ∧ Mem rs n}

theorem finite_between : (between rs lo hi).Finite :=
  (finite_interval lo hi).subset fun _ hn => ⟨hn.1, hn.2.1⟩

/-- The ranges fit, so the numbers are fewer than the 64-bit integers. -/
theorem ncard_between_lt (hfits : Fits rs) : ((between rs lo hi).ncard : ℤ) < 2 ^ 63 := by
  have hsub : between rs lo hi ⊆ {n | 1 ≤ n ∧ n ≤ 2 ^ 63 - 1} := by
    rintro n ⟨-, -, r, hr, hlo, hhi⟩
    have hr := hfits r hr
    exact ⟨hr.1.trans hlo, Int.le_sub_one_of_lt (hhi.trans_lt hr.2)⟩
  have hcard := Set.ncard_le_ncard hsub (finite_interval _ _)
  rw [ncard_interval] at hcard
  omega

/-- Beyond `hi` no number is counted. -/
theorem between_of_lt (hs : Separated (r :: rs)) (h : hi < r.lo) : between (r :: rs) lo hi = ∅ := by
  refine Set.eq_empty_of_forall_notMem ?_
  rintro n ⟨-, hn, hmem⟩
  have hr := hs.2 r List.mem_cons_self
  rcases mem_cons.mp hmem with hmem | hmem
  · omega
  · have hlt := hs.lt_of_mem hmem
    omega

/-- The numbers of the first range come before those of the others. -/
theorem ncard_between_cons (hs : Separated (r :: rs)) : (between (r :: rs) lo hi).ncard =
    (Min.min r.hi hi + 1 - Max.max r.lo lo).toNat + (between rs lo hi).ncard := by
  have hunion : between (r :: rs) lo hi =
      {n | Max.max r.lo lo ≤ n ∧ n ≤ Min.min r.hi hi} ∪ between rs lo hi := by
    ext n
    simp only [between, Set.mem_ofPred_eq, Set.mem_union, mem_cons]
    constructor
    · rintro ⟨hlo, hhi, hmem | hmem⟩
      · exact .inl ⟨by omega, by omega⟩
      · exact .inr ⟨hlo, hhi, hmem⟩
    · rintro (hn | hn)
      · exact ⟨by omega, by omega, .inl (by omega)⟩
      · exact ⟨hn.1, hn.2.1, .inr hn.2.2⟩
  have hdisjoint : Disjoint {n | Max.max r.lo lo ≤ n ∧ n ≤ Min.min r.hi hi} (between rs lo hi) := by
    rw [Set.disjoint_left]
    rintro n ⟨-, hn⟩ ⟨-, -, hmem⟩
    have hlt := hs.lt_of_mem hmem
    omega
  rw [hunion, Set.ncard_union_eq hdisjoint (finite_interval _ _) finite_between, ncard_interval]

theorem countFrom_eq : ∀ {rs : List Range} {n : ℤ}, Separated rs → Fits rs → 0 ≤ n →
    n + (between rs lo hi).ncard < 2 ^ 63 →
    countFrom lo hi n rs = some (n + (between rs lo hi).ncard)
  | [], n, _, _, _, _ => by
      have hempty : between [] lo hi = ∅ :=
        Set.eq_empty_of_forall_notMem fun m hm => not_mem_nil m hm.2.2
      rw [countFrom, hempty, Set.ncard_empty, Nat.cast_zero, add_zero]
  | r :: rs, n, hs, hfits, hn, hlt => by
      have hr := hfits r List.mem_cons_self
      have hrest : Fits rs := fun s hs => hfits s (List.mem_cons_of_mem r hs)
      rw [countFrom]
      by_cases hbeyond : hi < r.lo
      · rw [if_pos hbeyond, between_of_lt hs hbeyond, Set.ncard_empty, Nat.cast_zero, add_zero]
      · rw [ncard_between_cons hs] at hlt ⊢
        rw [if_neg hbeyond]
        dsimp only
        by_cases hle : Max.max r.lo lo ≤ Min.min r.hi hi
        · have hlength : ((Min.min r.hi hi + 1 - Max.max r.lo lo).toNat : ℤ) =
              Min.min r.hi hi - Max.max r.lo lo + 1 := by
            rw [Int.toNat_of_nonneg (by omega)]
            omega
          rw [Nat.cast_add, hlength] at hlt ⊢
          rw [if_pos hle, i64_of_mem ⟨by omega, by omega⟩, Option.bind_eq_bind, Option.bind_some,
            i64_of_mem ⟨by omega, by omega⟩, Option.bind_some, i64_of_mem ⟨by omega, by omega⟩,
            Option.bind_some,
            countFrom_eq hs.tail hrest (by omega) (by omega), add_assoc]
        · rw [Int.toNat_of_nonpos (by omega), Nat.zero_add] at hlt ⊢
          rw [if_neg hle]
          exact countFrom_eq hs.tail hrest hn hlt

theorem countBetween_eq (hs : Separated rs) (hfits : Fits rs) :
    countBetween rs lo hi = some ((between rs lo hi).ncard : ℤ) := by
  have hlt : ((between rs lo hi).ncard : ℤ) < 2 ^ 63 := ncard_between_lt hfits
  rw [countBetween, countFrom_eq hs hfits le_rfl (by omega), zero_add]

end Counting

/-! ### The set of the ranges -/

theorem cumulativeAck_eq (s : ReceivedSet) : cumulativeAck s.ranges = s.cumulativeAck := by
  rw [ReceivedSet.cumulativeAck]
  cases s.ranges <;> rfl

/-- The greatest number, if there is one. -/
theorem mem_le_max (hs : Separated rs) :
    rs = [] ∨ Mem rs (max rs) ∧ ∀ m, Mem rs m → m ≤ max rs := by
  rcases List.eq_nil_or_concat rs with rfl | ⟨before, last, rfl⟩
  · exact .inl rfl
  · have hlast : max (before ++ [last]) = last.hi := by
      rw [max, List.getLast?_append, List.getLast?_singleton]
      rfl
    obtain ⟨-, hone, hcross⟩ := separated_append.mp (List.concat_eq_append ▸ hs)
    have hle := hone.2 last List.mem_cons_self
    rw [List.concat_eq_append, hlast]
    refine .inr ⟨⟨last, by simp, hle, le_rfl⟩, fun m hm => ?_⟩
    rcases mem_append.mp hm with ⟨r, hr, -, hhi⟩ | hm
    · have hlt := hcross r hr last List.mem_cons_self
      omega
    · rcases mem_cons.mp hm with hm | hm
      · exact hm.2
      · exact absurd hm (not_mem_nil m)

/-- Whether a number was new, or why it was not inserted. -/
def answer (s : ReceivedSet) (n : ℤ) (room : Bool) : Except InsertError Bool :=
  if n < 1 ∨ n ∈ s then .ok false
  else if room then .ok true
  else .error .outOfMemory

theorem answer_eq_true {s : ReceivedSet} {room : Bool} :
    answer s n room = .ok true ↔ 1 ≤ n ∧ n ∉ s ∧ room := by
  unfold answer
  split_ifs with hold hroom
  · exact ⟨nofun, fun h => absurd hold (not_or.mpr ⟨not_lt.mpr h.1, h.2.1⟩)⟩
  · obtain ⟨hlow, hmem⟩ := not_or.mp hold
    exact ⟨fun _ => ⟨not_lt.mp hlow, hmem, hroom⟩, fun _ => rfl⟩
  · exact ⟨nofun, fun h => absurd h.2.2 hroom⟩

theorem answer_eq_outOfMemory {s : ReceivedSet} {room : Bool} :
    answer s n room = .error .outOfMemory ↔ 1 ≤ n ∧ n ∉ s ∧ ¬ room := by
  unfold answer
  split_ifs with hold hroom
  · exact ⟨nofun, fun h => absurd hold (not_or.mpr ⟨not_lt.mpr h.1, h.2.1⟩)⟩
  · exact ⟨nofun, fun h => absurd hroom h.2.2⟩
  · obtain ⟨hlow, hmem⟩ := not_or.mp hold
    exact ⟨fun _ => ⟨not_lt.mp hlow, hmem, hroom⟩, fun _ => rfl⟩

/-- The stored ranges do what the set does. -/
theorem insert_eq {s : ReceivedSet} (hfits : Fits s.ranges) (hn : n < 2 ^ 63) (room : Bool) :
    insert s.ranges n room =
      some (answer s n room, (if room then s.insert n else s).ranges) := by
  by_cases hold : n < 1 ∨ n ∈ s
  · have hinsert : s.insert n = s := dif_pos hold
    rw [answer, if_pos hold, hinsert, ite_self, insert]
    by_cases hlow : n < 1
    · rw [if_pos hlow]
    · rw [if_neg hlow]
      exact if_pos (hold.resolve_left hlow)
  · obtain ⟨hlow, hmem⟩ := not_or.mp hold
    rw [answer, if_neg hold]
    cases room with
    | true =>
      have hinsert : (s.insert n).ranges = insertPoint n s.ranges :=
        congrArg ReceivedSet.ranges (dif_neg hold)
      rw [if_pos rfl, if_pos rfl, hinsert]
      exact insert_of_new s.separated hfits ⟨not_lt.mp hlow, hn⟩
        fun h => hmem (ReceivedSet.mem_iff.mpr h)
    | false =>
      rw [insert, if_neg hlow]
      exact if_neg hmem

theorem fits_insert {s : ReceivedSet} (hfits : Fits s.ranges) (hn : n < 2 ^ 63) :
    Fits (s.insert n).ranges := by
  intro r hr
  refine ⟨(s.insert n).valid r hr, ?_⟩
  have hmem : r.hi ∈ s.insert n :=
    ReceivedSet.mem_iff.mpr ⟨r, hr, (s.insert n).separated.2 r hr, le_rfl⟩
  rcases ReceivedSet.mem_insert.mp hmem with ⟨heq, -⟩ | hmem
  · rw [heq]
    exact hn
  · obtain ⟨r', hr', -, hhi⟩ := ReceivedSet.mem_iff.mp hmem
    exact hhi.trans_lt (hfits r' hr').2

/-! ### Any calls -/

/-- A call to insert a number. -/
structure Call where
  sn : Int64
  room : Bool

/-- The ranges after some calls, from none on. -/
def after (calls : List Call) : Option (List Range) :=
  calls.foldlM (fun rs c => (insert rs c.sn.toInt c.room).map Prod.snd) []

/-- The numbers that calls inserted. -/
def inserted (calls : List Call) : Set ℤ := {n | 1 ≤ n ∧ ∃ c ∈ calls, c.room ∧ c.sn.toInt = n}

/-- The ranges are the set `ns`: canonical, and every query on them is the one on the set. -/
structure IsSet (ns : Set ℤ) (rs : List Range) : Prop where
  separated : Separated rs
  fits : Fits rs
  contains_iff : ∀ n, contains rs n = true ↔ n ∈ ns
  cumulativeAck : IsGreatest {k | 0 ≤ k ∧ ∀ n, 1 ≤ n → n ≤ k → n ∈ ns} (cumulativeAck rs)
  max : (ns = ∅ ∧ max rs = 0) ∨ IsGreatest ns (max rs)
  countBetween : ∀ lo hi, countBetween rs lo hi =
    some (({n | lo ≤ n ∧ n ≤ hi ∧ n ∈ ns} : Set ℤ).ncard : ℤ)

/-- The set that the calls make. -/
def setAfter (calls : List Call) : ReceivedSet :=
  calls.foldl (fun s c => if c.room then s.insert c.sn.toInt else s) .empty

variable {calls : List Call}

theorem setAfter_concat (calls : List Call) (c : Call) : setAfter (calls ++ [c]) =
    if c.room then (setAfter calls).insert c.sn.toInt else setAfter calls :=
  List.foldl_concat ..

theorem mem_setAfter : n ∈ setAfter calls ↔ n ∈ inserted calls := by
  induction calls using List.reverseRecOn with
  | nil => simp [setAfter, inserted, ReceivedSet.not_mem_empty]
  | append_singleton calls c ih =>
    have hconcat : n ∈ inserted (calls ++ [c]) ↔
        n ∈ inserted calls ∨ 1 ≤ n ∧ c.room ∧ c.sn.toInt = n := by
      simp only [inserted, Set.mem_ofPred_eq, List.mem_append, List.mem_singleton, or_and_right,
        exists_or, exists_eq_left, and_or_left]
    rw [setAfter_concat, hconcat]
    split_ifs with hroom
    · rw [ReceivedSet.mem_insert, ih]
      constructor
      · rintro (⟨rfl, hn⟩ | hn)
        · exact .inr ⟨hn, hroom, rfl⟩
        · exact .inl hn
      · rintro (hn | ⟨hn, -, rfl⟩)
        · exact .inr hn
        · exact .inl ⟨rfl, hn⟩
    · rw [ih]
      exact ⟨.inl, fun h => h.resolve_right fun h => hroom h.2.1⟩

/-- The ranges after the calls are those of the set that they make. -/
theorem after_eq : after calls = some (setAfter calls).ranges ∧ Fits (setAfter calls).ranges := by
  induction calls using List.reverseRecOn with
  | nil => exact ⟨rfl, fun r hr => nomatch hr⟩
  | append_singleton calls c ih =>
    obtain ⟨hafter, hfits⟩ := ih
    have hn : c.sn.toInt < 2 ^ 63 := c.sn.toInt_lt
    rw [after] at hafter
    rw [after, List.foldlM_append, hafter, setAfter_concat]
    constructor
    · rw [Option.bind_eq_bind, Option.bind_some, List.foldlM_cons, insert_eq hfits hn]
      rfl
    · split_ifs
      · exact fits_insert hfits hn
      · exact hfits

theorem isSet_setAfter : IsSet (inserted calls) (setAfter calls).ranges where
  separated := (setAfter calls).separated
  fits := after_eq.2
  contains_iff n := mem_setAfter
  cumulativeAck := by
    rw [cumulativeAck_eq]
    constructor
    · exact ⟨ReceivedSet.cumulativeAck_nonneg _, fun n h1 hn =>
        mem_setAfter.mp (ReceivedSet.mem_of_le_cumulativeAck h1 hn)⟩
    · exact fun k hk => ReceivedSet.le_cumulativeAck_iff.mpr fun m h1 hm =>
        mem_setAfter.mpr (hk.2 m h1 hm)
  max := by
    have hmem (n : ℤ) : Mem (setAfter calls).ranges n ↔ n ∈ inserted calls :=
      ReceivedSet.mem_iff.symm.trans mem_setAfter
    rcases mem_le_max (setAfter calls).separated with hnil | ⟨hmax, hle⟩
    · rw [hnil] at hmem ⊢
      exact .inl ⟨Set.eq_empty_of_forall_notMem fun n hn => not_mem_nil n ((hmem n).mpr hn), rfl⟩
    · exact .inr ⟨(hmem _).mp hmax, fun n hn => hle n ((hmem n).mpr hn)⟩
  countBetween lo hi := by
    have hbetween : between (setAfter calls).ranges lo hi =
        {n | lo ≤ n ∧ n ≤ hi ∧ n ∈ inserted calls} := by
      ext n
      rw [between, Set.mem_ofPred_eq, Set.mem_ofPred_eq, ← ReceivedSet.mem_iff, mem_setAfter]
    rw [countBetween_eq (setAfter calls).separated after_eq.2, hbetween]

/-- After any calls the ranges are the set of the numbers inserted, and the next call tells whether
its number is new. -/
theorem received (calls : List Call) : ∃ rs, after calls = some rs ∧ IsSet (inserted calls) rs ∧
    ∀ c : Call, ∃ result rs', insert rs c.sn.toInt c.room = some (result, rs') ∧
      (result = .ok true ↔ 1 ≤ c.sn.toInt ∧ c.sn.toInt ∉ inserted calls ∧ c.room) ∧
      (result = .error .outOfMemory ↔
        1 ≤ c.sn.toInt ∧ c.sn.toInt ∉ inserted calls ∧ ¬ c.room) := by
  refine ⟨_, after_eq.1, isSet_setAfter, fun c => ⟨_, _, insert_eq after_eq.2 c.sn.toInt_lt _, ?_⟩⟩
  rw [answer_eq_true, answer_eq_outOfMemory, mem_setAfter]
  exact ⟨Iff.rfl, Iff.rfl⟩

end Zzdds.Rtps.ReceivedRanges
