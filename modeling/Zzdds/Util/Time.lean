import Zzdds.Lib.Rounding
import Zzdds.Lib.Trapping
import Zzdds.Dcps.Samples

/-! # Times and durations on the wire

The conversions of `time.zig` between the API's nanoseconds and the wire's units of `2⁻³²` seconds,
with the overflow checks and casts that would stop the program.  On the times and durations that the
API means, the way there and back is lossless (`conversions_exact`); the way back takes every wire
value and keeps the order. -/

namespace Zzdds.Util

open Lib Lib.Trapping Rtps Dcps

def nsPerS : ℕ := 1000000000

/-- The values a `u64` has. -/
def u64 : ℕ := 2 ^ 64

/-- A time of the API, in nanoseconds of up to a second. -/
structure Time where
  sec : Int32
  nanosec : UInt32
deriving DecidableEq, Repr

/-- Cast to a `u32`. -/
def castU32 (n : ℤ) : Option UInt32 :=
  if 0 ≤ n ∧ n < 2 ^ 32 then some (UInt32.ofNat n.toNat) else none

/-- Cast to an `i32`. -/
def castI32 (n : ℤ) : Option Int32 :=
  if -2 ^ 31 ≤ n ∧ n < 2 ^ 31 then some (Int32.ofInt n) else none

/-- Nanoseconds as a fraction of `2⁻³²` seconds. -/
def fractionOf (nanosec : UInt32) : Option ℕ := do
  let scaled ← mul u64 nanosec.toNat 0x100000000
  let scaled ← add u64 scaled (nsPerS / 2)
  div scaled nsPerS

/-- A fraction of `2⁻³²` seconds in nanoseconds. -/
def nanosecOf (fraction : UInt32) : Option UInt32 := do
  let scaled ← mul u64 fraction.toNat nsPerS
  let scaled ← add u64 scaled 0x80000000
  let ns ← div scaled 0x100000000
  castU32 ns

def fromTime (t : Time) : Option RtpsTimestamp := do
  let frac ← fractionOf t.nanosec
  let seconds ← castU32 t.sec.toInt
  let fraction ← castU32 frac
  some ⟨seconds, fraction⟩

/-- A full second of nanoseconds is one second more. -/
def carry (sec64 : ℕ) (ns : UInt32) : Option (ℕ × UInt32) :=
  if ns.toNat = nsPerS then (add u64 sec64 1).map (·, 0) else some (sec64, ns)

def toTime (ts : RtpsTimestamp) : Option Time := do
  let ns ← nanosecOf ts.fraction
  let (sec64, ns) ← carry ts.seconds.toNat ns
  if 0x7fffffff < sec64 then some ⟨0x7fffffff, 999999999⟩
  else
    let sec ← castI32 sec64
    some ⟨sec, ns⟩

def fromDuration (d : Duration) : Option RtpsDuration :=
  if d.isInfinite then some rtpsInfinite
  else do
    let frac ← fractionOf d.nanosec
    let fraction ← castU32 frac
    some ⟨d.sec, fraction⟩

def toDuration (d : RtpsDuration) : Option Duration :=
  if isInfinite d then some Duration.infinite
  else do
    let ns ← nanosecOf d.fraction
    if ns.toNat = nsPerS then
      if d.seconds = 0x7fffffff then some ⟨d.seconds, 999999999⟩
      else
        let sec ← castI32 (d.seconds.toInt + 1)
        some ⟨sec, 0⟩
    else some ⟨d.seconds, ns⟩

/-! ### Their order -/

/-- Earlier first; of one second, the fewer nanoseconds first. -/
def Time.place (t : Time) : ℤ ×ₗ ℕ := toLex (t.sec.toInt, t.nanosec.toNat)

def durationPlace (d : Duration) : ℤ ×ₗ ℕ := toLex (d.sec.toInt, d.nanosec.toNat)

/-- Wire values in the order of their seconds, then of their fractions. -/
def timestampPlace (ts : RtpsTimestamp) : ℤ ×ₗ ℕ := toLex (ts.seconds.toNat, ts.fraction.toNat)

def rtpsDurationPlace (d : RtpsDuration) : ℤ ×ₗ ℕ := toLex (d.seconds.toInt, d.fraction.toNat)

/-- `Duration.order`: infinite is the greatest. -/
def order (a b : Duration) : Ordering :=
  if a.isInfinite && b.isInfinite then .eq
  else if a.isInfinite then .gt
  else if b.isInfinite then .lt
  else (compare a.sec.toInt b.sec.toInt).then (compare a.nanosec.toNat b.nanosec.toNat)

/-! ### What the casts and conversions give -/

theorem castU32_of_mem {n : ℤ} (h₀ : 0 ≤ n) (h : n < 2 ^ 32) :
    ∃ u, castU32 n = some u ∧ (u.toNat : ℤ) = n := by
  have hnat : n.toNat < UInt32.size := by
    change n.toNat < 4294967296
    omega
  refine ⟨_, if_pos ⟨h₀, h⟩, ?_⟩
  rw [UInt32.toNat_ofNat_of_lt' hnat, Int.toNat_of_nonneg h₀]

theorem castI32_of_mem {n : ℤ} (h₀ : -2 ^ 31 ≤ n) (h : n < 2 ^ 31) :
    ∃ i, castI32 n = some i ∧ i.toInt = n :=
  ⟨_, if_pos ⟨h₀, h⟩, Int32.toInt_ofInt_of_le h₀ h⟩

/-- The units of `2⁻³²` seconds in a second. -/
def fractions : ℕ := 0x100000000

theorem nsPerS_pos : 0 < nsPerS := by decide

theorem fractions_pos : 0 < fractions := by decide

theorem nsPerS_lt_fractions : nsPerS < fractions := by decide

theorem rescale_nsPerS (n : ℕ) :
    rescale nsPerS fractions n = (n * 0x100000000 + nsPerS / 2) / nsPerS := by
  rw [rescale, fractions]

theorem rescale_fractions (n : ℕ) :
    rescale fractions nsPerS n = (n * nsPerS + 0x80000000) / 0x100000000 := by
  have hhalf : 0x100000000 / 2 = 0x80000000 := by norm_num
  rw [rescale, fractions, hhalf]

/-- No `u64` overflows on the way. -/
theorem scaled_lt {n : ℕ} (h : n < fractions) :
    n * 0x100000000 + nsPerS / 2 < u64 ∧ n * nsPerS + 0x80000000 < u64 := by
  have hhalf : nsPerS / 2 = 500000000 := by norm_num [nsPerS]
  have hu : u64 = 18446744073709551616 := by norm_num [u64]
  rw [fractions] at h
  rw [hhalf, hu, nsPerS]
  omega

theorem fractionOf_eq (nanosec : UInt32) :
    fractionOf nanosec = some (rescale nsPerS fractions nanosec.toNat) := by
  obtain ⟨hadd, -⟩ := scaled_lt (show nanosec.toNat < fractions from nanosec.toNat_lt)
  have hmul := (Nat.le_add_right _ _).trans_lt hadd
  rw [fractionOf, mul_of_lt hmul, Option.bind_eq_bind, Option.bind_some, add_of_lt hadd,
    Option.bind_some, div_of_pos nsPerS_pos, rescale_nsPerS]

theorem nanosecOf_eq (fraction : UInt32) : ∃ ns, nanosecOf fraction = some ns ∧
    ns.toNat = rescale fractions nsPerS fraction.toNat := by
  have hlt : fraction.toNat < fractions := fraction.toNat_lt
  obtain ⟨-, hadd⟩ := scaled_lt hlt
  have hmul := (Nat.le_add_right _ _).trans_lt hadd
  have hle : rescale fractions nsPerS fraction.toNat ≤ nsPerS :=
    rescale_le_whole fractions_pos hlt.le
  have hns : (rescale fractions nsPerS fraction.toNat : ℤ) < 2 ^ 32 :=
    (Int.ofNat_le.mpr hle).trans_lt (by norm_num [nsPerS])
  obtain ⟨ns, hcast, hval⟩ := castU32_of_mem (Int.natCast_nonneg _) hns
  refine ⟨ns, ?_, Int.ofNat_inj.mp hval⟩
  rw [nanosecOf, mul_of_lt hmul, Option.bind_eq_bind, Option.bind_some, add_of_lt hadd,
    Option.bind_some, div_of_pos (by norm_num), Option.bind_some, ← rescale_fractions, hcast]

/-! ### Counted in nanoseconds -/

/-- Seconds and nanoseconds, in nanoseconds. -/
def nsAt (sec : ℤ) (ns : ℕ) : ℤ := sec * nsPerS + ns

/-- The last nanosecond that the API has. -/
def maxNs : ℤ := 2 ^ 31 * nsPerS - 1

section

variable {sec sec' : ℤ} {ns ns' : ℕ}

theorem nsAt_carry : nsAt (sec + 1) 0 = nsAt sec nsPerS := by
  rw [nsAt, nsAt]
  push_cast
  ring

theorem place_le_iff (h : ns < nsPerS) (h' : ns' < nsPerS) :
    toLex (sec, ns) ≤ toLex (sec', ns') ↔ nsAt sec ns ≤ nsAt sec' ns' := by
  rw [Prod.Lex.toLex_le_toLex, nsAt, nsAt]
  simp only [nsPerS] at h h' ⊢
  push_cast
  omega

theorem place_lt_iff (h : ns < nsPerS) (h' : ns' < nsPerS) :
    toLex (sec, ns) < toLex (sec', ns') ↔ nsAt sec ns < nsAt sec' ns' := by
  rw [Prod.Lex.toLex_lt_toLex, nsAt, nsAt]
  simp only [nsPerS] at h h' ⊢
  push_cast
  omega

/-- Whole seconds and the rest are known from the nanoseconds. -/
theorem eq_of_nsAt (h : ns < nsPerS) (h' : ns' < nsPerS) (he : nsAt sec ns = nsAt sec' ns') :
    sec = sec' ∧ ns = ns' := by
  rw [nsAt, nsAt] at he
  simp only [nsPerS] at h h' he
  push_cast at he
  omega

/-- Below the last nanosecond iff within the seconds that the API has. -/
theorem nsAt_le_max (h : ns < nsPerS) : nsAt sec ns ≤ maxNs ↔ sec < 2 ^ 31 := by
  rw [nsAt, maxNs]
  simp only [nsPerS] at h ⊢
  push_cast
  omega

theorem nsAt_max : nsAt 0x7fffffff 999999999 = maxNs := by
  norm_num [nsAt, maxNs, nsPerS]

end

theorem Time.ext {t t' : Time} (hs : t.sec.toInt = t'.sec.toInt)
    (hn : t.nanosec.toNat = t'.nanosec.toNat) : t = t' := by
  cases t
  cases t'
  rw [Time.mk.injEq]
  exact ⟨Int32.toInt_inj.mp hs, UInt32.toNat_inj.mp hn⟩

theorem duration_ext {d d' : Duration} (hs : d.sec.toInt = d'.sec.toInt)
    (hn : d.nanosec.toNat = d'.nanosec.toNat) : d = d' := by
  cases d
  cases d'
  rw [Duration.mk.injEq]
  exact ⟨Int32.toInt_inj.mp hs, UInt32.toNat_inj.mp hn⟩

theorem rescale_le_second (fraction : UInt32) :
    rescale fractions nsPerS fraction.toNat ≤ nsPerS :=
  rescale_le_whole fractions_pos (Nat.le_of_lt fraction.toNat_lt)

theorem carry_spec (seconds ns : UInt32) (hle : ns.toNat ≤ nsPerS) :
    ∃ sec64 ns', carry seconds.toNat ns = some (sec64, ns') ∧ ns'.toNat < nsPerS ∧
      nsAt sec64 ns'.toNat = nsAt seconds.toNat ns.toNat := by
  unfold carry
  split
  next heq =>
    have hadd : seconds.toNat + 1 < u64 := by
      have hsec : seconds.toNat < 2 ^ 32 := seconds.toNat_lt
      exact (Nat.succ_le_of_lt hsec).trans_lt (by norm_num [u64])
    rw [add_of_lt hadd]
    refine ⟨_, _, rfl, nsPerS_pos, ?_⟩
    rw [heq, ← nsAt_carry]
    rfl
  next hne => exact ⟨_, _, rfl, lt_of_le_of_ne hle hne, rfl⟩

/-- The time nearest to a timestamp, or the last one. -/
theorem toTime_spec (ts : RtpsTimestamp) : ∃ t, toTime ts = some t ∧ t.nanosec.toNat < nsPerS ∧
    nsAt t.sec.toInt t.nanosec.toNat =
      min (nsAt ts.seconds.toNat (rescale fractions nsPerS ts.fraction.toNat)) maxNs := by
  obtain ⟨ns, hns, hval⟩ := nanosecOf_eq ts.fraction
  have hle := rescale_le_second ts.fraction
  rw [← hval] at hle ⊢
  obtain ⟨sec64, ns', hcarry, hlt, hat⟩ := carry_spec ts.seconds ns hle
  rw [← hat, toTime, hns, Option.bind_eq_bind, Option.bind_some, hcarry, Option.bind_eq_bind,
    Option.bind_some]
  dsimp only
  by_cases hmax : 0x7fffffff < sec64
  · have hbeyond : ¬ nsAt (sec64 : ℤ) ns'.toNat ≤ maxNs := by
      rw [nsAt_le_max hlt]
      push_cast
      omega
    rw [if_pos hmax, min_eq_right (le_of_not_ge hbeyond)]
    exact ⟨_, rfl, by decide, nsAt_max⟩
  · have hwithin : (sec64 : ℤ) < 2 ^ 31 := by
      push_cast
      omega
    obtain ⟨sec, hcast, hsec⟩ := castI32_of_mem (by omega) hwithin
    rw [if_neg hmax, hcast, min_eq_left ((nsAt_le_max hlt).mpr hwithin)]
    refine ⟨_, rfl, hlt, ?_⟩
    rw [hsec]

/-- The duration nearest to a wire duration, or the last one. -/
theorem toDuration_spec {d : RtpsDuration} (hfin : isInfinite d = false) :
    ∃ r, toDuration d = some r ∧ r.nanosec.toNat < nsPerS ∧
      nsAt r.sec.toInt r.nanosec.toNat =
        min (nsAt d.seconds.toInt (rescale fractions nsPerS d.fraction.toNat)) maxNs := by
  obtain ⟨ns, hns, hval⟩ := nanosecOf_eq d.fraction
  have hle := rescale_le_second d.fraction
  have hsec : d.seconds.toInt < 2 ^ 31 := d.seconds.toInt_lt
  rw [← hval] at hle ⊢
  rw [toDuration, hfin, if_neg Bool.false_ne_true, hns, Option.bind_eq_bind, Option.bind_some]
  by_cases heq : ns.toNat = nsPerS
  · rw [if_pos heq, heq, ← nsAt_carry]
    by_cases hlast : d.seconds = 0x7fffffff
    · rw [if_pos hlast, hlast]
      exact ⟨_, rfl, by decide, by decide⟩
    · have hnext : d.seconds.toInt + 1 < 2 ^ 31 := by
        have hne : d.seconds.toInt ≠ 0x7fffffff := fun h => hlast (Int32.toInt_inj.mp h)
        omega
      obtain ⟨sec, hcast, hval'⟩ := castI32_of_mem
        (d.seconds.le_toInt.trans (Int.le_add_one le_rfl)) hnext
      rw [if_neg hlast, hcast, min_eq_left ((nsAt_le_max nsPerS_pos).mpr hnext)]
      refine ⟨_, rfl, nsPerS_pos, ?_⟩
      rw [hval']
      rfl
  · have hlt : ns.toNat < nsPerS := lt_of_le_of_ne hle heq
    rw [if_neg heq, min_eq_left ((nsAt_le_max hlt).mpr hsec)]
    exact ⟨_, rfl, hlt, rfl⟩

/-- Durations that are not infinite, of nanoseconds below a second, as they go on the wire. -/
theorem fractionOf_cast {nanosec : UInt32} (h : nanosec.toNat < nsPerS) :
    ∃ fraction, castU32 (rescale nsPerS fractions nanosec.toNat) = some fraction ∧
      fraction.toNat = rescale nsPerS fractions nanosec.toNat := by
  have hlt : rescale nsPerS fractions nanosec.toNat < fractions :=
    rescale_lt_whole nsPerS_pos nsPerS_lt_fractions.le h
  obtain ⟨fraction, hcast, hval⟩ := castU32_of_mem (Int.natCast_nonneg _)
    ((Int.ofNat_lt.mpr hlt).trans_le (by norm_num [fractions]))
  exact ⟨fraction, hcast, Int.ofNat_inj.mp hval⟩

theorem fromTime_spec {t : Time} (hsec : 0 ≤ t.sec.toInt) (hns : t.nanosec.toNat < nsPerS) :
    ∃ ts, fromTime t = some ts ∧ (ts.seconds.toNat : ℤ) = t.sec.toInt ∧
      ts.fraction.toNat = rescale nsPerS fractions t.nanosec.toNat := by
  obtain ⟨fraction, hfrac, hval⟩ := fractionOf_cast hns
  obtain ⟨seconds, hcast, hval'⟩ := castU32_of_mem hsec
    (t.sec.toInt_lt.trans (by norm_num))
  rw [fromTime, fractionOf_eq, Option.bind_eq_bind, Option.bind_some, hcast, Option.bind_eq_bind,
    Option.bind_some, hfrac]
  exact ⟨_, rfl, hval', hval⟩

theorem fromDuration_spec {d : Duration} (hfin : d.isInfinite = false)
    (hns : d.nanosec.toNat < nsPerS) :
    ∃ r, fromDuration d = some r ∧ r.seconds = d.sec ∧
      r.fraction.toNat = rescale nsPerS fractions d.nanosec.toNat := by
  obtain ⟨fraction, hfrac, hval⟩ := fractionOf_cast hns
  rw [fromDuration, hfin, if_neg Bool.false_ne_true, fractionOf_eq, Option.bind_eq_bind,
    Option.bind_some, hfrac]
  exact ⟨_, rfl, rfl, hval⟩

/-! ### The order of durations -/

theorem then_eq_lt {x y : ℤ} {n m : ℕ} :
    (compare x y).then (compare n m) = .lt ↔ toLex (x, n) < toLex (y, m) := by
  rw [Prod.Lex.toLex_lt_toLex, Ordering.then_eq_lt, compare_lt_iff_lt, compare_eq_iff_eq,
    compare_lt_iff_lt]

theorem then_eq_gt {x y : ℤ} {n m : ℕ} :
    (compare x y).then (compare n m) = .gt ↔ toLex (y, m) < toLex (x, n) := by
  rw [Prod.Lex.toLex_lt_toLex, Ordering.then_eq_gt, compare_gt_iff_gt, compare_eq_iff_eq,
    compare_gt_iff_gt, eq_comm]

theorem le_infinite (d : Duration) : durationPlace d ≤ durationPlace Duration.infinite := by
  have hsec : d.sec.toInt < 2 ^ 31 := d.sec.toInt_lt
  have hns : d.nanosec.toNat < 2 ^ 32 := d.nanosec.toNat_lt
  have hinf : durationPlace Duration.infinite = toLex ((0x7fffffff : ℤ), 0xffffffff) := rfl
  rw [hinf, durationPlace, Prod.Lex.toLex_le_toLex]
  rcases lt_or_eq_of_le (Int.le_sub_one_of_lt hsec) with hlt | heq
  · exact .inl hlt
  · exact .inr ⟨heq, Nat.le_sub_one_of_lt hns⟩

theorem eq_infinite_iff {d : Duration} :
    d.isInfinite = true ↔ durationPlace d = durationPlace Duration.infinite := by
  rw [Duration.isInfinite, beq_iff_eq]
  constructor
  · rintro rfl
    rfl
  · intro h
    obtain ⟨hsec, hns⟩ := Prod.mk.inj (toLex.injective h)
    exact duration_ext hsec hns

theorem lt_infinite {d : Duration} (h : d.isInfinite = false) :
    durationPlace d < durationPlace Duration.infinite := by
  refine lt_of_le_of_ne (le_infinite d) fun heq => ?_
  rw [eq_infinite_iff.mpr heq] at h
  cases h

theorem order_lt_iff {a b : Duration} : order a b = .lt ↔ durationPlace a < durationPlace b := by
  unfold order
  cases ha : a.isInfinite <;> cases hb : b.isInfinite
  · exact then_eq_lt
  · rw [eq_infinite_iff.mp hb]
    exact ⟨fun _ => lt_infinite ha, fun _ => rfl⟩
  · rw [eq_infinite_iff.mp ha]
    exact ⟨fun h => (nomatch h), fun h => absurd h (le_infinite b).not_gt⟩
  · rw [eq_infinite_iff.mp ha, eq_infinite_iff.mp hb]
    exact ⟨fun h => (nomatch h), fun h => absurd h (lt_irrefl _)⟩

theorem order_gt_iff {a b : Duration} : order a b = .gt ↔ durationPlace b < durationPlace a := by
  unfold order
  cases ha : a.isInfinite <;> cases hb : b.isInfinite
  · exact then_eq_gt
  · rw [eq_infinite_iff.mp hb]
    exact ⟨fun h => (nomatch h), fun h => absurd h (le_infinite a).not_gt⟩
  · rw [eq_infinite_iff.mp ha]
    exact ⟨fun _ => lt_infinite hb, fun _ => rfl⟩
  · rw [eq_infinite_iff.mp ha, eq_infinite_iff.mp hb]
    exact ⟨fun h => (nomatch h), fun h => absurd h (lt_irrefl _)⟩

/-! ### There and back -/

/-- A time since the epoch, of less than a second of nanoseconds. -/
structure Time.Meant (t : Time) : Prop where
  sec : 0 ≤ t.sec.toInt
  nanosec : t.nanosec.toNat < nsPerS

/-- A finite duration, of less than a second of nanoseconds. -/
structure Finite (d : Duration) : Prop where
  finite : d.isInfinite = false
  nanosec : d.nanosec.toNat < nsPerS

theorem toTime_fromTime {t : Time} (h : t.Meant) :
    ∃ ts, fromTime t = some ts ∧ toTime ts = some t := by
  obtain ⟨ts, hfrom, hsec, hfrac⟩ := fromTime_spec h.sec h.nanosec
  obtain ⟨t', hto, hns, hat⟩ := toTime_spec ts
  have hmax : nsAt t.sec.toInt t.nanosec.toNat ≤ maxNs :=
    (nsAt_le_max h.nanosec).mpr t.sec.toInt_lt
  rw [hsec, hfrac, rescale_rescale nsPerS_pos nsPerS_lt_fractions, min_eq_left hmax] at hat
  obtain ⟨hsec', hns'⟩ := eq_of_nsAt hns h.nanosec hat
  refine ⟨ts, hfrom, ?_⟩
  rw [hto, Time.ext hsec' hns']

theorem not_infinite_of_fraction {d : Duration} {r : RtpsDuration} (h : d.nanosec.toNat < nsPerS)
    (hfrac : r.fraction.toNat = rescale nsPerS fractions d.nanosec.toNat) :
    isInfinite r = false := by
  by_contra hinf
  rw [Bool.not_eq_false, isInfinite, beq_iff_eq] at hinf
  -- the way back from the largest fraction is a full second
  have hback := rescale_rescale (n := d.nanosec.toNat) nsPerS_pos nsPerS_lt_fractions
  rw [← hfrac, hinf] at hback
  have hsecond : rescale fractions nsPerS rtpsInfinite.fraction.toNat = nsPerS := by decide
  omega

theorem toDuration_fromDuration {d : Duration} (h : Finite d) :
    ∃ r, fromDuration d = some r ∧ isInfinite r = false ∧ toDuration r = some d := by
  obtain ⟨r, hfrom, hsec, hfrac⟩ := fromDuration_spec h.finite h.nanosec
  have hfin := not_infinite_of_fraction h.nanosec hfrac
  obtain ⟨d', hto, hns, hat⟩ := toDuration_spec hfin
  have hmax : nsAt d.sec.toInt d.nanosec.toNat ≤ maxNs :=
    (nsAt_le_max h.nanosec).mpr d.sec.toInt_lt
  rw [hsec, hfrac, rescale_rescale nsPerS_pos nsPerS_lt_fractions, min_eq_left hmax] at hat
  obtain ⟨hsec', hns'⟩ := eq_of_nsAt hns h.nanosec hat
  refine ⟨r, hfrom, hfin, ?_⟩
  rw [hto, duration_ext hsec' hns']

/-! ### Order is kept -/

/-- Fewer nanoseconds of a second are a smaller fraction. -/
theorem rescale_place_lt {sec sec' : ℤ} {ns ns' : ℕ} (h : toLex (sec, ns) < toLex (sec', ns')) :
    toLex (sec, rescale nsPerS fractions ns) < toLex (sec', rescale nsPerS fractions ns') := by
  rw [Prod.Lex.toLex_lt_toLex] at h ⊢
  exact h.imp_right fun h => ⟨h.1, rescale_lt nsPerS_pos nsPerS_lt_fractions.le h.2⟩

theorem fromTime_lt {t t' : Time} (h : t.Meant) (h' : t'.Meant) (hlt : t.place < t'.place) :
    ∃ ts ts', fromTime t = some ts ∧ fromTime t' = some ts' ∧
      timestampPlace ts < timestampPlace ts' := by
  obtain ⟨ts, hfrom, hsec, hfrac⟩ := fromTime_spec h.sec h.nanosec
  obtain ⟨ts', hfrom', hsec', hfrac'⟩ := fromTime_spec h'.sec h'.nanosec
  refine ⟨ts, ts', hfrom, hfrom', ?_⟩
  rw [timestampPlace, timestampPlace, hsec, hsec', hfrac, hfrac']
  exact rescale_place_lt hlt

theorem rtpsDurationPlace_lt_infinite {r : RtpsDuration} (h : isInfinite r = false) :
    rtpsDurationPlace r < rtpsDurationPlace rtpsInfinite := by
  -- as for durations of the API, of the same fields
  refine lt_infinite (d := ⟨r.seconds, r.fraction⟩) ?_
  by_contra hinf
  rw [Bool.not_eq_false, Duration.isInfinite, beq_iff_eq, Duration.infinite,
    Duration.mk.injEq] at hinf
  cases r
  rw [isInfinite, rtpsInfinite, beq_eq_false_iff_ne, Ne, RtpsDuration.mk.injEq] at h
  exact h hinf

theorem fromDuration_lt {d d' : Duration} (h : d.isInfinite = true ∨ Finite d)
    (h' : d'.isInfinite = true ∨ Finite d') (hlt : order d d' = .lt) :
    ∃ r r', fromDuration d = some r ∧ fromDuration d' = some r' ∧
      rtpsDurationPlace r < rtpsDurationPlace r' := by
  rw [order_lt_iff] at hlt
  rcases h with hinf | h
  · rw [eq_infinite_iff.mp hinf] at hlt
    exact absurd hlt (le_infinite d').not_gt
  obtain ⟨r, hfrom, hsec, hfrac⟩ := fromDuration_spec h.finite h.nanosec
  rcases h' with hinf | h'
  · refine ⟨r, rtpsInfinite, hfrom, by rw [fromDuration, if_pos hinf], ?_⟩
    exact rtpsDurationPlace_lt_infinite (not_infinite_of_fraction h.nanosec hfrac)
  · obtain ⟨r', hfrom', hsec', hfrac'⟩ := fromDuration_spec h'.finite h'.nanosec
    refine ⟨r, r', hfrom, hfrom', ?_⟩
    rw [rtpsDurationPlace, rtpsDurationPlace, hsec, hsec', hfrac, hfrac']
    exact rescale_place_lt hlt

/-- A later wire value is of no fewer nanoseconds. -/
theorem nsAt_rescale_mono {sec sec' : ℤ} {f f' : UInt32}
    (h : toLex (sec, f.toNat) ≤ toLex (sec', f'.toNat)) :
    nsAt sec (rescale fractions nsPerS f.toNat) ≤
      nsAt sec' (rescale fractions nsPerS f'.toNat) := by
  have hle := rescale_le_second f
  rw [nsAt, nsAt]
  rcases (Prod.Lex.toLex_le_toLex).mp h with hlt | ⟨rfl, hfrac⟩
  · have hsec : (sec + 1) * (nsPerS : ℤ) ≤ sec' * nsPerS :=
      mul_le_mul_of_nonneg_right hlt (Int.natCast_nonneg _)
    have hns : (rescale fractions nsPerS f.toNat : ℤ) ≤ nsPerS := Int.ofNat_le.mpr hle
    rw [add_mul, one_mul] at hsec
    have hnonneg : (0 : ℤ) ≤ rescale fractions nsPerS f'.toNat := Int.natCast_nonneg _
    linarith
  · have hns : (rescale fractions nsPerS f.toNat : ℤ) ≤ rescale fractions nsPerS f'.toNat :=
      Int.ofNat_le.mpr (rescale_mono hfrac)
    linarith

theorem toTime_le {ts ts' : RtpsTimestamp} (h : timestampPlace ts ≤ timestampPlace ts') :
    ∃ t t', toTime ts = some t ∧ toTime ts' = some t' ∧ t.place ≤ t'.place := by
  obtain ⟨t, hto, hns, hat⟩ := toTime_spec ts
  obtain ⟨t', hto', hns', hat'⟩ := toTime_spec ts'
  refine ⟨t, t', hto, hto', ?_⟩
  rw [Time.place, Time.place, place_le_iff hns hns', hat, hat']
  exact min_le_min_right maxNs (nsAt_rescale_mono h)

theorem toDuration_le {r r' : RtpsDuration} (h : rtpsDurationPlace r ≤ rtpsDurationPlace r') :
    ∃ d d', toDuration r = some d ∧ toDuration r' = some d' ∧ order d d' ≠ .gt := by
  cases hfin' : isInfinite r' with
  | true =>
    have hto' : toDuration r' = some Duration.infinite := by rw [toDuration, if_pos hfin']
    have hle : ∀ d, order d Duration.infinite ≠ .gt := fun d hgt =>
      (le_infinite d).not_gt (order_gt_iff.mp hgt)
    cases hfin : isInfinite r with
    | true => exact ⟨_, _, by rw [toDuration, if_pos hfin], hto', hle _⟩
    | false =>
      obtain ⟨d, hto, -, -⟩ := toDuration_spec hfin
      exact ⟨d, _, hto, hto', hle d⟩
  | false =>
    have hfin : isInfinite r = false := by
      by_contra hinf
      rw [Bool.not_eq_false, isInfinite, beq_iff_eq] at hinf
      rw [hinf] at h
      exact h.not_gt (rtpsDurationPlace_lt_infinite hfin')
    obtain ⟨d, hto, hns, hat⟩ := toDuration_spec hfin
    obtain ⟨d', hto', hns', hat'⟩ := toDuration_spec hfin'
    refine ⟨d, d', hto, hto', fun hgt => ?_⟩
    rw [order_gt_iff, durationPlace, durationPlace, place_lt_iff hns' hns, hat, hat'] at hgt
    exact hgt.not_ge (min_le_min_right maxNs (nsAt_rescale_mono h))

/-- Received timestamps are converted in the same way. -/
theorem toTime_eq (ts : RtpsTimestamp) :
    ∃ t, toTime ts = some t ∧ Dcps.toTime ts = ⟨t.sec.toInt, t.nanosec.toNat⟩ := by
  obtain ⟨t, ht, hlt, hat⟩ := toTime_spec ts
  have hle := rescale_le_second ts.fraction
  rw [rescale_fractions] at hat hle
  simp only [nsAt, maxNs, nsPerS] at hlt hat hle
  refine ⟨t, ht, ?_⟩
  simp only [Dcps.toTime]
  generalize (ts.fraction.toNat * 1000000000 + 0x80000000) / 0x100000000 = ns at hat hle ⊢
  split_ifs <;> rw [Dcps.Time.mk.injEq] <;> constructor <;> omega

/-- **Time conversions are lossless and keep the order.** -/
theorem conversions_exact :
    (∀ t : Time, t.Meant → (fromTime t).bind toTime = some t) ∧
    (∀ d : Duration, Finite d → (fromDuration d).bind toDuration = some d) ∧
    (fromDuration Duration.infinite = some rtpsInfinite ∧
      toDuration rtpsInfinite = some Duration.infinite ∧
      (∀ d, Finite d → fromDuration d ≠ some rtpsInfinite) ∧
      ∀ r, toDuration r = some Duration.infinite → r = rtpsInfinite) ∧
    (∀ t t' : Time, t.Meant → t'.Meant → t.place < t'.place → ∃ ts ts', fromTime t = some ts ∧
      fromTime t' = some ts' ∧ timestampPlace ts < timestampPlace ts') ∧
    (∀ d d' : Duration, d.isInfinite = true ∨ Finite d → d'.isInfinite = true ∨ Finite d' →
      order d d' = .lt → ∃ r r', fromDuration d = some r ∧ fromDuration d' = some r' ∧
        rtpsDurationPlace r < rtpsDurationPlace r') ∧
    (∀ ts ts' : RtpsTimestamp, timestampPlace ts ≤ timestampPlace ts' →
      ∃ t t', toTime ts = some t ∧ toTime ts' = some t' ∧ t.place ≤ t'.place) ∧
    (∀ r r' : RtpsDuration, rtpsDurationPlace r ≤ rtpsDurationPlace r' →
      ∃ d d', toDuration r = some d ∧ toDuration r' = some d' ∧ order d d' ≠ .gt) ∧
    (∀ ts, toTime ts ≠ none) ∧ ∀ r, toDuration r ≠ none := by
  refine ⟨fun t h => ?_, fun d h => ?_, ⟨rfl, rfl, fun d h heq => ?_, fun r h => ?_⟩,
    fun t t' => fromTime_lt, fun d d' => fromDuration_lt, fun ts ts' => toTime_le,
    fun r r' => toDuration_le, fun ts h => ?_, fun r h => ?_⟩
  · obtain ⟨ts, hfrom, hto⟩ := toTime_fromTime h
    rw [hfrom, Option.bind_some, hto]
  · obtain ⟨r, hfrom, -, hto⟩ := toDuration_fromDuration h
    rw [hfrom, Option.bind_some, hto]
  · obtain ⟨r, hfrom, hfin, -⟩ := toDuration_fromDuration h
    rw [Option.some.inj (hfrom.symm.trans heq)] at hfin
    cases hfin
  · by_contra hne
    obtain ⟨d, hto, hns, -⟩ := toDuration_spec (beq_eq_false_iff_ne.mpr hne)
    rw [Option.some.inj (hto.symm.trans h)] at hns
    exact absurd hns (by decide)
  · obtain ⟨t, hto, -⟩ := toTime_spec ts
    rw [hto] at h
    cases h
  · obtain ⟨d, -, hto, -⟩ := toDuration_le (le_refl (rtpsDurationPlace r))
    rw [hto] at h
    cases h

theorem conversions_exact_half :
    (fromTime ⟨1700000000, 500000000⟩).bind toTime = some ⟨1700000000, 500000000⟩ :=
  conversions_exact.1 ⟨1700000000, 500000000⟩ ⟨by decide, by decide⟩

end Zzdds.Util
