import Mathlib.Algebra.Order.Floor.Ring
import Mathlib.Data.Int.Log
import Mathlib.Data.Rat.Floor
import Mathlib.Tactic

/-! # Binary floating point

A format keeps `prec` bits of a number, down to a least exponent `emin`.  `nearest` is the number of
the format nearest to a rational number, of two the even one, with no bound above; `round` makes it
an infinity from `2 ^ emax` on.  Rounding keeps the order, and changes no number of the format. -/

namespace Zzdds.Lib

/-- The integer nearest to a number, of two the even one. -/
def halfEven (q : ℚ) : ℤ :=
  if Int.fract q < 1 / 2 then ⌊q⌋
  else if 1 / 2 < Int.fract q then ⌊q⌋ + 1
  else if Even ⌊q⌋ then ⌊q⌋
  else ⌊q⌋ + 1

section HalfEven

variable {a b q : ℚ}

theorem floor_le_halfEven : ⌊q⌋ ≤ halfEven q := by
  unfold halfEven
  split_ifs <;> omega

theorem halfEven_le_floor : halfEven q ≤ ⌊q⌋ + 1 := by
  unfold halfEven
  split_ifs <;> omega

@[simp] theorem halfEven_intCast (n : ℤ) : halfEven n = n := by
  simp [halfEven]

theorem halfEven_mono (h : a ≤ b) : halfEven a ≤ halfEven b := by
  rcases (Int.floor_mono h).lt_or_eq with hlt | heq
  · calc halfEven a ≤ ⌊a⌋ + 1 := halfEven_le_floor
      _ ≤ ⌊b⌋ := hlt
      _ ≤ halfEven b := floor_le_halfEven
  · have hfract : Int.fract a ≤ Int.fract b := by
      rw [Int.fract, Int.fract, heq]
      exact sub_le_sub_right h _
    unfold halfEven
    rw [heq]
    split_ifs <;> first | omega | (exfalso; linarith)

theorem halfEven_neg : halfEven (-q) = -halfEven q := by
  by_cases hq : Int.fract q = 0
  · have hint : q = (⌊q⌋ : ℤ) := by
      have hsum := Int.floor_add_fract q
      rw [hq, add_zero] at hsum
      exact hsum.symm
    rw [hint, ← Int.cast_neg, halfEven_intCast, halfEven_intCast]
  · have hfract : Int.fract (-q) = 1 - Int.fract q := Int.fract_neg hq
    have hfloor : ⌊-q⌋ = -⌊q⌋ - 1 := by
      have hsum := Int.floor_add_fract (-q)
      have hsum' := Int.floor_add_fract q
      rw [hfract] at hsum
      have : ((⌊-q⌋ : ℤ) : ℚ) = ((-⌊q⌋ - 1 : ℤ) : ℚ) := by
        push_cast
        linarith
      exact_mod_cast this
    unfold halfEven
    rw [hfract, hfloor]
    have heven : Even (-⌊q⌋ - 1) ↔ ¬Even ⌊q⌋ := by
      rw [Int.even_sub_one, even_neg]
    simp only [heven]
    split_ifs <;> first | omega | (exfalso; linarith)

end HalfEven

structure Format where
  prec : ℕ
  emin : ℤ
  emax : ℤ
  prec_pos : 0 < prec

namespace Format

variable (f : Format)

/-- The exponent of the last bit that is kept of a number. -/
def lastBit (q : ℚ) : ℤ := max f.emin (Int.log 2 |q| + 1 - f.prec)

def nearest (q : ℚ) : ℚ := halfEven (q / 2 ^ f.lastBit q) * 2 ^ f.lastBit q

variable {f} {a b q : ℚ}

theorem lastBit_neg : f.lastBit (-q) = f.lastBit q := by rw [lastBit, abs_neg, lastBit]

theorem nearest_neg : f.nearest (-q) = -f.nearest q := by
  rw [nearest, lastBit_neg, neg_div, halfEven_neg, Int.cast_neg, neg_mul, nearest]

@[simp] theorem nearest_zero : f.nearest 0 = 0 := by
  have h : halfEven 0 = 0 := halfEven_intCast 0
  rw [nearest, zero_div, h, Int.cast_zero, zero_mul]

theorem nearest_le {m : ℤ} (h : q ≤ m * 2 ^ f.lastBit q) : f.nearest q ≤ m * 2 ^ f.lastBit q := by
  have hpow : (0 : ℚ) < 2 ^ f.lastBit q := by positivity
  have hle : halfEven (q / 2 ^ f.lastBit q) ≤ m :=
    (halfEven_mono ((div_le_iff₀ hpow).2 h)).trans_eq (halfEven_intCast m)
  exact mul_le_mul_of_nonneg_right (by exact_mod_cast hle) hpow.le

theorem le_nearest {m : ℤ} (h : m * 2 ^ f.lastBit q ≤ q) : m * 2 ^ f.lastBit q ≤ f.nearest q := by
  have hpow : (0 : ℚ) < 2 ^ f.lastBit q := by positivity
  have hle : m ≤ halfEven (q / 2 ^ f.lastBit q) :=
    (halfEven_intCast m).symm.trans_le (halfEven_mono ((le_div_iff₀ hpow).2 h))
  exact mul_le_mul_of_nonneg_right (by exact_mod_cast hle) hpow.le

theorem nearest_eq {m : ℤ} (h : q = m * 2 ^ f.lastBit q) : f.nearest q = q :=
  le_antisymm ((nearest_le h.le).trans_eq h.symm) (h.le.trans (le_nearest h.ge))

/-- A power of two whose exponent is not below that of the last bit is a multiple of it. -/
theorem pow_eq_mul {e k : ℤ} (h : e ≤ k) : ((2 ^ (k - e).toNat : ℤ) : ℚ) * 2 ^ e = 2 ^ k := by
  have hcast : ((2 ^ (k - e).toNat : ℤ) : ℚ) = (2 : ℚ) ^ (k - e) := by
    rw [Int.cast_pow, Int.cast_ofNat, ← zpow_natCast, Int.toNat_of_nonneg (by omega)]
  rw [hcast, ← zpow_add₀ two_ne_zero, sub_add_cancel]

theorem nearest_le_pow {k : ℤ} (hk : f.lastBit q ≤ k) (h : q ≤ 2 ^ k) : f.nearest q ≤ 2 ^ k := by
  rw [← pow_eq_mul hk] at h ⊢
  exact nearest_le h

theorem pow_le_nearest {k : ℤ} (hk : f.lastBit q ≤ k) (h : 2 ^ k ≤ q) : 2 ^ k ≤ f.nearest q := by
  rw [← pow_eq_mul hk] at h ⊢
  exact le_nearest h

theorem nearest_nonneg (h : 0 ≤ q) : 0 ≤ f.nearest q := by
  have hle : ((0 : ℤ) : ℚ) * 2 ^ f.lastBit q ≤ q := by rwa [Int.cast_zero, zero_mul]
  have := le_nearest hle
  rwa [Int.cast_zero, zero_mul] at this

theorem nearest_mono_of_pos (ha : 0 < a) (h : a ≤ b) : f.nearest a ≤ f.nearest b := by
  have hb : 0 < b := ha.trans_le h
  have hlog : Int.log 2 |a| ≤ Int.log 2 |b| := by
    rw [abs_of_pos ha, abs_of_pos hb]
    exact Int.log_mono_right ha h
  have hle : f.lastBit a ≤ f.lastBit b := max_le_max le_rfl (by omega)
  rcases hle.lt_or_eq with hlt | heq
  · -- the power of two that begins the larger one's range stands between them
    have hprec := f.prec_pos
    have hlast : f.lastBit b = Int.log 2 |b| + 1 - f.prec := by
      rw [lastBit, lastBit] at hlt
      rw [lastBit]
      omega
    have hexp : Int.log 2 a + 1 ≤ Int.log 2 b := by
      have hlower : Int.log 2 |a| + 1 - f.prec ≤ f.lastBit a := le_max_right _ _
      rw [abs_of_pos ha] at hlower
      rw [abs_of_pos hb] at hlast
      omega
    rw [abs_of_pos hb] at hlast
    have hlow : a ≤ 2 ^ Int.log 2 b := by
      have hlt' : a < 2 ^ (Int.log 2 a + 1) := by
        exact_mod_cast Int.lt_zpow_succ_log_self one_lt_two a
      exact hlt'.le.trans (zpow_le_zpow_right₀ one_le_two hexp)
    have hhigh : (2 : ℚ) ^ Int.log 2 b ≤ b := by
      exact_mod_cast Int.zpow_log_le_self one_lt_two hb
    exact (nearest_le_pow (by omega) hlow).trans (pow_le_nearest (by omega) hhigh)
  · have hpow : (0 : ℚ) < 2 ^ f.lastBit b := by positivity
    rw [nearest, nearest, heq]
    have hdiv : a / 2 ^ f.lastBit b ≤ b / 2 ^ f.lastBit b := div_le_div_of_nonneg_right h hpow.le
    exact mul_le_mul_of_nonneg_right (by exact_mod_cast halfEven_mono hdiv) hpow.le

theorem nearest_mono (h : a ≤ b) : f.nearest a ≤ f.nearest b := by
  rcases lt_or_ge 0 a with ha | ha
  · exact nearest_mono_of_pos ha h
  · have hneg : f.nearest a ≤ 0 := by
      have := nearest_nonneg (f := f) (neg_nonneg.2 ha)
      rw [nearest_neg] at this
      linarith
    rcases le_or_gt 0 b with hb | hb
    · exact hneg.trans (nearest_nonneg hb)
    · have := nearest_mono_of_pos (f := f) (neg_pos.2 hb) (neg_le_neg h)
      rw [nearest_neg, nearest_neg] at this
      linarith

/-- **Numbers of the format.**  What has at most `prec` bits, the last of them not below `emin`,
is kept. -/
theorem nearest_of_lt {m e : ℤ} (he : f.emin ≤ e) (hm : |m| < 2 ^ f.prec) (hq : q = m * 2 ^ e) :
    f.nearest q = q := by
  rcases eq_or_ne m 0 with rfl | hne
  · rw [hq, Int.cast_zero, zero_mul, nearest_zero]
  · have hlog : Int.log 2 |q| < f.prec + e := by
      have habs : |q| = ((|m| : ℤ) : ℚ) * 2 ^ e := by
        rw [hq, abs_mul, abs_of_pos (show (0 : ℚ) < 2 ^ e by positivity), Int.cast_abs]
      have hpos : 0 < |q| := by
        rw [habs]
        have : (0 : ℚ) < ((|m| : ℤ) : ℚ) := by exact_mod_cast abs_pos.2 hne
        positivity
      have hlt : |q| < (2 : ℚ) ^ ((f.prec : ℤ) + e) := by
        rw [habs, zpow_add₀ two_ne_zero, zpow_natCast]
        have : ((|m| : ℤ) : ℚ) < 2 ^ f.prec := by exact_mod_cast hm
        exact mul_lt_mul_of_pos_right this (by positivity)
      exact (Int.lt_zpow_iff_log_lt one_lt_two hpos).1 (by exact_mod_cast hlt)
    have hle : f.lastBit q ≤ e := max_le he (by omega)
    have hmul : q = ((m * 2 ^ (e - f.lastBit q).toNat : ℤ) : ℚ) * 2 ^ f.lastBit q := by
      rw [Int.cast_mul, mul_assoc, pow_eq_mul hle]
      exact hq
    exact nearest_eq hmul

/-- What a number is rounded to is a number of the format. -/
theorem exists_nearest_eq (f : Format) (q : ℚ) :
    ∃ m e : ℤ, f.emin ≤ e ∧ |m| < 2 ^ f.prec ∧ f.nearest q = m * 2 ^ e := by
  have hprec := f.prec_pos
  have hpow : (0 : ℚ) < 2 ^ f.lastBit q := by positivity
  have hlt : |q| ≤ 2 ^ (f.prec : ℤ) * 2 ^ f.lastBit q := by
    have hlog : |q| < 2 ^ (Int.log 2 |q| + 1) := by
      exact_mod_cast Int.lt_zpow_succ_log_self one_lt_two |q|
    have hexp : Int.log 2 |q| + 1 ≤ f.prec + f.lastBit q := by
      have hlast : Int.log 2 |q| + 1 - f.prec ≤ f.lastBit q := le_max_right _ _
      omega
    rw [← zpow_add₀ two_ne_zero]
    exact hlog.le.trans (zpow_le_zpow_right₀ one_le_two hexp)
  have hcast : ((2 ^ f.prec : ℤ) : ℚ) = 2 ^ (f.prec : ℤ) := by
    rw [Int.cast_pow, Int.cast_ofNat, zpow_natCast]
  have hdiv := abs_le.1 hlt
  have hle : |halfEven (q / 2 ^ f.lastBit q)| ≤ 2 ^ f.prec := by
    rw [abs_le]
    constructor
    · rw [← halfEven_intCast (-2 ^ f.prec)]
      refine halfEven_mono ((le_div_iff₀ hpow).2 ?_)
      rw [Int.cast_neg, hcast, neg_mul]
      exact hdiv.1
    · rw [← halfEven_intCast (2 ^ f.prec)]
      refine halfEven_mono ((div_le_iff₀ hpow).2 ?_)
      rw [hcast]
      exact hdiv.2
  have hmin : f.emin ≤ f.lastBit q := le_max_left _ _
  rcases hle.lt_or_eq with hlt | heq
  · exact ⟨_, _, hmin, hlt, rfl⟩
  · -- a carry: the number is a power of two, and one bit holds it
    have hhalf : (2 : ℤ) ^ f.prec = 2 ^ (f.prec - 1) * 2 := by
      rw [← pow_succ, Nat.sub_add_cancel hprec]
    have hlt : (2 : ℤ) ^ (f.prec - 1) < 2 ^ f.prec := by
      have : (0 : ℤ) < 2 ^ (f.prec - 1) := by positivity
      omega
    obtain ⟨m, hm, habs⟩ : ∃ m : ℤ, halfEven (q / 2 ^ f.lastBit q) = m * 2 ∧
        |m| = 2 ^ (f.prec - 1) := by
      rcases abs_choice (halfEven (q / 2 ^ f.lastBit q)) with hc | hc
      · refine ⟨2 ^ (f.prec - 1), ?_, abs_of_pos (by positivity)⟩
        rw [← hhalf, ← heq, hc]
      · refine ⟨-2 ^ (f.prec - 1), ?_, ?_⟩
        · rw [neg_mul, ← hhalf, ← heq, hc, neg_neg]
        · rw [abs_neg, abs_of_pos (by positivity)]
    refine ⟨m, f.lastBit q + 1, by omega, habs ▸ hlt, ?_⟩
    rw [nearest, hm, zpow_add_one₀ two_ne_zero, Int.cast_mul, Int.cast_ofNat]
    ring

@[simp] theorem nearest_nearest : f.nearest (f.nearest q) = f.nearest q := by
  obtain ⟨m, e, he, hm, hq⟩ := f.exists_nearest_eq q
  exact nearest_of_lt he hm hq

theorem den_nearest (f : Format) (q : ℚ) : ∃ k, (f.nearest q).den = 2 ^ k := by
  obtain ⟨m, e, -, -, hq⟩ := f.exists_nearest_eq q
  rw [hq]
  rcases le_or_gt 0 e with he | he
  · lift e to ℕ using he
    refine ⟨0, ?_⟩
    have hint : (m : ℚ) * 2 ^ (e : ℤ) = ((m * 2 ^ e : ℤ) : ℚ) := by
      rw [zpow_natCast]
      push_cast
      rfl
    rw [hint, Rat.den_intCast, pow_zero]
  · obtain ⟨k, rfl⟩ : ∃ k : ℕ, e = -k := ⟨(-e).toNat, by omega⟩
    have hdiv : (m : ℚ) * 2 ^ (-(k : ℤ)) = (m : ℚ) / ((2 ^ k : ℤ) : ℚ) := by
      rw [zpow_neg, zpow_natCast, Int.cast_pow, Int.cast_ofNat, div_eq_mul_inv]
    have hdvd : ((m : ℚ) / ((2 ^ k : ℤ) : ℚ)).den ∣ 2 ^ k := by
      have h := Rat.den_dvd m (2 ^ k)
      rw [Rat.divInt_eq_div] at h
      exact_mod_cast h
    rw [hdiv]
    obtain ⟨j, -, hj⟩ := (Nat.dvd_prime_pow Nat.prime_two).1 hdvd
    exact ⟨j, hj⟩

end Format

/-- A datum of a format.  The sign of a zero, which no comparison sees, is left out. -/
inductive Fp where
  | finite (q : ℚ)
  | inf (neg : Bool)
  | nan
deriving DecidableEq

def Format.round (f : Format) (q : ℚ) : Fp :=
  if 2 ^ f.emax ≤ |f.nearest q| then .inf (decide (q < 0)) else .finite (f.nearest q)

namespace Fp

/-- The datum in another format. -/
def convert (f : Format) : Fp → Fp
  | finite q => f.round q
  | inf neg => inf neg
  | nan => nan

def eq : Fp → Fp → Bool
  | finite a, finite b => decide (a = b)
  | inf m, inf n => m == n
  | _, _ => false

def lt : Fp → Fp → Bool
  | finite a, finite b => decide (a < b)
  | finite _, inf neg => !neg
  | inf neg, finite _ => neg
  | inf m, inf n => m && !n
  | _, _ => false

def le (x y : Fp) : Bool := lt x y || eq x y

@[simp] theorem eq_finite {a b : ℚ} : eq (finite a) (finite b) = decide (a = b) := rfl

@[simp] theorem lt_finite {a b : ℚ} : lt (finite a) (finite b) = decide (a < b) := rfl

@[simp] theorem le_finite {a b : ℚ} : le (finite a) (finite b) = decide (a ≤ b) := by
  rw [le, lt_finite, eq_finite, ← Bool.decide_or]
  exact decide_eq_decide.2 le_iff_lt_or_eq.symm

end Fp

theorem Format.round_of_lt {f : Format} {q : ℚ} (h : |f.nearest q| < 2 ^ f.emax) :
    f.round q = .finite (f.nearest q) := if_neg h.not_ge

/-- A datum of a format is kept. -/
theorem Fp.convert_convert (f : Format) (x : Fp) : (x.convert f).convert f = x.convert f := by
  cases x with
  | nan => rfl
  | inf neg => rfl
  | finite q =>
    have hround : Fp.convert f (.finite q) = f.round q := rfl
    rw [hround]
    unfold Format.round
    split_ifs with h
    · rfl
    · have hagain : Fp.convert f (.finite (f.nearest q)) = f.round (f.nearest q) := rfl
      rw [hagain, Format.round, Format.nearest_nearest, if_neg h]

def binary32 : Format := ⟨24, -149, 128, by decide⟩

def binary64 : Format := ⟨53, -1074, 1024, by decide⟩

/-- No number of 64 bits is too large for a double. -/
theorem binary64_round_intCast {n : ℤ} (h : |n| ≤ 2 ^ 63) :
    binary64.round n = .finite (binary64.nearest n) := by
  have hpow : binary64.nearest (2 ^ 63) = 2 ^ 63 := by
    refine Format.nearest_of_lt (m := 1) (e := 63) (by decide) (by decide) ?_
    norm_num
  have hle : |binary64.nearest n| ≤ 2 ^ 63 := by
    rw [← hpow]
    have hn : |(n : ℚ)| ≤ 2 ^ 63 := by exact_mod_cast h
    rw [abs_le] at hn ⊢
    refine ⟨?_, Format.nearest_mono hn.2⟩
    rw [← Format.nearest_neg]
    exact Format.nearest_mono hn.1
  have hlt : (2 : ℚ) ^ (63 : ℤ) < 2 ^ binary64.emax :=
    zpow_lt_zpow_right₀ one_lt_two (by decide)
  exact Format.round_of_lt (hle.trans_lt ((zpow_natCast (2 : ℚ) 63).symm.trans_lt hlt))

end Zzdds.Lib
