import Mathlib.Algebra.Order.Group.Int
import Mathlib.Data.Nat.Init
import Mathlib.Tactic

/-! # Numerals

Integers written in decimal, and numbers written in hexadecimal with a fixed number of digits, with
what reads them back. -/

namespace Zzdds.Lib

/-! ### Decimal -/

def decimal : ℤ → List Char
  | .ofNat n => Nat.toDigits 10 n
  | .negSucc n => '-' :: Nat.toDigits 10 (n + 1)

def readNat (cs : List Char) : Option ℕ :=
  if cs ≠ [] ∧ cs.all Char.isDigit then some (Nat.ofDigitChars 10 cs 0) else none

def readDecimal : List Char → Option ℤ
  | '-' :: cs => (readNat cs).map fun n => -(n : ℤ)
  | cs => (readNat cs).map fun n => (n : ℤ)

theorem all_isDigit_toDigits (n : ℕ) : (Nat.toDigits 10 n).all Char.isDigit = true :=
  List.all_eq_true.mpr fun _ hc => Nat.isDigit_of_mem_toDigits (by decide) (by decide) hc

/-- Only zero begins with a zero. -/
theorem head?_toDigits {n : ℕ} (hn : 0 < n) : (Nat.toDigits 10 n).head? ≠ some '0' := by
  induction n using Nat.strong_induction_on with
  | _ n ih =>
    rcases Nat.lt_or_ge n 10 with hlt | hge
    · rw [Nat.toDigits_of_lt_base hlt]
      have hdigits : ∀ n < 10, 0 < n → [n.digitChar].head? ≠ some '0' := by decide
      exact hdigits n hlt hn
    · have hrest := ih (n / 10) (by omega) (by omega)
      rw [Nat.toDigits_of_base_le (by decide) hge, List.head?_append]
      obtain ⟨c, cs, hcs⟩ := List.exists_cons_of_ne_nil (Nat.toDigits_ne_nil (n := n / 10) (b := 10))
      rw [hcs] at hrest ⊢
      exact hrest

theorem readNat_toDigits (n : ℕ) : readNat (Nat.toDigits 10 n) = some n := by
  rw [readNat, if_pos ⟨Nat.toDigits_ne_nil, all_isDigit_toDigits n⟩, Nat.ofDigitChars_ten_toDigits]

theorem readDecimal_decimal (n : ℤ) : readDecimal (decimal n) = some n := by
  cases n with
  | ofNat n =>
    have hsign : ∀ cs, Nat.toDigits 10 n ≠ '-' :: cs := by
      intro cs h
      have := all_isDigit_toDigits n
      rw [h] at this
      cases this
    rw [decimal, readDecimal.eq_def]
    split
    next cs h => exact absurd h (hsign cs)
    next => rw [readNat_toDigits]; rfl
  | negSucc n =>
    rw [decimal, readDecimal, readNat_toDigits]
    rfl

/-! ### Hexadecimal -/

/-- The last `w` digits. -/
def hex : ℕ → ℕ → List Char
  | 0, _ => []
  | w + 1, n => hex w (n / 16) ++ [(n % 16).digitChar]

def hexValue (c : Char) : Option ℕ :=
  if '0' ≤ c ∧ c ≤ '9' then some (c.toNat - '0'.toNat)
  else if 'a' ≤ c ∧ c ≤ 'f' then some (c.toNat - 'a'.toNat + 10)
  else none

def readHex (cs : List Char) : Option ℕ :=
  cs.foldlM (fun n c => (hexValue c).map fun d => 16 * n + d) 0

@[simp] theorem length_hex (w n : ℕ) : (hex w n).length = w := by
  induction w generalizing n with
  | zero => rfl
  | succ w ih => rw [hex, List.length_append, ih, List.length_singleton]

theorem hexValue_digitChar : ∀ d < 16, hexValue d.digitChar = some d := by decide

theorem readHex_hex {w n : ℕ} (hn : n < 16 ^ w) : readHex (hex w n) = some n := by
  induction w generalizing n with
  | zero =>
    obtain rfl : n = 0 := by omega
    rfl
  | succ w ih =>
    have hdiv : n / 16 < 16 ^ w := Nat.div_lt_of_lt_mul (by rwa [Nat.pow_succ'] at hn)
    have hrest := ih hdiv
    rw [readHex] at hrest
    rw [readHex, hex, List.foldlM_append, hrest]
    have hd := hexValue_digitChar (n % 16) (Nat.mod_lt _ (by decide))
    simp only [List.foldlM_cons, List.foldlM_nil, Option.bind_eq_bind, Option.bind_some, hd,
      Option.map_some, Option.pure_def]
    congr 1
    omega

theorem mem_hex {w n : ℕ} {c : Char} (h : c ∈ hex w n) : ∃ d < 16, c = d.digitChar := by
  induction w generalizing n with
  | zero => cases h
  | succ w ih =>
    rcases List.mem_append.mp h with h | h
    · exact ih h
    · exact ⟨n % 16, Nat.mod_lt _ (by decide), List.mem_singleton.mp h⟩

/-! ### Numbers in a row -/

/-- Read numbers of `w` digits each. -/
def readHexes (w : ℕ) : ℕ → List Char → Option (List ℕ)
  | 0, cs => if cs = [] then some [] else none
  | k + 1, cs => do
      let n ← readHex (cs.take w)
      let ns ← readHexes w k (cs.drop w)
      some (n :: ns)

theorem readHexes_flatMap {w : ℕ} : ∀ {ns : List ℕ}, (∀ n ∈ ns, n < 16 ^ w) →
    readHexes w ns.length (ns.flatMap (hex w)) = some ns
  | [], _ => rfl
  | n :: ns, h => by
      have hn := readHex_hex (h n List.mem_cons_self)
      have hns := readHexes_flatMap fun x hx => h x (List.mem_cons_of_mem _ hx)
      have htake : ((n :: ns).flatMap (hex w)).take w = hex w n := by
        rw [List.flatMap_cons, List.take_append_of_le_length (length_hex w n).ge,
          List.take_of_length_le (length_hex w n).le]
      have hdrop : ((n :: ns).flatMap (hex w)).drop w = ns.flatMap (hex w) := by
        rw [List.flatMap_cons, List.drop_append_of_le_length (length_hex w n).ge,
          List.drop_of_length_le (length_hex w n).le, List.nil_append]
      rw [List.length_cons, readHexes, htake, hdrop, hn, hns]
      rfl

end Zzdds.Lib
