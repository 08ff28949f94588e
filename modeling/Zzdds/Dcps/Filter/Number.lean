import Zzdds.Lib.Binary
import Zzdds.Dcps.Like

/-! # The numbers of a filter expression

What `std.fmt.parseInt` and `std.fmt.parseFloat` read.  `numberValue` is the number a text stands
for; `parseFloat` rounds it to a format.  `intText` is a decimal text for an integer. -/

namespace Zzdds.Dcps.Filter

open Lib

def zeroByte : UInt8 := 48

def minus : UInt8 := 45

def plus : UInt8 := 43

def dot : UInt8 := 46

def toLower (c : UInt8) : UInt8 := if 65 ≤ c ∧ c ≤ 90 then c + 32 else c

def eqlIgnoreCase (a b : List UInt8) : Bool := decide (a.map toLower = b.map toLower)

def charToDigit (base : ℕ) (c : UInt8) : Option ℕ :=
  let value :=
    if 48 ≤ c ∧ c ≤ 57 then c.toNat - 48
    else if 97 ≤ toLower c ∧ toLower c ≤ 122 then (toLower c).toNat - 87
    else base
  if value < base then some value else none

/-- The sign a number may begin with. -/
def splitSign : List UInt8 → Bool × List UInt8
  | [] => (false, [])
  | c :: s => if c = minus then (true, s) else if c = plus then (false, s) else (false, c :: s)

/-- The number with these digits, the first of them the highest. -/
def ofDigits (base : ℕ) (ds : List ℕ) : ℕ := Nat.ofDigits base ds.reverse

/-- `std.fmt.parseInt` in base ten, before it is asked whether the type holds the number. -/
def parseDecimal (s : List UInt8) : Option ℤ :=
  let (neg, body) := splitSign s
  if body = [] ∨ body.head? = some underscore ∨ body.getLast? = some underscore then none
  else
    match (body.filter (· ≠ underscore)).mapM (charToDigit 10) with
    | none => none
    | some ds => some (if neg then -(ofDigits 10 ds : ℤ) else ofDigits 10 ds)

/-- `parseInt` for a type that holds the numbers from `lo` to `hi`. -/
def parseInt (lo hi : ℤ) (s : List UInt8) : Option ℤ :=
  (parseDecimal s).filter fun n => decide (lo ≤ n ∧ n ≤ hi)

/-- The digits a text begins with; an underscore among them is passed over. -/
def scanDigits (base : ℕ) : List UInt8 → List ℕ × List UInt8
  | [] => ([], [])
  | c :: s =>
    match charToDigit base c with
    | some d => (d :: (scanDigits base s).1, (scanDigits base s).2)
    | none => if c = underscore then scanDigits base s else ([], c :: s)

/-- Whether `validUnderscores` lets the rest of a text pass: an underscore stands between two
digits. -/
def underscoresValidAfter (base : ℕ) (prev : Option UInt8) : List UInt8 → Bool
  | [] => true
  | c :: s =>
    (c != underscore ||
        (prev.bind (charToDigit base)).isSome && (s.head?.bind (charToDigit base)).isSome) &&
      underscoresValidAfter base (some c) s

def validUnderscores (base : ℕ) (s : List UInt8) : Bool := underscoresValidAfter base none s

/-- The exponent that may end a number, after its letter. -/
def parseScientific (s : List UInt8) : Option (ℤ × List UInt8) :=
  let (neg, rest) := splitSign s
  if (rest.head?.bind (charToDigit 10)).isSome then
    let (ds, left) := scanDigits 10 rest
    some (if neg then -(ofDigits 10 ds : ℤ) else ofDigits 10 ds, left)
  else none

/-- `parsePartialNumberBase`, of a text that is to be taken whole.  The letter of the exponent is
`e` in base ten and `p` in base sixteen, where it counts in powers of two. -/
def parseNumberBase (base : ℕ) (s : List UInt8) : Option ℚ :=
  let (whole, s₁) := scanDigits base s
  let (fraction, s₂) := if s₁.head? = some dot then scanDigits base s₁.tail else ([], s₁)
  if whole = [] ∧ fraction = [] then none
  else
    let expByte : UInt8 := if base = 16 then 112 else 101
    let mantissa : ℚ := ofDigits base (whole ++ fraction) / (base : ℚ) ^ fraction.length
    let scientific :=
      if s₂.head?.map toLower = some expByte then parseScientific s₂.tail else some (0, s₂)
    match scientific with
    | none => none
    | some (exponent, left) =>
      if left = [] ∧ validUnderscores base s then
        some (mantissa * (if base = 16 then 2 else 10) ^ exponent)
      else none

/-- `parseNumber`: a number without its sign. -/
def parseNumber : List UInt8 → Option ℚ
  | c :: x :: s =>
    if c = zeroByte ∧ toLower x = 120 then parseNumberBase 16 s else parseNumberBase 10 (c :: x :: s)
  | s => parseNumberBase 10 s

def infText : List UInt8 := [105, 110, 102]

def infinityText : List UInt8 := [105, 110, 102, 105, 110, 105, 116, 121]

def nanText : List UInt8 := [110, 97, 110]

def parseInfOrNan (neg : Bool) (s : List UInt8) : Option Fp :=
  if eqlIgnoreCase s infText || eqlIgnoreCase s infinityText then some (.inf neg)
  else if eqlIgnoreCase s nanText then some .nan
  else none

/-- What a text stands for, before it is rounded. -/
def numberValue (s : List UInt8) : Option Fp :=
  let (neg, body) := splitSign s
  match parseNumber body with
  | some q => some (.finite (if neg then -q else q))
  | none => parseInfOrNan neg body

def parseFloat (f : Format) (s : List UInt8) : Option Fp := (numberValue s).map (Fp.convert f)

section Decimal

variable {ds : List ℕ} {s : List UInt8}

def digitByte (d : ℕ) : UInt8 := UInt8.ofNat (48 + d)

/-- The decimal digits of a number; there is at least one. -/
def decimalDigits (n : ℕ) : List ℕ := if n = 0 then [0] else (Nat.digits 10 n).reverse

def natText (n : ℕ) : List UInt8 := (decimalDigits n).map digitByte

def intText (n : ℤ) : List UInt8 := if n < 0 then minus :: natText n.natAbs else natText n.natAbs

theorem charToDigit_digitByte {d : ℕ} (h : d < 10) : charToDigit 10 (digitByte d) = some d := by
  revert d
  decide

theorem digitByte_ne_underscore {d : ℕ} (h : d < 10) : digitByte d ≠ underscore := by
  revert d
  decide

theorem digitByte_not_sign {d : ℕ} (h : d < 10) : digitByte d ≠ minus ∧ digitByte d ≠ plus := by
  revert d
  decide

theorem decimalDigits_ne_nil (n : ℕ) : decimalDigits n ≠ [] := by
  unfold decimalDigits
  split_ifs with h
  · exact List.cons_ne_nil _ _
  · rw [Ne, List.reverse_eq_nil_iff]
    exact Nat.digits_ne_nil_iff_ne_zero.2 h

theorem lt_of_mem_decimalDigits {n d : ℕ} (h : d ∈ decimalDigits n) : d < 10 := by
  unfold decimalDigits at h
  split_ifs at h
  · rw [List.mem_singleton.1 h]
    decide
  · exact Nat.digits_lt_base (by decide) (List.mem_reverse.1 h)

theorem ofDigits_decimalDigits (n : ℕ) : ofDigits 10 (decimalDigits n) = n := by
  unfold decimalDigits ofDigits
  split_ifs with h
  · rw [h]
    rfl
  · rw [List.reverse_reverse, Nat.ofDigits_digits]

def digitText (ds : List ℕ) : List UInt8 := ds.map digitByte

theorem scanDigits_digitText (hds : ∀ d ∈ ds, d < 10)
    (hs : ∀ c ∈ s.head?, charToDigit 10 c = none ∧ c ≠ underscore) :
    scanDigits 10 (digitText ds ++ s) = (ds, s) := by
  induction ds with
  | nil =>
    cases s with
    | nil => rfl
    | cons c s =>
      obtain ⟨hdigit, hne⟩ := hs c rfl
      rw [digitText, List.map_nil, List.nil_append, scanDigits, hdigit]
      exact if_neg hne
  | cons d ds ih =>
    have htail := ih fun x hx => hds x (List.mem_cons_of_mem d hx)
    rw [digitText] at htail
    rw [digitText, List.map_cons, List.cons_append, scanDigits,
      charToDigit_digitByte (hds d List.mem_cons_self)]
    dsimp only
    rw [htail]

theorem underscoresValidAfter_of_not_mem {base : ℕ} (h : underscore ∉ s) (prev : Option UInt8) :
    underscoresValidAfter base prev s = true := by
  induction s generalizing prev with
  | nil => rfl
  | cons c s ih =>
    rw [List.mem_cons, not_or] at h
    have hne : (c != underscore) = true := bne_iff_ne.2 (Ne.symm h.1)
    rw [underscoresValidAfter, hne, Bool.true_or, Bool.true_and]
    exact ih h.2 _

theorem not_mem_digitText (hds : ∀ d ∈ ds, d < 10) : underscore ∉ digitText ds := by
  intro h
  obtain ⟨d, hd, he⟩ := List.mem_map.1 h
  exact digitByte_ne_underscore (hds d hd) he

theorem mapM_digitText (hds : ∀ d ∈ ds, d < 10) :
    (digitText ds).mapM (charToDigit 10) = some ds := by
  induction ds with
  | nil => rfl
  | cons d ds ih =>
    have htail := ih fun x hx => hds x (List.mem_cons_of_mem d hx)
    rw [digitText] at htail
    rw [digitText, List.map_cons, List.mapM_cons, htail,
      charToDigit_digitByte (hds d List.mem_cons_self)]
    rfl

theorem splitSign_digitText (hds : ∀ d ∈ ds, d < 10) (hne : ds ≠ []) :
    splitSign (digitText ds ++ s) = (false, digitText ds ++ s) := by
  cases ds with
  | nil => exact absurd rfl hne
  | cons d ds =>
    obtain ⟨hm, hp⟩ := digitByte_not_sign (hds d List.mem_cons_self)
    rw [digitText, List.map_cons, List.cons_append, splitSign, if_neg hm, if_neg hp]

theorem parseNumberBase_digitText (hds : ∀ d ∈ ds, d < 10) (hne : ds ≠ []) :
    parseNumberBase 10 (digitText ds) = some (ofDigits 10 ds : ℚ) := by
  have hscan := scanDigits_digitText (s := []) hds (by simp)
  rw [List.append_nil] at hscan
  have hvalid : validUnderscores 10 (digitText ds) = true :=
    underscoresValidAfter_of_not_mem (not_mem_digitText hds) none
  simp [parseNumberBase, hscan, hne, hvalid]

theorem parseNumber_digitText (hds : ∀ d ∈ ds, d < 10) (hne : ds ≠ []) :
    parseNumber (digitText ds) = some (ofDigits 10 ds : ℚ) := by
  rw [← parseNumberBase_digitText hds hne]
  match ds, hds with
  | [], _ => rfl
  | [d], _ => rfl
  | d :: e :: ds, hds =>
    have hx : ∀ e < 10, toLower (digitByte e) ≠ 120 := by decide
    refine if_neg fun h => ?_
    exact hx e (hds e (by simp)) h.2

/-- A decimal text for an integer stands for it. -/
theorem numberValue_intText (n : ℤ) : numberValue (intText n) = some (.finite n) := by
  have hlt : ∀ d ∈ decimalDigits n.natAbs, d < 10 := fun d => lt_of_mem_decimalDigits
  have hne := decimalDigits_ne_nil n.natAbs
  have hnumber : parseNumber (natText n.natAbs) = some ((n.natAbs : ℕ) : ℚ) := by
    have h := parseNumber_digitText hlt hne
    rwa [ofDigits_decimalDigits] at h
  have habs : ((n.natAbs : ℕ) : ℚ) = ((n.natAbs : ℤ) : ℚ) := (Int.cast_natCast _).symm
  unfold intText
  split_ifs with hneg
  · have hval : (n.natAbs : ℤ) = -n := by omega
    rw [numberValue, splitSign, if_pos rfl]
    dsimp only
    rw [hnumber, habs, hval, Int.cast_neg]
    dsimp only
    rw [if_pos rfl, neg_neg]
  · have hval : (n.natAbs : ℤ) = n := by omega
    have hsign := splitSign_digitText (s := []) hlt hne
    rw [List.append_nil] at hsign
    rw [numberValue, show splitSign (natText n.natAbs) = (false, natText n.natAbs) from hsign]
    dsimp only
    rw [hnumber, habs, hval]
    rfl

theorem parseDecimal_of_splitSign {neg : Bool} {n : ℕ} (hs : splitSign s = (neg, natText n)) :
    parseDecimal s = some (if neg then -(n : ℤ) else n) := by
  have hlt : ∀ d ∈ decimalDigits n, d < 10 := fun d => lt_of_mem_decimalDigits
  have hmem : underscore ∉ natText n := not_mem_digitText hlt
  have hnil : natText n ≠ [] := by
    rw [natText, Ne, List.map_eq_nil_iff]
    exact decimalDigits_ne_nil n
  have hplain : ¬ (natText n = [] ∨ (natText n).head? = some underscore ∨
      (natText n).getLast? = some underscore) := by
    rintro (h | h | h)
    · exact hnil h
    · exact hmem (List.mem_of_mem_head? h)
    · exact hmem (List.mem_of_getLast? h)
  have hfilter : (natText n).filter (· ≠ underscore) = natText n := by
    refine List.filter_eq_self.2 fun c hc => decide_eq_true ?_
    rintro rfl
    exact hmem hc
  have hdigits : (natText n).mapM (charToDigit 10) = some (decimalDigits n) :=
    mapM_digitText hlt
  rw [parseDecimal, hs]
  dsimp only
  rw [if_neg hplain, hfilter, hdigits]
  dsimp only
  rw [ofDigits_decimalDigits]

theorem splitSign_natText (n : ℕ) : splitSign (natText n) = (false, natText n) := by
  have h := splitSign_digitText (s := []) (fun d => lt_of_mem_decimalDigits)
    (decimalDigits_ne_nil n)
  rwa [List.append_nil] at h

theorem splitSign_intText (n : ℤ) : splitSign (intText n) = (decide (n < 0), natText n.natAbs) := by
  unfold intText
  split_ifs with hneg
  · rw [splitSign, if_pos rfl, decide_eq_true hneg]
  · rw [splitSign_natText, decide_eq_false hneg]

theorem parseDecimal_intText (n : ℤ) : parseDecimal (intText n) = some n := by
  rw [parseDecimal_of_splitSign (splitSign_intText n)]
  congr 1
  split_ifs with h
  · have hneg : n < 0 := of_decide_eq_true h
    omega
  · have hneg : ¬ n < 0 := fun hn => h (decide_eq_true hn)
    omega

/-- `n` tenth parts of order `k`, as an integer with an exponent. -/
def decimalText (n : ℤ) (k : ℕ) : List UInt8 := intText n ++ 101 :: minus :: natText k

theorem scanDigits_natText (n : ℕ) (hs : ∀ c ∈ s.head?, charToDigit 10 c = none ∧ c ≠ underscore) :
    scanDigits 10 (natText n ++ s) = (decimalDigits n, s) :=
  scanDigits_digitText (fun _ => lt_of_mem_decimalDigits) hs

theorem parseScientific_natText (k : ℕ) :
    parseScientific (minus :: natText k) = some (-(k : ℤ), []) := by
  have hscan := scanDigits_natText k (s := []) fun c hc => nomatch hc
  rw [List.append_nil] at hscan
  have hhead : ((natText k).head?.bind (charToDigit 10)).isSome := by
    cases hds : decimalDigits k with
    | nil => exact absurd hds (decimalDigits_ne_nil k)
    | cons d ds =>
      have hd : d < 10 := lt_of_mem_decimalDigits (hds ▸ List.mem_cons_self)
      rw [natText, hds, List.map_cons, List.head?_cons, Option.bind_some,
        charToDigit_digitByte hd]
      rfl
  rw [parseScientific, splitSign, if_pos rfl]
  dsimp only
  rw [if_pos hhead, hscan]
  dsimp only
  rw [ofDigits_decimalDigits, if_pos rfl]

theorem parseNumber_decimal (n k : ℕ) :
    parseNumber (natText n ++ 101 :: minus :: natText k) = some (n / 10 ^ k : ℚ) := by
  have hbase : parseNumberBase 10 (natText n ++ 101 :: minus :: natText k) =
      some (n / 10 ^ k : ℚ) := by
    have hscan := scanDigits_natText n (s := 101 :: minus :: natText k) (by
      intro c hc
      cases Option.some.inj hc
      decide)
    have hvalid : validUnderscores 10 (natText n ++ 101 :: minus :: natText k) = true := by
      refine underscoresValidAfter_of_not_mem (fun h => ?_) none
      rcases List.mem_append.1 h with h | h
      · exact not_mem_digitText (fun _ => lt_of_mem_decimalDigits) h
      · simp only [List.mem_cons] at h
        rcases h with h | h | h
        · exact absurd h (by decide)
        · exact absurd h (by decide)
        · exact not_mem_digitText (fun _ => lt_of_mem_decimalDigits) h
    have hdot : ¬ ((101 :: minus :: natText k).head? = some dot) := by
      rw [List.head?_cons]
      decide
    have hbase : ¬ (10 : ℕ) = 16 := by decide
    have hexp : (101 :: minus :: natText k).head?.map toLower = some (101 : UInt8) := by
      rw [List.head?_cons]
      decide
    rw [parseNumberBase, hscan]
    dsimp only
    rw [if_neg hdot]
    dsimp only
    simp only [if_neg hbase]
    rw [if_neg fun h => decimalDigits_ne_nil n h.1, if_pos hexp, List.tail_cons,
      parseScientific_natText]
    dsimp only
    rw [if_pos ⟨rfl, hvalid⟩, List.append_nil, ofDigits_decimalDigits, List.length_nil, pow_zero,
      div_one, zpow_neg, zpow_natCast, div_eq_mul_inv]
  rw [← hbase]
  cases hds : decimalDigits n with
  | nil => exact absurd hds (decimalDigits_ne_nil n)
  | cons d ds =>
    have hlt : ∀ e ∈ ds, e < 10 := fun e he =>
      lt_of_mem_decimalDigits (hds ▸ List.mem_cons_of_mem d he)
    rw [natText, hds, List.map_cons, List.cons_append]
    cases ds with
    | nil => exact if_neg fun h => absurd h.2 (by decide)
    | cons e ds =>
      have hx : ∀ e < 10, toLower (digitByte e) ≠ 120 := by decide
      exact if_neg fun h => hx e (hlt e List.mem_cons_self) h.2

/-- A decimal text with an exponent stands for the quotient. -/
theorem numberValue_decimalText (n : ℤ) (k : ℕ) :
    numberValue (decimalText n k) = some (.finite (n / 10 ^ k)) := by
  have hsplit : splitSign (decimalText n k) =
      (decide (n < 0), natText n.natAbs ++ 101 :: minus :: natText k) := by
    unfold decimalText intText
    split_ifs with hneg
    · rw [List.cons_append, splitSign, if_pos rfl, decide_eq_true hneg]
    · rw [natText, decide_eq_false hneg]
      exact splitSign_digitText (fun _ => lt_of_mem_decimalDigits) (decimalDigits_ne_nil _)
  have habs : ((n.natAbs : ℕ) : ℚ) = ((n.natAbs : ℤ) : ℚ) := (Int.cast_natCast _).symm
  rw [numberValue, hsplit]
  dsimp only
  rw [parseNumber_decimal, habs]
  dsimp only
  split_ifs with h
  · have hneg : n < 0 := of_decide_eq_true h
    have hval : (n.natAbs : ℤ) = -n := by omega
    rw [hval, Int.cast_neg, neg_div, neg_neg]
  · have hneg : ¬ n < 0 := fun hn => h (decide_eq_true hn)
    have hval : (n.natAbs : ℤ) = n := by omega
    rw [hval]

end Decimal

end Zzdds.Dcps.Filter
