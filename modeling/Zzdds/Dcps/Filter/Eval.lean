import Zzdds.Dcps.Filter.Number

/-! # Evaluation of a filter expression

The values, the syntax tree and the evaluator of `filter.zig`.  Every comparison of numbers goes
through floating point: doubles, or single precision as soon as one of the two is.  What two numbers
of 64 bits lose by that is said exactly in `integers_compare`. -/

namespace Zzdds.Dcps.Filter

open Lib

/-- A value of a field of the sample, or of a literal of the expression. -/
inductive FilterValue where
  | int (i : Int64)
  | float32 (f : Fp)
  | float (f : Fp)
  | string (s : List UInt8)
deriving DecidableEq

inductive RelOp where
  | eq | ne | lt | le | gt | ge | like
deriving DecidableEq

/-- One side of a comparison, or a bound of a BETWEEN. -/
inductive Operand where
  | field (name : List UInt8)
  | param (idx : ℕ)
  | literal (v : FilterValue)
deriving DecidableEq

inductive AstNode where
  | compare (left : Operand) (op : RelOp) (right : Operand)
  | between (field : List UInt8) (negated : Bool) (lo hi : Operand)
  | logicalAnd (left right : AstNode)
  | logicalOr (left right : AstNode)
  | logicalNot (child : AstNode)
deriving DecidableEq

inductive EvalError where
  | fieldNotFound
  | typeMismatch
  | paramOutOfRange
deriving DecidableEq

abbrev FieldAccessor := List UInt8 → Option FilterValue

def resolveOperand (acc : FieldAccessor) (params : List (List UInt8)) :
    Operand → Except EvalError FilterValue
  | .field name =>
    match acc name with
    | some v => .ok v
    | none => .error .fieldNotFound
  | .param idx =>
    match params[idx]? with
    | some s => .ok (.string s)
    | none => .error .paramOutOfRange
  | .literal v => .ok v

def asNumeric : FilterValue → Option Fp
  | .int i => some (binary64.round i.toInt)
  | .float32 f => some (f.convert binary64)
  | .float f => some f
  | .string s => parseFloat binary64 s

def asNumeric32 : FilterValue → Option Fp
  | .int i => some (binary32.round i.toInt)
  | .float32 f => some f
  | .float f => some (f.convert binary32)
  | .string s => parseFloat binary32 s

def asString : FilterValue → Option (List UInt8)
  | .string s => some s
  | _ => none

def FilterValue.isFloat32 : FilterValue → Bool
  | .float32 _ => true
  | _ => false

/-- A relation of two numbers; LIKE is none. -/
def RelOp.onFp : RelOp → Fp → Fp → Bool
  | .eq, l, r => Fp.eq l r
  | .ne, l, r => !Fp.eq l r
  | .lt, l, r => Fp.lt l r
  | .le, l, r => Fp.le l r
  | .gt, l, r => Fp.lt r l
  | .ge, l, r => Fp.le r l
  | .like, _, _ => false

/-- A relation of two texts, in the order of `std.mem.order`; LIKE is none. -/
def RelOp.onString : RelOp → List UInt8 → List UInt8 → Bool
  | .eq, l, r => decide (l = r)
  | .ne, l, r => !decide (l = r)
  | .lt, l, r => decide (l < r)
  | .le, l, r => decide (l < r) || decide (l = r)
  | .gt, l, r => decide (r < l)
  | .ge, l, r => decide (r < l) || decide (l = r)
  | .like, _, _ => false

def compareStrings (left : FilterValue) (op : RelOp) (right : FilterValue) :
    Except EvalError Bool :=
  match asString left, asString right with
  | some ls, some rs => .ok (op.onString ls rs)
  | _, _ => .error .typeMismatch

def compareValues (left : FilterValue) (op : RelOp) (right : FilterValue) :
    Except EvalError Bool :=
  if op = .like then
    match asString right, asString left with
    | some pattern, some value => .ok (matchLike pattern value)
    | _, _ => .error .typeMismatch
  else if left.isFloat32 || right.isFloat32 then
    -- at the declared precision of the field
    match asNumeric32 left, asNumeric32 right with
    | some lf, some rf => .ok (op.onFp lf rf)
    | _, _ => .error .typeMismatch
  else
    match asNumeric left, asNumeric right with
    | some lf, some rf => .ok (op.onFp lf rf)
    | _, _ => compareStrings left op right

/-- `and`, which leaves its second side out when the first is false. -/
def andThen (a b : Except EvalError Bool) : Except EvalError Bool :=
  a.bind fun x => if x then b else .ok false

def orElse (a b : Except EvalError Bool) : Except EvalError Bool :=
  a.bind fun x => if x then .ok true else b

def evalCompare (left : Operand) (op : RelOp) (right : Operand) (acc : FieldAccessor)
    (params : List (List UInt8)) : Except EvalError Bool :=
  (resolveOperand acc params left).bind fun lv =>
    (resolveOperand acc params right).bind fun rv => compareValues lv op rv

def evalBetween (field : List UInt8) (negated : Bool) (lo hi : Operand) (acc : FieldAccessor)
    (params : List (List UInt8)) : Except EvalError Bool :=
  match acc field with
  | none => .error .fieldNotFound
  | some fv =>
    (resolveOperand acc params lo).bind fun lo =>
      (resolveOperand acc params hi).bind fun hi =>
        (andThen (compareValues fv .ge lo) (compareValues fv .le hi)).map fun inRange =>
          if negated then !inRange else inRange

def evalNode (acc : FieldAccessor) (params : List (List UInt8)) : AstNode → Except EvalError Bool
  | .compare left op right => evalCompare left op right acc params
  | .between field negated lo hi => evalBetween field negated lo hi acc params
  | .logicalAnd a b => andThen (evalNode acc params a) (evalNode acc params b)
  | .logicalOr a b => orElse (evalNode acc params a) (evalNode acc params b)
  | .logicalNot a => (evalNode acc params a).map (!·)

/-- Whether a sample passes.  Where the expression cannot be evaluated, it does. -/
def eval (node : Option AstNode) (acc : FieldAccessor) (params : List (List UInt8)) : Bool :=
  match node with
  | none => true
  | some n =>
    match evalNode acc params n with
    | .ok b => b
    | .error _ => true

/-! ## Integers -/

/-- The numbers that `i64` holds. -/
def FitsI64 (n : ℤ) : Prop := -2 ^ 63 ≤ n ∧ n < 2 ^ 63

/-- A value that stands for an integer: the integer, or a text for it. -/
def StandsFor (n : ℤ) : FilterValue → Prop
  | .int i => i.toInt = n
  | .string s => numberValue s = some (.finite n)
  | _ => False

/-- The relation the operator asks for. -/
def RelOp.holds : RelOp → ℤ → ℤ → Bool
  | .eq, a, b => decide (a = b)
  | .ne, a, b => decide (a ≠ b)
  | .lt, a, b => decide (a < b)
  | .le, a, b => decide (a ≤ b)
  | .gt, a, b => decide (b < a)
  | .ge, a, b => decide (b ≤ a)
  | .like, _, _ => false

/-- The double nearest to an integer. -/
def nearestDouble (n : ℤ) : ℚ := binary64.nearest n

variable {l r v lo hi : FilterValue} {a b c : ℤ}

theorem standsFor_intText (n : ℤ) : StandsFor n (.string (intText n)) := numberValue_intText n

theorem nearestDouble_mono (h : a ≤ b) : nearestDouble a ≤ nearestDouble b :=
  Format.nearest_mono (by exact_mod_cast h)

theorem abs_le_of_fitsI64 (h : FitsI64 a) : |a| ≤ 2 ^ 63 := by
  obtain ⟨hlo, hhi⟩ := h
  exact abs_le.2 ⟨hlo, hhi.le⟩

theorem asNumeric_of_standsFor (h : StandsFor a v) (ha : FitsI64 a) :
    asNumeric v = some (.finite (nearestDouble a)) := by
  have hround := binary64_round_intCast (abs_le_of_fitsI64 ha)
  cases v with
  | int i =>
    rw [asNumeric, show i.toInt = a from h, hround]
    rfl
  | string s =>
    rw [asNumeric, parseFloat, show numberValue s = _ from h, Option.map_some, Fp.convert, hround]
    rfl
  | float32 f => exact h.elim
  | float f => exact h.elim

theorem isFloat32_of_standsFor (h : StandsFor a v) : v.isFloat32 = false := by
  cases v with
  | float32 f => exact h.elim
  | _ => rfl

/-- The comparison is made between the nearest doubles. -/
theorem compareValues_of_standsFor {op : RelOp} (hop : op ≠ .like) (hl : StandsFor a l)
    (hr : StandsFor b r) (ha : FitsI64 a) (hb : FitsI64 b) :
    compareValues l op r =
      .ok (op.onFp (.finite (nearestDouble a)) (.finite (nearestDouble b))) := by
  rw [compareValues, if_neg hop, isFloat32_of_standsFor hl, isFloat32_of_standsFor hr,
    asNumeric_of_standsFor hl ha, asNumeric_of_standsFor hr hb]
  rfl

theorem nearestDouble_lt_iff (hne : nearestDouble a ≠ nearestDouble b) :
    nearestDouble a < nearestDouble b ↔ a < b := by
  refine ⟨fun h => lt_of_not_ge fun hba => (nearestDouble_mono hba).not_gt h, fun h => ?_⟩
  exact lt_of_le_of_ne (nearestDouble_mono h.le) hne

theorem onFp_eq_holds {op : RelOp} (h : a = b ∨ nearestDouble a ≠ nearestDouble b) :
    op.onFp (.finite (nearestDouble a)) (.finite (nearestDouble b)) = op.holds a b := by
  have hlt : nearestDouble a < nearestDouble b ↔ a < b := by
    rcases h with rfl | hne
    · exact iff_of_false (lt_irrefl _) (lt_irrefl _)
    · exact nearestDouble_lt_iff hne
  have hgt : nearestDouble b < nearestDouble a ↔ b < a := by
    rcases h with rfl | hne
    · exact iff_of_false (lt_irrefl _) (lt_irrefl _)
    · exact nearestDouble_lt_iff hne.symm
  have heq : nearestDouble a = nearestDouble b ↔ a = b :=
    ⟨fun he => h.resolve_right (not_not_intro he), congrArg nearestDouble⟩
  have hle : nearestDouble a ≤ nearestDouble b ↔ a ≤ b := by rw [← not_lt, hgt, not_lt]
  have hge : nearestDouble b ≤ nearestDouble a ↔ b ≤ a := by rw [← not_lt, hlt, not_lt]
  cases op with
  | like => rfl
  | eq => exact decide_eq_decide.2 heq
  | ne => simp [RelOp.onFp, RelOp.holds, heq]
  | lt => exact decide_eq_decide.2 hlt
  | le => simp [RelOp.onFp, RelOp.holds, hle]
  | gt => exact decide_eq_decide.2 hgt
  | ge => simp [RelOp.onFp, RelOp.holds, hge]

/-- A BETWEEN compares the nearest doubles too. -/
theorem evalBetween_of_standsFor {acc : FieldAccessor} {params : List (List UInt8)}
    {field : List UInt8} {loOp hiOp : Operand} (negated : Bool) (hfield : acc field = some v)
    (hloOp : resolveOperand acc params loOp = .ok lo)
    (hhiOp : resolveOperand acc params hiOp = .ok hi) (hv : StandsFor a v) (hlo : StandsFor b lo)
    (hhi : StandsFor c hi) (ha : FitsI64 a) (hb : FitsI64 b) (hc : FitsI64 c) :
    evalBetween field negated loOp hiOp acc params =
      .ok (xor negated
        (decide (nearestDouble b ≤ nearestDouble a ∧ nearestDouble a ≤ nearestDouble c))) := by
  have hge : compareValues v .ge lo = _ :=
    compareValues_of_standsFor (by decide) hv hlo ha hb
  have hle : compareValues v .le hi = _ :=
    compareValues_of_standsFor (by decide) hv hhi ha hc
  rw [evalBetween, hfield, hloOp, hhiOp]
  dsimp only [Except.bind]
  rw [hge, hle]
  by_cases h : nearestDouble b ≤ nearestDouble a <;> cases negated <;>
    simp [andThen, RelOp.onFp, Except.bind, Except.map, h]

/-- **Integers in a filter.**  The six comparisons of two integers are exact just where the integers
are one or the doubles nearest to them are two; a BETWEEN is exact just where the integer is in the
range, or its nearest double is outside the range of the nearest doubles. -/
theorem integers_compare (hv : StandsFor a v) (hlo : StandsFor b lo) (hhi : StandsFor c hi)
    (ha : FitsI64 a) (hb : FitsI64 b) (hc : FitsI64 c) :
    ((∀ op, op ≠ .like → compareValues v op lo = .ok (op.holds a b)) ↔
      a = b ∨ nearestDouble a ≠ nearestDouble b) ∧
    ∀ (acc : FieldAccessor) (params : List (List UInt8)) (field : List UInt8)
      (loOp hiOp : Operand) (negated : Bool), acc field = some v →
      resolveOperand acc params loOp = .ok lo → resolveOperand acc params hiOp = .ok hi →
      (evalBetween field negated loOp hiOp acc params =
          .ok (xor negated (decide (b ≤ a ∧ a ≤ c))) ↔
        (b ≤ a ∧ a ≤ c) ∨ nearestDouble a < nearestDouble b ∨
          nearestDouble c < nearestDouble a) := by
  refine ⟨⟨fun h => ?_, fun h op hop => ?_⟩, fun acc params field loOp hiOp negated hf hl hh => ?_⟩
  · have heq := h .eq (by decide)
    rw [compareValues_of_standsFor (by decide) hv hlo ha hb] at heq
    have hiff : nearestDouble a = nearestDouble b ↔ a = b :=
      decide_eq_decide.1 (Except.ok.inj heq)
    by_cases hab : a = b
    · exact .inl hab
    · exact .inr fun he => hab (hiff.1 he)
  · rw [compareValues_of_standsFor hop hv hlo ha hb, onFp_eq_holds h]
  · rw [evalBetween_of_standsFor negated hf hl hh hv hlo hhi ha hb hc]
    have hinj : ∀ x y : Bool, (Except.ok (xor negated x) : Except EvalError Bool) =
        .ok (xor negated y) ↔ x = y := by
      intro x y
      rw [Except.ok.injEq, Bool.xor_right_inj]
    rw [hinj, decide_eq_decide, ← not_le, ← not_le, ← not_and_or]
    have himp : b ≤ a ∧ a ≤ c →
        nearestDouble b ≤ nearestDouble a ∧ nearestDouble a ≤ nearestDouble c :=
      fun h => ⟨nearestDouble_mono h.1, nearestDouble_mono h.2⟩
    tauto

/-- Small integers, and integers against themselves. -/
theorem integers_compare_small :
    ((∀ op, op ≠ .like → compareValues (.int (-7)) op (.string (intText 12)) =
        .ok (op.holds (-7) 12)) ↔ (-7 : ℤ) = 12 ∨ nearestDouble (-7) ≠ nearestDouble 12) ∧
    ∀ (acc : FieldAccessor) (params : List (List UInt8)) (field : List UInt8)
      (loOp hiOp : Operand) (negated : Bool), acc field = some (.int (-7)) →
      resolveOperand acc params loOp = .ok (.string (intText 12)) →
      resolveOperand acc params hiOp = .ok (.int 20) →
      (evalBetween field negated loOp hiOp acc params =
          .ok (xor negated (decide ((12 : ℤ) ≤ -7 ∧ (-7 : ℤ) ≤ 20))) ↔
        ((12 : ℤ) ≤ -7 ∧ (-7 : ℤ) ≤ 20) ∨ nearestDouble (-7) < nearestDouble 12 ∨
          nearestDouble 20 < nearestDouble (-7)) :=
  integers_compare rfl (standsFor_intText 12) rfl ⟨by decide, by decide⟩ ⟨by decide, by decide⟩
    ⟨by decide, by decide⟩

/-- A field that holds 2⁵³ + 1 passes for 2⁵³. -/
theorem integers_collide :
    compareValues (.int 9007199254740993) .eq (.int 9007199254740992) = .ok true ∧
      RelOp.holds .eq 9007199254740993 9007199254740992 = false := by
  decide +kernel

end Zzdds.Dcps.Filter
