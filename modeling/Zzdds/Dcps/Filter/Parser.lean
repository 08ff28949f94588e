import Zzdds.Dcps.Filter.Eval
import Zzdds.Dcps.Filter.Lexer

/-! # The parser of a filter expression

`Parser` of `filter.zig`, by recursive descent.  `none` is a parse error.  The functions that call
one another take fuel; `parse` gives them more than any text can use (`parseOr_of_more`). -/

namespace Zzdds.Dcps.Filter

open Lib

/-- What the operand of one token is. -/
def tokenOperand (t : Token) : Option Operand :=
  match t.kind with
  | .ident => some (.field t.text)
  | .param => (parseInt 0 255 t.text.tail).map fun n => .param n.toNat
  | .int => (parseInt (-2 ^ 63) (2 ^ 63 - 1) t.text).map fun n => .literal (.int (Int64.ofInt n))
  | .float => (parseFloat binary64 t.text).map fun f => .literal (.float f)
  | .string =>
    some (.literal (.string (if 2 ≤ t.text.length then t.text.tail.dropLast else [])))
  | _ => none

def parseOperand (s : List UInt8) : Option (Operand × List UInt8) :=
  (tokenOperand (nextToken s).1).map fun operand => (operand, (nextToken s).2)

def TK.relOp : TK → Option RelOp
  | .opEq => some .eq
  | .opNe => some .ne
  | .opLt => some .lt
  | .opLe => some .le
  | .opGt => some .gt
  | .opGe => some .ge
  | .kwLike => some .like
  | _ => none

def parseRelOp (s : List UInt8) : Option (RelOp × List UInt8) :=
  (peekKind s).relOp.map fun op => (op, (nextToken s).2)

def parseBetweenRest (field : List UInt8) (negated : Bool) (s : List UInt8) :
    Option (AstNode × List UInt8) := do
  let (lo, s) ← parseOperand s
  if peekKind s = .kwAnd then
    let (hi, s) ← parseOperand (nextToken s).2
    return (.between field negated lo hi, s)
  else none

/-- The rest of a comparison, after its left operand. -/
def parseCompareRest (left : Operand) (s : List UInt8) : Option (AstNode × List UInt8) := do
  let (op, s) ← parseRelOp s
  let (right, s) ← parseOperand s
  return (.compare left op right, s)

/-- BETWEEN and NOT BETWEEN may follow a field only. -/
def parsePredicate (s : List UInt8) : Option (AstNode × List UInt8) := do
  let (left, s) ← parseOperand s
  match left with
  | .field name =>
    if peekKind s = .kwBetween then parseBetweenRest name false (nextToken s).2
    else if peekKind s = .kwNot ∧ peekKind (nextToken s).2 = .kwBetween then
      parseBetweenRest name true (nextToken (nextToken s).2).2
    else parseCompareRest left s
  | _ => parseCompareRest left s

mutual

def parseOr : ℕ → List UInt8 → Option (AstNode × List UInt8)
  | 0, _ => none
  | n + 1, s => do
    let (left, s) ← parseAnd n s
    orLoop n left s

def orLoop : ℕ → AstNode → List UInt8 → Option (AstNode × List UInt8)
  | 0, _, _ => none
  | n + 1, left, s =>
    if peekKind s = .kwOr then do
      let (right, s) ← parseAnd n (nextToken s).2
      orLoop n (.logicalOr left right) s
    else some (left, s)

def parseAnd : ℕ → List UInt8 → Option (AstNode × List UInt8)
  | 0, _ => none
  | n + 1, s => do
    let (left, s) ← parseNot n s
    andLoop n left s

def andLoop : ℕ → AstNode → List UInt8 → Option (AstNode × List UInt8)
  | 0, _, _ => none
  | n + 1, left, s =>
    if peekKind s = .kwAnd then do
      let (right, s) ← parseNot n (nextToken s).2
      andLoop n (.logicalAnd left right) s
    else some (left, s)

def parseNot : ℕ → List UInt8 → Option (AstNode × List UInt8)
  | 0, _ => none
  | n + 1, s =>
    if peekKind s = .kwNot then do
      let (child, s) ← parseNot n (nextToken s).2
      return (.logicalNot child, s)
    else parsePrimary n s

def parsePrimary : ℕ → List UInt8 → Option (AstNode × List UInt8)
  | 0, _ => none
  | n + 1, s =>
    if peekKind s = .lparen then do
      let (inner, s) ← parseOr n (nextToken s).2
      if peekKind s = .rparen then some (inner, (nextToken s).2) else none
    else parsePredicate s

end

/-- Fuel for every expression of a text. -/
def parseFuel (s : List UInt8) : ℕ := 2 * s.length + 4

/-- `std.mem.trim` of the whitespace characters. -/
def trim (s : List UInt8) : List UInt8 :=
  ((s.dropWhile isWhitespace).reverse.dropWhile isWhitespace).reverse

inductive ParseError where
  | parseError
deriving DecidableEq

/-- Parse a filter expression; an empty one is no filter. -/
def parse (expr : List UInt8) : Except ParseError (Option AstNode) :=
  if trim expr = [] then .ok none
  else
    match parseOr (parseFuel (trim expr)) (trim expr) with
    | some (root, s) => if peekKind s = .eof then .ok (some root) else .error .parseError
    | none => .error .parseError

end Zzdds.Dcps.Filter
