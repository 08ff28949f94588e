import Zzdds.Dcps.Filter.Number

/-! # Tokens of a filter expression

`Lexer` of `filter.zig`.  The rest of the text stands for the position in it. -/

namespace Zzdds.Dcps.Filter

/-! ### Characters -/

def quote : UInt8 := 39

def lparen : UInt8 := 40

def rparen : UInt8 := 41

def less : UInt8 := 60

def equals : UInt8 := 61

def greater : UInt8 := 62

def isWhitespace (c : UInt8) : Bool := c = 32 || (9 ≤ c && c ≤ 13)

def isDigit (c : UInt8) : Bool := 48 ≤ c && c ≤ 57

def isAlphabetic (c : UInt8) : Bool := (65 ≤ c && c ≤ 90) || (97 ≤ c && c ≤ 122)

/-- A name begins with one of these. -/
def isNameStart (c : UInt8) : Bool := isAlphabetic c || c = underscore

def isNameChar (c : UInt8) : Bool := isNameStart c || isDigit c

/-- `e` or `E`, before an exponent. -/
def isExponentMark (c : UInt8) : Bool := c = 101 || c = 69

def isSign (c : UInt8) : Bool := c = plus || c = minus

/-! ### The lexer -/

inductive TK where
  | ident | param | int | float | string
  | opEq | opNe | opLt | opLe | opGt | opGe
  | kwAnd | kwOr | kwNot | kwBetween | kwLike
  | lparen | rparen | eof | invalid
deriving DecidableEq, Repr

structure Token where
  kind : TK
  text : List UInt8
deriving DecidableEq, Repr

def skipWs (s : List UInt8) : List UInt8 := s.dropWhile isWhitespace

def andWord : List UInt8 := [65, 78, 68]

def orWord : List UInt8 := [79, 82]

def notWord : List UInt8 := [78, 79, 84]

def betweenWord : List UInt8 := [66, 69, 84, 87, 69, 69, 78]

def likeWord : List UInt8 := [76, 73, 75, 69]

/-- A keyword in any case, or the name of a field. -/
def wordKind (text : List UInt8) : TK :=
  if eqlIgnoreCase text andWord then .kwAnd
  else if eqlIgnoreCase text orWord then .kwOr
  else if eqlIgnoreCase text notWord then .kwNot
  else if eqlIgnoreCase text betweenWord then .kwBetween
  else if eqlIgnoreCase text likeWord then .kwLike
  else .ident

/-- The rest of a field name: names, and a dot where a name follows it. -/
def scanPath : List UInt8 → List UInt8 × List UInt8
  | [] => ([], [])
  | c :: s =>
    if isNameChar c || (c = dot && s.head?.any isNameStart) then
      (c :: (scanPath s).1, (scanPath s).2)
    else ([], c :: s)

/-- A part of a number that may be missing: its mark, and the digits after it. -/
def scanFraction : List UInt8 → List UInt8 × List UInt8
  | c :: s => if c = dot then (c :: s.takeWhile isDigit, s.dropWhile isDigit) else ([], c :: s)
  | [] => ([], [])

def scanExponent : List UInt8 → List UInt8 × List UInt8
  | c :: s =>
    if isExponentMark c then
      let sign := if s.head?.any isSign then s.take 1 else []
      let s := if s.head?.any isSign then s.drop 1 else s
      (c :: sign ++ s.takeWhile isDigit, s.dropWhile isDigit)
    else ([], c :: s)
  | [] => ([], [])

/-- A number: an integer without a fraction and an exponent. -/
def scanNumber (s : List UInt8) : Token × List UInt8 :=
  let sign := if s.head? = some minus then [minus] else []
  let s := if s.head? = some minus then s.tail else s
  let digits := s.takeWhile isDigit
  let (fraction, s) := scanFraction (s.dropWhile isDigit)
  let (exponent, s) := scanExponent s
  (⟨if fraction = [] ∧ exponent = [] then .int else .float, sign ++ digits ++ fraction ++ exponent⟩,
    s)

/-- A literal, up to the quote that closes it or to the end. -/
def scanString (s : List UInt8) : Token × List UInt8 :=
  (⟨.string, quote :: s.takeWhile (· ≠ quote) ++ (s.dropWhile (· ≠ quote)).take 1⟩,
    (s.dropWhile (· ≠ quote)).drop 1)

def twoCharKind (c d : UInt8) : Option TK :=
  if c = less ∧ d = greater then some .opNe
  else if c = less ∧ d = equals then some .opLe
  else if c = greater ∧ d = equals then some .opGe
  else none

/-- A token that is not an operator of two characters. -/
def scanToken (c : UInt8) (s : List UInt8) : Token × List UInt8 :=
  if c = equals then (⟨.opEq, [c]⟩, s)
  else if c = less then (⟨.opLt, [c]⟩, s)
  else if c = greater then (⟨.opGt, [c]⟩, s)
  else if c = lparen then (⟨.lparen, [c]⟩, s)
  else if c = rparen then (⟨.rparen, [c]⟩, s)
  else if c = percent then (⟨.param, c :: s.takeWhile isDigit⟩, s.dropWhile isDigit)
  else if c = quote then scanString s
  else if isDigit c || (c = minus && s.head?.any isDigit) then scanNumber (c :: s)
  else if isNameStart c then (⟨wordKind (c :: (scanPath s).1), c :: (scanPath s).1⟩, (scanPath s).2)
  else (⟨.invalid, [c]⟩, s)

def nextToken (s : List UInt8) : Token × List UInt8 :=
  match skipWs s with
  | [] => (⟨.eof, []⟩, [])
  | [c] => scanToken c []
  | c :: d :: s =>
    match twoCharKind c d with
    | some kind => (⟨kind, [c, d]⟩, s)
    | none => scanToken c (d :: s)

def peekKind (s : List UInt8) : TK := (nextToken s).1.kind

/-- The tokens `ts` are read from `s`, and `r` is left. -/
def Reads (s : List UInt8) : List Token → List UInt8 → Prop
  | [], r => s = r
  | t :: ts, r => ∃ s', nextToken s = (t, s') ∧ t.kind ≠ .eof ∧ Reads s' ts r

end Zzdds.Dcps.Filter
