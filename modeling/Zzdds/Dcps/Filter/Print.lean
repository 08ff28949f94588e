import Zzdds.Dcps.Filter.Sentences

/-! # Printing a filter expression

`print` puts every node of a tree into parentheses, and a space between any two tokens.  Parsing
gives the tree back, if it is the tree of any text at all (`parse_print`). -/

namespace Zzdds.Dcps.Filter

open Lib

/-! ### Printing -/

def space : UInt8 := 32

/-- A text for a double.  The denominator is a power of two, so it ends in base ten; from `2 ^ 1024`
on a number is read as an infinity. -/
def floatText : Fp → List UInt8
  | .finite q => decimalText (q.num * 5 ^ Nat.log 2 q.den) (Nat.log 2 q.den)
  | .inf neg => decimalText (if neg then -2 ^ 1024 else 2 ^ 1024) 0
  | .nan => nanText

def valueToken : FilterValue → Token
  | .int i => ⟨.int, intText i.toInt⟩
  | .float32 f => ⟨.float, floatText f⟩
  | .float f => ⟨.float, floatText f⟩
  | .string s => ⟨.string, quote :: s ++ [quote]⟩

def operandToken : Operand → Token
  | .field name => ⟨.ident, name⟩
  | .param idx => ⟨.param, percent :: natText idx⟩
  | .literal v => valueToken v

def RelOp.token : RelOp → Token
  | .eq => ⟨.opEq, [equals]⟩
  | .ne => ⟨.opNe, [less, greater]⟩
  | .lt => ⟨.opLt, [less]⟩
  | .le => ⟨.opLe, [less, equals]⟩
  | .gt => ⟨.opGt, [greater]⟩
  | .ge => ⟨.opGe, [greater, equals]⟩
  | .like => ⟨.kwLike, likeWord⟩

def andToken : Token := ⟨.kwAnd, andWord⟩

def orToken : Token := ⟨.kwOr, orWord⟩

def notToken : Token := ⟨.kwNot, notWord⟩

def betweenToken : Token := ⟨.kwBetween, betweenWord⟩

def parenthesised (ts : List Token) : List Token :=
  ⟨.lparen, [lparen]⟩ :: ts ++ [⟨.rparen, [rparen]⟩]

/-- The tokens of a tree, every node in parentheses. -/
def AstNode.tokens : AstNode → List Token
  | .compare left op right => parenthesised [operandToken left, op.token, operandToken right]
  | .between field negated lo hi =>
    parenthesised (⟨.ident, field⟩ :: (if negated then [notToken] else []) ++
      [betweenToken, operandToken lo, andToken, operandToken hi])
  | .logicalAnd left right => parenthesised (left.tokens ++ andToken :: right.tokens)
  | .logicalOr left right => parenthesised (left.tokens ++ orToken :: right.tokens)
  | .logicalNot child => parenthesised (notToken :: child.tokens)

/-- A text of these tokens. -/
def spaced : List Token → List UInt8
  | [] => []
  | t :: ts => t.text ++ ts.flatMap fun u => space :: u.text

def print (a : AstNode) : List UInt8 := spaced a.tokens

/-! ### Tokens with a space between them -/

theorem PathRest.mem {s : List UInt8} (h : PathRest s) {c : UInt8} (hc : c ∈ s) :
    isNameChar c = true ∨ c = dot := by
  induction s with
  | nil => cases hc
  | cons x s ih =>
    rcases List.mem_cons.1 hc with rfl | hc
    · exact h.1.imp_right fun hd => hd.1
    · exact ih h.2 hc

theorem IsNumber.mem {s : List UInt8} (h : IsNumber s) {c : UInt8} (hc : c ∈ s) :
    isDigit c = true ∨ c = dot ∨ isExponentMark c = true ∨ isSign c = true := by
  obtain ⟨sign, digits, fraction, exponent, hsign, -, hdigits, hf, he, rfl⟩ := h
  simp only [List.mem_append] at hc
  rcases hc with ((hc | hc) | hc) | hc
  · rcases hsign with rfl | rfl
    · cases hc
    · cases List.mem_singleton.1 hc
      exact .inr (.inr (.inr (by decide)))
  · exact .inl (hdigits c hc)
  · cases hf with
    | none => cases hc
    | some hs =>
      rcases List.mem_cons.1 hc with rfl | hc
      · exact .inr (.inl rfl)
      · exact .inl (hs c hc)
  · cases he with
    | none => cases hc
    | @some x sign s hx hsign hs =>
      rcases List.mem_append.1 hc with hc | hc
      · rcases List.mem_cons.1 hc with rfl | hc
        · exact .inr (.inr (.inl hx))
        · rcases hsign with rfl | ⟨y, hy, rfl⟩
          · cases hc
          · cases List.mem_singleton.1 hc
            exact .inr (.inr (.inr hy))
      · exact .inl (hs c hc)

/-- No token goes on behind a space, a literal apart, which does not end before its quote. -/
theorem not_continues_space {c : UInt8} {t w : List UInt8} (h : Continues c t) :
    ¬ Continues c (t ++ space :: w) := by
  have hmem : space ∈ t ++ space :: w := List.mem_append_right _ List.mem_cons_self
  unfold Continues at h ⊢
  split_ifs at h ⊢ with h₁ h₂ h₃ h₄ h₅ h₆
  · exact fun h' => absurd (h'.mem hmem) (by decide)
  · exact fun h' => absurd (h'.mem (List.mem_cons_of_mem c hmem)) (by decide)
  · exact fun h' => absurd (h' space hmem) (by decide)
  · rintro ⟨body, hbody, heq⟩
    obtain ⟨body', -, rfl⟩ := h
    rw [List.append_assoc, List.singleton_append] at heq
    have hlen : (body' ++ [quote]).length ≤ body.length := by
      have hlen := congrArg List.length heq
      simp only [List.length_append, List.length_cons, List.length_nil] at hlen ⊢
      omega
    have hpre : body' ++ [quote] <+: body := by
      have hwhole : body' ++ [quote] <+: body ++ [quote] :=
        ⟨space :: w, by rw [← heq, List.append_assoc, List.singleton_append]⟩
      exact List.prefix_of_prefix_length_le hwhole (List.prefix_append _ _) hlen
    exact hbody (hpre.subset (List.mem_append_right _ (List.mem_singleton.2 rfl)))
  · rintro (h' | h' | h') <;>
    · rw [h'] at hmem
      exact absurd hmem (by decide)
  · rintro (h' | h') <;>
    · rw [h'] at hmem
      exact absurd hmem (by decide)
  · rintro ⟨h', -⟩
    rw [h'] at hmem
    cases hmem

/-- A token with a space behind it, or nothing, is read whole. -/
theorem longest_of_space {t : Token} {r : List UInt8} (h : Lexeme t.kind t.text)
    (hr : ∀ c ∈ r.head?, c = space) : Longest t (t.text ++ r) := by
  refine ⟨h, List.prefix_append _ _, fun kind text h' hpre => ?_⟩
  by_contra hlt
  rw [not_le] at hlt
  obtain ⟨u, rfl⟩ := List.prefix_of_prefix_length_le (List.prefix_append t.text r) hpre hlt.le
  have hu : u <+: r := (List.prefix_append_right_inj _).1 hpre
  cases u with
  | nil =>
    rw [List.append_nil] at hlt
    exact absurd hlt (lt_irrefl _)
  | cons x u =>
    obtain ⟨w, rfl⟩ := hu
    cases hr x rfl
    obtain ⟨c, v, htext, hcont⟩ := h.continues
    obtain ⟨c', v', htext', hcont'⟩ := h'.continues
    rw [htext, List.cons_append] at htext'
    obtain ⟨rfl, rfl⟩ := List.cons.inj htext'
    exact not_continues_space hcont hcont'

theorem spells_spaced {ts : List Token} (h : ∀ t ∈ ts, Lexeme t.kind t.text) :
    Spells (spaced ts) ts := by
  have htail {ts : List Token} (h : ∀ t ∈ ts, Lexeme t.kind t.text) :
      Spells (ts.flatMap fun u => space :: u.text) ts ∧
        ∀ c ∈ (ts.flatMap fun u => space :: u.text).head?, c = space := by
    induction ts with
    | nil => exact ⟨.nil fun c hc => (nomatch hc), fun c hc => nomatch hc⟩
    | cons t ts ih =>
      obtain ⟨ht, hts⟩ := List.forall_mem_cons.1 h
      obtain ⟨hspell, hhead⟩ := ih hts
      rw [List.flatMap_cons]
      refine ⟨@Spells.cons [space] _ _ _ ?_ (longest_of_space ht hhead) hspell, fun c hc => ?_⟩
      · intro c hc
        cases List.mem_singleton.1 hc
        decide
      · exact (Option.some.inj hc).symm
  cases ts with
  | nil => exact .nil fun c hc => nomatch hc
  | cons t ts =>
    obtain ⟨ht, hts⟩ := List.forall_mem_cons.1 h
    obtain ⟨hspell, hhead⟩ := htail hts
    exact @Spells.cons [] _ _ _ (fun c hc => nomatch hc) (longest_of_space ht hhead) hspell

/-! ### The tokens of a tree -/

theorem isDigit_digitByte {d : ℕ} (h : d < 10) : isDigit (digitByte d) = true := by
  revert d
  decide

theorem allDigits_natText (n : ℕ) : AllDigits (natText n) := by
  intro c hc
  obtain ⟨d, hd, rfl⟩ := List.mem_map.1 hc
  exact isDigit_digitByte (lt_of_mem_decimalDigits hd)

theorem natText_ne_nil (n : ℕ) : natText n ≠ [] := by
  rw [natText, Ne, List.map_eq_nil_iff]
  exact decimalDigits_ne_nil n

theorem exists_sign (n : ℤ) : ∃ sign, (sign = [] ∨ sign = [minus]) ∧
    intText n = sign ++ natText n.natAbs := by
  unfold intText
  split_ifs
  · exact ⟨[minus], .inr rfl, rfl⟩
  · exact ⟨[], .inl rfl, rfl⟩

theorem lexeme_intText (n : ℤ) : Lexeme .int (intText n) := by
  obtain ⟨sign, hsign, htext⟩ := exists_sign n
  have h : Lexeme .int (sign ++ natText n.natAbs ++ [] ++ []) :=
    .number hsign (natText_ne_nil _) (allDigits_natText _) .none .none
  rwa [List.append_nil, List.append_nil, ← htext] at h

theorem lexeme_decimalText (n : ℤ) (k : ℕ) : Lexeme .float (decimalText n k) := by
  obtain ⟨sign, hsign, htext⟩ := exists_sign n
  have hexp : Exponent ((101 : UInt8) :: [minus] ++ natText k) :=
    .some (by decide) (.inr ⟨minus, by decide, rfl⟩) (allDigits_natText k)
  have h := Lexeme.number hsign (natText_ne_nil n.natAbs) (allDigits_natText _) .none hexp
  rwa [if_neg fun h => (nomatch h.2), List.append_nil, ← htext] at h

/-- The data a tree of some text has. -/
def Operand.Printable : Operand → Prop
  | .field name => Path name ∧ wordKind name = .ident
  | .param idx => idx ≤ 255
  | .literal (.int _) => True
  | .literal (.float32 _) => False
  | .literal (.float f) => f ≠ .nan ∧ f.convert binary64 = f
  | .literal (.string s) => quote ∉ s

def AstNode.Printable : AstNode → Prop
  | .compare left _ right => left.Printable ∧ right.Printable
  | .between field _ lo hi => (Operand.field field).Printable ∧ lo.Printable ∧ hi.Printable
  | .logicalAnd left right => left.Printable ∧ right.Printable
  | .logicalOr left right => left.Printable ∧ right.Printable
  | .logicalNot child => child.Printable

theorem lexeme_operandToken {o : Operand} (h : o.Printable) :
    Lexeme (operandToken o).kind (operandToken o).text := by
  match o, h with
  | .field name, h =>
    have hword := Lexeme.word h.1
    rwa [h.2] at hword
  | .param idx, _ => exact .param (allDigits_natText idx)
  | .literal (.int i), _ => exact lexeme_intText _
  | .literal (.string s), h => exact .string h
  | .literal (.float .nan), h => exact absurd rfl h.1
  | .literal (.float (.inf neg)), _ => exact lexeme_decimalText _ _
  | .literal (.float (.finite q)), _ => exact lexeme_decimalText _ _

theorem round_pow_emax (neg : Bool) :
    binary64.round ((if neg then -2 ^ 1024 else 2 ^ 1024 : ℤ) : ℚ) = .inf neg := by
  have hzpow : (2 : ℚ) ^ (1024 : ℕ) = 2 ^ binary64.emax := (zpow_natCast (2 : ℚ) 1024).symm
  have hpow : binary64.nearest (2 ^ 1024) = 2 ^ 1024 := by
    refine Format.nearest_of_lt (m := 1) (e := 1024) (by decide) (by decide) ?_
    rw [Int.cast_one, one_mul]
    exact hzpow
  have hpos : (0 : ℚ) < 2 ^ 1024 := by positivity
  rw [← hpow] at hzpow
  cases neg with
  | false =>
    have hcast : (((if false then -2 ^ 1024 else 2 ^ 1024 : ℤ)) : ℚ) = 2 ^ 1024 := by
      rw [if_neg Bool.false_ne_true, Int.cast_pow, Int.cast_ofNat]
    rw [hcast, Format.round, if_pos (hzpow.symm.le.trans (le_abs_self _))]
    exact congrArg Fp.inf (decide_eq_false hpos.not_gt)
  | true =>
    have hcast : (((if true then -2 ^ 1024 else 2 ^ 1024 : ℤ)) : ℚ) = -2 ^ 1024 := by
      rw [if_pos rfl, Int.cast_neg, Int.cast_pow, Int.cast_ofNat]
    rw [hcast, Format.round, Format.nearest_neg, abs_neg,
      if_pos (hzpow.symm.le.trans (le_abs_self _))]
    exact congrArg Fp.inf (decide_eq_true (neg_neg_of_pos hpos))

/-- The text of a double is read as the double. -/
theorem parseFloat_floatText {f : Fp} (h : (Operand.literal (.float f)).Printable) :
    parseFloat binary64 (floatText f) = some f := by
  obtain ⟨hnan, hkeep⟩ := h
  cases f with
  | nan => exact absurd rfl hnan
  | inf neg =>
    rw [parseFloat, floatText, numberValue_decimalText, Option.map_some, pow_zero, div_one]
    exact congrArg some (round_pow_emax neg)
  | finite q =>
    have hround : binary64.round q = .finite q := hkeep
    have hnearest : binary64.nearest q = q := by
      unfold Format.round at hround
      split_ifs at hround
      exact Fp.finite.inj hround
    obtain ⟨k, hden⟩ := binary64.den_nearest q
    rw [hnearest] at hden
    have hlog : Nat.log 2 q.den = k := by rw [hden, Nat.log_pow one_lt_two]
    have hvalue : ((q.num * 5 ^ k : ℤ) : ℚ) / 10 ^ k = q := by
      have hdiv : (10 : ℚ) ^ k = 2 ^ k * 5 ^ k := by rw [← mul_pow]; norm_num
      have hq := q.num_div_den
      rw [hden] at hq
      push_cast at hq ⊢
      rw [hdiv, mul_div_mul_right _ _ (by positivity), hq]
    rw [parseFloat, floatText, hlog, numberValue_decimalText, Option.map_some, hvalue]
    exact congrArg some hround

theorem tokenOperand_operandToken {o : Operand} (h : o.Printable) :
    tokenOperand (operandToken o) = some o := by
  match o, h with
  | .field name, _ => rfl
  | .param idx, (h : idx ≤ 255) =>
    have hdec : parseDecimal (natText idx) = some (idx : ℤ) :=
      parseDecimal_of_splitSign (splitSign_natText idx)
    have hrange : decide ((0 : ℤ) ≤ idx ∧ (idx : ℤ) ≤ 255) = true :=
      decide_eq_true ⟨Int.natCast_nonneg idx, by exact_mod_cast h⟩
    rw [operandToken, tokenOperand]
    dsimp only
    rw [List.tail_cons, parseInt, hdec, Option.filter_some, if_pos hrange]
    rfl
  | .literal (.int i), _ =>
    have hrange : decide (-2 ^ 63 ≤ i.toInt ∧ i.toInt ≤ 2 ^ 63 - 1) = true :=
      decide_eq_true ⟨i.le_toInt, Int.le_sub_one_of_lt i.toInt_lt⟩
    rw [operandToken, valueToken, tokenOperand]
    dsimp only
    rw [parseInt, parseDecimal_intText, Option.filter_some, if_pos hrange, Option.map_some,
      Int64.ofInt_toInt]
  | .literal (.string s), _ =>
    have hlen : 2 ≤ (quote :: s ++ [quote]).length := by
      rw [List.length_append, List.length_cons, List.length_singleton]
      omega
    rw [operandToken, valueToken, tokenOperand]
    dsimp only
    rw [if_pos hlen, List.cons_append, List.tail_cons, List.dropLast_concat]
  | .literal (.float f), h =>
    rw [operandToken, valueToken, tokenOperand]
    dsimp only
    rw [parseFloat_floatText h]
    rfl

theorem lexeme_keyword {k : TK} {s : List UInt8} (h : Path s) (hk : wordKind s = k) :
    Lexeme k s := hk ▸ .word h

theorem path_words : Path andWord ∧ Path orWord ∧ Path notWord ∧ Path betweenWord ∧
    Path likeWord :=
  ⟨.name rfl (List.all_eq_true.mp rfl), .name rfl (List.all_eq_true.mp rfl),
    .name rfl (List.all_eq_true.mp rfl), .name rfl (List.all_eq_true.mp rfl),
    .name rfl (List.all_eq_true.mp rfl)⟩

theorem lexeme_relOp (op : RelOp) : Lexeme op.token.kind op.token.text := by
  cases op with
  | eq => exact .opEq
  | ne => exact .opNe
  | lt => exact .opLt
  | le => exact .opLe
  | gt => exact .opGt
  | ge => exact .opGe
  | like => exact lexeme_keyword path_words.2.2.2.2 (by decide)

theorem lexeme_parenthesised {ts : List Token} (h : ∀ t ∈ ts, Lexeme t.kind t.text) :
    ∀ t ∈ parenthesised ts, Lexeme t.kind t.text := by
  intro t ht
  simp only [parenthesised, List.mem_append, List.mem_cons, List.not_mem_nil, or_false] at ht
  rcases ht with (rfl | ht) | rfl
  · exact .lparen
  · exact h t ht
  · exact .rparen

theorem lexeme_tokens {a : AstNode} (h : a.Printable) : ∀ t ∈ a.tokens, Lexeme t.kind t.text := by
  obtain ⟨hand, hor, hnot, hbetween, -⟩ := path_words
  induction a with
  | compare left op right =>
    refine lexeme_parenthesised fun t ht => ?_
    simp only [List.mem_cons, List.not_mem_nil, or_false] at ht
    rcases ht with rfl | rfl | rfl
    · exact lexeme_operandToken h.1
    · exact lexeme_relOp op
    · exact lexeme_operandToken h.2
  | between field negated lo hi =>
    refine lexeme_parenthesised fun t ht => ?_
    simp only [List.mem_append, List.mem_cons, List.not_mem_nil, or_false] at ht
    rcases ht with (rfl | ht) | rfl | rfl | rfl | rfl
    · exact lexeme_operandToken h.1
    · split at ht
      next =>
        cases List.mem_singleton.1 ht
        exact lexeme_keyword hnot (by decide)
      next => cases ht
    · exact lexeme_keyword hbetween (by decide)
    · exact lexeme_operandToken h.2.1
    · exact lexeme_keyword hand (by decide)
    · exact lexeme_operandToken h.2.2
  | logicalAnd left right ih ih' =>
    refine lexeme_parenthesised fun t ht => ?_
    simp only [List.mem_append, List.mem_cons] at ht
    rcases ht with ht | rfl | ht
    · exact ih h.1 t ht
    · exact lexeme_keyword hand (by decide)
    · exact ih' h.2 t ht
  | logicalOr left right ih ih' =>
    refine lexeme_parenthesised fun t ht => ?_
    simp only [List.mem_append, List.mem_cons] at ht
    rcases ht with ht | rfl | ht
    · exact ih h.1 t ht
    · exact lexeme_keyword hor (by decide)
    · exact ih' h.2 t ht
  | logicalNot child ih =>
    refine lexeme_parenthesised fun t ht => ?_
    rcases List.mem_cons.1 ht with rfl | ht
    · exact lexeme_keyword hnot (by decide)
    · exact ih h t ht

theorem relOp_token (op : RelOp) : op.token.kind.relOp = some op := by
  cases op <;> rfl

theorem derives_tokens {a : AstNode} (h : a.Printable) :
    Derives tokenOperand .primary a.tokens a := by
  induction a with
  | compare left op right =>
    have hcompare := Derives.compare (tokenOperand_operandToken h.1) (relOp_token op)
      (tokenOperand_operandToken h.2)
    exact .paren rfl (.orOne (.andOne (.notOne (.primaryOne hcompare)))) rfl
  | between field negated lo hi =>
    have hfield : tokenOperand ⟨.ident, field⟩ = some (.field field) := rfl
    have hlo := tokenOperand_operandToken h.2.1
    have hhi := tokenOperand_operandToken h.2.2
    cases negated with
    | false =>
      have hbetween := Derives.between (b := betweenToken) (a := andToken) hfield rfl hlo rfl hhi
      exact .paren rfl (.orOne (.andOne (.notOne (.primaryOne hbetween)))) rfl
    | true =>
      have hbetween := Derives.notBetween (n := notToken) (b := betweenToken) (a := andToken) hfield
        rfl rfl hlo rfl hhi
      exact .paren rfl (.orOne (.andOne (.notOne (.primaryOne hbetween)))) rfl
  | logicalAnd left right ih ih' =>
    exact .paren rfl (.orOne (.and (.andOne (.notOne (ih h.1))) rfl (.notOne (ih' h.2)))) rfl
  | logicalOr left right ih ih' =>
    exact .paren rfl
      (.or (.orOne (.andOne (.notOne (ih h.1)))) rfl (.andOne (.notOne (ih' h.2)))) rfl
  | logicalNot child ih =>
    exact .paren rfl (.orOne (.andOne (.not rfl (.notOne (ih h))))) rfl

theorem trim_eq {c d : UInt8} {s : List UInt8} (hc : isWhitespace c = false)
    (hd : isWhitespace d = false) : trim (c :: s ++ [d]) = c :: s ++ [d] := by
  have hc' : ¬ isWhitespace c = true := Bool.eq_false_iff.1 hc
  have hd' : ¬ isWhitespace d = true := Bool.eq_false_iff.1 hd
  rw [trim, List.cons_append, List.dropWhile_cons_of_neg hc', ← List.cons_append,
    List.reverse_append, List.reverse_singleton, List.singleton_append,
    List.dropWhile_cons_of_neg hd', List.reverse_cons, List.reverse_reverse]

theorem trim_print (a : AstNode) : trim (print a) = print a := by
  obtain ⟨ts, hts⟩ : ∃ ts, a.tokens = parenthesised ts := by
    cases a <;> exact ⟨_, rfl⟩
  have hprint : print a = lparen :: (ts.flatMap (fun u => space :: u.text) ++ [space]) ++
      [rparen] := by
    rw [print, hts, parenthesised, List.cons_append, spaced, List.flatMap_append]
    simp only [List.flatMap_cons, List.flatMap_nil, List.append_nil, List.cons_append,
      List.nil_append, List.append_assoc]
  rw [hprint]
  exact trim_eq (by decide) (by decide)

/-- The tree of a text is printed as a text with that tree. -/
theorem parse_print {a : AstNode} (h : a.Printable) : parse (print a) = .ok (some a) := by
  have hlex := lexeme_tokens h
  obtain ⟨⟨r, hr, heof⟩, -⟩ := reads_iff_spells.1 (spells_spaced hlex)
  refine parse_iff_derives.2 ⟨?_, a.tokens, r, ?_, heof, .orOne (.andOne (.notOne ?_))⟩
  · rw [trim_print]
    intro hnil
    have hlen := hr.length_le
    rw [show spaced a.tokens = [] from hnil] at hlen
    exact absurd (derives_tokens h).length_pos hlen.not_gt
  · rw [trim_print]
    exact hr
  · exact derives_tokens h

/-! ### Every tree of a text can be printed -/

theorem Reads.mem {s r : List UInt8} {ts : List Token} (h : Reads s ts r) :
    ∀ t ∈ ts, Lexeme t.kind t.text ∨ t.kind = .invalid ∨ t.Unclosed := by
  induction ts generalizing s with
  | nil => exact fun t ht => nomatch ht
  | cons t ts ih =>
    obtain ⟨s', hnext, hkind, h⟩ := h
    obtain ⟨c, w, -, -, hread⟩ := exists_cons_of_nextToken hnext hkind
    exact List.forall_mem_cons.2 ⟨hread.imp (fun hlong => hlong.1) fun hbad => hbad.1, ih h⟩

theorem Lexeme.path {s : List UInt8} (h : Lexeme .ident s) : Path s ∧ wordKind s = .ident := by
  have hgen {k : TK} (h : Lexeme k s) (hk : k = .ident) : Path s ∧ wordKind s = .ident := by
    cases h with
    | word hs => exact ⟨hs, hk⟩
    | number => split_ifs at hk
    | param | string | opEq | opNe | opLt | opLe | opGt | opGe | lparen | rparen => cases hk
  exact hgen h rfl

theorem Lexeme.body {s : List UInt8} (h : Lexeme .string s) :
    ∃ body, quote ∉ body ∧ s = quote :: body ++ [quote] := by
  have hgen {k : TK} (h : Lexeme k s) (hk : k = .string) :
      ∃ body, quote ∉ body ∧ s = quote :: body ++ [quote] := by
    cases h with
    | word hs => exact absurd hk (wordKind_ne s).2.2
    | number => split_ifs at hk
    | string hs => exact ⟨_, hs, rfl⟩
    | param | opEq | opNe | opLt | opLe | opGt | opGe | lparen | rparen => cases hk
  exact hgen h rfl

theorem Fp.convert_ne_nan {f : Format} {x : Fp} (h : x ≠ .nan) : x.convert f ≠ .nan := by
  cases x with
  | nan => exact absurd rfl h
  | inf neg => exact fun h => nomatch h
  | finite q =>
    intro hnan
    have hround : f.round q = .nan := hnan
    unfold Format.round at hround
    split_ifs at hround

theorem Lexeme.isNumber {s : List UInt8} (h : Lexeme .float s) : IsNumber s := by
  have hgen {k : TK} (h : Lexeme k s) (hk : k = .float) : IsNumber s := by
    cases h with
    | @word s hs =>
      unfold wordKind at hk
      split_ifs at hk
    | number hsign hne hdigits hf he => exact ⟨_, _, _, _, hsign, hne, hdigits, hf, he, rfl⟩
    | param | string | opEq | opNe | opLt | opLe | opGt | opGe | lparen | rparen => cases hk
  exact hgen h rfl

theorem digit_facts {d : UInt8} (hd : isDigit d = true) :
    d ≠ minus ∧ d ≠ plus ∧ toLower d ≠ toLower 105 ∧ toLower d ≠ toLower 110 := by
  have hlower : toLower d = d := by
    rw [isDigit, Bool.and_eq_true, decide_eq_true_iff, decide_eq_true_iff] at hd
    exact if_neg fun h => absurd (UInt8.le_trans h.1 hd.2) (by decide)
  rw [hlower]
  refine ⟨?_, ?_, ?_, ?_⟩ <;>
  · rintro rfl
    revert hd
    decide

/-- The text of a number is not that of a NaN. -/
theorem numberValue_ne_nan {s : List UInt8} (h : Lexeme .float s) : numberValue s ≠ some .nan := by
  obtain ⟨c, t, rfl, -, -, hbegins⟩ := h.isNumber.begins
  obtain ⟨neg, d, body, hsplit, hd⟩ : ∃ neg d body,
      splitSign (c :: t) = (neg, d :: body) ∧ isDigit d = true := by
    rcases hbegins with hd | ⟨rfl, hd⟩
    · obtain ⟨hminus, hplus, -, -⟩ := digit_facts hd
      exact ⟨false, c, t, by rw [splitSign, if_neg hminus, if_neg hplus], hd⟩
    · cases t with
      | nil => cases hd
      | cons d t => exact ⟨true, d, t, by rw [splitSign, if_pos rfl], hd⟩
  obtain ⟨-, -, hi, hn⟩ := digit_facts hd
  have hplain {x : UInt8} {text : List UInt8} (hx : toLower d ≠ toLower x) :
      ¬ eqlIgnoreCase (d :: body) (x :: text) = true := by
    intro h
    exact hx (List.cons.inj (of_decide_eq_true h)).1
  have hnone : parseInfOrNan neg (d :: body) = none := by
    have hnan : ¬ eqlIgnoreCase (d :: body) nanText = true := hplain hn
    unfold parseInfOrNan
    rw [if_neg, if_neg hnan]
    rw [Bool.or_eq_true, not_or]
    exact ⟨hplain hi, hplain hi⟩
  rw [numberValue, hsplit]
  dsimp only
  rw [hnone]
  split <;> exact fun h => by cases h

theorem printable_of_token {t : Token} {o : Operand}
    (ht : Lexeme t.kind t.text ∨ t.kind = .invalid ∨ t.Unclosed) (ho : tokenOperand t = some o) :
    o.Printable := by
  unfold tokenOperand at ho
  split at ho
  next hkind =>
    cases ho
    rw [hkind] at ht
    rcases ht with hlex | hbad | ⟨hbad, -⟩
    · exact hlex.path
    · cases hbad
    · rw [hkind] at hbad
      cases hbad
  next hkind =>
    obtain ⟨n, hn, rfl⟩ := Option.map_eq_some_iff.1 ho
    have hrange := (Option.filter_eq_some_iff.1 hn).2
    rw [decide_eq_true_iff] at hrange
    show n.toNat ≤ 255
    omega
  next hkind =>
    obtain ⟨n, hn, rfl⟩ := Option.map_eq_some_iff.1 ho
    trivial
  next hkind =>
    obtain ⟨f, hf, rfl⟩ := Option.map_eq_some_iff.1 ho
    obtain ⟨x, hx, rfl⟩ := Option.map_eq_some_iff.1 hf
    rw [hkind] at ht
    rcases ht with hlex | hbad | ⟨hbad, -⟩
    · have hne : x ≠ .nan := by
        rintro rfl
        exact numberValue_ne_nan hlex hx
      exact ⟨Fp.convert_ne_nan hne, Fp.convert_convert _ _⟩
    · cases hbad
    · rw [hkind] at hbad
      cases hbad
  next hkind =>
    cases ho
    show quote ∉ if 2 ≤ t.text.length then t.text.tail.dropLast else []
    rw [hkind] at ht
    rcases ht with hlex | hbad | ⟨-, hopen⟩
    · obtain ⟨body, hbody, htext⟩ := hlex.body
      rw [htext]
      split_ifs
      · rwa [List.cons_append, List.tail_cons, List.dropLast_concat]
      · exact List.not_mem_nil
    · cases hbad
    · split_ifs
      · exact fun hq => hopen (List.mem_of_mem_dropLast hq)
      · exact List.not_mem_nil
  next => cases ho

theorem Derives.printable {level : Level} {ts : List Token} {a : AstNode}
    (h : Derives tokenOperand level ts a)
    (hts : ∀ t ∈ ts, ∀ o, tokenOperand t = some o → o.Printable) : a.Printable := by
  induction h with
  | orOne h ih => exact ih hts
  | or h ho h' ih ih' =>
    simp only [List.forall_mem_append, List.forall_mem_cons] at hts
    exact ⟨ih hts.1, ih' hts.2.2⟩
  | andOne h ih => exact ih hts
  | and h ho h' ih ih' =>
    simp only [List.forall_mem_append, List.forall_mem_cons] at hts
    exact ⟨ih hts.1, ih' hts.2.2⟩
  | notOne h ih => exact ih hts
  | not ho h ih => exact ih (List.forall_mem_cons.1 hts).2
  | paren hl h hr ih =>
    simp only [List.forall_mem_append, List.forall_mem_cons] at hts
    exact ih hts.1.2
  | primaryOne h ih => exact ih hts
  | compare hl ho hr =>
    simp only [List.forall_mem_cons] at hts
    exact ⟨hts.1 _ hl, hts.2.2.1 _ hr⟩
  | between hf hb hl ha hh =>
    simp only [List.forall_mem_cons] at hts
    exact ⟨hts.1 _ hf, hts.2.2.1 _ hl, hts.2.2.2.2.1 _ hh⟩
  | notBetween hf hn hb hl ha hh =>
    simp only [List.forall_mem_cons] at hts
    exact ⟨hts.1 _ hf, hts.2.2.2.1 _ hl, hts.2.2.2.2.2.1 _ hh⟩

theorem printable_of_parse {s : List UInt8} {a : AstNode} (h : parse s = .ok (some a)) :
    a.Printable := by
  obtain ⟨-, ts, r, hr, -, hder⟩ := parse_iff_derives.1 h
  exact hder.printable fun t ht o ho => printable_of_token (hr.mem t ht) ho

/-- **The parser and the grammar.**  The parser answers a text as the grammar says unless the text
has a lax token; a text has one tree at most; and printing a tree and parsing it gives it back. -/
theorem parse_grammar (s : List UInt8) :
    ((∀ a, parse s = .ok (some a) ↔ Sentence (trim s) a) ↔ ¬ LaxText (trim s)) ∧
      (∀ a b, Sentence (trim s) a → Sentence (trim s) b → a = b) ∧
      ∀ a, parse s = .ok (some a) → parse (print a) = .ok (some a) :=
  ⟨parse_iff_sentence, fun _ _ h h' => h.unique h', fun _ h => parse_print (printable_of_parse h)⟩

/-- The expression `a='bc`. -/
def unclosedText : List UInt8 := [97, 61, 39, 98, 99]

/-- A literal that is not closed is taken, and loses its last character. -/
theorem parse_unclosed :
    parse unclosedText = .ok (some (.compare (.field [97]) .eq (.literal (.string [98])))) ∧
      ∀ a, ¬ Sentence (trim unclosedText) a := by
  refine ⟨by decide, ?_⟩
  rintro a ⟨ts, hspell, -⟩
  obtain ⟨⟨r, hr, heof⟩, hts⟩ := reads_iff_spells.1 hspell
  have hreads : Reads (trim unclosedText)
      [⟨.ident, [97]⟩, ⟨.opEq, [61]⟩, ⟨.string, [39, 98, 99]⟩] [] := by
    refine ⟨[61, 39, 98, 99], by decide, by decide, [39, 98, 99], by decide, by decide, [], ?_⟩
    exact ⟨by decide, by decide, rfl⟩
  cases hreads.unique (by decide) hr heof
  exact (hts ⟨.string, [39, 98, 99]⟩ (by decide)).2 (by decide)

end Zzdds.Dcps.Filter
