import Zzdds.Dcps.Filter.Lexemes
import Zzdds.Dcps.Filter.Parser

/-! # The grammar of a filter expression

`Derives` is the grammar over the tokens of a text, with the tree each sentence has: OR binds less
than AND, AND less than NOT, and both group to the left.  The parser accepts the token sequences
that have a tree and answers with it (`parse_iff_derives`). -/

namespace Zzdds.Dcps.Filter

open Lib

inductive Level where
  | or | and | not | primary | predicate
deriving DecidableEq

/-- The trees of a sequence of tokens; `val` says what operand a token is. -/
inductive Derives (val : Token → Option Operand) : Level → List Token → AstNode → Prop
  | orOne {ts : List Token} {a : AstNode} (h : Derives val .and ts a) : Derives val .or ts a
  | or {ts us : List Token} {o : Token} {a b : AstNode} (h : Derives val .or ts a)
      (ho : o.kind = .kwOr) (h' : Derives val .and us b) :
      Derives val .or (ts ++ o :: us) (.logicalOr a b)
  | andOne {ts : List Token} {a : AstNode} (h : Derives val .not ts a) : Derives val .and ts a
  | and {ts us : List Token} {o : Token} {a b : AstNode} (h : Derives val .and ts a)
      (ho : o.kind = .kwAnd) (h' : Derives val .not us b) :
      Derives val .and (ts ++ o :: us) (.logicalAnd a b)
  | notOne {ts : List Token} {a : AstNode} (h : Derives val .primary ts a) : Derives val .not ts a
  | not {ts : List Token} {o : Token} {a : AstNode} (ho : o.kind = .kwNot)
      (h : Derives val .not ts a) : Derives val .not (o :: ts) (.logicalNot a)
  | paren {ts : List Token} {l r : Token} {a : AstNode} (hl : l.kind = .lparen)
      (h : Derives val .or ts a) (hr : r.kind = .rparen) : Derives val .primary (l :: ts ++ [r]) a
  | primaryOne {ts : List Token} {a : AstNode} (h : Derives val .predicate ts a) :
      Derives val .primary ts a
  | compare {l o r : Token} {left right : Operand} {op : RelOp} (hl : val l = some left)
      (ho : o.kind.relOp = some op) (hr : val r = some right) :
      Derives val .predicate [l, o, r] (.compare left op right)
  | between {f b l a h : Token} {name : List UInt8} {lo hi : Operand}
      (hf : val f = some (.field name)) (hb : b.kind = .kwBetween) (hl : val l = some lo)
      (ha : a.kind = .kwAnd) (hh : val h = some hi) :
      Derives val .predicate [f, b, l, a, h] (.between name false lo hi)
  | notBetween {f n b l a h : Token} {name : List UInt8} {lo hi : Operand}
      (hf : val f = some (.field name)) (hn : n.kind = .kwNot) (hb : b.kind = .kwBetween)
      (hl : val l = some lo) (ha : a.kind = .kwAnd) (hh : val h = some hi) :
      Derives val .predicate [f, n, b, l, a, h] (.between name true lo hi)

/-! ### Reading -/

variable {s m r : List UInt8} {ts us : List Token}

theorem Reads.append (h : Reads s ts m) (h' : Reads m us r) : Reads s (ts ++ us) r := by
  induction ts generalizing s with
  | nil =>
    cases h
    exact h'
  | cons t ts ih =>
    obtain ⟨s', hnext, hkind, h⟩ := h
    exact ⟨s', hnext, hkind, ih h⟩

theorem Reads.of_append (h : Reads s (ts ++ us) r) : ∃ m, Reads s ts m ∧ Reads m us r := by
  induction ts generalizing s with
  | nil => exact ⟨s, rfl, h⟩
  | cons t ts ih =>
    obtain ⟨s', hnext, hkind, h⟩ := h
    obtain ⟨m, hts, hus⟩ := ih h
    exact ⟨m, ⟨s', hnext, hkind, hts⟩, hus⟩

/-- The token at hand, and then the others. -/
theorem Reads.next (hkind : peekKind s ≠ .eof) (h : Reads (nextToken s).2 ts r) :
    Reads s ((nextToken s).1 :: ts) r := ⟨(nextToken s).2, rfl, hkind, h⟩

theorem Reads.cons_iff {t : Token} : Reads s (t :: ts) r ↔
    (nextToken s).1 = t ∧ t.kind ≠ .eof ∧ Reads (nextToken s).2 ts r := by
  constructor
  · rintro ⟨s', hnext, hkind, h⟩
    rw [hnext]
    exact ⟨rfl, hkind, h⟩
  · rintro ⟨rfl, hkind, h⟩
    exact .next hkind h

/-- No token is empty. -/
theorem text_ne_nil (h : peekKind s ≠ .eof) : (nextToken s).1.text ≠ [] := by
  unfold peekKind at h
  unfold nextToken at h ⊢
  have hscan : ∀ c w, (scanToken c w).1.text ≠ [] := by
    intro c w
    unfold scanToken
    split_ifs with h₁ h₂ h₃ h₄ h₅ h₆ h₇ hnumber
    any_goals exact List.cons_ne_nil _ _
    rw [Bool.or_eq_true, Bool.and_eq_true, decide_eq_true_iff] at hnumber
    obtain ⟨c', t, htext, -⟩ := (lexeme_scanNumber hnumber).continues
    rw [htext]
    exact List.cons_ne_nil c' t
  split at h
  · exact absurd rfl h
  · exact hscan _ _
  · split
    · exact List.cons_ne_nil _ _
    · exact hscan _ _

theorem Reads.length_le (h : Reads s ts r) : ts.length ≤ s.length := by
  induction ts generalizing s with
  | nil => exact Nat.zero_le _
  | cons t ts ih =>
    obtain ⟨s', hnext, hkind, h⟩ := h
    obtain ⟨c, w, hskip, happ, -⟩ := exists_cons_of_nextToken hnext hkind
    have hne : t.text ≠ [] := by
      have hne := text_ne_nil (s := s)
      rw [peekKind, hnext] at hne
      exact hne hkind
    have hlen := List.length_dropWhile_le isWhitespace s
    rw [show s.dropWhile isWhitespace = c :: w from hskip, ← happ, List.length_append] at hlen
    have hpos := List.length_pos_iff.2 hne
    have hrest := ih h
    dsimp only at hlen
    rw [List.length_cons]
    omega

/-! ### Predicates -/

variable {a : AstNode} {t : Token}

theorem Reads.one (hkind : peekKind s ≠ .eof) : Reads s [(nextToken s).1] (nextToken s).2 :=
  .next hkind rfl

theorem tokenOperand_kind {o : Operand} (h : tokenOperand t = some o) :
    t.kind ≠ .eof ∧ t.kind ≠ .lparen ∧ t.kind ≠ .kwNot := by
  unfold tokenOperand at h
  split at h
  case h_6 => cases h
  all_goals
    rename_i hkind
    rw [hkind]
    exact ⟨by decide, by decide, by decide⟩

theorem relOp_kind {k : TK} {op : RelOp} (h : k.relOp = some op) :
    k ≠ .eof ∧ k ≠ .kwBetween ∧ k ≠ .kwNot := by
  unfold TK.relOp at h
  split at h
  case h_8 => cases h
  all_goals exact ⟨by decide, by decide, by decide⟩

theorem parseOperand_iff {o : Operand} : parseOperand s = some (o, r) ↔
    ∃ t, Reads s [t] r ∧ tokenOperand t = some o := by
  rw [parseOperand, Option.map_eq_some_iff]
  constructor
  · rintro ⟨o', ho, heq⟩
    cases heq
    exact ⟨_, .one (tokenOperand_kind ho).1, ho⟩
  · rintro ⟨t, h, ho⟩
    obtain ⟨rfl, -, rfl⟩ := Reads.cons_iff.1 h
    exact ⟨o, ho, rfl⟩

theorem parseRelOp_iff {op : RelOp} : parseRelOp s = some (op, r) ↔
    ∃ t, Reads s [t] r ∧ t.kind.relOp = some op := by
  rw [parseRelOp, Option.map_eq_some_iff]
  constructor
  · rintro ⟨op', ho, heq⟩
    cases heq
    exact ⟨_, .one (relOp_kind ho).1, ho⟩
  · rintro ⟨t, h, ho⟩
    obtain ⟨rfl, -, rfl⟩ := Reads.cons_iff.1 h
    exact ⟨op, ho, rfl⟩

theorem parseCompareRest_iff {left : Operand} : parseCompareRest left s = some (a, r) ↔
    ∃ o t op right, Reads s [o, t] r ∧ o.kind.relOp = some op ∧ tokenOperand t = some right ∧
      a = .compare left op right := by
  simp only [parseCompareRest, Option.bind_eq_bind, Option.bind_eq_some_iff, Prod.exists,
    parseRelOp_iff, parseOperand_iff, Option.pure_def, Option.some.injEq, Prod.mk.injEq]
  constructor
  · rintro ⟨op, m, ⟨o, hm, ho⟩, right, r', ⟨t, hr, ht⟩, rfl, rfl⟩
    exact ⟨o, t, op, right, hm.append hr, ho, ht, rfl⟩
  · rintro ⟨o, t, op, right, h, ho, ht, rfl⟩
    obtain ⟨m, hm, hr⟩ := (show Reads s ([o] ++ [t]) r from h).of_append
    exact ⟨op, m, ⟨o, hm, ho⟩, right, r, ⟨t, hr, ht⟩, rfl, rfl⟩

theorem parseBetweenRest_iff {field : List UInt8} {negated : Bool} :
    parseBetweenRest field negated s = some (a, r) ↔
      ∃ l c h lo hi, Reads s [l, c, h] r ∧ tokenOperand l = some lo ∧ c.kind = .kwAnd ∧
        tokenOperand h = some hi ∧ a = .between field negated lo hi := by
  simp only [parseBetweenRest, Option.bind_eq_bind, Option.bind_eq_some_iff, Prod.exists,
    parseOperand_iff, Option.pure_def]
  constructor
  · rintro ⟨lo, m, ⟨l, hm, hl⟩, h⟩
    split at h
    next hand =>
      simp only [Option.bind_eq_some_iff, Prod.exists, parseOperand_iff, Option.some.injEq,
        Prod.mk.injEq] at h
      obtain ⟨hi, r', ⟨t, hr, ht⟩, rfl, rfl⟩ := h
      have hand' : peekKind m ≠ .eof := by
        rw [hand]
        decide
      exact ⟨l, _, t, lo, hi, hm.append (.next hand' hr), hl, hand, ht, rfl⟩
    next => cases h
  · rintro ⟨l, c, t, lo, hi, h, hl, hc, ht, rfl⟩
    obtain ⟨m, hm, hr⟩ := (show Reads s ([l] ++ [c, t]) r from h).of_append
    obtain ⟨rfl, -, hr⟩ := Reads.cons_iff.1 hr
    refine ⟨lo, m, ⟨l, hm, hl⟩, ?_⟩
    rw [if_pos (show peekKind m = .kwAnd from hc)]
    simp only [Option.bind_eq_some_iff, Prod.exists, parseOperand_iff]
    exact ⟨hi, r, ⟨t, hr, ht⟩, rfl⟩

theorem parsePredicate_iff : parsePredicate s = some (a, r) ↔
    ∃ ts, Reads s ts r ∧ Derives tokenOperand .predicate ts a := by
  simp only [parsePredicate, Option.bind_eq_bind, Option.bind_eq_some_iff, Prod.exists,
    parseOperand_iff]
  constructor
  · rintro ⟨left, m, ⟨l, hm, hl⟩, h⟩
    have hcompare (h : parseCompareRest left m = some (a, r)) :
        ∃ ts, Reads s ts r ∧ Derives tokenOperand .predicate ts a := by
      obtain ⟨o, t, op, right, hr, ho, ht, rfl⟩ := parseCompareRest_iff.1 h
      exact ⟨_, hm.append hr, .compare hl ho ht⟩
    cases left with
    | param idx => exact hcompare h
    | literal v => exact hcompare h
    | field name =>
      dsimp only at h
      split_ifs at h with hbetween hnot
      · obtain ⟨lo, c, hi, vlo, vhi, hr, hlo, hc, hhi, rfl⟩ := parseBetweenRest_iff.1 h
        have hkind : peekKind m ≠ .eof := by
          rw [hbetween]
          decide
        exact ⟨_, hm.append (.next hkind hr), .between hl hbetween hlo hc hhi⟩
      · obtain ⟨lo, c, hi, vlo, vhi, hr, hlo, hc, hhi, rfl⟩ := parseBetweenRest_iff.1 h
        have hkind : peekKind m ≠ .eof := by
          rw [hnot.1]
          decide
        have hkind' : peekKind (nextToken m).2 ≠ .eof := by
          rw [hnot.2]
          decide
        exact ⟨_, hm.append (.next hkind (.next hkind' hr)),
          .notBetween hl hnot.1 hnot.2 hlo hc hhi⟩
      · exact hcompare h
  · rintro ⟨ts, h, hder⟩
    cases hder with
    | @compare l o t left right op hl ho ht =>
      obtain ⟨m, hm, hr⟩ := (show Reads s ([l] ++ [o, t]) r from h).of_append
      have hrest : parseCompareRest left m = some (.compare left op right, r) :=
        parseCompareRest_iff.2 ⟨o, t, op, right, hr, ho, ht, rfl⟩
      refine ⟨left, m, ⟨l, hm, hl⟩, ?_⟩
      cases left with
      | param idx => exact hrest
      | literal v => exact hrest
      | field name =>
        obtain ⟨rfl, -, -⟩ := Reads.cons_iff.1 hr
        have hkind : peekKind m ≠ .eof ∧ peekKind m ≠ .kwBetween ∧ peekKind m ≠ .kwNot :=
          relOp_kind ho
        dsimp only
        rw [if_neg hkind.2.1, if_neg fun h => hkind.2.2 h.1]
        exact hrest
    | @between f b l c t name lo hi hf hb hl hc ht =>
      obtain ⟨m, hm, hr⟩ := (show Reads s ([f] ++ [b, l, c, t]) r from h).of_append
      obtain ⟨rfl, -, hr⟩ := Reads.cons_iff.1 hr
      refine ⟨.field name, m, ⟨f, hm, hf⟩, ?_⟩
      dsimp only
      rw [if_pos (show peekKind m = .kwBetween from hb)]
      exact parseBetweenRest_iff.2 ⟨l, c, t, lo, hi, hr, hl, hc, ht, rfl⟩
    | @notBetween f n b l c t name lo hi hf hn hb hl hc ht =>
      obtain ⟨m, hm, hr⟩ := (show Reads s ([f] ++ [n, b, l, c, t]) r from h).of_append
      obtain ⟨rfl, -, hr⟩ := Reads.cons_iff.1 hr
      obtain ⟨rfl, -, hr⟩ := Reads.cons_iff.1 hr
      have hkind : peekKind m = .kwNot := hn
      have hne : peekKind m ≠ .kwBetween := by
        rw [hkind]
        decide
      refine ⟨.field name, m, ⟨f, hm, hf⟩, ?_⟩
      dsimp only
      rw [if_neg hne, if_pos ⟨hkind, hb⟩]
      exact parseBetweenRest_iff.2 ⟨l, c, t, lo, hi, hr, hl, hc, ht, rfl⟩

/-- A predicate begins with an operand. -/
theorem predicate_head {ts : List Token} (h : Derives tokenOperand .predicate ts a) :
    ∃ t us, ts = t :: us ∧ t.kind ≠ .eof ∧ t.kind ≠ .lparen ∧ t.kind ≠ .kwNot := by
  cases h with
  | compare hl => exact ⟨_, _, rfl, tokenOperand_kind hl⟩
  | between hf => exact ⟨_, _, rfl, tokenOperand_kind hf⟩
  | notBetween hf => exact ⟨_, _, rfl, tokenOperand_kind hf⟩

/-! ### The parser answers with a tree of what it read -/

variable {n : ℕ} {left : AstNode}

theorem parseOr_succ : parseOr (n + 1) s = some (a, r) ↔
    ∃ left m, parseAnd n s = some (left, m) ∧ orLoop n left m = some (a, r) := by
  simp only [parseOr, Option.bind_eq_bind, Option.bind_eq_some_iff, Prod.exists]

theorem parseAnd_succ : parseAnd (n + 1) s = some (a, r) ↔
    ∃ left m, parseNot n s = some (left, m) ∧ andLoop n left m = some (a, r) := by
  simp only [parseAnd, Option.bind_eq_bind, Option.bind_eq_some_iff, Prod.exists]

/-- Every answer of the parser with this fuel is a tree of the tokens it read. -/
structure Sound (n : ℕ) : Prop where
  or : ∀ {s a r}, parseOr n s = some (a, r) →
    ∃ ts, Reads s ts r ∧ Derives tokenOperand .or ts a ∧
      peekKind r ≠ .kwAnd ∧ peekKind r ≠ .kwOr
  orLoop : ∀ {left s a r us}, orLoop n left s = some (a, r) → peekKind s ≠ .kwAnd →
    Derives tokenOperand .or us left →
    ∃ ts, Reads s ts r ∧ Derives tokenOperand .or (us ++ ts) a ∧
      peekKind r ≠ .kwAnd ∧ peekKind r ≠ .kwOr
  and : ∀ {s a r}, parseAnd n s = some (a, r) →
    ∃ ts, Reads s ts r ∧ Derives tokenOperand .and ts a ∧ peekKind r ≠ .kwAnd
  andLoop : ∀ {left s a r us}, andLoop n left s = some (a, r) →
    Derives tokenOperand .and us left →
    ∃ ts, Reads s ts r ∧ Derives tokenOperand .and (us ++ ts) a ∧ peekKind r ≠ .kwAnd
  not : ∀ {s a r}, parseNot n s = some (a, r) →
    ∃ ts, Reads s ts r ∧ Derives tokenOperand .not ts a
  primary : ∀ {s a r}, parsePrimary n s = some (a, r) →
    ∃ ts, Reads s ts r ∧ Derives tokenOperand .primary ts a

theorem Reads.nextKind {k : TK} (h : peekKind s = k) (hk : k ≠ .eof)
    (hr : Reads (nextToken s).2 ts r) : Reads s ((nextToken s).1 :: ts) r :=
  .next (h ▸ hk) hr

theorem Sound.zero : Sound 0 where
  or h := nomatch h
  orLoop h := nomatch h
  and h := nomatch h
  andLoop h := nomatch h
  not h := nomatch h
  primary h := nomatch h

theorem Sound.succ (ih : Sound n) : Sound (n + 1) where
  or {s a r} h := by
    obtain ⟨left, m, hleft, hloop⟩ := parseOr_succ.1 h
    obtain ⟨us, hm, hus, hpeek⟩ := ih.and hleft
    obtain ⟨ts, hr, hder, hend⟩ := ih.orLoop hloop hpeek (.orOne hus)
    exact ⟨us ++ ts, hm.append hr, hder, hend⟩
  orLoop {left s a r us} h hpeek hus := by
    rw [Filter.orLoop] at h
    split at h
    next hor =>
      simp only [Option.bind_eq_bind, Option.bind_eq_some_iff, Prod.exists] at h
      obtain ⟨right, m, hright, hloop⟩ := h
      obtain ⟨vs, hm, hvs, hpeek'⟩ := ih.and hright
      obtain ⟨ts, hr, hder, hend⟩ := ih.orLoop hloop hpeek' (.or hus hor hvs)
      refine ⟨_, (Reads.nextKind hor (by decide) hm).append hr, ?_, hend⟩
      rwa [List.append_assoc] at hder
    next hor =>
      cases h
      refine ⟨[], rfl, ?_, hpeek, hor⟩
      rwa [List.append_nil]
  and {s a r} h := by
    obtain ⟨left, m, hleft, hloop⟩ := parseAnd_succ.1 h
    obtain ⟨us, hm, hus⟩ := ih.not hleft
    obtain ⟨ts, hr, hder, hend⟩ := ih.andLoop hloop (.andOne hus)
    exact ⟨us ++ ts, hm.append hr, hder, hend⟩
  andLoop {left s a r us} h hus := by
    rw [Filter.andLoop] at h
    split at h
    next hand =>
      simp only [Option.bind_eq_bind, Option.bind_eq_some_iff, Prod.exists] at h
      obtain ⟨right, m, hright, hloop⟩ := h
      obtain ⟨vs, hm, hvs⟩ := ih.not hright
      obtain ⟨ts, hr, hder, hend⟩ := ih.andLoop hloop (.and hus hand hvs)
      refine ⟨_, (Reads.nextKind hand (by decide) hm).append hr, ?_, hend⟩
      rwa [List.append_assoc] at hder
    next hand =>
      cases h
      refine ⟨[], rfl, ?_, hand⟩
      rwa [List.append_nil]
  not {s a r} h := by
    rw [parseNot] at h
    split at h
    next hnot =>
      simp only [Option.bind_eq_bind, Option.bind_eq_some_iff, Prod.exists, Option.pure_def] at h
      obtain ⟨child, m, hchild, heq⟩ := h
      cases heq
      obtain ⟨ts, hr, hder⟩ := ih.not hchild
      exact ⟨_, .nextKind hnot (by decide) hr, .not hnot hder⟩
    next =>
      obtain ⟨ts, hr, hder⟩ := ih.primary h
      exact ⟨ts, hr, .notOne hder⟩
  primary {s a r} h := by
    rw [parsePrimary] at h
    split at h
    next hopen =>
      simp only [Option.bind_eq_bind, Option.bind_eq_some_iff, Prod.exists] at h
      obtain ⟨inner, m, hinner, h⟩ := h
      obtain ⟨ts, hr, hder, -⟩ := ih.or hinner
      split at h
      next hclose =>
        cases h
        have hlast : Reads m [(nextToken m).1] (nextToken m).2 :=
          .nextKind hclose (by decide) rfl
        exact ⟨_, (Reads.nextKind hopen (by decide) hr).append hlast, .paren hopen hder hclose⟩
      next => cases h
    next =>
      obtain ⟨ts, hr, hder⟩ := parsePredicate_iff.1 h
      exact ⟨ts, hr, .primaryOne hder⟩

theorem sound (n : ℕ) : Sound n := by
  induction n with
  | zero => exact .zero
  | succ n ih => exact ih.succ

/-! ### The parser finds every tree -/

/-- With fuel enough for `ts`, the functions of a level answer with its tree; those with a loop come
to the loop that is to go on with it. -/
def Found (level : Level) (ts : List Token) (a : AstNode) : Prop :=
  ∀ {s r n}, Reads s ts r → match level with
    | .or => 2 * ts.length + 4 ≤ n → peekKind r ≠ .kwAnd →
        ∃ k, n ≤ k + ts.length ∧ parseOr n s = orLoop k a r
    | .and => 2 * ts.length + 3 ≤ n → ∃ k, n ≤ k + ts.length ∧ parseAnd n s = andLoop k a r
    | .not => 2 * ts.length + 2 ≤ n → parseNot n s = some (a, r)
    | .primary => 2 * ts.length + 1 ≤ n → parsePrimary n s = some (a, r)
    | .predicate => parsePredicate s = some (a, r)

theorem orLoop_done {k : ℕ} (hk : k ≠ 0) (h : peekKind r ≠ .kwOr) :
    orLoop k a r = some (a, r) := by
  obtain ⟨k, rfl⟩ := Nat.exists_eq_succ_of_ne_zero hk
  rw [Nat.succ_eq_add_one, orLoop, if_neg h]

theorem andLoop_done {k : ℕ} (hk : k ≠ 0) (h : peekKind r ≠ .kwAnd) :
    andLoop k a r = some (a, r) := by
  obtain ⟨k, rfl⟩ := Nat.exists_eq_succ_of_ne_zero hk
  rw [Nat.succ_eq_add_one, andLoop, if_neg h]

theorem Derives.length_pos {level : Level} {val : Token → Option Operand}
    (h : Derives val level ts a) : 0 < ts.length := by
  induction h with
  | orOne h ih => exact ih
  | andOne h ih => exact ih
  | notOne h ih => exact ih
  | primaryOne h ih => exact ih
  | or | and | not | paren | compare | between | notBetween => simp

theorem primary_head {a : AstNode} (h : Derives tokenOperand .primary ts a) :
    ∃ t us, ts = t :: us ∧ t.kind ≠ .kwNot := by
  cases h with
  | paren hl =>
    refine ⟨_, _, rfl, ?_⟩
    rw [hl]
    decide
  | primaryOne h =>
    obtain ⟨t, us, hts, -, -, hnot⟩ := predicate_head h
    exact ⟨t, us, hts, hnot⟩

theorem Derives.found {level : Level} (h : Derives tokenOperand level ts a) :
    Found level ts a := by
  induction h with
  | @orOne ts a h ih =>
    intro s r n hr hn hend
    obtain ⟨n, rfl⟩ : ∃ m, n = m + 1 := ⟨n - 1, by omega⟩
    have hne := h.length_pos
    obtain ⟨k, hk, heq⟩ := ih (n := n) hr (by omega)
    refine ⟨n, by omega, ?_⟩
    rw [andLoop_done (by omega) hend] at heq
    rw [parseOr, heq]
    rfl
  | @or ts us o a b h ho h' ih ih' =>
    intro s r n hr hn hend
    rw [List.length_append, List.length_cons] at hn ⊢
    obtain ⟨m, hm, hr⟩ := hr.of_append
    obtain ⟨rfl, -, hr⟩ := Reads.cons_iff.1 hr
    have hpeek : peekKind m = .kwOr := ho
    have hne : peekKind m ≠ .kwAnd := by
      rw [hpeek]
      decide
    obtain ⟨k, hk, heq⟩ := ih (n := n) hm (by omega) hne
    obtain ⟨k, rfl⟩ : ∃ m, k = m + 1 := ⟨k - 1, by omega⟩
    obtain ⟨k', hk', heq'⟩ := ih' (n := k) hr (by omega)
    refine ⟨k, by omega, ?_⟩
    rw [andLoop_done (by omega) hend] at heq'
    rw [heq, orLoop, if_pos hpeek, heq']
    rfl
  | @andOne ts a h ih =>
    intro s r n hr hn
    obtain ⟨n, rfl⟩ : ∃ m, n = m + 1 := ⟨n - 1, by omega⟩
    have hne := h.length_pos
    refine ⟨n, by omega, ?_⟩
    rw [parseAnd, ih (n := n) hr (by omega)]
    rfl
  | @and ts us o a b h ho h' ih ih' =>
    intro s r n hr hn
    rw [List.length_append, List.length_cons] at hn ⊢
    obtain ⟨m, hm, hr⟩ := hr.of_append
    obtain ⟨rfl, -, hr⟩ := Reads.cons_iff.1 hr
    have hpeek : peekKind m = .kwAnd := ho
    obtain ⟨k, hk, heq⟩ := ih (n := n) hm (by omega)
    obtain ⟨k, rfl⟩ : ∃ m, k = m + 1 := ⟨k - 1, by omega⟩
    refine ⟨k, by omega, ?_⟩
    rw [heq, andLoop, if_pos hpeek, ih' (n := k) hr (by omega)]
    rfl
  | @notOne ts a h ih =>
    intro s r n hr hn
    obtain ⟨n, rfl⟩ : ∃ m, n = m + 1 := ⟨n - 1, by omega⟩
    obtain ⟨t, us, rfl, hnot⟩ := primary_head h
    obtain ⟨rfl, -, -⟩ := Reads.cons_iff.1 hr
    rw [parseNot, if_neg (show peekKind s ≠ .kwNot from hnot)]
    exact ih hr (by omega)
  | @not ts o a ho h ih =>
    intro s r n hr hn
    rw [List.length_cons] at hn
    obtain ⟨n, rfl⟩ : ∃ m, n = m + 1 := ⟨n - 1, by omega⟩
    obtain ⟨rfl, -, hr⟩ := Reads.cons_iff.1 hr
    rw [parseNot, if_pos (show peekKind s = .kwNot from ho), ih (n := n) hr (by omega)]
    rfl
  | @paren ts l c a hl h hc ih =>
    intro s r n hr hn
    rw [List.length_append, List.length_cons, List.length_singleton] at hn
    obtain ⟨n, rfl⟩ : ∃ m, n = m + 1 := ⟨n - 1, by omega⟩
    obtain ⟨m, hm, hlast⟩ := hr.of_append
    obtain ⟨rfl, -, hm⟩ := Reads.cons_iff.1 hm
    obtain ⟨rfl, -, rfl⟩ := Reads.cons_iff.1 hlast
    have hpeek : peekKind m = .rparen := hc
    have hand : peekKind m ≠ .kwAnd := by
      rw [hpeek]
      decide
    have hor : peekKind m ≠ .kwOr := by
      rw [hpeek]
      decide
    obtain ⟨k, hk, heq⟩ := ih (n := n) hm (by omega) hand
    rw [orLoop_done (by omega) hor] at heq
    rw [parsePrimary, if_pos (show peekKind s = .lparen from hl), heq]
    exact if_pos hpeek
  | @primaryOne ts a h ih =>
    intro s r n hr hn
    obtain ⟨n, rfl⟩ : ∃ m, n = m + 1 := ⟨n - 1, by omega⟩
    obtain ⟨t, us, rfl, -, hopen, -⟩ := predicate_head h
    obtain ⟨rfl, -, -⟩ := Reads.cons_iff.1 hr
    rw [parsePrimary, if_neg (show peekKind s ≠ .lparen from hopen)]
    exact ih (n := n) hr
  | compare hl ho hr =>
    intro s r n h
    exact parsePredicate_iff.2 ⟨_, h, .compare hl ho hr⟩
  | between hf hb hl ha hh =>
    intro s r n h
    exact parsePredicate_iff.2 ⟨_, h, .between hf hb hl ha hh⟩
  | notBetween hf hn hb hl ha hh =>
    intro s r n h
    exact parsePredicate_iff.2 ⟨_, h, .notBetween hf hn hb hl ha hh⟩

/-- More fuel than the tokens need changes nothing. -/
theorem parseOr_iff (hn : 2 * s.length + 4 ≤ n) : parseOr n s = some (a, r) ↔
    ∃ ts, Reads s ts r ∧ Derives tokenOperand .or ts a ∧
      peekKind r ≠ .kwAnd ∧ peekKind r ≠ .kwOr := by
  refine ⟨(sound n).or, ?_⟩
  rintro ⟨ts, hr, hder, hand, hor⟩
  have hlen := hr.length_le
  obtain ⟨k, hk, heq⟩ := hder.found (n := n) hr (by omega) hand
  rw [heq, orLoop_done (by omega) hor]

/-- The parser accepts a text when its tokens have a tree, and answers with the tree. -/
theorem parse_iff_derives : parse s = .ok (some a) ↔ trim s ≠ [] ∧
    ∃ ts r, Reads (trim s) ts r ∧ peekKind r = .eof ∧ Derives tokenOperand .or ts a := by
  have hparse : parse s = .ok (some a) ↔ trim s ≠ [] ∧
      ∃ r, parseOr (parseFuel (trim s)) (trim s) = some (a, r) ∧ peekKind r = .eof := by
    unfold parse
    split_ifs with hnil
    · exact ⟨fun h => (nomatch h), fun h => absurd hnil h.1⟩
    · cases hor : parseOr (parseFuel (trim s)) (trim s) with
      | none => exact ⟨fun h => (nomatch h), fun ⟨_, r, h, _⟩ => (nomatch h)⟩
      | some out =>
        obtain ⟨root, r⟩ := out
        dsimp only
        split_ifs with heof
        · constructor
          · intro h
            cases h
            exact ⟨hnil, r, rfl, heof⟩
          · rintro ⟨-, r', h, -⟩
            cases h
            rfl
        · refine ⟨fun h => (nomatch h), ?_⟩
          rintro ⟨-, r', h, heof'⟩
          cases h
          exact absurd heof' heof
  rw [hparse]
  refine and_congr_right fun _ => ?_
  constructor
  · rintro ⟨r, hor, heof⟩
    obtain ⟨ts, hr, hder, -⟩ := (sound _).or hor
    exact ⟨ts, r, hr, heof, hder⟩
  · rintro ⟨ts, r, hr, heof, hder⟩
    refine ⟨r, (parseOr_iff le_rfl).2 ⟨ts, hr, hder, ?_, ?_⟩, heof⟩ <;>
    · rw [heof]
      decide

end Zzdds.Dcps.Filter
