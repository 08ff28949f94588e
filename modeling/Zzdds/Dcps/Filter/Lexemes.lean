import Mathlib.Data.List.TakeWhile
import Zzdds.Dcps.Filter.Lexer

/-! # The texts of the tokens

`Lexeme` says which texts each kind of token has, a literal being closed, and `Spells` which tokens a
text has: each is the longest that can be read.  The lexer reads what is spelled; what it reads
besides is a literal whose quote is not closed (`reads_iff_spells`). -/

namespace Zzdds.Dcps.Filter

/-! ### The texts of a token -/

/-- A name of a field, and those of fields in it. -/
inductive Path : List UInt8 → Prop
  | name {c : UInt8} {s : List UInt8} (hc : isNameStart c = true)
      (hs : ∀ x ∈ s, isNameChar x = true) : Path (c :: s)
  | dot {c : UInt8} {s t : List UInt8} (hc : isNameStart c = true)
      (hs : ∀ x ∈ s, isNameChar x = true) (ht : Path t) : Path (c :: s ++ Filter.dot :: t)

def AllDigits (s : List UInt8) : Prop := ∀ x ∈ s, isDigit x = true

inductive Fraction : List UInt8 → Prop
  | none : Fraction []
  | some {s : List UInt8} (hs : AllDigits s) : Fraction (dot :: s)

inductive Exponent : List UInt8 → Prop
  | none : Exponent []
  | some {c : UInt8} {sign s : List UInt8} (hc : isExponentMark c = true)
      (hsign : sign = [] ∨ ∃ x, isSign x = true ∧ sign = [x]) (hs : AllDigits s) :
      Exponent (c :: sign ++ s)

/-- The texts of each kind of token. -/
inductive Lexeme : TK → List UInt8 → Prop
  | word {s : List UInt8} (hs : Path s) : Lexeme (wordKind s) s
  | number {sign digits fraction exponent : List UInt8} (hsign : sign = [] ∨ sign = [minus])
      (hne : digits ≠ []) (hdigits : AllDigits digits) (hf : Fraction fraction)
      (he : Exponent exponent) :
      Lexeme (if fraction = [] ∧ exponent = [] then .int else .float)
        (sign ++ digits ++ fraction ++ exponent)
  | param {s : List UInt8} (hs : AllDigits s) : Lexeme .param (percent :: s)
  | string {s : List UInt8} (hs : quote ∉ s) : Lexeme .string (quote :: s ++ [quote])
  | opEq : Lexeme .opEq [equals]
  | opNe : Lexeme .opNe [less, greater]
  | opLt : Lexeme .opLt [less]
  | opLe : Lexeme .opLe [less, equals]
  | opGt : Lexeme .opGt [greater]
  | opGe : Lexeme .opGe [greater, equals]
  | lparen : Lexeme .lparen [Filter.lparen]
  | rparen : Lexeme .rparen [Filter.rparen]

/-- `t` is the longest token that `s` begins with. -/
def Longest (t : Token) (s : List UInt8) : Prop :=
  Lexeme t.kind t.text ∧ t.text <+: s ∧
    ∀ kind text, Lexeme kind text → text <+: s → text.length ≤ t.text.length

/-- The tokens of a text. -/
inductive Spells : List UInt8 → List Token → Prop
  | nil {s : List UInt8} (hs : ∀ c ∈ s, isWhitespace c = true) : Spells s []
  | cons {ws r : List UInt8} {t : Token} {ts : List Token} (hws : ∀ c ∈ ws, isWhitespace c = true)
      (ht : Longest t (t.text ++ r)) (hr : Spells r ts) : Spells (ws ++ t.text ++ r) (t :: ts)

/-! ### Prefixes -/

section Prefix

variable {p : UInt8 → Bool} {d e w : List UInt8}

theorem length_le_takeWhile (hd : ∀ x ∈ d, p x = true) (h : d <+: w) :
    d.length ≤ (w.takeWhile p).length := by
  obtain ⟨r, rfl⟩ := h
  rw [List.takeWhile_append_of_pos hd, List.length_append]
  exact Nat.le_add_right _ _

/-- What stops a run of characters leaves the rest. -/
theorem takeWhile_of_prefix (hd : ∀ x ∈ d, p x = true) (h : d ++ e <+: w) (hne : e ≠ [])
    (he : ∀ x ∈ e.head?, p x = false) : d = w.takeWhile p ∧ e <+: w.dropWhile p := by
  obtain ⟨r, rfl⟩ := h
  cases e with
  | nil => exact absurd rfl hne
  | cons c e =>
    have hc : ¬ p c = true := Bool.eq_false_iff.1 (he c rfl)
    rw [List.append_assoc, List.takeWhile_append_of_pos hd, List.dropWhile_append_of_pos hd,
      List.cons_append, List.takeWhile_cons_of_neg hc, List.dropWhile_cons_of_neg hc,
      List.append_nil]
    exact ⟨rfl, r, rfl⟩

end Prefix

/-! ### Field names -/

/-- The rest of a field name, read from the left. -/
def PathRest : List UInt8 → Prop
  | [] => True
  | c :: s => (isNameChar c = true ∨ c = dot ∧ s.head?.any isNameStart = true) ∧ PathRest s

theorem isNameChar_of_isNameStart {c : UInt8} (h : isNameStart c = true) : isNameChar c = true := by
  rw [isNameChar, h, Bool.true_or]

theorem PathRest.append {s t : List UInt8} (hs : ∀ x ∈ s, isNameChar x = true) (ht : PathRest t) :
    PathRest (s ++ t) := by
  induction s with
  | nil => exact ht
  | cons c s ih =>
    exact ⟨.inl (hs c List.mem_cons_self), ih fun x hx => hs x (List.mem_cons_of_mem c hx)⟩

theorem Path.head {s : List UInt8} (h : Path s) :
    ∃ c t, s = c :: t ∧ isNameStart c = true ∧ PathRest t := by
  induction h with
  | @name c s hc hs =>
    have ht := PathRest.append hs (show PathRest [] from trivial)
    rw [List.append_nil] at ht
    exact ⟨c, s, rfl, hc, ht⟩
  | @dot c s t hc hs ht ih =>
    obtain ⟨d, u, rfl, hd, hu⟩ := ih
    refine ⟨c, _, rfl, hc, PathRest.append hs ⟨.inr ⟨rfl, hd⟩, ?_, hu⟩⟩
    exact .inl (isNameChar_of_isNameStart hd)

theorem path_of_pathRest : ∀ {c : UInt8} {s : List UInt8},
    isNameStart c = true → PathRest s → Path (c :: s)
  | c, s, hc, hs => by
      -- the name up to the first dot
      have hsplit := List.takeWhile_append_dropWhile (p := isNameChar) (l := s)
      have hname : ∀ x ∈ s.takeWhile isNameChar, isNameChar x = true :=
        fun x hx => List.mem_takeWhile_imp hx
      have hrest : PathRest (s.dropWhile isNameChar) := by
        generalize s.takeWhile isNameChar = t at hsplit hname
        rw [← hsplit] at hs
        clear hsplit
        induction t with
        | nil => exact hs
        | cons x t ih => exact ih hs.2 fun y hy => hname y (List.mem_cons_of_mem x hy)
      cases hdrop : s.dropWhile isNameChar with
      | nil =>
        rw [hdrop, List.append_nil] at hsplit
        exact .name hc (hsplit ▸ hname)
      | cons x t =>
        have hx : isNameChar x = false := by
          have hne : s.dropWhile isNameChar ≠ [] := by
            rw [hdrop]
            exact List.cons_ne_nil x t
          simpa [hdrop] using List.head_dropWhile_not isNameChar hne
        rw [hdrop] at hrest
        obtain ⟨hx' | ⟨rfl, hd⟩, ht⟩ := hrest
        · rw [hx] at hx'
          cases hx'
        cases t with
        | nil => cases hd
        | cons d u =>
          have hlt : u.length < s.length := by
            have hlen := List.length_dropWhile_le isNameChar s
            rw [hdrop, List.length_cons, List.length_cons] at hlen
            omega
          have hpath : Path (d :: u) := path_of_pathRest hd ht.2
          rw [← hsplit, hdrop]
          exact .dot hc hname hpath
termination_by _ s => s.length

theorem scanPath_append (s : List UInt8) : (scanPath s).1 ++ (scanPath s).2 = s := by
  induction s with
  | nil => rfl
  | cons c s ih =>
    rw [scanPath]
    split
    · rw [List.cons_append, ih]
    · rfl

/-- What a name is followed by is looked at where the name ends. -/
theorem pathRest_scanPath (s : List UInt8) : PathRest (scanPath s).1 := by
  induction s with
  | nil => trivial
  | cons c s ih =>
    rw [scanPath]
    split
    next h =>
      refine ⟨?_, ih⟩
      rw [Bool.or_eq_true, Bool.and_eq_true, decide_eq_true_iff] at h
      refine h.imp_right fun ⟨hc, hd⟩ => ⟨hc, ?_⟩
      cases s with
      | nil => cases hd
      | cons d s =>
        have hd' : isNameStart d = true := hd
        rw [scanPath, isNameChar_of_isNameStart hd', Bool.true_or, if_pos rfl]
        exact hd'
    next => trivial

theorem length_le_scanPath {t s : List UInt8} (ht : PathRest t) (h : t <+: s) :
    t.length ≤ (scanPath s).1.length := by
  induction t generalizing s with
  | nil => exact Nat.zero_le _
  | cons c t ih =>
    obtain ⟨r, rfl⟩ := h
    rw [List.cons_append, scanPath, if_pos]
    · exact Nat.succ_le_succ (ih ht.2 ⟨r, rfl⟩)
    · rw [Bool.or_eq_true, Bool.and_eq_true, decide_eq_true_iff]
      refine ht.1.imp_right fun ⟨hc, hd⟩ => ⟨hc, ?_⟩
      cases t with
      | nil => cases hd
      | cons d t => exact hd

/-! ### Numbers -/

theorem allDigits_takeWhile (s : List UInt8) : AllDigits (s.takeWhile isDigit) :=
  fun _ hx => List.mem_takeWhile_imp hx

theorem Exponent.head {e : List UInt8} (he : Exponent e) :
    ∀ x ∈ e.head?, isExponentMark x = true := by
  intro x hx
  cases he with
  | none => cases hx
  | some hc => exact Option.some.inj hx ▸ hc

theorem isDigit_of_isExponentMark {c : UInt8} (h : isExponentMark c = true) :
    isDigit c = false := by
  rw [isExponentMark, Bool.or_eq_true, decide_eq_true_iff, decide_eq_true_iff] at h
  rcases h with rfl | rfl <;> decide

theorem isDigit_of_isSign {c : UInt8} (h : isSign c = true) : isDigit c = false := by
  rw [isSign, Bool.or_eq_true, decide_eq_true_iff, decide_eq_true_iff] at h
  rcases h with rfl | rfl <;> decide

theorem isSign_of_isDigit {c : UInt8} (h : isDigit c = true) : isSign c = false := by
  by_contra hc
  rw [isDigit_of_isSign (by simpa using hc)] at h
  cases h

theorem scanExponent_append (s : List UInt8) : (scanExponent s).1 ++ (scanExponent s).2 = s := by
  cases s with
  | nil => rfl
  | cons c s =>
    rw [scanExponent]
    split
    · dsimp only
      rw [List.cons_append, List.cons_append, List.append_assoc, List.takeWhile_append_dropWhile]
      cases hs : s.head?.any isSign with
      | true => rw [if_pos rfl, if_pos rfl, List.take_append_drop]
      | false => rfl
    · rfl

theorem exponent_scanExponent (s : List UInt8) : Exponent (scanExponent s).1 := by
  cases s with
  | nil => exact .none
  | cons c s =>
    rw [scanExponent]
    split
    next hc =>
      refine .some hc ?_ (allDigits_takeWhile _)
      cases s with
      | nil => exact .inl rfl
      | cons d s =>
        cases hd : isSign d with
        | true => exact .inr ⟨d, hd, by simp [hd]⟩
        | false => exact .inl (by simp [hd])
    next => exact .none

theorem length_le_scanExponent {e s : List UInt8} (he : Exponent e) (h : e <+: s) :
    e.length ≤ (scanExponent s).1.length := by
  cases he with
  | none => exact Nat.zero_le _
  | @some c sign d hc hsign hd =>
    obtain ⟨r, rfl⟩ := h
    have hassoc : c :: sign ++ d ++ r = c :: (sign ++ (d ++ r)) := by
      rw [List.append_assoc, List.cons_append]
    rw [hassoc, scanExponent, if_pos hc]
    dsimp only
    rw [List.length_append, List.length_append, List.length_cons]
    rcases hsign with rfl | ⟨x, hx, rfl⟩
    · rw [List.nil_append]
      cases d with
      | nil =>
        rw [List.length_nil, List.length_cons]
        omega
      | cons y d =>
        have hy := isSign_of_isDigit (hd y List.mem_cons_self)
        have hlen := length_le_takeWhile hd ⟨r, rfl⟩
        simpa [hy] using hlen
    · have hlen := length_le_takeWhile hd ⟨r, rfl⟩
      simpa [hx] using hlen

theorem scanFraction_append (s : List UInt8) : (scanFraction s).1 ++ (scanFraction s).2 = s := by
  cases s with
  | nil => rfl
  | cons c s =>
    rw [scanFraction]
    split
    · rw [List.cons_append, List.takeWhile_append_dropWhile]
    · rfl

theorem fraction_scanFraction (s : List UInt8) : Fraction (scanFraction s).1 := by
  cases s with
  | nil => exact .none
  | cons c s =>
    rw [scanFraction]
    split
    next hc =>
      subst hc
      exact .some (allDigits_takeWhile s)
    next => exact .none

/-- What follows the digits of a number, read from the left. -/
theorem length_le_scanFraction {f e s : List UInt8} (hf : Fraction f) (he : Exponent e)
    (h : f ++ e <+: s) :
    f.length + e.length ≤
      (scanFraction s).1.length + (scanExponent (scanFraction s).2).1.length := by
  cases hf with
  | none =>
    rw [List.nil_append] at h
    cases he with
    | none => exact Nat.zero_le _
    | @some c sign d hc hsign hd =>
      have hdot : c ≠ dot := by
        rintro rfl
        cases hc
      have hscan : scanFraction s = ([], s) := by
        obtain ⟨r, rfl⟩ := h
        rw [List.append_assoc, List.cons_append, scanFraction, if_neg hdot]
      rw [hscan]
      exact Nat.add_le_add_left (length_le_scanExponent (.some hc hsign hd) h) 0
  | @some d hd =>
    obtain ⟨r, rfl⟩ := h
    rw [List.append_assoc, List.cons_append, scanFraction, if_pos rfl]
    dsimp only
    rw [List.length_cons, List.length_cons]
    by_cases hne : e = []
    · subst hne
      have hlen := length_le_takeWhile hd (w := d ++ ([] ++ r)) ⟨_, rfl⟩
      rw [List.length_nil]
      omega
    · have hstop : ∀ x ∈ e.head?, isDigit x = false :=
        fun x hx => isDigit_of_isExponentMark (he.head x hx)
      obtain ⟨htake, hdrop⟩ := takeWhile_of_prefix (w := d ++ (e ++ r)) hd
        ⟨r, List.append_assoc ..⟩ hne hstop
      rw [← htake]
      exact Nat.add_le_add_left (length_le_scanExponent he hdrop) _

theorem scanNumber_append (s : List UInt8) :
    (scanNumber s).1.text ++ (scanNumber s).2 = s := by
  unfold scanNumber
  dsimp only
  rw [List.append_assoc, scanExponent_append, List.append_assoc, scanFraction_append,
    List.append_assoc, List.takeWhile_append_dropWhile]
  split
  next h =>
    cases s with
    | nil => cases h
    | cons c s =>
      cases h
      rfl
  next => rfl

/-- A number begins with a digit, or with a minus and a digit. -/
def BeginsNumber (c : UInt8) (s : List UInt8) : Prop :=
  isDigit c = true ∨ c = minus ∧ s.head?.any isDigit = true

theorem lexeme_scanNumber {c : UInt8} {s : List UInt8} (h : BeginsNumber c s) :
    Lexeme (scanNumber (c :: s)).1.kind (scanNumber (c :: s)).1.text := by
  unfold scanNumber
  refine .number ?_ ?_ (allDigits_takeWhile _) (fraction_scanFraction _) (exponent_scanExponent _)
  · split
    · exact .inr rfl
    · exact .inl rfl
  · rcases h with hc | ⟨rfl, hd⟩
    · have hne : (c :: s).head? ≠ some minus := by
        intro he
        cases Option.some.inj he
        cases hc
      rw [if_neg hne, List.takeWhile_cons_of_pos hc]
      exact List.cons_ne_nil _ _
    · cases s with
      | nil => cases hd
      | cons d s =>
        have hd' : isDigit d = true := hd
        rw [List.head?_cons, if_pos rfl, List.tail_cons, List.takeWhile_cons_of_pos hd']
        exact List.cons_ne_nil _ _

theorem length_le_scanNumber {sign digits fraction exponent s : List UInt8}
    (hsign : sign = [] ∨ sign = [minus]) (hne : digits ≠ []) (hdigits : AllDigits digits)
    (hf : Fraction fraction) (he : Exponent exponent)
    (h : sign ++ digits ++ fraction ++ exponent <+: s) :
    (sign ++ digits ++ fraction ++ exponent).length ≤ (scanNumber s).1.text.length := by
  have hrest : ∀ w, digits ++ (fraction ++ exponent) <+: w →
      digits.length + (fraction.length + exponent.length) ≤ (w.takeWhile isDigit).length +
        ((scanFraction (w.dropWhile isDigit)).1.length +
          (scanExponent (scanFraction (w.dropWhile isDigit)).2).1.length) := by
    intro w hw
    by_cases hnil : fraction ++ exponent = []
    · obtain ⟨rfl, rfl⟩ := List.append_eq_nil_iff.1 hnil
      rw [List.append_nil, List.append_nil] at hw
      have hlen := length_le_takeWhile hdigits hw
      rw [List.length_nil]
      omega
    · have hstop : ∀ x ∈ (fraction ++ exponent).head?, isDigit x = false := by
        intro x hx
        cases hf with
        | none => exact isDigit_of_isExponentMark (he.head x hx)
        | some =>
          cases Option.some.inj hx
          decide
      obtain ⟨htake, hdrop⟩ := takeWhile_of_prefix hdigits hw hnil hstop
      rw [← htake]
      exact Nat.add_le_add_left (length_le_scanFraction hf he hdrop) _
  rw [List.append_assoc, List.append_assoc] at h
  unfold scanNumber
  simp only [List.length_append]
  rcases hsign with rfl | rfl
  · have hhead : s.head? ≠ some minus := by
      cases digits with
      | nil => exact absurd rfl hne
      | cons d digits =>
        obtain ⟨r, rfl⟩ := h
        intro heq
        cases Option.some.inj heq
        have hd := hdigits minus List.mem_cons_self
        cases hd
    rw [if_neg hhead, if_neg hhead]
    have hlen := hrest s h
    rw [List.length_nil]
    omega
  · obtain ⟨r, rfl⟩ := h
    have hlen := hrest (digits ++ (fraction ++ exponent) ++ r) ⟨r, rfl⟩
    rw [List.append_assoc, List.singleton_append, List.head?_cons, if_pos rfl, if_pos rfl,
      List.tail_cons, List.length_singleton]
    omega

/-! ### What a lexeme begins with -/

/-- The kind of token a text is, if it is one. -/
def kindOf : List UInt8 → TK
  | [] => .invalid
  | c :: s =>
    if isNameStart c then wordKind (c :: s)
    else if isDigit c || c = minus then
      if s.any (fun x => x = dot || isExponentMark x) then .float else .int
    else if c = percent then .param
    else if c = quote then .string
    else if c = equals then .opEq
    else if c = lparen then .lparen
    else if c = rparen then .rparen
    else if c = less then
      if s.head? = some greater then .opNe else if s.head? = some equals then .opLe else .opLt
    else if s.head? = some equals then .opGe else .opGt

/-- The numbers. -/
def IsNumber (s : List UInt8) : Prop :=
  ∃ sign digits fraction exponent, (sign = [] ∨ sign = [minus]) ∧ digits ≠ [] ∧ AllDigits digits ∧
    Fraction fraction ∧ Exponent exponent ∧ s = sign ++ digits ++ fraction ++ exponent

/-- What may follow the first character of a token in it. -/
def Continues (c : UInt8) (s : List UInt8) : Prop :=
  if isNameStart c then PathRest s
  else if isDigit c || c = minus then IsNumber (c :: s)
  else if c = percent then AllDigits s
  else if c = quote then ∃ body, quote ∉ body ∧ s = body ++ [quote]
  else if c = less then s = [] ∨ s = [greater] ∨ s = [equals]
  else if c = greater then s = [] ∨ s = [equals]
  else s = [] ∧ (c = equals ∨ c = lparen ∨ c = rparen)

theorem isNameStart_of_isDigit {c : UInt8} (h : isDigit c = true) : isNameStart c = false := by
  rw [isDigit, Bool.and_eq_true, decide_eq_true_iff, decide_eq_true_iff] at h
  rw [isNameStart, isAlphabetic]
  have hne : c ≠ underscore := by
    rintro rfl
    exact absurd h.2 (by decide)
  simp only [hne, decide_false, Bool.or_false, Bool.or_eq_false_iff, Bool.and_eq_false_iff,
    decide_eq_false_iff_not]
  exact ⟨.inl fun hle => absurd (UInt8.le_trans hle h.2) (by decide),
    .inl fun hle => absurd (UInt8.le_trans hle h.2) (by decide)⟩

theorem IsNumber.begins {s : List UInt8} (h : IsNumber s) :
    ∃ c t, s = c :: t ∧ isNameStart c = false ∧ (isDigit c || c = minus) = true ∧
      BeginsNumber c t := by
  obtain ⟨sign, digits, fraction, exponent, hsign, hne, hdigits, -, -, rfl⟩ := h
  cases digits with
  | nil => exact absurd rfl hne
  | cons d digits =>
    have hd := hdigits d List.mem_cons_self
    rcases hsign with rfl | rfl
    · exact ⟨d, _, rfl, isNameStart_of_isDigit hd, by rw [hd, Bool.true_or], .inl hd⟩
    · exact ⟨minus, _, rfl, by decide, by decide, .inr ⟨rfl, hd⟩⟩

theorem continues_of_isNumber {s : List UInt8} (h : IsNumber s) :
    ∃ c t, s = c :: t ∧ Continues c t := by
  obtain ⟨c, t, rfl, hname, hc, -⟩ := h.begins
  refine ⟨c, t, rfl, ?_⟩
  rw [Continues, if_neg (by rw [hname]; exact Bool.false_ne_true), if_pos hc]
  exact h

theorem Lexeme.continues {k : TK} {s : List UInt8} (h : Lexeme k s) :
    ∃ c t, s = c :: t ∧ Continues c t := by
  cases h with
  | word hs =>
    obtain ⟨c, t, rfl, hc, ht⟩ := hs.head
    refine ⟨c, t, rfl, ?_⟩
    rw [Continues, if_pos hc]
    exact ht
  | number hsign hne hdigits hf he =>
    exact continues_of_isNumber ⟨_, _, _, _, hsign, hne, hdigits, hf, he, rfl⟩
  | param hs => exact ⟨percent, _, rfl, hs⟩
  | @string body hs => exact ⟨quote, _, rfl, body, hs, rfl⟩
  | opEq => exact ⟨equals, _, rfl, rfl, .inl rfl⟩
  | opNe => exact ⟨less, _, rfl, .inr (.inl rfl)⟩
  | opLt => exact ⟨less, _, rfl, .inl rfl⟩
  | opLe => exact ⟨less, _, rfl, .inr (.inr rfl)⟩
  | opGt => exact ⟨greater, _, rfl, .inl rfl⟩
  | opGe => exact ⟨greater, _, rfl, .inr rfl⟩
  | lparen => exact ⟨Filter.lparen, _, rfl, rfl, .inr (.inl rfl)⟩
  | rparen => exact ⟨Filter.rparen, _, rfl, rfl, .inr (.inr rfl)⟩

/-- Whether a number has a fraction or an exponent shows in its characters. -/
theorem any_number {sign digits fraction exponent : List UInt8}
    (hsign : sign = [] ∨ sign = [minus]) (hdigits : AllDigits digits) (hf : Fraction fraction)
    (he : Exponent exponent) :
    (sign ++ digits ++ fraction ++ exponent).any (fun x => x = dot || isExponentMark x) = true ↔
      ¬ (fraction = [] ∧ exponent = []) := by
  have hplain : (sign ++ digits).any (fun x => x = dot || isExponentMark x) = false := by
    rw [List.any_append, Bool.or_eq_false_iff]
    constructor
    · rcases hsign with rfl | rfl <;> decide
    · rw [List.any_eq_false]
      intro x hx hmark
      have hd := hdigits x hx
      rw [Bool.or_eq_true, decide_eq_true_iff] at hmark
      rcases hmark with rfl | hmark
      · cases hd
      · rw [isDigit_of_isExponentMark hmark] at hd
        cases hd
  rw [List.any_append, List.any_append, hplain, Bool.false_or, Bool.or_eq_true, not_and_or]
  refine or_congr ?_ ?_
  · cases hf with
    | none => simp
    | some => simp
  · cases he with
    | none => simp
    | some hc => simp [hc]

theorem Lexeme.kind_eq {k : TK} {s : List UInt8} (h : Lexeme k s) : k = kindOf s := by
  cases h with
  | word hs =>
    obtain ⟨c, t, rfl, hc, -⟩ := hs.head
    rw [kindOf, if_pos hc]
  | @number sign digits fraction exponent hsign hne hdigits hf he =>
    have hany := any_number hsign hdigits hf he
    obtain ⟨c, t, hs, hname, hc, -⟩ :=
      IsNumber.begins ⟨_, _, _, _, hsign, hne, hdigits, hf, he, rfl⟩
    rw [hs] at hany ⊢
    have hfirst : (c = dot || isExponentMark c) = false := by
      rw [Bool.or_eq_true, decide_eq_true_iff] at hc
      rcases hc with hc | rfl
      · rw [Bool.or_eq_false_iff, decide_eq_false_iff_not]
        refine ⟨?_, ?_⟩
        · rintro rfl
          cases hc
        · by_contra hmark
          rw [isDigit_of_isExponentMark (by simpa using hmark)] at hc
          cases hc
      · decide
    rw [List.any_cons, hfirst, Bool.false_or] at hany
    have hname' : ¬ isNameStart c = true := by
      rw [hname]
      exact Bool.false_ne_true
    by_cases hplain : fraction = [] ∧ exponent = []
    · rw [if_pos hplain, kindOf, if_neg hname', if_pos hc, if_neg fun ht => hany.1 ht hplain]
    · rw [if_neg hplain, kindOf, if_neg hname', if_pos hc, if_pos (hany.2 hplain)]
  | param | string | opEq | opNe | opLt | opLe | opGt | opGe | lparen | rparen => rfl

/-! ### The lexer reads the longest token -/

/-- A literal whose quote is not closed. -/
def Token.Unclosed (t : Token) : Prop := t.kind = .string ∧ quote ∉ t.text.tail

instance (t : Token) : Decidable t.Unclosed := by
  unfold Token.Unclosed
  infer_instance

/-- What a token read at `w` is: the longest that `w` begins with, or `w` begins with none. -/
def ReadAt (w : List UInt8) (out : Token × List UInt8) : Prop :=
  out.1.text ++ out.2 = w ∧ (Longest out.1 w ∨
    (out.1.kind = .invalid ∨ out.1.Unclosed) ∧ ∀ kind text, Lexeme kind text → ¬ text <+: w)

variable {c : UInt8} {s : List UInt8} {out : Token × List UInt8}

theorem readAt_of_longest (happ : out.1.text ++ out.2 = c :: s)
    (hlex : Lexeme out.1.kind out.1.text)
    (hmax : ∀ t, Continues c t → t <+: s → t.length + 1 ≤ out.1.text.length) :
    ReadAt (c :: s) out := by
  refine ⟨happ, .inl ⟨hlex, ⟨out.2, happ⟩, fun kind text h hpre => ?_⟩⟩
  obtain ⟨c', t, rfl, hcont⟩ := h.continues
  obtain ⟨rfl, htail⟩ := List.cons_prefix_cons.1 hpre
  exact hmax t hcont htail

theorem readAt_of_none (happ : out.1.text ++ out.2 = c :: s)
    (hkind : out.1.kind = .invalid ∨ out.1.Unclosed)
    (hnone : ∀ t, Continues c t → ¬ t <+: s) : ReadAt (c :: s) out := by
  refine ⟨happ, .inr ⟨hkind, fun kind text h hpre => ?_⟩⟩
  obtain ⟨c', t, rfl, hcont⟩ := h.continues
  obtain ⟨rfl, htail⟩ := List.cons_prefix_cons.1 hpre
  exact hnone t hcont htail

/-- A token of one character, where no longer one begins. -/
theorem readAt_single {kind : TK} (hlex : Lexeme kind [c])
    (hmax : ∀ t, Continues c t → t <+: s → t = []) : ReadAt (c :: s) (⟨kind, [c]⟩, s) :=
  readAt_of_longest rfl hlex fun t hcont hpre => by rw [hmax t hcont hpre]; exact le_rfl

theorem readAt_scanString (s : List UInt8) : ReadAt (quote :: s) (scanString s) := by
  have hsplit := List.takeWhile_append_dropWhile (p := fun x => x ≠ quote) (l := s)
  have hbody : ∀ x ∈ s.takeWhile (fun x => x ≠ quote), decide (x ≠ quote) = true :=
    fun x hx => List.mem_takeWhile_imp (p := fun x => decide (x ≠ quote)) hx
  have hout : quote ∉ s.takeWhile (fun x => x ≠ quote) := fun hx =>
    absurd rfl (of_decide_eq_true (hbody quote hx))
  have happ : (scanString s).1.text ++ (scanString s).2 = quote :: s := by
    unfold scanString
    dsimp only
    rw [List.append_assoc, List.take_append_drop, List.cons_append, hsplit]
  -- a closed literal ends at the first quote
  have hclosed : ∀ t, Continues quote t → t <+: s →
      t.length = (s.takeWhile (fun x => x ≠ quote)).length + 1 ∧
        s.dropWhile (fun x => x ≠ quote) ≠ [] := by
    intro t hcont hpre
    obtain ⟨body, hq, rfl⟩ : ∃ body, quote ∉ body ∧ t = body ++ [quote] := hcont
    have hd : ∀ x ∈ body, decide (x ≠ quote) = true := by
      intro x hx
      rw [decide_eq_true_iff]
      rintro rfl
      exact hq hx
    obtain ⟨htake, hdrop⟩ := takeWhile_of_prefix hd hpre (List.cons_ne_nil _ _) (by simp)
    refine ⟨by rw [← htake, List.length_append, List.length_singleton], fun hnil => ?_⟩
    rw [hnil] at hdrop
    exact List.cons_ne_nil _ _ (List.prefix_nil.1 hdrop)
  cases hdrop : s.dropWhile (fun x => x ≠ quote) with
  | nil =>
    refine readAt_of_none happ (.inr ⟨rfl, ?_⟩) fun t hcont hpre => (hclosed t hcont hpre).2 hdrop
    unfold scanString
    rw [hdrop]
    simpa using hout
  | cons x r =>
    have hx : x = quote := by
      have hne : s.dropWhile (fun x => x ≠ quote) ≠ [] := by
        rw [hdrop]
        exact List.cons_ne_nil x r
      have hnot := List.head_dropWhile_not (fun x : UInt8 => decide (x ≠ quote)) hne
      simp only [hdrop, List.head_cons] at hnot
      simpa using hnot
    have htext : (scanString s).1.text = quote :: s.takeWhile (fun x => x ≠ quote) ++ [quote] := by
      unfold scanString
      rw [hdrop, hx]
      rfl
    refine readAt_of_longest happ ?_ fun t hcont hpre => ?_
    · rw [htext]
      exact .string hout
    · rw [htext, (hclosed t hcont hpre).1, List.length_append, List.length_cons,
        List.length_singleton]

theorem readAt_scanNumber (h : BeginsNumber c s) : ReadAt (c :: s) (scanNumber (c :: s)) := by
  refine readAt_of_longest (scanNumber_append _) (lexeme_scanNumber h) fun t hcont hpre => ?_
  have hnumber : IsNumber (c :: t) := by
    have hc : isNameStart c = false ∧ (isDigit c || c = minus) = true := by
      rcases h with hd | ⟨rfl, -⟩
      · exact ⟨isNameStart_of_isDigit hd, by rw [hd, Bool.true_or]⟩
      · exact ⟨by decide, by decide⟩
    rw [Continues, if_neg (by rw [hc.1]; exact Bool.false_ne_true), if_pos hc.2] at hcont
    exact hcont
  obtain ⟨sign, digits, fraction, exponent, hsign, hne, hdigits, hf, he, heq⟩ := hnumber
  have hlen := length_le_scanNumber (s := c :: s) hsign hne hdigits hf he
    (heq ▸ List.cons_prefix_cons.2 ⟨rfl, hpre⟩)
  rwa [← heq, List.length_cons] at hlen

theorem readAt_scanToken (htwo : ∀ d ∈ s.head?, twoCharKind c d = none) :
    ReadAt (c :: s) (scanToken c s) := by
  unfold scanToken
  split_ifs with h₁ h₂ h₃ h₄ h₅ h₆ h₇ h₈ h₉
  · subst h₁
    exact readAt_single .opEq fun t (hcont : t = [] ∧ _) _ => hcont.1
  · subst h₂
    refine readAt_single .opLt fun t (hcont : t = [] ∨ t = [greater] ∨ t = [equals]) hpre => ?_
    rcases hcont with rfl | rfl | rfl
    · rfl
    · obtain ⟨r, rfl⟩ := hpre
      cases htwo greater rfl
    · obtain ⟨r, rfl⟩ := hpre
      cases htwo equals rfl
  · subst h₃
    refine readAt_single .opGt fun t (hcont : t = [] ∨ t = [equals]) hpre => ?_
    rcases hcont with rfl | rfl
    · rfl
    · obtain ⟨r, rfl⟩ := hpre
      cases htwo equals rfl
  · subst h₄
    exact readAt_single .lparen fun t (hcont : t = [] ∧ _) _ => hcont.1
  · subst h₅
    exact readAt_single .rparen fun t (hcont : t = [] ∧ _) _ => hcont.1
  · subst h₆
    refine readAt_of_longest ?_ (.param (allDigits_takeWhile s))
      fun t (hcont : AllDigits t) hpre => Nat.succ_le_succ (length_le_takeWhile hcont hpre)
    rw [List.cons_append, List.takeWhile_append_dropWhile]
  · subst h₇
    exact readAt_scanString s
  · refine readAt_scanNumber ?_
    rw [Bool.or_eq_true, Bool.and_eq_true, decide_eq_true_iff] at h₈
    exact h₈
  · refine readAt_of_longest ?_ (.word (path_of_pathRest h₉ (pathRest_scanPath s)))
      fun t hcont hpre => ?_
    · rw [List.cons_append, scanPath_append]
    · rw [Continues, if_pos h₉] at hcont
      exact Nat.succ_le_succ (length_le_scanPath hcont hpre)
  · refine readAt_of_none rfl (.inl rfl) fun t hcont hpre => ?_
    rw [Bool.or_eq_true, Bool.and_eq_true, decide_eq_true_iff, not_or] at h₈
    rw [Continues, if_neg h₉] at hcont
    split at hcont
    next hc =>
      obtain ⟨c', t', heq, -, -, hbegins⟩ := hcont.begins
      obtain ⟨rfl, rfl⟩ := List.cons.inj heq
      rcases hbegins with hd | ⟨hm, hd⟩
      · exact h₈.1 hd
      · obtain ⟨r, rfl⟩ := hpre
        refine h₈.2 ⟨hm, ?_⟩
        cases t with
        | nil => cases hd
        | cons d t => exact hd
    · rcases hcont.2 with hc | hc | hc
      · exact h₁ hc
      · exact h₄ hc
      · exact h₅ hc

theorem readAt_nextToken {w : List UInt8} (hw : skipWs s = c :: w) :
    ReadAt (c :: w) (nextToken s) := by
  unfold nextToken
  rw [hw]
  cases w with
  | nil => exact readAt_scanToken fun d hd => nomatch hd
  | cons d w =>
    dsimp only
    cases htwo : twoCharKind c d with
    | none =>
      refine readAt_scanToken fun x hx => ?_
      cases hx
      exact htwo
    | some kind =>
      dsimp only
      unfold twoCharKind at htwo
      split_ifs at htwo with h₁ h₂ h₃
      · obtain ⟨rfl, rfl⟩ := h₁
        cases htwo
        refine readAt_of_longest rfl .opNe
          fun t (hcont : t = [] ∨ t = [greater] ∨ t = [equals]) _ => ?_
        rcases hcont with rfl | rfl | rfl <;> simp
      · obtain ⟨rfl, rfl⟩ := h₂
        cases htwo
        refine readAt_of_longest rfl .opLe
          fun t (hcont : t = [] ∨ t = [greater] ∨ t = [equals]) _ => ?_
        rcases hcont with rfl | rfl | rfl <;> simp
      · obtain ⟨rfl, rfl⟩ := h₃
        cases htwo
        refine readAt_of_longest rfl .opGe fun t (hcont : t = [] ∨ t = [equals]) _ => ?_
        rcases hcont with rfl | rfl <;> simp

/-! ### Texts and their tokens -/

theorem wordKind_ne (s : List UInt8) :
    wordKind s ≠ .eof ∧ wordKind s ≠ .invalid ∧ wordKind s ≠ .string := by
  unfold wordKind
  split_ifs <;> exact ⟨by decide, by decide, by decide⟩

theorem Lexeme.kind_ne {k : TK} {s : List UInt8} (h : Lexeme k s) :
    k ≠ .eof ∧ k ≠ .invalid ∧ (k = .string → quote ∈ s.tail) := by
  cases h with
  | @word s hs =>
    obtain ⟨heof, hinvalid, hstring⟩ := wordKind_ne s
    exact ⟨heof, hinvalid, fun h => absurd h hstring⟩
  | number => split_ifs <;> exact ⟨by decide, by decide, fun h => nomatch h⟩
  | string =>
    refine ⟨by decide, by decide, fun _ => ?_⟩
    exact List.mem_append_right _ (List.mem_singleton.2 rfl)
  | param | opEq | opNe | opLt | opLe | opGt | opGe | lparen | rparen =>
    exact ⟨by decide, by decide, fun h => nomatch h⟩

theorem not_continues_of_isWhitespace {t : List UInt8} (hc : isWhitespace c = true) :
    ¬ Continues c t := by
  have hcases : c = 32 ∨ c = 9 ∨ c = 10 ∨ c = 11 ∨ c = 12 ∨ c = 13 := by
    simp only [isWhitespace, Bool.or_eq_true, Bool.and_eq_true, decide_eq_true_iff,
      UInt8.le_iff_toNat_le, ← UInt8.toNat_inj] at hc ⊢
    simp at hc ⊢
    omega
  rcases hcases with rfl | rfl | rfl | rfl | rfl | rfl <;>
    exact fun h => absurd h.2 (by decide)

theorem Longest.unique {t t' : Token} {w : List UInt8} (h : Longest t w) (h' : Longest t' w) :
    t = t' := by
  obtain ⟨hlex, hpre, hmax⟩ := h
  obtain ⟨hlex', hpre', hmax'⟩ := h'
  have hlen := le_antisymm (hmax' _ _ hlex hpre) (hmax _ _ hlex' hpre')
  have htext : t.text = t'.text :=
    (List.prefix_of_prefix_length_le hpre hpre' hlen.le).eq_of_length hlen
  obtain ⟨k, text⟩ := t
  obtain ⟨k', text'⟩ := t'
  cases htext
  rw [show k = k' from hlex.kind_eq.trans hlex'.kind_eq.symm]

theorem skipWs_eq_nil_iff : skipWs s = [] ↔ ∀ c ∈ s, isWhitespace c = true :=
  List.dropWhile_eq_nil_iff

theorem peekKind_eq_eof_iff : peekKind s = .eof ↔ skipWs s = [] := by
  constructor
  · intro h
    cases hw : skipWs s with
    | nil => rfl
    | cons c w =>
      obtain ⟨-, ⟨hlex, -⟩ | ⟨hkind | hkind, -⟩⟩ := readAt_nextToken hw
      · exact absurd h hlex.kind_ne.1
      · rw [peekKind, hkind] at h
        cases h
      · rw [peekKind, hkind.1] at h
        cases h
  · intro h
    rw [peekKind, nextToken, h]

/-- What is left after some tokens begins another. -/
theorem exists_cons_of_nextToken {t : Token} {r : List UInt8} (h : nextToken s = (t, r))
    (hk : t.kind ≠ .eof) : ∃ c w, skipWs s = c :: w ∧ ReadAt (c :: w) (t, r) := by
  cases hw : skipWs s with
  | nil =>
    have heof := peekKind_eq_eof_iff.2 hw
    rw [peekKind, h] at heof
    exact absurd heof hk
  | cons c w => exact ⟨c, w, rfl, h ▸ readAt_nextToken hw⟩

/-- A token with whitespace before it is read. -/
theorem nextToken_of_longest {ws r : List UInt8} {t : Token}
    (hws : ∀ c ∈ ws, isWhitespace c = true) (ht : Longest t (t.text ++ r)) :
    nextToken (ws ++ t.text ++ r) = (t, r) := by
  obtain ⟨c, w, htext, hcont⟩ := ht.1.continues
  have hskip : skipWs (ws ++ t.text ++ r) = c :: (w ++ r) := by
    have hc : ¬ isWhitespace c = true := fun hc => not_continues_of_isWhitespace hc hcont
    rw [skipWs, List.append_assoc, List.dropWhile_append_of_pos hws, htext, List.cons_append,
      List.dropWhile_cons_of_neg hc]
  have hread := readAt_nextToken hskip
  rw [htext, List.cons_append] at ht
  obtain ⟨happ, hlong | ⟨-, hnone⟩⟩ := hread
  · have heq := hlong.unique ht
    refine Prod.ext heq ?_
    rw [heq, ← List.cons_append, ← htext] at happ
    exact List.append_cancel_left happ
  · exact absurd ht.2.1 (hnone _ _ ht.1)

/-- The lexer reads a text as the tokens it is spelled of, and reads no other text but for a
literal that is not closed. -/
theorem reads_iff_spells {ts : List Token} : Spells s ts ↔
    (∃ r, Reads s ts r ∧ peekKind r = .eof) ∧ ∀ t ∈ ts, t.kind ≠ .invalid ∧ ¬ t.Unclosed := by
  constructor
  · intro h
    induction h with
    | @nil s hs =>
      exact ⟨⟨s, rfl, peekKind_eq_eof_iff.2 (skipWs_eq_nil_iff.2 hs)⟩, fun t ht => nomatch ht⟩
    | @cons ws r t ts hws ht _ ih =>
      obtain ⟨⟨r', hr, heof⟩, hts⟩ := ih
      obtain ⟨hkind, hinvalid, hstring⟩ := ht.1.kind_ne
      refine ⟨⟨r', ⟨r, nextToken_of_longest hws ht, hkind, hr⟩, heof⟩, ?_⟩
      exact List.forall_mem_cons.2 ⟨⟨hinvalid, fun h => h.2 (hstring h.1)⟩, hts⟩
  · rintro ⟨⟨r, hr, heof⟩, hts⟩
    induction ts generalizing s with
    | nil =>
      cases hr
      exact .nil (skipWs_eq_nil_iff.1 (peekKind_eq_eof_iff.1 heof))
    | cons t ts ih =>
      obtain ⟨s', hnext, hkind, hr⟩ := hr
      obtain ⟨htok, hts⟩ := List.forall_mem_cons.1 hts
      obtain ⟨c, w, hskip, happ, hlong | ⟨hbad, -⟩⟩ := exists_cons_of_nextToken hnext hkind
      · have hs : s = s.takeWhile isWhitespace ++ t.text ++ s' := by
          have hsplit := List.takeWhile_append_dropWhile (p := isWhitespace) (l := s)
          rw [show s.dropWhile isWhitespace = c :: w from hskip, ← happ] at hsplit
          rw [List.append_assoc]
          exact hsplit.symm
        rw [hs]
        exact .cons (fun _ hx => List.mem_takeWhile_imp hx) (happ ▸ hlong) (ih hts hr)
      · exact absurd hbad (not_or.2 htok)

end Zzdds.Dcps.Filter
