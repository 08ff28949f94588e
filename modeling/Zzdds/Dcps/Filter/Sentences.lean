import Zzdds.Dcps.Filter.Grammar

/-! # The sentences of the filter language

`operandValue` is what the grammar says a token stands for.  The parser takes more than that: a
literal whose quote is not closed, without its last character, and the parameters from `%100` to
`%255`.  Nothing else sets the two apart (`parse_iff_sentence`). -/

namespace Zzdds.Dcps.Filter

open Lib

/-- The operand a token stands for. -/
def operandValue (t : Token) : Option Operand :=
  match t.kind with
  | .ident => some (.field t.text)
  | .param => (parseInt 0 99 t.text.tail).map fun n => .param n.toNat
  | .int => (parseInt (-2 ^ 63) (2 ^ 63 - 1) t.text).map fun n => .literal (.int (Int64.ofInt n))
  | .float => (parseFloat binary64 t.text).map fun f => .literal (.float f)
  | .string => some (.literal (.string t.text.tail.dropLast))
  | _ => none

/-- A text of the filter language, and its tree. -/
def Sentence (s : List UInt8) (a : AstNode) : Prop :=
  ∃ ts, Spells s ts ∧ Derives operandValue .or ts a

/-- A token that is none of the language but that the parser takes. -/
def Token.Lax (t : Token) : Prop :=
  t.Unclosed ∨ t.kind = .param ∧ (parseInt 100 255 t.text.tail).isSome

instance (t : Token) : Decidable t.Lax := by
  unfold Token.Lax
  infer_instance

/-- The operands, were the lax tokens among them. -/
def laxValue (t : Token) : Option Operand :=
  if t.Lax then some (.literal (.string [])) else operandValue t

/-- A text with a lax token that would be a sentence if that was an operand. -/
def LaxText (s : List UInt8) : Prop :=
  ∃ ts r, Reads s ts r ∧ peekKind r = .eof ∧ (∃ t ∈ ts, t.Lax) ∧ ∃ a, Derives laxValue .or ts a

/-! ### Derivations -/

section Derivations

variable {val val' : Token → Option Operand} {level : Level} {ts : List Token} {a : AstNode}

theorem Derives.congr (h : Derives val level ts a) (hval : ∀ t ∈ ts, val t = val' t) :
    Derives val' level ts a := by
  induction h with
  | orOne h ih => exact .orOne (ih hval)
  | or h ho h' ih ih' =>
    simp only [List.forall_mem_append, List.forall_mem_cons] at hval
    exact .or (ih hval.1) ho (ih' hval.2.2)
  | andOne h ih => exact .andOne (ih hval)
  | and h ho h' ih ih' =>
    simp only [List.forall_mem_append, List.forall_mem_cons] at hval
    exact .and (ih hval.1) ho (ih' hval.2.2)
  | notOne h ih => exact .notOne (ih hval)
  | not ho h ih => exact .not ho (ih (List.forall_mem_cons.1 hval).2)
  | paren hl h hr ih =>
    simp only [List.forall_mem_append, List.forall_mem_cons] at hval
    exact .paren hl (ih hval.1.2) hr
  | primaryOne h ih => exact .primaryOne (ih hval)
  | compare hl ho hr =>
    simp only [List.forall_mem_cons] at hval
    exact .compare (hval.1 ▸ hl) ho (hval.2.2.1 ▸ hr)
  | between hf hb hl ha hh =>
    simp only [List.forall_mem_cons] at hval
    exact .between (hval.1 ▸ hf) hb (hval.2.2.1 ▸ hl) ha (hval.2.2.2.2.1 ▸ hh)
  | notBetween hf hn hb hl ha hh =>
    simp only [List.forall_mem_cons] at hval
    exact .notBetween (hval.1 ▸ hf) hn hb (hval.2.2.2.1 ▸ hl) ha (hval.2.2.2.2.2.1 ▸ hh)

/-- Which operands the tokens are, fields apart, does not matter to whether there is a tree. -/
theorem Derives.transfer (h : Derives val level ts a)
    (hval : ∀ t ∈ ts, ∀ o, val t = some o →
      ∃ o', val' t = some o' ∧ ∀ name, o = .field name → o' = .field name) :
    ∃ a', Derives val' level ts a' := by
  induction h with
  | orOne h ih =>
    obtain ⟨a', h'⟩ := ih hval
    exact ⟨a', .orOne h'⟩
  | or h ho h' ih ih' =>
    simp only [List.forall_mem_append, List.forall_mem_cons] at hval
    obtain ⟨a', ha⟩ := ih hval.1
    obtain ⟨b', hb⟩ := ih' hval.2.2
    exact ⟨_, .or ha ho hb⟩
  | andOne h ih =>
    obtain ⟨a', h'⟩ := ih hval
    exact ⟨a', .andOne h'⟩
  | and h ho h' ih ih' =>
    simp only [List.forall_mem_append, List.forall_mem_cons] at hval
    obtain ⟨a', ha⟩ := ih hval.1
    obtain ⟨b', hb⟩ := ih' hval.2.2
    exact ⟨_, .and ha ho hb⟩
  | notOne h ih =>
    obtain ⟨a', h'⟩ := ih hval
    exact ⟨a', .notOne h'⟩
  | not ho h ih =>
    obtain ⟨a', h'⟩ := ih (List.forall_mem_cons.1 hval).2
    exact ⟨_, .not ho h'⟩
  | paren hl h hr ih =>
    simp only [List.forall_mem_append, List.forall_mem_cons] at hval
    obtain ⟨a', h'⟩ := ih hval.1.2
    exact ⟨a', .paren hl h' hr⟩
  | primaryOne h ih =>
    obtain ⟨a', h'⟩ := ih hval
    exact ⟨a', .primaryOne h'⟩
  | compare hl ho hr =>
    simp only [List.forall_mem_cons] at hval
    obtain ⟨left, hleft, -⟩ := hval.1 _ hl
    obtain ⟨right, hright, -⟩ := hval.2.2.1 _ hr
    exact ⟨_, .compare hleft ho hright⟩
  | between hf hb hl ha hh =>
    simp only [List.forall_mem_cons] at hval
    obtain ⟨f, hfield, heq⟩ := hval.1 _ hf
    cases heq _ rfl
    obtain ⟨lo, hlo, -⟩ := hval.2.2.1 _ hl
    obtain ⟨hi, hhi, -⟩ := hval.2.2.2.2.1 _ hh
    exact ⟨_, .between hfield hb hlo ha hhi⟩
  | notBetween hf hn hb hl ha hh =>
    simp only [List.forall_mem_cons] at hval
    obtain ⟨f, hfield, heq⟩ := hval.1 _ hf
    cases heq _ rfl
    obtain ⟨lo, hlo, -⟩ := hval.2.2.2.1 _ hl
    obtain ⟨hi, hhi, -⟩ := hval.2.2.2.2.2.1 _ hh
    exact ⟨_, .notBetween hfield hn hb hlo ha hhi⟩

/-- Every token of a sentence is an operand, or one of the words and signs of the grammar. -/
theorem Derives.mem (h : Derives val level ts a) {t : Token} (ht : t ∈ ts) :
    (∃ o, val t = some o) ∨ t.kind ≠ .invalid ∧ t.kind ≠ .param := by
  have hword {t : Token} {k : TK} (hk : t.kind = k) (hinvalid : k ≠ .invalid)
      (hparam : k ≠ .param) :
      (∃ o, val t = some o) ∨ t.kind ≠ .invalid ∧ t.kind ≠ .param :=
    .inr ⟨hk ▸ hinvalid, hk ▸ hparam⟩
  induction h with
  | orOne h ih => exact ih ht
  | or h ho h' ih ih' =>
    rcases List.mem_append.1 ht with ht | ht
    · exact ih ht
    · rcases List.mem_cons.1 ht with rfl | ht
      · exact hword ho (by decide) (by decide)
      · exact ih' ht
  | andOne h ih => exact ih ht
  | and h ho h' ih ih' =>
    rcases List.mem_append.1 ht with ht | ht
    · exact ih ht
    · rcases List.mem_cons.1 ht with rfl | ht
      · exact hword ho (by decide) (by decide)
      · exact ih' ht
  | notOne h ih => exact ih ht
  | not ho h ih =>
    rcases List.mem_cons.1 ht with rfl | ht
    · exact hword ho (by decide) (by decide)
    · exact ih ht
  | paren hl h hr ih =>
    rcases List.mem_append.1 ht with ht | ht
    · rcases List.mem_cons.1 ht with rfl | ht
      · exact hword hl (by decide) (by decide)
      · exact ih ht
    · cases List.mem_singleton.1 ht
      exact hword hr (by decide) (by decide)
  | primaryOne h ih => exact ih ht
  | @compare l o r left right op hl ho hr =>
    have hop : o.kind ≠ .invalid ∧ o.kind ≠ .param := by
      constructor <;>
      · intro hk
        rw [hk] at ho
        cases ho
    simp only [List.mem_cons, List.not_mem_nil, or_false] at ht
    rcases ht with rfl | rfl | rfl
    · exact .inl ⟨_, hl⟩
    · exact .inr hop
    · exact .inl ⟨_, hr⟩
  | between hf hb hl ha hh =>
    simp only [List.mem_cons, List.not_mem_nil, or_false] at ht
    rcases ht with rfl | rfl | rfl | rfl | rfl
    · exact .inl ⟨_, hf⟩
    · exact hword hb (by decide) (by decide)
    · exact .inl ⟨_, hl⟩
    · exact hword ha (by decide) (by decide)
    · exact .inl ⟨_, hh⟩
  | notBetween hf hn hb hl ha hh =>
    simp only [List.mem_cons, List.not_mem_nil, or_false] at ht
    rcases ht with rfl | rfl | rfl | rfl | rfl | rfl
    · exact .inl ⟨_, hf⟩
    · exact hword hn (by decide) (by decide)
    · exact hword hb (by decide) (by decide)
    · exact .inl ⟨_, hl⟩
    · exact hword ha (by decide) (by decide)
    · exact .inl ⟨_, hh⟩

end Derivations

/-! ### Lax tokens -/

section Lax

variable {t : Token} {s r r' : List UInt8} {ts ts' : List Token} {a b : AstNode}

theorem Reads.unique (h : Reads s ts r) (hr : peekKind r = .eof) (h' : Reads s ts' r')
    (hr' : peekKind r' = .eof) : ts = ts' := by
  induction ts generalizing s ts' with
  | nil =>
    cases h
    cases ts' with
    | nil => rfl
    | cons t' ts' =>
      obtain ⟨rfl, hkind, -⟩ := Reads.cons_iff.1 h'
      exact absurd hr hkind
  | cons t ts ih =>
    obtain ⟨rfl, hkind, h⟩ := Reads.cons_iff.1 h
    cases ts' with
    | nil =>
      cases h'
      exact absurd hr' hkind
    | cons t' ts' =>
      obtain ⟨rfl, -, h'⟩ := Reads.cons_iff.1 h'
      rw [ih h h']

theorem parseInt_widen {lo mid hi : ℤ} (h : ¬ (parseInt (mid + 1) hi s).isSome) (hmid : mid ≤ hi) :
    parseInt lo hi s = parseInt lo mid s := by
  unfold parseInt at h ⊢
  cases hs : parseDecimal s with
  | none => rfl
  | some n =>
    rw [hs] at h
    simp only [Option.filter_some, decide_eq_true_iff] at h ⊢
    have hn : ¬ (mid + 1 ≤ n ∧ n ≤ hi) := fun hn => h (by rw [if_pos hn]; rfl)
    exact if_congr (by omega) rfl rfl

theorem tokenOperand_eq (h : ¬ t.Lax) : tokenOperand t = operandValue t := by
  obtain ⟨hclosed, hparam⟩ := not_or.1 h
  unfold tokenOperand operandValue
  cases hkind : t.kind
  case param =>
    have hp : ¬ (parseInt (99 + 1) 255 t.text.tail).isSome := fun hp => hparam ⟨hkind, hp⟩
    dsimp only
    rw [parseInt_widen hp (by decide)]
  case string =>
    have hquote : quote ∈ t.text.tail := by
      by_contra hq
      exact hclosed ⟨hkind, hq⟩
    have hlen : 2 ≤ t.text.length := by
      have hpos := List.length_pos_of_mem hquote
      rw [List.length_tail] at hpos
      omega
    dsimp only
    rw [if_pos hlen]
  all_goals rfl

/-- The parser takes a lax token, and not for a field. -/
theorem tokenOperand_of_lax (h : t.Lax) :
    ∃ o, tokenOperand t = some o ∧ ∀ name, o ≠ .field name := by
  unfold tokenOperand
  rcases h with ⟨hkind, -⟩ | ⟨hkind, hsome⟩
  · rw [hkind]
    exact ⟨_, rfl, fun name h => nomatch h⟩
  · rw [hkind]
    obtain ⟨n, hn⟩ := Option.isSome_iff_exists.1 hsome
    unfold parseInt at hn ⊢
    obtain ⟨hs, hrange⟩ := Option.filter_eq_some_iff.1 hn
    rw [decide_eq_true_iff] at hrange
    have hwide : decide (0 ≤ n ∧ n ≤ 255) = true := decide_eq_true ⟨by omega, hrange.2⟩
    rw [hs, Option.filter_some, if_pos hwide]
    exact ⟨_, rfl, fun name h => nomatch h⟩

/-- No token of a sentence is lax. -/
theorem Derives.not_lax {level : Level} (h : Derives operandValue level ts a)
    (hclosed : ∀ t ∈ ts, ¬ t.Unclosed) : ∀ t ∈ ts, ¬ t.Lax := by
  rintro t ht (hopen | ⟨hkind, hsome⟩)
  · exact hclosed t ht hopen
  · rcases h.mem ht with ⟨o, ho⟩ | ⟨-, hne⟩
    · obtain ⟨n, hn⟩ := Option.isSome_iff_exists.1 hsome
      have hs := (Option.filter_eq_some_iff.1 hn).1
      have hrange := (Option.filter_eq_some_iff.1 hn).2
      rw [decide_eq_true_iff] at hrange
      have hout : ¬ decide (0 ≤ n ∧ n ≤ 99) = true := by
        rw [decide_eq_true_iff]
        omega
      rw [operandValue, hkind] at ho
      dsimp only at ho
      rw [parseInt, hs, Option.filter_some, if_neg hout] at ho
      cases ho
    · exact hne hkind

/-- A sentence is parsed, and its tree is the answer. -/
theorem parse_of_sentence (h : Sentence (trim s) a) : parse s = .ok (some a) := by
  obtain ⟨ts, hspell, hder⟩ := h
  obtain ⟨⟨r, hr, heof⟩, hts⟩ := reads_iff_spells.1 hspell
  have hlax := hder.not_lax fun t ht => (hts t ht).2
  have hder' := hder.congr fun t ht => (tokenOperand_eq (hlax t ht)).symm
  refine parse_iff_derives.2 ⟨fun hnil => ?_, ts, r, hr, heof, hder'⟩
  have hlen := hr.length_le
  rw [hnil] at hlen
  exact absurd hder.length_pos hlen.not_gt

/-- A tree of a text is the only one. -/
theorem Sentence.unique (h : Sentence (trim s) a) (h' : Sentence (trim s) b) : a = b := by
  have heq := (parse_of_sentence h).symm.trans (parse_of_sentence h')
  cases heq
  rfl

/-- What the parser takes without a lax token is a sentence. -/
theorem sentence_of_reads (h : Reads s ts r) (hr : peekKind r = .eof) (hlax : ∀ t ∈ ts, ¬ t.Lax)
    (hder : Derives tokenOperand .or ts a) : Sentence s a := by
  refine ⟨ts, reads_iff_spells.2 ⟨⟨r, h, hr⟩, fun t ht => ⟨fun hkind => ?_, fun hopen => ?_⟩⟩,
    hder.congr fun t ht => tokenOperand_eq (hlax t ht)⟩
  · rcases hder.mem ht with ⟨o, ho⟩ | ⟨hne, -⟩
    · rw [tokenOperand, hkind] at ho
      cases ho
    · exact hne hkind
  · exact hlax t ht (.inl hopen)

/-- Whether the tokens have a tree is the same for the parser as for the grammar with lax tokens. -/
theorem exists_derives_iff {level : Level} :
    (∃ a, Derives laxValue level ts a) ↔ ∃ a, Derives tokenOperand level ts a := by
  constructor
  · rintro ⟨a, h⟩
    refine h.transfer fun t _ o ho => ?_
    unfold laxValue at ho
    split at ho
    next hlax =>
      cases ho
      obtain ⟨o', ho', -⟩ := tokenOperand_of_lax hlax
      exact ⟨o', ho', fun name h => nomatch h⟩
    next hlax =>
      rw [← tokenOperand_eq hlax] at ho
      exact ⟨o, ho, fun name h => h⟩
  · rintro ⟨a, h⟩
    refine h.transfer fun t _ o ho => ?_
    unfold laxValue
    split
    next hlax =>
      obtain ⟨o', ho', hfield⟩ := tokenOperand_of_lax hlax
      cases ho.symm.trans ho'
      exact ⟨_, rfl, fun name h => absurd h (hfield name)⟩
    next hlax =>
      rw [tokenOperand_eq hlax] at ho
      exact ⟨o, ho, fun name h => h⟩

/-- **What the parser takes.**  It answers every text as the grammar says, but for those with a lax
token. -/
theorem parse_iff_sentence :
    (∀ a, parse s = .ok (some a) ↔ Sentence (trim s) a) ↔ ¬ LaxText (trim s) := by
  constructor
  · rintro h ⟨ts, r, hr, heof, ⟨t, ht, hlax⟩, hder⟩
    obtain ⟨a, hder⟩ := exists_derives_iff.1 hder
    have hne : trim s ≠ [] := by
      intro hnil
      have hlen := hr.length_le
      rw [hnil] at hlen
      exact absurd hder.length_pos hlen.not_gt
    obtain ⟨ts', hspell, hder'⟩ := (h a).1 (parse_iff_derives.2 ⟨hne, ts, r, hr, heof, hder⟩)
    obtain ⟨⟨r', hr', heof'⟩, hts⟩ := reads_iff_spells.1 hspell
    cases hr.unique heof hr' heof'
    exact hder'.not_lax (fun t ht => (hts t ht).2) t ht hlax
  · refine fun h a => ⟨fun hparse => ?_, parse_of_sentence⟩
    obtain ⟨-, ts, r, hr, heof, hder⟩ := parse_iff_derives.1 hparse
    refine sentence_of_reads hr heof (fun t ht hlax => h ?_) hder
    exact ⟨ts, r, hr, heof, ⟨t, ht, hlax⟩, exists_derives_iff.2 ⟨a, hder⟩⟩

end Lax

end Zzdds.Dcps.Filter
