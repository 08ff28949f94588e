import Mathlib.Data.List.Basic
import Mathlib.Data.List.TakeWhile
import Zzdds.Lib.Numerals

/-! # JSON texts

`Reads cs j r`: of the characters `cs` the first are a text of the value `j`, and `r` is what is
left.  No text has two values (`Reads.unique`).  Strings and numbers are kept as they are
written. -/

namespace Zzdds.Lib

inductive Json where
  | null
  | bool (b : Bool)
  | number (text : List Char)
  | string (text : List Char)
  | array (items : List Json)
  | object (members : List (List Char × Json))

namespace Json

/-! ### Characters, strings and numbers -/

def isBlank (c : Char) : Bool := c = ' ' || c = '\t' || c = '\n' || c = '\r'

def skipBlanks (cs : List Char) : List Char := cs.dropWhile isBlank

def isHexDigit (c : Char) : Bool := c.isDigit || ('a' ≤ c && c ≤ 'f') || ('A' ≤ c && c ≤ 'F')

def isEscape (c : Char) : Bool := "\"\\/bfnrt".toList.contains c

/-- The rest of a string, up to its closing quote. -/
def readString : List Char → Option (List Char × List Char)
  | [] => none
  | '"' :: cs => some ([], cs)
  | '\\' :: 'u' :: a :: b :: c :: d :: cs =>
      if [a, b, c, d].all isHexDigit then
        (readString cs).map fun out => ('\\' :: 'u' :: a :: b :: c :: d :: out.1, out.2)
      else none
  | '\\' :: c :: cs =>
      if isEscape c then (readString cs).map fun out => ('\\' :: c :: out.1, out.2) else none
  | c :: cs =>
      if c = '\\' || c < ' ' then none else (readString cs).map fun out => (c :: out.1, out.2)

def isNumberChar (c : Char) : Bool := c.isDigit || "+-.eE".toList.contains c

def isDigits (cs : List Char) : Bool := !cs.isEmpty && cs.all Char.isDigit

/-- No zero before other digits. -/
def isInteger (cs : List Char) : Bool := isDigits cs && (cs.head? ≠ some '0' || cs.length = 1)

def isExponent : List Char → Bool
  | [] => true
  | e :: '+' :: cs => (e = 'e' || e = 'E') && isDigits cs
  | e :: '-' :: cs => (e = 'e' || e = 'E') && isDigits cs
  | e :: cs => (e = 'e' || e = 'E') && isDigits cs

def isFraction : List Char → Bool
  | '.' :: cs => isDigits (cs.takeWhile Char.isDigit) && isExponent (cs.dropWhile Char.isDigit)
  | cs => isExponent cs

def isUnsigned (cs : List Char) : Bool :=
  isInteger (cs.takeWhile Char.isDigit) && isFraction (cs.dropWhile Char.isDigit)

def isNumber : List Char → Bool
  | '-' :: cs => isUnsigned cs
  | cs => isUnsigned cs

/-! ### Values -/

inductive Literal : List Char → Json → Prop
  | null : Literal "null".toList .null
  | true : Literal "true".toList (.bool true)
  | false : Literal "false".toList (.bool false)

mutual

inductive Reads : List Char → Json → List Char → Prop
  | literal {cs text r : List Char} {j : Json} (hl : Literal text j)
      (hcs : skipBlanks cs = text ++ r) : Reads cs j r
  | number {cs : List Char} (hn : isNumber ((skipBlanks cs).takeWhile isNumberChar) = true) :
      Reads cs (.number ((skipBlanks cs).takeWhile isNumberChar))
        ((skipBlanks cs).dropWhile isNumberChar)
  | string {cs cs' s r : List Char} (hcs : skipBlanks cs = '"' :: cs')
      (hs : readString cs' = some (s, r)) : Reads cs (.string s) r
  | emptyArray {cs cs' r : List Char} (hcs : skipBlanks cs = '[' :: cs')
      (hr : skipBlanks cs' = ']' :: r) : Reads cs (.array []) r
  | array {cs cs' r : List Char} {js : List Json} (hcs : skipBlanks cs = '[' :: cs')
      (hjs : ReadsItems cs' js r) : Reads cs (.array js) r
  | emptyObject {cs cs' r : List Char} (hcs : skipBlanks cs = '\x7b' :: cs')
      (hr : skipBlanks cs' = '\x7d' :: r) : Reads cs (.object []) r
  | object {cs cs' r : List Char} {ms : List (List Char × Json)}
      (hcs : skipBlanks cs = '\x7b' :: cs') (hms : ReadsMembers cs' ms r) : Reads cs (.object ms) r

/-- The items of an array, and its end. -/
inductive ReadsItems : List Char → List Json → List Char → Prop
  | last {cs cs' r : List Char} {j : Json} (hj : Reads cs j cs') (hr : skipBlanks cs' = ']' :: r) :
      ReadsItems cs [j] r
  | cons {cs cs' cs'' r : List Char} {j : Json} {js : List Json} (hj : Reads cs j cs')
      (hcs : skipBlanks cs' = ',' :: cs'') (hjs : ReadsItems cs'' js r) : ReadsItems cs (j :: js) r

/-- The members of an object, and its end. -/
inductive ReadsMembers : List Char → List (List Char × Json) → List Char → Prop
  | member {cs cs₁ cs₂ cs₃ cs₄ s r : List Char} {j : Json} {ms : List (List Char × Json)}
      (hcs : skipBlanks cs = '"' :: cs₁) (hs : readString cs₁ = some (s, cs₂))
      (hcolon : skipBlanks cs₂ = ':' :: cs₃) (hj : Reads cs₃ j cs₄) (hms : ReadsTail cs₄ ms r) :
      ReadsMembers cs ((s, j) :: ms) r

/-- What follows a member. -/
inductive ReadsTail : List Char → List (List Char × Json) → List Char → Prop
  | nil {cs r : List Char} (hr : skipBlanks cs = '\x7d' :: r) : ReadsTail cs [] r
  | cons {cs cs' r : List Char} {ms : List (List Char × Json)} (hcs : skipBlanks cs = ',' :: cs')
      (hms : ReadsMembers cs' ms r) : ReadsTail cs ms r

end

/-- `cs` is a text of `j`. -/
def IsText (cs : List Char) (j : Json) : Prop := ∃ r, Reads cs j r ∧ skipBlanks r = []

/-! ### A text has one value -/

section Inversion

variable {cs cs' r : List Char} {c : Char} {j : Json}

theorem skipBlanks_cons_of_blank (hc : isBlank c = true) : skipBlanks (c :: cs) = skipBlanks cs :=
  List.dropWhile_cons_of_pos hc

theorem skipBlanks_cons (hc : isBlank c = false) : skipBlanks (c :: cs) = c :: cs :=
  List.dropWhile_cons_of_neg (by simp [hc])

theorem not_isNumber_nil : isNumber [] = false := rfl

theorem Reads.of_quote (h : Reads cs j r) (hcs : skipBlanks cs = '"' :: cs') :
    ∃ s, j = .string s ∧ readString cs' = some (s, r) := by
  cases h with
  | literal hl h => cases hl <;> simp [hcs] at h
  | number hn => simp [hcs, isNumberChar, not_isNumber_nil] at hn
  | string h hs =>
    rw [hcs] at h
    cases h
    exact ⟨_, rfl, hs⟩
  | emptyArray h _ => simp [hcs] at h
  | array h _ => simp [hcs] at h
  | emptyObject h _ => simp [hcs] at h
  | object h _ => simp [hcs] at h

theorem Reads.of_bracket (h : Reads cs j r) (hcs : skipBlanks cs = '[' :: cs') :
    ∃ js, j = .array js ∧ (js = [] ∧ skipBlanks cs' = ']' :: r ∨ ReadsItems cs' js r) := by
  cases h with
  | literal hl h => cases hl <;> simp [hcs] at h
  | number hn => simp [hcs, isNumberChar, not_isNumber_nil] at hn
  | string h _ => simp [hcs] at h
  | emptyArray h hr =>
    rw [hcs] at h
    cases h
    exact ⟨_, rfl, .inl ⟨rfl, hr⟩⟩
  | array h hjs =>
    rw [hcs] at h
    cases h
    exact ⟨_, rfl, .inr hjs⟩
  | emptyObject h _ => simp [hcs] at h
  | object h _ => simp [hcs] at h

theorem Reads.of_brace (h : Reads cs j r) (hcs : skipBlanks cs = '\x7b' :: cs') :
    ∃ ms, j = .object ms ∧ (ms = [] ∧ skipBlanks cs' = '\x7d' :: r ∨ ReadsMembers cs' ms r) := by
  cases h with
  | literal hl h => cases hl <;> simp [hcs] at h
  | number hn => simp [hcs, isNumberChar, not_isNumber_nil] at hn
  | string h _ => simp [hcs] at h
  | emptyArray h _ => simp [hcs] at h
  | array h _ => simp [hcs] at h
  | emptyObject h hr =>
    rw [hcs] at h
    cases h
    exact ⟨_, rfl, .inl ⟨rfl, hr⟩⟩
  | object h hms =>
    rw [hcs] at h
    cases h
    exact ⟨_, rfl, .inr hms⟩

theorem Reads.of_number (h : Reads cs j r)
    (hn : isNumber ((skipBlanks cs).takeWhile isNumberChar) = true) :
    j = .number ((skipBlanks cs).takeWhile isNumberChar) ∧
      r = (skipBlanks cs).dropWhile isNumberChar := by
  cases h with
  | literal hl h => cases hl <;> simp [h, isNumberChar, not_isNumber_nil] at hn
  | number _ => exact ⟨rfl, rfl⟩
  | string h _ => simp [h, isNumberChar, not_isNumber_nil] at hn
  | emptyArray h _ => simp [h, isNumberChar, not_isNumber_nil] at hn
  | array h _ => simp [h, isNumberChar, not_isNumber_nil] at hn
  | emptyObject h _ => simp [h, isNumberChar, not_isNumber_nil] at hn
  | object h _ => simp [h, isNumberChar, not_isNumber_nil] at hn

theorem Reads.of_literal {text : List Char} {j' : Json} (h : Reads cs j r) (hl : Literal text j')
    (hcs : skipBlanks cs = text ++ cs') : j = j' ∧ r = cs' := by
  cases h with
  | literal hl' h =>
    rw [hcs] at h
    cases hl <;> cases hl' <;> simp_all
  | number hn => cases hl <;> simp [hcs, isNumberChar, not_isNumber_nil] at hn
  | string h _ => cases hl <;> simp [hcs] at h
  | emptyArray h _ => cases hl <;> simp [hcs] at h
  | array h _ => cases hl <;> simp [hcs] at h
  | emptyObject h _ => cases hl <;> simp [hcs] at h
  | object h _ => cases hl <;> simp [hcs] at h

/-- Members begin with a quote. -/
theorem ReadsMembers.opening {ms : List (List Char × Json)} (h : ReadsMembers cs ms r) :
    ∃ cs', skipBlanks cs = '"' :: cs' := by
  cases h with
  | member hcs _ _ _ _ => exact ⟨_, hcs⟩

/-- No value begins with a closing bracket. -/
theorem Reads.not_closing (h : Reads cs j r) : skipBlanks cs ≠ ']' :: cs' := by
  intro hcs
  cases h with
  | literal hl h => cases hl <;> simp [hcs] at h
  | number hn => simp [hcs, isNumberChar, not_isNumber_nil] at hn
  | _ => simp_all

end Inversion

mutual

theorem Reads.unique : ∀ {cs : List Char} {j j' : Json} {r r' : List Char}, Reads cs j r →
    Reads cs j' r' → j' = j ∧ r' = r
  | _, _, _, _, _, .literal hl hcs, h' => h'.of_literal hl hcs
  | _, _, _, _, _, .number hn, h' => h'.of_number hn
  | _, _, _, _, _, .string hcs hs, h' => by
      obtain ⟨s, rfl, hs'⟩ := h'.of_quote hcs
      rw [hs] at hs'
      cases hs'
      exact ⟨rfl, rfl⟩
  | _, _, _, _, _, .emptyArray hcs hr, h' => by
      obtain ⟨js, rfl, ⟨rfl, hr'⟩ | hjs⟩ := h'.of_bracket hcs
      · rw [hr] at hr'
        cases hr'
        exact ⟨rfl, rfl⟩
      · cases hjs with
        | last hj _ => exact absurd hr hj.not_closing
        | cons hj _ _ => exact absurd hr hj.not_closing
  | _, _, _, _, _, .array hcs hjs, h' => by
      obtain ⟨js, rfl, ⟨rfl, hr'⟩ | hjs'⟩ := h'.of_bracket hcs
      · cases hjs with
        | last hj _ => exact absurd hr' hj.not_closing
        | cons hj _ _ => exact absurd hr' hj.not_closing
      · obtain ⟨rfl, rfl⟩ := ReadsItems.unique hjs hjs'
        exact ⟨rfl, rfl⟩
  | _, _, _, _, _, .emptyObject hcs hr, h' => by
      obtain ⟨ms, rfl, ⟨rfl, hr'⟩ | hms⟩ := h'.of_brace hcs
      · rw [hr] at hr'
        cases hr'
        exact ⟨rfl, rfl⟩
      · obtain ⟨_, hquote⟩ := hms.opening
        simp [hr] at hquote
  | _, _, _, _, _, .object hcs hms, h' => by
      obtain ⟨ms, rfl, ⟨rfl, hr'⟩ | hms'⟩ := h'.of_brace hcs
      · obtain ⟨_, hquote⟩ := hms.opening
        simp [hr'] at hquote
      · obtain ⟨rfl, rfl⟩ := ReadsMembers.unique hms hms'
        exact ⟨rfl, rfl⟩

theorem ReadsItems.unique : ∀ {cs : List Char} {js js' : List Json} {r r' : List Char},
    ReadsItems cs js r → ReadsItems cs js' r' → js' = js ∧ r' = r
  | _, _, _, _, _, .last hj hr, h' => by
      cases h' with
      | last hj' hr' =>
        obtain ⟨rfl, rfl⟩ := Reads.unique hj hj'
        rw [hr] at hr'
        cases hr'
        exact ⟨rfl, rfl⟩
      | cons hj' hcs' _ =>
        obtain ⟨rfl, rfl⟩ := Reads.unique hj hj'
        simp [hr] at hcs'
  | _, _, _, _, _, .cons hj hcs hjs, h' => by
      cases h' with
      | last hj' hr' =>
        obtain ⟨rfl, rfl⟩ := Reads.unique hj hj'
        simp [hcs] at hr'
      | cons hj' hcs' hjs' =>
        obtain ⟨rfl, rfl⟩ := Reads.unique hj hj'
        rw [hcs] at hcs'
        cases hcs'
        obtain ⟨rfl, rfl⟩ := ReadsItems.unique hjs hjs'
        exact ⟨rfl, rfl⟩

theorem ReadsMembers.unique : ∀ {cs : List Char} {ms ms' : List (List Char × Json)}
    {r r' : List Char}, ReadsMembers cs ms r → ReadsMembers cs ms' r' → ms' = ms ∧ r' = r
  | _, _, _, _, _, .member hcs hs hcolon hj hms, h' => by
      cases h' with
      | member hcs' hs' hcolon' hj' hms' =>
        rw [hcs] at hcs'
        cases hcs'
        rw [hs] at hs'
        cases hs'
        rw [hcolon] at hcolon'
        cases hcolon'
        obtain ⟨rfl, rfl⟩ := Reads.unique hj hj'
        obtain ⟨rfl, rfl⟩ := ReadsTail.unique hms hms'
        exact ⟨rfl, rfl⟩

theorem ReadsTail.unique : ∀ {cs : List Char} {ms ms' : List (List Char × Json)}
    {r r' : List Char}, ReadsTail cs ms r → ReadsTail cs ms' r' → ms' = ms ∧ r' = r
  | _, _, _, _, _, .nil hr, h' => by
      cases h' with
      | nil hr' =>
        rw [hr] at hr'
        cases hr'
        exact ⟨rfl, rfl⟩
      | cons hcs' _ => simp [hr] at hcs'
  | _, _, _, _, _, .cons hcs hms, h' => by
      cases h' with
      | nil hr' => simp [hcs] at hr'
      | cons hcs' hms' =>
        rw [hcs] at hcs'
        cases hcs'
        obtain ⟨rfl, rfl⟩ := ReadsMembers.unique hms hms'
        exact ⟨rfl, rfl⟩

end

theorem IsText.unique {cs : List Char} {j j' : Json} (h : IsText cs j) (h' : IsText cs j') :
    j' = j := by
  obtain ⟨r, h, -⟩ := h
  obtain ⟨r', h', -⟩ := h'
  exact (h.unique h').1

/-! ### Writing texts -/

/-- No number goes on in `r`. -/
def Ends (r : List Char) : Prop := ∀ c ∈ r.head?, isNumberChar c = false

/-- `cs` is a text of `j`, whatever follows that ends a number. -/
def Text (j : Json) (cs : List Char) : Prop := ∀ r, Ends r → Reads (cs ++ r) j r

def isPlain (c : Char) : Bool := c ≠ '"' && c ≠ '\\' && !(c < ' ')

/-- A character string that needs no escapes. -/
def Plain (s : List Char) : Prop := ∀ c ∈ s, isPlain c = true

instance (s : List Char) : Decidable (Plain s) :=
  decidable_of_iff (s.all isPlain = true) List.all_eq_true

def quoted (s : List Char) : List Char := '"' :: (s ++ ['"'])

/-- A member, with the text of its value. -/
structure Field where
  name : List Char
  json : Json
  text : List Char
  plain : Plain name
  isText : Text json text

namespace Field

def member (f : Field) : List Char × Json := (f.name, f.json)

def write (f : Field) : List Char := quoted f.name ++ ':' :: f.text

end Field

def fieldsText (fs : List Field) : List Char := [','].intercalate (fs.map Field.write)

def objectText (fs : List Field) : List Char := '\x7b' :: (fieldsText fs ++ ['\x7d'])

section Writing

variable {cs r : List Char} {j : Json}

theorem readString_plain {s : List Char} (hs : Plain s) :
    readString (s ++ '"' :: r) = some (s, r) := by
  induction s with
  | nil => rfl
  | cons c s ih =>
    have hc : isPlain c = true := hs c List.mem_cons_self
    have hrest := ih fun x hx => hs x (List.mem_cons_of_mem _ hx)
    have hquote : c ≠ '"' := by
      rintro rfl
      cases hc
    have hslash : c ≠ '\\' := by
      rintro rfl
      cases hc
    have hcontrol : ¬ c < ' ' := by
      intro h
      simp [isPlain, h] at hc
    rw [List.cons_append, readString.eq_def]
    split <;> simp_all

theorem Text.string {s : List Char} (hs : Plain s) : Text (.string s) (quoted s) := by
  intro r _
  have hcs : skipBlanks (quoted s ++ r) = '"' :: (s ++ '"' :: r) := by
    simp [quoted, skipBlanks, isBlank]
  exact .string hcs (readString_plain hs)

theorem Text.number (hall : ∀ c ∈ cs, isNumberChar c = true) (hn : isNumber cs = true) :
    Text (.number cs) cs := by
  intro r hr
  have hnone : r.takeWhile isNumberChar = [] ∧ r.dropWhile isNumberChar = r := by
    cases r with
    | nil => exact ⟨rfl, rfl⟩
    | cons c r =>
      have hc : isNumberChar c = false := hr c rfl
      simp [hc]
  have hskip : skipBlanks (cs ++ r) = cs ++ r := by
    cases cs with
    | nil => cases hn
    | cons c cs =>
      have hc := hall c List.mem_cons_self
      have hblank : isBlank c = false := by
        by_contra h
        rw [Bool.not_eq_false] at h
        simp only [isBlank, Bool.or_eq_true, decide_eq_true_eq] at h
        rcases h with ((rfl | rfl) | rfl) | rfl <;> cases hc
      exact skipBlanks_cons hblank
  have htake : (skipBlanks (cs ++ r)).takeWhile isNumberChar = cs := by
    rw [hskip, List.takeWhile_append_of_pos hall, hnone.1, List.append_nil]
  have hdrop : (skipBlanks (cs ++ r)).dropWhile isNumberChar = r := by
    rw [hskip, List.dropWhile_append_of_pos hall, hnone.2]
  have hreads := Reads.number (hn.symm ▸ congrArg isNumber htake)
  rwa [htake, hdrop] at hreads

theorem Text.bool (b : Bool) : Text (.bool b) (if b then "true" else "false").toList := by
  intro r _
  cases b with
  | true => exact .literal .true rfl
  | false => exact .literal .false rfl

theorem isUnsigned_toDigits (n : ℕ) : isUnsigned (Nat.toDigits 10 n) = true := by
  have hdigits := List.all_eq_true.mp (all_isDigit_toDigits n)
  rw [isUnsigned, List.takeWhile_eq_self_iff.mpr hdigits, List.dropWhile_eq_nil_iff.mpr hdigits]
  have hne : (Nat.toDigits 10 n).isEmpty = false :=
    List.isEmpty_eq_false_iff.mpr Nat.toDigits_ne_nil
  have hhead : (Nat.toDigits 10 n).head? ≠ some '0' ∨ (Nat.toDigits 10 n).length = 1 := by
    rcases Nat.eq_zero_or_pos n with rfl | hn
    · exact .inr rfl
    · exact .inl (head?_toDigits hn)
  simp [isInteger, isDigits, hne, all_isDigit_toDigits, hhead, isFraction, isExponent]

theorem Text.integer (n : ℤ) : Text (.number (decimal n)) (decimal n) := by
  have hall : ∀ m : ℕ, ∀ c ∈ Nat.toDigits 10 m, isNumberChar c = true := by
    intro m c hc
    simp [isNumberChar, List.all_eq_true.mp (all_isDigit_toDigits m) c hc]
  cases n with
  | ofNat n =>
    refine Text.number (hall n) ?_
    rw [decimal, isNumber.eq_def]
    split
    next cs h =>
      have := all_isDigit_toDigits n
      rw [h] at this
      cases this
    next => exact isUnsigned_toDigits n
  | negSucc n =>
    refine Text.number (fun c hc => ?_) (isUnsigned_toDigits (n + 1))
    rcases List.mem_cons.mp hc with rfl | hc
    · rfl
    · exact hall (n + 1) c hc

theorem readsMembers_cons {f : Field} {r' : List Char} {ms : List (List Char × Json)}
    (hr : Ends r) : ReadsMembers (f.write ++ r) ms r' ↔
      ∃ ms', ms = f.member :: ms' ∧ ReadsTail r ms' r' := by
  have hquote : skipBlanks (f.write ++ r) = '"' :: (f.name ++ '"' :: ':' :: (f.text ++ r)) := by
    simp [Field.write, quoted, skipBlanks, isBlank]
  have hcolon : skipBlanks (':' :: (f.text ++ r)) = ':' :: (f.text ++ r) := rfl
  constructor
  · rintro (⟨hcs, hs, hcolon', hj, hms⟩)
    rw [hquote] at hcs
    cases hcs
    rw [readString_plain f.plain] at hs
    cases hs
    rw [hcolon] at hcolon'
    cases hcolon'
    obtain ⟨rfl, rfl⟩ := (f.isText r hr).unique hj
    exact ⟨_, rfl, hms⟩
  · rintro ⟨ms', rfl, hms⟩
    exact .member hquote (readString_plain f.plain) hcolon (f.isText r hr) hms

theorem ends_comma : Ends (',' :: cs) := by
  intro c hc
  cases hc
  rfl

theorem ends_brace : Ends ('\x7d' :: cs) := by
  intro c hc
  cases hc
  rfl

theorem readsTail_comma {r' : List Char} {ms : List (List Char × Json)} :
    ReadsTail (',' :: cs) ms r' ↔ ReadsMembers cs ms r' := by
  have hskip : skipBlanks (',' :: cs) = ',' :: cs := rfl
  constructor
  · rintro (⟨hr⟩ | ⟨hcs, hms⟩)
    · simp [hskip] at hr
    · rw [hskip] at hcs
      cases hcs
      exact hms
  · exact fun h => .cons rfl h

/-- What is read of members that are written one after the other. -/
theorem readsMembers_fields {f : Field} {fs : List Field} {ms : List (List Char × Json)}
    {r' : List Char} (hr : Ends r) : ReadsMembers (fieldsText (f :: fs) ++ r) ms r' ↔
      ∃ ms', ms = (f :: fs).map Field.member ++ ms' ∧ ReadsTail r ms' r' := by
  induction fs generalizing f ms with
  | nil =>
    have hone : fieldsText [f] = f.write := by simp [fieldsText]
    rw [hone, readsMembers_cons hr]
    rfl
  | cons g fs ih =>
    have hmore : fieldsText (f :: g :: fs) ++ r =
        f.write ++ (',' :: (fieldsText (g :: fs) ++ r)) := by
      simp [fieldsText, List.intercalate]
    simp only [hmore, readsMembers_cons ends_comma, readsTail_comma, ih]
    constructor
    · rintro ⟨_, rfl, ms', rfl, htail⟩
      exact ⟨ms', rfl, htail⟩
    · rintro ⟨ms', rfl, htail⟩
      exact ⟨_, rfl, ms', rfl, htail⟩

theorem Text.object (f : Field) (fs : List Field) :
    Text (.object ((f :: fs).map Field.member)) (objectText (f :: fs)) := by
  intro r _
  have hcs : skipBlanks (objectText (f :: fs) ++ r) =
      '\x7b' :: (fieldsText (f :: fs) ++ '\x7d' :: r) := by
    simp [objectText, skipBlanks, isBlank]
  exact .object hcs ((readsMembers_fields ends_brace).mpr ⟨[], (List.append_nil _).symm, .nil rfl⟩)

theorem Text.isText (h : Text j cs) : IsText cs j :=
  ⟨[], by simpa using h [] (by intro c hc; cases hc), rfl⟩

/-- After a member nothing stands but a comma or a closing brace. -/
theorem not_isText_fields {f : Field} {fs : List Field} {c : Char} (hr : Ends (c :: r))
    (hblank : isBlank c = false) (hcomma : c ≠ ',') (hbrace : c ≠ '\x7d') :
    ¬ IsText ('\x7b' :: (fieldsText (f :: fs) ++ c :: r)) j := by
  rintro ⟨r', hreads, -⟩
  have hskip : skipBlanks (c :: r) = c :: r := skipBlanks_cons hblank
  obtain ⟨ms', rfl, ⟨-, hclose⟩ | hms⟩ := hreads.of_brace rfl
  · obtain ⟨cs', hquote⟩ : ∃ cs', skipBlanks (fieldsText (f :: fs) ++ c :: r) = '"' :: cs' := by
      cases fs <;> exact ⟨_, rfl⟩
    rw [hquote] at hclose
    cases hclose
  · obtain ⟨ms'', -, htail⟩ := (readsMembers_fields hr).mp hms
    cases htail with
    | nil h =>
      rw [hskip] at h
      cases h
      exact hbrace rfl
    | cons h _ =>
      rw [hskip] at h
      cases h
      exact hcomma rfl

end Writing

/-- No object in it has two members of one name. -/
inductive Distinct : Json → Prop
  | null : Distinct .null
  | bool (b : Bool) : Distinct (.bool b)
  | number (text : List Char) : Distinct (.number text)
  | string (text : List Char) : Distinct (.string text)
  | array {js : List Json} (h : ∀ j ∈ js, Distinct j) : Distinct (.array js)
  | object {ms : List (List Char × Json)} (hnames : (ms.map Prod.fst).Nodup)
      (h : ∀ m ∈ ms, Distinct m.2) : Distinct (.object ms)

end Json

end Zzdds.Lib
