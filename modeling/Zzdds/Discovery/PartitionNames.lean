import Zzdds.Dcps.Like
import Zzdds.Discovery.QosMatch

/-! # What matching by pattern tells

The words of a pattern are those its elements stand for.  LIKE tells them.  `fnmatch` compares bytes
before it looks for a star, so a star of the pattern that stands before a `*` of the name is taken
for just that byte: it tells the names that match in that way (`fnmatch_iff`), which are all that
match as long as the name has no `*`. -/

namespace Zzdds.Discovery

open Zzdds.Lib Zzdds.Dcps

/-- What a byte of a partition's name stands for in a pattern. -/
def nameWild (c : UInt8) : Wild UInt8 :=
  if c = WILDCARD_ANY then .many else if c = WILDCARD_ONE then .one else .lit c

/-- The names a pattern matches. -/
def names (pattern : List UInt8) : Language UInt8 := Wild.words (pattern.map nameWild)

/-- The name matches the pattern in such a way that every star whose share of the name begins with
a `*` takes just that byte. -/
inductive TakesOwn : List UInt8 → List UInt8 → Prop
  | nil : TakesOwn [] []
  | byte {c x : UInt8} {p n : List UInt8} (hc : c ≠ WILDCARD_ANY) (hx : c = WILDCARD_ONE ∨ c = x)
      (h : TakesOwn p n) : TakesOwn (c :: p) (x :: n)
  | own {p n : List UInt8} (h : TakesOwn p n) : TakesOwn (WILDCARD_ANY :: p) (WILDCARD_ANY :: n)
  | star {p n m : List UInt8} (hn : n.head? ≠ some WILDCARD_ANY) (hm : m <:+ n)
      (h : TakesOwn p m) : TakesOwn (WILDCARD_ANY :: p) n

variable {pattern name p n u v m : List UInt8} {c x : UInt8}

/-! ### The words of a name's pattern -/

theorem names_star : n ∈ names (WILDCARD_ANY :: p) ↔ ∃ m, m <:+ n ∧ m ∈ names p :=
  Wild.mem_words_many

theorem names_byte (hc : c ≠ WILDCARD_ANY) :
    x :: n ∈ names (c :: p) ↔ (c = WILDCARD_ONE ∨ c = x) ∧ n ∈ names p := by
  rw [names, List.map_cons, nameWild, if_neg hc]
  by_cases hone : c = WILDCARD_ONE
  · rw [if_pos hone, Wild.cons_mem_words_one]
    exact ⟨fun h => ⟨.inl hone, h⟩, fun h => h.2⟩
  · rw [if_neg hone, Wild.cons_mem_words_lit]
    exact and_congr_left fun _ => ⟨.inr, fun h => h.resolve_left hone⟩

theorem TakesOwn.names (h : TakesOwn p n) : n ∈ names p := by
  induction h with
  | nil => rfl
  | byte hc hx _ ih => exact (names_byte hc).mpr ⟨hx, ih⟩
  | own _ ih => exact names_star.mpr ⟨_, List.suffix_cons _ _, ih⟩
  | star _ hm _ ih => exact names_star.mpr ⟨_, hm, ih⟩

/-! ### One comparison -/

/-- The byte of the pattern is compared with the byte of the name, and fits. -/
def Fits (c x : UInt8) : Prop := c = WILDCARD_ONE ∨ c = x

theorem takesOwn_cons_of_fits (h : Fits c x) : TakesOwn (c :: p) (x :: n) ↔ TakesOwn p n := by
  constructor
  · rintro (_ | ⟨-, -, h'⟩ | h' | ⟨hn, -, -⟩)
    · exact h'
    · exact h'
    · -- the star is compared with a byte that is no star
      rcases h with h | rfl
      · cases h
      · exact absurd rfl hn
  · intro h'
    by_cases hc : c = WILDCARD_ANY
    · obtain rfl : c = x := h.resolve_left (by rw [hc]; decide)
      rw [hc]
      exact .own h'
    · exact .byte hc h h'

theorem takesOwn_star (hx : x ≠ WILDCARD_ANY) :
    TakesOwn (WILDCARD_ANY :: p) (x :: n) ↔ ∃ m, m <:+ x :: n ∧ TakesOwn p m := by
  constructor
  · rintro (_ | ⟨hc, -, -⟩ | _ | ⟨-, hm, h⟩)
    · exact absurd rfl hc
    · exact absurd rfl hx
    · exact ⟨_, hm, h⟩
  · rintro ⟨m, hm, h⟩
    exact .star (fun he => hx (Option.some.inj he)) hm h

theorem not_takesOwn (hfits : ¬ Fits c x) (hc : c ≠ WILDCARD_ANY) :
    ¬ TakesOwn (c :: p) (x :: n) := by
  rintro (_ | ⟨-, hx, -⟩ | _ | _)
  · exact hfits hx
  · exact hc rfl
  · exact hc rfl

theorem takesOwn_nil_iff : TakesOwn p [] ↔ p.all (· == WILDCARD_ANY) = true := by
  induction p with
  | nil => exact ⟨fun _ => rfl, fun _ => .nil⟩
  | cons c p ih =>
    rw [List.all_cons, Bool.and_eq_true, beq_iff_eq, ← ih]
    constructor
    · rintro (_ | _ | _ | ⟨-, hm, h⟩)
      rw [List.suffix_nil.mp hm] at h
      exact ⟨rfl, h⟩
    · rintro ⟨rfl, h⟩
      exact .star (fun h => (nomatch h)) List.nil_suffix h

/-! ### An earlier star

Once the walk from a star has got as far as `n`, in the pattern at `p`, a later start gets no
further: it is behind from the start, and where it has caught up it takes what the walk took. -/

theorem caught_up (h : List.Forall₂ Fits u v) :
    ∀ {m}, m <:+ v ++ n → TakesOwn (u ++ p) m → ∃ m', m' <:+ n ∧ TakesOwn p m' := by
  induction h with
  | nil => exact fun hm ht => ⟨_, hm, ht⟩
  | @cons c x u v hcx _ ih =>
    intro m hm ht
    have htail : ∀ {y k}, y :: k <:+ x :: (v ++ n) → k <:+ v ++ n := by
      intro y k hk
      rcases List.suffix_cons_iff.mp hk with heq | hk
      · exact (List.cons.inj heq).2 ▸ List.suffix_rfl
      · exact (List.suffix_cons _ _).trans hk
    cases ht with
    | byte _ _ h' => exact ih (htail hm) h'
    | own h' => exact ih (htail hm) h'
    | star hn hk h' =>
      rcases List.suffix_cons_iff.mp hm with rfl | hm
      · rcases hcx with hcx | rfl
        · cases hcx
        · exact absurd rfl hn
      · exact ih (hk.trans hm) h'

/-! ### The loop -/

/-- What `fnmatch` makes of where its loop ends. -/
def tells (pattern : List UInt8) : ℕ × Bool → Bool
  | (pi, true) => (pattern.drop pi).all (· == WILDCARD_ANY)
  | (_, false) => false

/-- The name matches from here on, or from a later start behind the last star. -/
def Reaches (name : List UInt8) (s : FnmatchState pattern) : Prop :=
  TakesOwn (pattern.drop s.pi) (name.drop s.ni) ∨ ∃ t ∈ s.star, ∃ m, m <:+ name.drop (t.2 + 1) ∧
    TakesOwn (pattern.drop (t.1 + 1)) m

/-- Since the last star, byte after byte fitted. -/
def Walked (name : List UInt8) (s : FnmatchState pattern) : Prop :=
  ∀ t ∈ s.star, ∃ u v, List.Forall₂ Fits u v ∧ pattern.drop (t.1 + 1) = u ++ pattern.drop s.pi ∧
    name.drop t.2 = v ++ name.drop s.ni

theorem drop_of_getElem? {l : List UInt8} {i : ℕ} (h : l[i]? = some x) :
    l.drop i = x :: l.drop (i + 1) := by
  obtain ⟨hlt, rfl⟩ := List.getElem?_eq_some_iff.mp h
  exact List.drop_eq_getElem_cons hlt

/-- A suffix is the whole, or one of what follows the first byte. -/
theorem suffix_drop_iff {l : List UInt8} {i : ℕ} :
    m <:+ l.drop i ↔ m = l.drop i ∨ m <:+ l.drop (i + 1) := by
  rw [← List.tail_drop]
  cases l.drop i with
  | nil => exact ⟨.inr, fun h => h.elim (fun h => h ▸ List.suffix_rfl) id⟩
  | cons x l => exact List.suffix_cons_iff

theorem TakesOwn.behind_star (h : TakesOwn (WILDCARD_ANY :: p) n) :
    ∃ m, m <:+ n ∧ TakesOwn p m := by
  cases h with
  | byte hc _ _ => exact absurd rfl hc
  | own h => exact ⟨_, List.suffix_cons _ _, h⟩
  | star _ hm h => exact ⟨_, hm, h⟩

section

variable {s : FnmatchState pattern}

theorem Reaches.suffix (h : Reaches name s) (hs : Walked name s) :
    ∃ m, m <:+ name.drop s.ni ∧ TakesOwn (pattern.drop s.pi) m := by
  rcases h with h | ⟨t, ht, m, hm, h⟩
  · exact ⟨_, List.suffix_rfl, h⟩
  · obtain ⟨u, v, hfits, hp, hn⟩ := hs t ht
    rw [hp] at h
    refine caught_up hfits ?_ h
    rw [← hn]
    exact suffix_drop_iff.mpr (.inr hm)

/-- A byte that fits takes the walk on. -/
theorem Walked.fits {s' : FnmatchState pattern} (hs : Walked name s) {q : UInt8}
    (hq : pattern[s.pi]? = some q) (hn : name[s.ni]? = some c) (hfits : Fits q c)
    (hpi : s'.pi = s.pi + 1) (hni : s'.ni = s.ni + 1) (hstar : s'.star = s.star) :
    Walked name s' := by
  intro t ht
  rw [hstar] at ht
  obtain ⟨u, v, huv, hp, hv⟩ := hs t ht
  refine ⟨u ++ [q], v ++ [c], List.rel_append huv (.cons hfits .nil), ?_, ?_⟩
  · rw [hp, hpi, drop_of_getElem? hq, List.append_assoc]
    rfl
  · rw [hv, hni, drop_of_getElem? hn, List.append_assoc]
    rfl

/-- Where the byte of the name does not fit, nothing matches from here on. -/
theorem not_takesOwn_here (hn : name[s.ni]? = some c)
    (hp : pattern[s.pi]?.filter (fun p => p == WILDCARD_ONE || p == c) = none)
    (hnot : ¬ pattern[s.pi]? = some WILDCARD_ANY) :
    ¬ TakesOwn (pattern.drop s.pi) (name.drop s.ni) := by
  rw [drop_of_getElem? hn]
  cases hq : pattern[s.pi]? with
  | none =>
    rw [List.drop_eq_nil_of_le (List.getElem?_eq_none_iff.mp hq)]
    exact fun h => (nomatch h)
  | some q =>
    rw [hq, Option.filter_eq_none_iff] at hp
    rw [drop_of_getElem? hq]
    refine not_takesOwn (fun hfits => hp q rfl ?_) fun hany => hnot (by rw [hq, hany])
    rcases hfits with rfl | rfl <;> simp

end

theorem fnmatchLoop_iff (s : FnmatchState pattern) (hs : Walked name s) :
    tells pattern (fnmatchLoop pattern name s) = true ↔ Reaches name s := by
  fun_induction fnmatchLoop pattern name s with
  | case1 s hn =>
    have hnil : name.drop s.ni = [] := List.drop_eq_nil_of_le (List.getElem?_eq_none_iff.mp hn)
    rw [tells, ← takesOwn_nil_iff]
    constructor
    · exact fun h => .inl (hnil ▸ h)
    · intro h
      obtain ⟨m, hm, h⟩ := h.suffix hs
      rw [hnil, List.suffix_nil] at hm
      rwa [hm] at h
  | case2 s c hn q hp ih =>
    obtain ⟨hq, hfits⟩ := Option.filter_eq_some_iff.mp hp
    have hfits : Fits q c := by simpa [Fits] using hfits
    rw [ih (hs.fits hq hn hfits rfl rfl rfl), Reaches, Reaches, drop_of_getElem? hq,
      drop_of_getElem? hn, takesOwn_cons_of_fits hfits]
  | case3 s c hn hp hstar ih =>
    have hne : c ≠ WILDCARD_ANY := by
      rintro rfl
      rw [hstar] at hp
      cases hp
    have hhere : TakesOwn (pattern.drop s.pi) (name.drop s.ni) ↔
        ∃ m, m <:+ name.drop s.ni ∧ TakesOwn (pattern.drop (s.pi + 1)) m := by
      rw [drop_of_getElem? hstar, drop_of_getElem? hn]
      exact takesOwn_star hne
    have hwalked : Walked name ⟨s.pi + 1, s.ni, some (s.pi, s.ni), by
        rintro _ ⟨⟩
        exact ⟨Nat.lt_succ_self _, (List.getElem?_eq_some_iff.mp hstar).1, le_rfl⟩⟩ := by
      rintro _ ⟨⟩
      exact ⟨[], [], .nil, rfl, rfl⟩
    rw [ih hwalked]
    constructor
    · intro h
      exact .inl (hhere.mpr (h.suffix hwalked))
    · intro h
      obtain ⟨m, hm, h⟩ := h.suffix hs
      rw [drop_of_getElem? hstar] at h
      obtain ⟨k, hk, h⟩ := h.behind_star
      rcases suffix_drop_iff.mp (hk.trans hm) with rfl | hk
      · exact .inl h
      · exact .inr ⟨_, rfl, k, hk, h⟩
  | case4 s c hn hp hnot starPi starNi hstar ih =>
    rw [ih fun t ht => by
      cases ht
      exact ⟨[], [], .nil, rfl, rfl⟩]
    constructor
    · rintro (h | ⟨_, ⟨⟩, m, hm, h⟩)
      · exact .inr ⟨_, hstar, _, List.suffix_rfl, h⟩
      · exact .inr ⟨_, hstar, m, suffix_drop_iff.mpr (.inr hm), h⟩
    · rintro (h | ⟨t, ht, m, hm, h⟩)
      · exact absurd h (not_takesOwn_here hn hp hnot)
      · obtain rfl := Option.some.inj (hstar.symm.trans ht)
        rcases suffix_drop_iff.mp hm with rfl | hm
        · exact .inl h
        · exact .inr ⟨_, rfl, m, hm, h⟩
  | case5 s c hn hp hnot hstar =>
    refine ⟨fun h => (nomatch h), ?_⟩
    rintro (h | ⟨t, ht, -⟩)
    · exact absurd h (not_takesOwn_here hn hp hnot)
    · rw [hstar] at ht
      cases ht

/-- What `fnmatch` tells. -/
theorem fnmatch_iff (pattern name : List UInt8) :
    fnmatch pattern name = true ↔ TakesOwn pattern name := by
  have hloop : tells pattern (fnmatchLoop pattern name {}) = true ↔
      Reaches name ({} : FnmatchState pattern) := fnmatchLoop_iff _ fun _ h => (nomatch h)
  have htells : fnmatch pattern name = tells pattern (fnmatchLoop pattern name {}) := by
    unfold fnmatch tells
    rcases fnmatchLoop pattern name {} with ⟨_, _ | _⟩ <;> rfl
  rw [htells, hloop]
  constructor
  · rintro (h | ⟨t, ht, -⟩)
    · exact h
    · cases ht
  · exact .inl

/-! ### Partitions -/

/-- Some name of the one side and some name of the other are related, in either direction. -/
def SomePair (r : List UInt8 → List UInt8 → Prop) (offered requested : List (List UInt8)) : Prop :=
  ∃ pn ∈ partitionsOrDefault offered, ∃ sn ∈ partitionsOrDefault requested, r pn sn ∨ r sn pn

theorem SomePair.mono {r r' : List UInt8 → List UInt8 → Prop}
    {offered requested : List (List UInt8)} (h : SomePair r offered requested)
    (hr : ∀ p n, r p n → r' p n) : SomePair r' offered requested := by
  obtain ⟨pn, hpn, sn, hsn, h⟩ := h
  exact ⟨pn, hpn, sn, hsn, h.imp (hr _ _) (hr _ _)⟩

theorem SomePair.symm {r : List UInt8 → List UInt8 → Prop} {offered requested : List (List UInt8)}
    (h : SomePair r offered requested) : SomePair r requested offered := by
  obtain ⟨pn, hpn, sn, hsn, h⟩ := h
  exact ⟨sn, hsn, pn, hpn, h.symm⟩

theorem requirePolicy_iff {policy : IncompatiblePolicy} {ok : Bool} :
    requirePolicy policy ok = .compatible ↔ ok = true := by
  cases ok <;> simp [requirePolicy]

theorem checkPartition_iff (offered requested : List (List UInt8)) :
    checkPartition offered requested = .compatible ↔ SomePair TakesOwn offered requested := by
  have hpair : (partitionsOrDefault offered).any (fun pn =>
      (partitionsOrDefault requested).any (partitionNamesMatch pn)) = true ↔
        SomePair TakesOwn offered requested := by
    simp only [List.any_eq_true, partitionNamesMatch, Bool.or_eq_true, fnmatch_iff, SomePair]
  rw [← hpair, checkPartition, requirePolicy_iff]

theorem checkPartition_symm (offered requested : List (List UInt8)) :
    checkPartition offered requested = checkPartition requested offered := by
  have hiff : checkPartition offered requested = .compatible ↔
      checkPartition requested offered = .compatible := by
    rw [checkPartition_iff, checkPartition_iff]
    exact ⟨SomePair.symm, SomePair.symm⟩
  unfold checkPartition at hiff ⊢
  rw [requirePolicy_iff, requirePolicy_iff] at hiff
  rw [Bool.eq_iff_iff.mpr hiff]

/-- **When the matchers tell the words of their patterns**: LIKE always does, `fnmatch` when a name
that matches does so with each star before a `*` taking just that, and partitions when, of the names
that match, some do so in that way. -/
theorem patterns_tell_words (likePattern value pattern name : List UInt8)
    (offered requested : List (List UInt8)) :
    ((matchLike likePattern value = true ↔ value ∈ Wild.words (likePattern.map likeWild)) ∧
      (fnmatch pattern name = true ↔ name ∈ names pattern) ∧
      checkPartition offered requested = checkPartition requested offered ∧
      (checkPartition offered requested = .compatible ↔
        SomePair (fun p n => n ∈ names p) offered requested)) ↔
    ((name ∈ names pattern → TakesOwn pattern name) ∧
      (SomePair (fun p n => n ∈ names p) offered requested →
        SomePair TakesOwn offered requested)) := by
  rw [fnmatch_iff, checkPartition_iff]
  constructor
  · rintro ⟨-, hname, -, hpartition⟩
    exact ⟨hname.mpr, hpartition.mpr⟩
  · rintro ⟨hname, hpartition⟩
    exact ⟨matchLike_iff likePattern value, ⟨TakesOwn.names, hname⟩,
      checkPartition_symm offered requested, fun h => h.mono fun _ _ => TakesOwn.names, hpartition⟩

/-- `*` against `*a`. -/
theorem star_before_star_missed :
    [WILDCARD_ANY, 97] ∈ names [WILDCARD_ANY] ∧
    fnmatch [WILDCARD_ANY] [WILDCARD_ANY, 97] = false ∧
    SomePair (fun p n => n ∈ names p) [[WILDCARD_ANY]] [[WILDCARD_ANY, 97]] ∧
    checkPartition [[WILDCARD_ANY]] [[WILDCARD_ANY, 97]] ≠ .compatible := by
  have hword : [WILDCARD_ANY, 97] ∈ names [WILDCARD_ANY] :=
    names_star.mpr ⟨[], List.nil_suffix, rfl⟩
  have hforth : ¬ TakesOwn [WILDCARD_ANY] [WILDCARD_ANY, 97] := by
    intro h
    rw [takesOwn_cons_of_fits (.inr rfl)] at h
    cases h
  have hback : ¬ TakesOwn [WILDCARD_ANY, 97] [WILDCARD_ANY] := by
    intro h
    rw [takesOwn_cons_of_fits (.inr rfl)] at h
    cases h
  refine ⟨hword, ?_, ⟨_, List.mem_singleton_self _, _, List.mem_singleton_self _, .inl hword⟩, ?_⟩
  · rw [← Bool.not_eq_true, fnmatch_iff]
    exact hforth
  · rw [Ne, checkPartition_iff]
    rintro ⟨pn, hpn, sn, hsn, h⟩
    rw [List.mem_singleton.mp hpn, List.mem_singleton.mp hsn] at h
    exact h.elim hforth hback

end Zzdds.Discovery
