import Zzdds.Lib.Wildcard

/-! # LIKE

`matchLike` of `filter.zig`, for the LIKE of a filter expression. -/

namespace Zzdds.Dcps

open Lib

def percent : UInt8 := 37

def underscore : UInt8 := 95

def matchLike : List UInt8 → List UInt8 → Bool
  | [], value => value.isEmpty
  | c :: pattern, value =>
      if c = percent then
        -- at the end of the pattern it matches the rest
        if pattern = [] then true else value.tails.any (matchLike pattern)
      else
        match value with
        | [] => false
        | x :: value => if c = underscore ∨ c = x then matchLike pattern value else false

/-- What a byte of a pattern stands for. -/
def likeWild (c : UInt8) : Wild UInt8 :=
  if c = percent then .many else if c = underscore then .one else .lit c

/-- LIKE tells the words of the pattern. -/
theorem matchLike_iff : ∀ pattern value : List UInt8,
    matchLike pattern value = true ↔ value ∈ Wild.words (pattern.map likeWild)
  | [], value => by
      rw [matchLike, List.isEmpty_iff]
      exact Wild.mem_words_nil.symm
  | c :: pattern, value => by
      rw [matchLike.eq_def, List.map_cons, likeWild]
      dsimp only
      by_cases hmany : c = percent
      · rw [if_pos hmany, if_pos hmany, Wild.mem_words_many]
        split
        next hend =>
          rw [hend]
          exact ⟨fun _ => ⟨[], List.nil_suffix, rfl⟩, fun _ => rfl⟩
        next =>
          rw [List.any_eq_true]
          refine exists_congr fun u => ?_
          rw [List.mem_tails, matchLike_iff pattern u]
      · rw [if_neg hmany, if_neg hmany]
        cases value with
        | nil =>
          refine ⟨fun h => (nomatch h), fun h => ?_⟩
          obtain ⟨hmany', -⟩ := Wild.nil_mem_words.mp h
          split at hmany' <;> cases hmany'
        | cons x value =>
          dsimp only
          by_cases hone : c = underscore
          · rw [if_pos hone, if_pos (.inl hone), Wild.cons_mem_words_one,
              matchLike_iff pattern value]
          · rw [if_neg hone, Wild.cons_mem_words_lit, ← matchLike_iff pattern value]
            by_cases heq : c = x
            · rw [if_pos (.inr heq)]
              exact ⟨fun h => ⟨heq, h⟩, fun h => h.2⟩
            · rw [if_neg (not_or.mpr ⟨hone, heq⟩)]
              exact ⟨fun h => (nomatch h), fun h => absurd h.1 heq⟩

end Zzdds.Dcps
