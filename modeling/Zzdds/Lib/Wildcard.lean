import Mathlib.Computability.Language

/-! # Patterns with wildcards

A pattern is a sequence of elements, each of which stands for one symbol, for any one symbol, or for
any sequence of them; its language is the product of theirs. -/

namespace Zzdds.Lib

universe u

variable {α : Type u}

inductive Wild (α : Type u) where
  /-- Any sequence. -/
  | many
  /-- Any one symbol. -/
  | one
  | lit (a : α)

namespace Wild

def language : Wild α → Language α
  | many => Set.univ
  | one => {w | ∃ a, w = [a]}
  | lit a => {[a]}

/-- The words a pattern matches. -/
def words (p : List (Wild α)) : Language α := (p.map language).prod

variable {p : List (Wild α)} {w : List α} {a : α}

theorem mem_words_nil : w ∈ words ([] : List (Wild α)) ↔ w = [] := Iff.rfl

theorem mem_words_cons {x : Wild α} :
    w ∈ words (x :: p) ↔ ∃ v ∈ x.language, ∃ u ∈ words p, v ++ u = w := by
  rw [words, List.map_cons, List.prod_cons]
  exact Language.mem_mul

/-- A wildcard for a sequence may take any beginning, and leave any end. -/
theorem mem_words_many : w ∈ words (many :: p) ↔ ∃ u, u <:+ w ∧ u ∈ words p := by
  rw [mem_words_cons]
  constructor
  · rintro ⟨v, -, u, hu, rfl⟩
    exact ⟨u, List.suffix_append v u, hu⟩
  · rintro ⟨u, ⟨v, rfl⟩, hu⟩
    exact ⟨v, Set.mem_univ v, u, hu, rfl⟩

theorem cons_mem_words_one : a :: w ∈ words (one :: p) ↔ w ∈ words p := by
  rw [mem_words_cons]
  constructor
  · rintro ⟨_, ⟨b, rfl⟩, u, hu, he⟩
    rwa [← (List.cons.inj he).2]
  · exact fun h => ⟨[a], ⟨a, rfl⟩, w, h, rfl⟩

theorem cons_mem_words_lit {b : α} : a :: w ∈ words (lit b :: p) ↔ b = a ∧ w ∈ words p := by
  rw [mem_words_cons]
  constructor
  · rintro ⟨_, rfl, u, hu, he⟩
    obtain ⟨rfl, rfl⟩ := List.cons.inj he
    exact ⟨rfl, hu⟩
  · rintro ⟨rfl, h⟩
    exact ⟨[b], rfl, w, h, rfl⟩

/-- The empty word has no symbol for a wildcard of one, or for a symbol. -/
theorem nil_mem_words {x : Wild α} : [] ∈ words (x :: p) ↔ x = many ∧ [] ∈ words p := by
  rw [mem_words_cons]
  constructor
  · rintro ⟨v, hv, u, hu, he⟩
    obtain ⟨rfl, rfl⟩ := List.append_eq_nil_iff.mp he
    cases x with
    | many => exact ⟨rfl, hu⟩
    | one =>
      obtain ⟨b, hb⟩ := hv
      cases hb
    | lit b => cases hv
  · rintro ⟨rfl, h⟩
    exact ⟨[], Set.mem_univ _, [], h, rfl⟩

end Wild

end Zzdds.Lib
