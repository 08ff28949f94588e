import Mathlib.Data.Set.Card

/-! # Counters beside the sets they count

A program keeps how many elements have a property, and adjusts that number when an element gains the
property or loses it. -/

namespace Zzdds.Lib

universe u

variable {α : Type u} {p p' : α → Prop} {k k' : ℕ}

/-- Exactly `k` elements have the property. -/
def Counted (p : α → Prop) (k : ℕ) : Prop := {a | p a}.encard = k

namespace Counted

theorem congr (h : Counted p k) (hp : ∀ a, p' a ↔ p a) : Counted p' k := by
  have hset : {a | p' a} = {a | p a} := Set.ext hp
  rw [Counted, hset]
  exact h

theorem of_false (hp : ∀ a, ¬ p a) : Counted p 0 := by
  have hset : {a | p a} = ∅ := Set.eq_empty_iff_forall_notMem.mpr hp
  rw [Counted, hset, Set.encard_empty]
  rfl

theorem not_of_zero (h : Counted p 0) (a : α) : ¬ p a :=
  Set.eq_empty_iff_forall_notMem.mp (Set.encard_eq_zero.mp h) a

theorem pos (h : Counted p k) {a : α} (ha : p a) : 0 < k := by
  rcases Nat.eq_zero_or_pos k with rfl | hk
  · exact absurd ha (h.not_of_zero a)
  · exact hk

theorem insert (h : Counted p k) {a : α} (ha : ¬ p a) (hp : ∀ b, p' b ↔ b = a ∨ p b) :
    Counted p' (k + 1) := by
  have hset : {b | p' b} = Insert.insert a {b | p b} := Set.ext hp
  have hcard : (Insert.insert a {b | p b}).encard = {b | p b}.encard + 1 :=
    Set.encard_insert_of_notMem ha
  rw [Counted, hset, hcard, show {b | p b}.encard = (k : ℕ∞) from h, Nat.cast_add, Nat.cast_one]

theorem erase (h : Counted p (k + 1)) {a : α} (ha : p a) (hp : ∀ b, p' b ↔ b ≠ a ∧ p b) :
    Counted p' k := by
  have hset : {b | p' b} = {b | p b} \ {a} :=
    Set.ext fun b => (hp b).trans and_comm
  have hcard : ({b | p b} \ {a}).encard + 1 = {b | p b}.encard :=
    Set.encard_sdiff_singleton_add_one ha
  rw [Counted, hset]
  rw [show {b | p b}.encard = ((k + 1 : ℕ) : ℕ∞) from h, Nat.cast_add, Nat.cast_one] at hcard
  exact WithTop.add_right_cancel WithTop.one_ne_top hcard

/-- One element may gain the property or lose it. -/
theorem change (h : Counted p k) (a : α) [Decidable (p a)] [Decidable (p' a)]
    (hp : ∀ b, b ≠ a → (p' b ↔ p b))
    (hk : k' + (if p a then 1 else 0) = k + (if p' a then 1 else 0)) : Counted p' k' := by
  by_cases ha : p a <;> by_cases ha' : p' a
  · rw [if_pos ha, if_pos ha'] at hk
    rw [Nat.add_right_cancel hk]
    refine h.congr fun b => ?_
    by_cases hb : b = a
    · rw [hb]
      exact iff_of_true ha' ha
    · exact hp b hb
  · rw [if_pos ha, if_neg ha'] at hk
    refine erase (a := a) (hk ▸ h : Counted p (k' + 1)) ha fun b => ?_
    by_cases hb : b = a
    · rw [hb]
      exact iff_of_false ha' fun h => h.1 rfl
    · exact (hp b hb).trans (and_iff_right hb).symm
  · rw [if_neg ha, if_pos ha'] at hk
    rw [show k' = k + 1 from hk]
    refine h.insert ha fun b => ?_
    by_cases hb : b = a
    · rw [hb]
      exact iff_of_true ha' (Or.inl rfl)
    · exact (hp b hb).trans (or_iff_right hb).symm
  · rw [if_neg ha, if_neg ha'] at hk
    rw [show k' = k from hk]
    refine h.congr fun b => ?_
    by_cases hb : b = a
    · rw [hb]
      exact iff_of_false ha' ha
    · exact hp b hb

/-- The elements of a list lose the property. -/
theorem removeAll {l : List α} (hl : l.Nodup) : ∀ {k : ℕ} {p p' : α → Prop}, Counted p k →
    (∀ a ∈ l, p a) → (∀ b, p' b ↔ b ∉ l ∧ p b) → Counted p' (k - l.length) := by
  induction l with
  | nil =>
    intro k p p' h _ hp
    exact h.congr fun b => (hp b).trans (and_iff_right List.not_mem_nil)
  | cons a l ih =>
    intro k p p' h hmem hp
    obtain ⟨ha, hl⟩ := List.nodup_cons.mp hl
    obtain ⟨k, rfl⟩ := Nat.exists_eq_succ_of_ne_zero (h.pos (hmem a List.mem_cons_self)).ne'
    have herase : Counted (fun b => b ≠ a ∧ p b) k :=
      h.erase (hmem a List.mem_cons_self) fun _ => Iff.rfl
    rw [List.length_cons, Nat.succ_sub_succ]
    refine ih hl herase (fun b hb => ⟨fun e => ha (e ▸ hb), hmem b (List.mem_cons_of_mem _ hb)⟩)
      fun b => ?_
    rw [hp, List.mem_cons, not_or]
    tauto

end Counted

end Zzdds.Lib
