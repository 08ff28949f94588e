import Mathlib.Data.List.Nodup

/-! # A free list threaded through cells

Cells known by their number, the unused ones in a list that is kept in the cells themselves: each
names the next.  `FreeList next head unused` says that the list from `head` on is of the unused
cells, each there once. -/

namespace Zzdds.Lib

variable {next next' : ℕ → Option ℕ} {head : Option ℕ} {l l' : List ℕ} {unused unused' : ℕ → Prop}
  {i : ℕ}

/-- The cells from `head` on. -/
inductive Threaded (next : ℕ → Option ℕ) : Option ℕ → List ℕ → Prop
  | nil : Threaded next none []
  | cons {i : ℕ} {l : List ℕ} (h : Threaded next (next i) l) : Threaded next (some i) (i :: l)

theorem Threaded.congr (h : Threaded next head l) (hnext : ∀ j ∈ l, next' j = next j) :
    Threaded next' head l := by
  induction h with
  | nil => exact .nil
  | @cons j l _ ih =>
    have hrest := ih fun k hk => hnext k (List.mem_cons_of_mem j hk)
    rw [← hnext j List.mem_cons_self] at hrest
    exact .cons hrest

def FreeList (next : ℕ → Option ℕ) (head : Option ℕ) (unused : ℕ → Prop) : Prop :=
  ∃ l, Threaded next head l ∧ l.Nodup ∧ ∀ j, j ∈ l ↔ unused j

namespace FreeList

theorem congr (h : FreeList next head unused) (hnext : ∀ j, unused j → next' j = next j)
    (hunused : ∀ j, unused' j ↔ unused j) : FreeList next' head unused' := by
  obtain ⟨l, hl, hnodup, hmem⟩ := h
  exact ⟨l, hl.congr fun j hj => hnext j ((hmem j).mp hj), hnodup,
    fun j => (hmem j).trans (hunused j).symm⟩

theorem nil (h : ∀ j, ¬ unused j) : FreeList next none unused :=
  ⟨[], .nil, List.nodup_nil, fun j => ⟨fun hj => (nomatch hj), fun hj => absurd hj (h j)⟩⟩

theorem not_unused (h : FreeList next none unused) (j : ℕ) : ¬ unused j := by
  obtain ⟨l, hl, -, hmem⟩ := h
  cases hl
  exact fun hj => nomatch (hmem j).mpr hj

theorem head_unused (h : FreeList next (some i) unused) : unused i := by
  obtain ⟨l, hl, -, hmem⟩ := h
  cases hl
  exact (hmem i).mp List.mem_cons_self

/-- The first cell is put to use. -/
theorem pop (h : FreeList next (some i) unused) (hnext : ∀ j, j ≠ i → next' j = next j)
    (hunused : ∀ j, unused' j ↔ unused j ∧ j ≠ i) : FreeList next' (next i) unused' := by
  obtain ⟨l, hl, hnodup, hmem⟩ := h
  cases hl with
  | @cons _ l hl =>
    obtain ⟨hi, hnodup⟩ := List.nodup_cons.mp hnodup
    have hne {j : ℕ} (hj : j ∈ l) : j ≠ i := fun heq => hi (heq ▸ hj)
    refine ⟨l, hl.congr fun j hj => hnext j (hne hj), hnodup, fun j => ?_⟩
    rw [hunused j, ← hmem j, List.mem_cons]
    exact ⟨fun hj => ⟨.inr hj, hne hj⟩, fun hj => hj.1.resolve_left hj.2⟩

/-- A cell is given back. -/
theorem push (h : FreeList next head unused) (hi : ¬ unused i) (hhead : next' i = head)
    (hnext : ∀ j, j ≠ i → next' j = next j) (hunused : ∀ j, unused' j ↔ unused j ∨ j = i) :
    FreeList next' (some i) unused' := by
  obtain ⟨l, hl, hnodup, hmem⟩ := h
  have hnot : i ∉ l := fun hmem' => hi ((hmem i).mp hmem')
  have hl' : Threaded next' (next' i) l := by
    rw [hhead]
    exact hl.congr fun j hj => hnext j fun heq => hnot (heq ▸ hj)
  refine ⟨i :: l, .cons hl', List.nodup_cons.mpr ⟨hnot, hnodup⟩, fun j => ?_⟩
  rw [hunused j, ← hmem j, List.mem_cons, or_comm]

end FreeList

end Zzdds.Lib
