/-! # Arrays that grow

What an allocator answers, and the capacity of an array that is to hold more. -/

namespace Zzdds.Lib

/-- What the allocator answers: whether a copy can be made, and the capacity that an array of at
least so many elements gets. -/
structure Memory where
  copies : Bool
  grows : Nat → Option Nat
  le_of_grows : ∀ {need got}, grows need = some got → need ≤ got

namespace Memory

variable {mem : Memory} {capacity need got : Nat}

/-- The capacity after room was made for `need` elements; none where there is no memory. -/
def ensure (mem : Memory) (capacity need : Nat) : Option Nat :=
  if need ≤ capacity then some capacity else mem.grows need

theorem le_of_ensure (h : mem.ensure capacity need = some got) : need ≤ got := by
  unfold ensure at h
  split at h
  next hle =>
    cases h
    exact hle
  next => exact mem.le_of_grows h

theorem ensure_of_le (h : need ≤ capacity) : mem.ensure capacity need = some capacity := if_pos h

theorem ensure_eq_none :
    mem.ensure capacity need = none ↔ capacity < need ∧ mem.grows need = none := by
  unfold ensure
  split
  next hle => exact iff_of_false (fun h => nomatch h) fun h => Nat.not_lt.2 hle h.1
  next hlt => exact ⟨fun h => ⟨Nat.not_le.1 hlt, h⟩, fun h => h.2⟩

/-- An allocator that never fails. -/
def ample : Memory := ⟨true, some, fun h => Nat.le_of_eq (Option.some.inj h)⟩

end Memory

end Zzdds.Lib
