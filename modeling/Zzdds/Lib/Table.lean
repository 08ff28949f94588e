import Mathlib.Data.List.AList

/-! # Hash maps

A hash map is an association list without repeated keys, Mathlib's `AList`; its order stands for
the order an iterator visits the entries in, which nothing here depends on. -/

namespace Zzdds.Lib

abbrev Table (κ ν : Type) := AList fun _ : κ => ν

namespace Table

variable {κ ν : Type} [DecidableEq κ]

/-- The values, in iteration order. -/
def values (t : Table κ ν) : List ν := t.entries.map Sigma.snd

theorem mem_values {t : Table κ ν} {v : ν} : v ∈ t.values ↔ ∃ k, t.lookup k = some v := by
  simp only [values, List.mem_map, Sigma.exists]
  constructor
  · rintro ⟨k, v', h, rfl⟩
    exact ⟨k, AList.mem_lookup_iff.mpr h⟩
  · rintro ⟨k, h⟩
    exact ⟨k, v, AList.mem_lookup_iff.mp h, rfl⟩

/-- The entries whose value satisfies `p`. -/
def filterValues (p : ν → Bool) (t : Table κ ν) : Table κ ν where
  entries := t.entries.filter fun e => p e.2
  nodupKeys := t.nodupKeys.sublist List.filter_sublist

/-- Change every value. -/
def mapValues (f : ν → ν) (t : Table κ ν) : Table κ ν where
  entries := t.entries.map (Sigma.map id fun _ => f)
  nodupKeys := t.nodupKeys.map₂ (fun _ => f) t.entries

/-- Change the value of a key, where it has one. -/
def update (k : κ) (f : ν → ν) (t : Table κ ν) : Table κ ν :=
  match t.lookup k with
  | none => t
  | some v => t.insert k (f v)

theorem lookup_insert_eq (t : Table κ ν) (k k' : κ) (v : ν) :
    (t.insert k v).lookup k' = if k' = k then some v else t.lookup k' := by
  split
  next h => rw [h, AList.lookup_insert]
  next h => exact AList.lookup_insert_ne h

theorem lookup_erase_eq (t : Table κ ν) (k k' : κ) :
    (t.erase k).lookup k' = if k' = k then none else t.lookup k' := by
  split
  next h => rw [h, AList.lookup_erase]
  next h => exact AList.lookup_erase_ne h

theorem lookup_update_eq (t : Table κ ν) (k k' : κ) (f : ν → ν) :
    (t.update k f).lookup k' = if k' = k then (t.lookup k).map f else t.lookup k' := by
  unfold update
  split
  next h =>
    split
    next e => rw [e, h, Option.map_none]
    next => rfl
  next v h => rw [lookup_insert_eq, h, Option.map_some]

theorem lookup_filterValues (p : ν → Bool) (t : Table κ ν) (k : κ) :
    (t.filterValues p).lookup k = (t.lookup k).filter p := by
  refine Option.ext fun v => ?_
  rw [Option.filter_eq_some_iff]
  show v ∈ (t.filterValues p).lookup k ↔ v ∈ t.lookup k ∧ _
  rw [AList.mem_lookup_iff, AList.mem_lookup_iff]
  exact List.mem_filter

theorem lookup_mapValues (f : ν → ν) (t : Table κ ν) (k : κ) :
    (t.mapValues f).lookup k = (t.lookup k).map f := List.dlookup_map₂ (f := fun _ => f) k

theorem values_mapValues (f : ν → ν) (t : Table κ ν) : (t.mapValues f).values = t.values.map f := by
  simp only [values, mapValues, List.map_map]
  rfl

theorem values_insert (t : Table κ ν) (k : κ) (v : ν) :
    values (t.insert k v) = v :: values (t.erase k) := rfl

theorem values_perm_erase {t : Table κ ν} {k : κ} {v : ν} (h : t.lookup k = some v) :
    t.values.Perm (v :: values (t.erase k)) := by
  have hmem := AList.mem_lookup_iff.mp h
  obtain ⟨v', l₁, l₂, -, hl, he⟩ := List.exists_of_kerase (List.mem_keys_of_mem hmem)
  have hv : v' = v := by
    have hv' : t.lookup k = some v' := AList.mem_lookup_iff.mpr
      (hl ▸ List.mem_append_right _ List.mem_cons_self)
    exact Option.some.inj (hv'.symm.trans h)
  subst hv
  show (t.entries.map Sigma.snd).Perm (v' :: (List.kerase k t.entries).map Sigma.snd)
  rw [he, hl, List.map_append, List.map_cons, List.map_append]
  exact List.perm_middle

theorem erase_insert (t : Table κ ν) (k : κ) (v : ν) : (t.insert k v).erase k = t.erase k :=
  AList.ext (List.kerase_cons_eq rfl)

theorem erase_of_lookup_none {t : Table κ ν} {k : κ} (h : t.lookup k = none) : t.erase k = t :=
  AList.ext (List.kerase_of_notMem_keys (AList.lookup_eq_none.mp h))

/-- What an entry counts for. -/
def weight (p : ν → Bool) (o : Option ν) : ℕ := if o.any p then 1 else 0

theorem countP_values_erase (t : Table κ ν) (k : κ) (p : ν → Bool) :
    (values (t.erase k)).countP p + weight p (t.lookup k) = t.values.countP p := by
  cases hk : t.lookup k with
  | none =>
    rw [erase_of_lookup_none hk]
    rfl
  | some v =>
    rw [(values_perm_erase hk).countP_eq, List.countP_cons]
    rfl

theorem countP_values_insert (t : Table κ ν) (k : κ) (v : ν) (p : ν → Bool) :
    (values (t.insert k v)).countP p + weight p (t.lookup k) =
      t.values.countP p + weight p (some v) := by
  have herase := countP_values_erase t k p
  have hnew : (v :: values (t.erase k)).countP p =
      (values (t.erase k)).countP p + weight p (some v) := List.countP_cons
  rw [values_insert, hnew]
  omega

end Table

end Zzdds.Lib
