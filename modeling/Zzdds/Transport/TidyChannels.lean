import Zzdds.Transport.ChannelTable

/-! # Channel tables with a free list of their unused slots

What `insert` and `close` keep of a table, whatever else is in it: the free list is of the slots
without an item.  A channel inserted and closed at once leaves every other as it was. -/

namespace Zzdds.Transport

open Lib Trapping

variable {α : Type}

namespace ChannelTable

/-- The slot after one on the free list. -/
def nextFree (t : ChannelTable α) (i : ℕ) : Option ℕ := t.slots[i]?.bind (·.nextFree)

/-- A slot without an item. -/
def Unused (t : ChannelTable α) (i : ℕ) : Prop := ∃ sl, t.slots[i]? = some sl ∧ sl.item = none

def Tidy (t : ChannelTable α) : Prop := FreeList t.nextFree t.freeHead t.Unused

theorem tidy_empty : Tidy ({} : ChannelTable α) := by
  refine .nil fun j => ?_
  rintro ⟨sl, h, -⟩
  cases h

variable {t t' : ChannelTable α} {item : α} {i : ℕ} {sl sl' : Slot α} {c : Channel}

theorem getElem?_set_slot (hi : t.slots[i]? = some sl) (sl' : Slot α) (j : ℕ) :
    (t.slots.set i sl')[j]? = if j = i then some sl' else t.slots[j]? :=
  ChannelUsers.getElem?_set t.slots hi j

theorem put_eq_some {g : Option Channel} (h : t.put i item = some (t', g)) :
    ∃ sl, t.slots[i]? = some sl ∧ g = some ⟨i + 1, sl.generation⟩ ∧ t'.live = t.live + 1 ∧
      t'.freeHead = sl.nextFree ∧ t'.slots = t.slots.set i
        { item := some item, generation := sl.generation, refs := 1, isOpen := true } := by
  obtain ⟨sl, hsl, h⟩ := Option.bind_eq_some_iff.mp h
  obtain ⟨live, hlive, h⟩ := Option.map_eq_some_iff.mp h
  cases h
  exact ⟨sl, hsl, rfl, (add_eq_some.mp hlive).2, rfl, rfl⟩

/-- The first slot of the free list is put to use. -/
theorem Tidy.put (ht : t.Tidy) (hhead : t.freeHead = some i) {g : Option Channel}
    (h : t.put i item = some (t', g)) : t'.Tidy := by
  obtain ⟨sl, hsl, -, -, hfree, hslots⟩ := put_eq_some h
  have hget (j : ℕ) := hslots ▸ getElem?_set_slot hsl
    { item := some item, generation := sl.generation, refs := 1, isOpen := true } j
  have hnext (j : ℕ) (hj : j ≠ i) : t'.nextFree j = t.nextFree j := by
    rw [nextFree, hget, if_neg hj, nextFree]
  have hunused (j : ℕ) : t'.Unused j ↔ t.Unused j ∧ j ≠ i := by
    unfold Unused
    rw [hget]
    split
    next hj =>
      refine iff_of_false ?_ fun h => h.2 hj
      rintro ⟨_, ⟨⟩, hnone⟩
      cases hnone
    next hj => exact (and_iff_left hj).symm
  unfold Tidy at ht
  rw [hhead] at ht
  have hpop := ht.pop hnext hunused
  rwa [nextFree, hsl, Option.bind_some, ← hfree] at hpop

theorem getElem?_extend (l : List (Slot α)) {j : ℕ} (hj : j ≠ l.length) :
    (l ++ [({} : Slot α)])[j]? = l[j]? := by
  rcases Nat.lt_or_gt_of_ne hj with hlt | hgt
  · exact List.getElem?_append_left hlt
  · rw [List.getElem?_eq_none (by rw [List.length_append, List.length_singleton]; omega),
      List.getElem?_eq_none hgt.le]

/-- A new slot, if it were on the free list. -/
theorem Tidy.extend (ht : t.Tidy) (hhead : t.freeHead = none) :
    Tidy { t with slots := t.slots ++ [({} : Slot α)], freeHead := some t.slots.length } := by
  have hget (j : ℕ) (hj : j ≠ t.slots.length) := getElem?_extend t.slots hj
  have hnew : (t.slots ++ [({} : Slot α)])[t.slots.length]? = some {} :=
    List.getElem?_concat_length
  refine FreeList.push ht ?_ ?_ (fun j hj => ?_) fun j => ?_
  · rintro ⟨sl, hsl, -⟩
    rw [List.getElem?_eq_none le_rfl] at hsl
    cases hsl
  · rw [nextFree, hnew, hhead]
    rfl
  · rw [nextFree, hget j hj, nextFree]
  · unfold Unused
    by_cases hj : j = t.slots.length
    · rw [hj, hnew]
      exact iff_of_true ⟨_, rfl, rfl⟩ (.inr rfl)
    · rw [hget j hj]
      exact (or_iff_left hj).symm

/-- What a table inserts, it puts into a slot that was unused. -/
theorem Tidy.insert_spec (ht : t.Tidy) {memory : Bool} {g : Option Channel}
    (h : t.insert memory item = some (t', g)) :
    t' = t ∧ g = none ∨ ∃ (t₀ : ChannelTable α) (i : ℕ), t₀.Tidy ∧ t₀.freeHead = some i ∧
      t₀.put i item = some (t', g) ∧ t₀.live = t.live ∧ (t.slots.length ≤ i → i < u32) ∧
      (∀ sl, t.slots[i]? = some sl → sl.item = none) ∧
      ∀ j, j ≠ i → t₀.slots[j]? = t.slots[j]? := by
  unfold ChannelTable.insert at h
  split at h
  next i hhead =>
    have hfree := ht
    unfold Tidy at hfree
    rw [hhead] at hfree
    obtain ⟨sl, hsl, hnone⟩ := hfree.head_unused
    refine .inr ⟨t, i, ht, hhead, h, rfl, fun hle => ?_, fun sl' hsl' => ?_, fun _ _ => rfl⟩
    · rw [List.getElem?_eq_none hle] at hsl
      cases hsl
    · cases hsl.symm.trans hsl'
      exact hnone
  next hhead =>
    split at h
    next =>
      obtain ⟨i, hi, h⟩ := Option.bind_eq_some_iff.mp h
      obtain ⟨hlt, rfl⟩ := narrow_eq_some.mp hi
      refine .inr ⟨_, _, ht.extend hhead, rfl, h, rfl, fun _ => hlt, fun sl hsl => ?_,
        fun j hj => getElem?_extend t.slots hj⟩
      rw [List.getElem?_eq_none le_rfl] at hsl
      cases hsl
    next =>
      cases h
      exact .inl ⟨rfl, rfl⟩

theorem Tidy.insert (ht : t.Tidy) {memory : Bool} {g : Option Channel}
    (h : t.insert memory item = some (t', g)) : t'.Tidy := by
  obtain ⟨rfl, -⟩ | ⟨t₀, i, ht₀, hhead, hput, -⟩ := ht.insert_spec h
  · exact ht
  · exact ht₀.put hhead hput

theorem indexLocked_eq_some (h : t.indexLocked c = some (some i)) :
    ∃ sl, i = c.token - 1 ∧ t.slots[i]? = some sl ∧ sl.item.isSome ∧
      sl.generation = c.generation := by
  unfold ChannelTable.indexLocked at h
  split at h
  next => cases h
  next =>
    obtain ⟨j, hj, h⟩ := Option.bind_eq_some_iff.mp h
    obtain ⟨-, rfl⟩ := narrow_eq_some.mp hj
    obtain ⟨sl, hsl, h⟩ := Option.map_eq_some_iff.mp h
    split at h
    next => cases h
    next hnot =>
      cases h
      rw [not_or, not_not, Option.isNone_iff_eq_none, ← ne_eq, Option.ne_none_iff_isSome] at hnot
      exact ⟨sl, rfl, hsl, hnot⟩

/-- A slot with an item is closed: it keeps the item, or goes to the free list. -/
theorem close_spec {freed : Option α} (h : t.close c = some (t', freed)) :
    ∃ i sl sl', i = c.token - 1 ∧ t.slots[i]? = some sl ∧ sl.item.isSome ∧
      t'.slots = t.slots.set i sl' ∧
      (1 < sl.refs ∧ sl'.item = sl.item ∧ t'.freeHead = t.freeHead ∧ sl'.nextFree = sl.nextFree ∨
      sl.refs = 1 ∧ sl'.item = none ∧ t'.freeHead = some i ∧ sl'.nextFree = t.freeHead ∧
        t'.live + 1 = t.live) := by
  unfold ChannelTable.close at h
  obtain ⟨index, hindex, hclose⟩ := Option.bind_eq_some_iff.mp h
  obtain ⟨i, hi, hopen⟩ := Option.bind_eq_some_iff.mp hclose
  rw [hi] at hindex
  clear h hclose hi
  obtain ⟨sl, hsl, h⟩ := Option.bind_eq_some_iff.mp hopen
  obtain ⟨_, htoken, hsl', hsome, -⟩ := indexLocked_eq_some hindex
  cases hsl.symm.trans hsl'
  split at h
  swap
  · cases h
  obtain ⟨hlt, -⟩ := List.getElem?_eq_some_iff.mp hsl
  obtain ⟨s, hs, h⟩ := Option.bind_eq_some_iff.mp h
  dsimp only at hs
  rw [List.getElem?_set_self hlt] at hs
  cases hs
  obtain ⟨refs, hrefs, h⟩ := Option.bind_eq_some_iff.mp h
  have hle : 1 ≤ sl.refs := by
    by_contra hlt
    rw [sub_eq_none.mpr (Nat.lt_of_not_le hlt)] at hrefs
    cases hrefs
  rw [sub_of_le hle] at hrefs
  cases hrefs
  dsimp only at h
  split at h
  next hpos =>
    cases h
    exact ⟨i, sl, _, htoken, hsl, hsome, List.set_set .., .inl ⟨by omega, rfl, rfl, rfl⟩⟩
  next hpos =>
    rw [if_neg Bool.false_ne_true] at h
    obtain ⟨item, hitem, h⟩ := Option.bind_eq_some_iff.mp h
    obtain ⟨live, hlive, h⟩ := Option.map_eq_some_iff.mp h
    cases h
    refine ⟨i, sl, _, htoken, hsl, hsome, List.set_set .., .inr ⟨by omega, rfl, rfl, rfl, ?_⟩⟩
    by_cases hlive' : 1 ≤ t.live
    · rw [sub_of_le hlive'] at hlive
      cases hlive
      exact Nat.sub_add_cancel hlive'
    · rw [sub_eq_none.mpr (Nat.lt_of_not_le hlive')] at hlive
      cases hlive

theorem Tidy.close (ht : t.Tidy) {freed : Option α} (h : t.close c = some (t', freed)) :
    t'.Tidy := by
  obtain ⟨i, sl, sl', -, hsl, hsome, hslots, hcases⟩ := close_spec h
  have hget (j : ℕ) := hslots ▸ getElem?_set_slot hsl sl' j
  have hnot : ¬ t.Unused i := by
    rintro ⟨sl', hsl', hnone⟩
    cases hsl.symm.trans hsl'
    rw [hnone] at hsome
    cases hsome
  have hnext (j : ℕ) (hj : j ≠ i) : t'.nextFree j = t.nextFree j := by
    rw [nextFree, hget, if_neg hj, nextFree]
  have hunused (j : ℕ) : t'.Unused j ↔ if j = i then sl'.item = none else t.Unused j := by
    unfold Unused
    rw [hget]
    split
    next => exact ⟨fun ⟨_, h, hnone⟩ => Option.some.inj h ▸ hnone, fun h => ⟨sl', rfl, h⟩⟩
    next => rfl
  unfold Tidy
  obtain ⟨-, hitem, hhead, -⟩ | ⟨-, hitem, hhead, hfree, -⟩ := hcases
  · rw [hhead]
    refine FreeList.congr ht (fun j hj => hnext j fun heq => hnot (heq ▸ hj)) fun j => ?_
    rw [hunused]
    split
    next hj =>
      refine iff_of_false (fun h => ?_) (hj ▸ hnot)
      rw [← hitem, h] at hsome
      cases hsome
    next => rfl
  · rw [hhead]
    refine FreeList.push ht hnot ?_ hnext fun j => ?_
    · rw [nextFree, hget, if_pos rfl]
      exact hfree
    · rw [hunused]
      split
      next hj => exact iff_of_true hitem (.inr hj)
      next hj => exact (or_iff_left hj).symm

/-- A slot that a channel does not reach. -/
def Slot.Misses (sl : Slot α) (c : Channel) : Prop :=
  sl.item = none ∨ sl.generation ≠ c.generation ∨ sl.isOpen = false

/-- A channel that reaches nothing. -/
theorem acquire_of_misses (h : c.token = 0 ∨ t.slots.length < c.token ∨
    c.token - 1 < u32 ∧ ∃ sl, t.slots[c.token - 1]? = some sl ∧ Slot.Misses sl c) :
    t.acquire c = some (t, none) := by
  unfold ChannelTable.acquire ChannelTable.indexLocked
  by_cases hrange : c.token = 0 ∨ t.slots.length < c.token
  · rw [if_pos hrange, Option.bind_some]
  · obtain ⟨hlt, sl, hsl, hmiss⟩ := (or_assoc.mpr h).resolve_left hrange
    rw [if_neg hrange, narrow_of_lt hlt, Option.bind_some, hsl, Option.map_some]
    by_cases hstale : sl.item.isNone ∨ sl.generation ≠ c.generation
    · rw [if_pos hstale, Option.bind_some]
    · have hclosed : sl.isOpen = false := by
        rw [Option.isNone_iff_eq_none] at hstale
        exact (or_assoc.mpr hmiss).resolve_left hstale
      rw [if_neg hstale, Option.bind_some]
      dsimp only
      rw [hsl, Option.bind_some, hclosed]
      rfl

/-- A channel that reaches an item. -/
theorem acquire_of_open {sl : Slot α} (hpos : c.token ≠ 0) (hlt : c.token - 1 < u32)
    (hsl : t.slots[c.token - 1]? = some sl) (hsome : sl.item.isSome)
    (hgen : sl.generation = c.generation) (hopen : sl.isOpen) :
    t.acquire c = (add u32 sl.refs 1).map fun refs =>
      ({ t with slots := t.slots.set (c.token - 1) { sl with refs := refs } }, sl.item) := by
  obtain ⟨hlen, -⟩ := List.getElem?_eq_some_iff.mp hsl
  unfold ChannelTable.acquire ChannelTable.indexLocked
  rw [if_neg (by omega), narrow_of_lt hlt, Option.bind_some, hsl, Option.map_some,
    if_neg, Option.bind_some]
  · dsimp only
    rw [hsl, Option.bind_some, hopen]
    rfl
  · rw [not_or, not_not, Option.isNone_iff_eq_none, ← ne_eq, Option.ne_none_iff_isSome]
    exact ⟨hsome, hgen⟩

theorem lt_of_acquire {r : ChannelTable α × Option α} (h : t.acquire c = some r)
    (hpos : c.token ≠ 0) (hlen : c.token - 1 < t.slots.length) : c.token - 1 < u32 := by
  by_contra hge
  unfold ChannelTable.acquire ChannelTable.indexLocked at h
  rw [if_neg (by omega), narrow, if_neg hge] at h
  cases h

/-- Tables that differ only in slots without an item reach the same. -/
theorem acquire_congr {t₂ : ChannelTable α} {got : Option α}
    (hrange : ∀ j, t.slots.length ≤ j → j < t₂.slots.length → j < u32)
    (hsame : ∀ j : ℕ, t₂.slots[j]? = t.slots[j]? ∨
      (∀ sl : Slot α, t.slots[j]? = some sl → sl.item = none) ∧
      ∀ sl : Slot α, t₂.slots[j]? = some sl → sl.item = none)
    (h : t.acquire c = some (t', got)) : ∃ t'', t₂.acquire c = some (t'', got) := by
  by_cases hopen : c.token ≠ 0 ∧ ∃ sl, t.slots[c.token - 1]? = some sl ∧ ¬ Slot.Misses sl c
  · obtain ⟨hpos, sl, hsl, hreached⟩ := hopen
    have hlt := lt_of_acquire h hpos (List.getElem?_eq_some_iff.mp hsl).1
    rw [Slot.Misses, not_or, not_or, ← ne_eq, Option.ne_none_iff_isSome, not_not,
      Bool.not_eq_false] at hreached
    obtain ⟨hsome, hgen, hisOpen⟩ := hreached
    have hsl₂ : t₂.slots[c.token - 1]? = some sl := by
      rcases hsame (c.token - 1) with heq | ⟨hnone, -⟩
      · rw [heq, hsl]
      · rw [hnone sl hsl] at hsome
        cases hsome
    rw [acquire_of_open hpos hlt hsl hsome hgen hisOpen] at h
    rw [acquire_of_open hpos hlt hsl₂ hsome hgen hisOpen]
    obtain ⟨refs, hrefs, h⟩ := Option.map_eq_some_iff.mp h
    cases h
    exact ⟨_, by rw [hrefs, Option.map_some]⟩
  · have misses {sl : Slot α} (hpos : c.token ≠ 0) (hsl : t.slots[c.token - 1]? = some sl) :
        Slot.Misses sl c := by
      by_contra hnot
      exact hopen ⟨hpos, sl, hsl, hnot⟩
    have hnone : got = none := by
      rw [acquire_of_misses] at h
      · cases h
        rfl
      by_cases hpos : c.token = 0
      · exact .inl hpos
      · by_cases hlen : c.token - 1 < t.slots.length
        · exact .inr (.inr ⟨lt_of_acquire h hpos hlen, _, List.getElem?_eq_getElem hlen,
            misses hpos (List.getElem?_eq_getElem hlen)⟩)
        · exact .inr (.inl (by omega))
    rw [hnone]
    refine ⟨t₂, acquire_of_misses ?_⟩
    by_cases hpos : c.token = 0
    · exact .inl hpos
    by_cases hlen : c.token - 1 < t₂.slots.length
    · have hsl₂ := List.getElem?_eq_getElem hlen
      refine .inr (.inr ⟨?_, _, hsl₂, ?_⟩)
      · by_cases hlen' : c.token - 1 < t.slots.length
        · exact lt_of_acquire h hpos hlen'
        · exact hrange _ (Nat.le_of_not_lt hlen') hlen
      · rcases hsame (c.token - 1) with heq | ⟨-, hitem⟩
        · exact misses hpos (heq.symm.trans hsl₂)
        · exact .inl (hitem _ hsl₂)
    · exact .inr (.inl (by omega))

/-- An item inserted and at once closed. -/
theorem Tidy.insert_close (ht : t.Tidy) {memory : Bool} {t₁ t₂ : ChannelTable α}
    {freed : Option α} (h : t.insert memory item = some (t₁, some c))
    (hclose : t₁.close c = some (t₂, freed)) : t₂.live = t.live ∧
      ∀ c t' got, t.acquire c = some (t', got) → ∃ t'', t₂.acquire c = some (t'', got) := by
  obtain ⟨-, hnone⟩ | ⟨t₀, i, -, -, hput, hlive, hlt, hunused, hold⟩ := ht.insert_spec h
  · cases hnone
  obtain ⟨sl₀, hsl₀, hc, hlive₁, -, hslots₁⟩ := put_eq_some hput
  cases hc
  obtain ⟨i', sl, sl', htoken, hsl, -, hslots₂, hcases⟩ := close_spec hclose
  have hi : i' = i := htoken
  subst hi
  have hget (j : ℕ) : t₂.slots[j]? = if j = i' then some sl' else t₀.slots[j]? := by
    rw [hslots₂, hslots₁, List.set_set, getElem?_set_slot hsl₀]
  rw [hslots₁, getElem?_set_slot hsl₀, if_pos rfl] at hsl
  cases hsl
  obtain ⟨hrefs, -⟩ | ⟨-, hitem, -, -, hlive₂⟩ := hcases
  · exact absurd hrefs (lt_irrefl 1)
  refine ⟨by omega, fun c t' got hacquire =>
    acquire_congr (fun j hle hj => ?_) (fun j => ?_) hacquire⟩
  · have hsl₂ := List.getElem?_eq_getElem hj
    by_cases hji : j = i'
    · exact hji ▸ hlt (hji ▸ hle)
    · rw [hget, if_neg hji, hold j hji, List.getElem?_eq_none hle] at hsl₂
      cases hsl₂
  · rw [hget]
    split
    next hj =>
      refine .inr ⟨hj ▸ hunused, ?_⟩
      rintro _ ⟨⟩
      exact hitem
    next hj => exact .inl (hold j hj)

end ChannelTable

/-- A table whose free list is of its unused slots. -/
structure TidyTable (α : Type) extends ChannelTable α where
  tidy : toChannelTable.Tidy

namespace TidyTable

variable {t t' : TidyTable α}

def empty : TidyTable α := ⟨{}, ChannelTable.tidy_empty⟩

def insert (t : TidyTable α) (memory : Bool) (item : α) : Option (TidyTable α × Option Channel) :=
  match h : t.toChannelTable.insert memory item with
  | none => none
  | some (t', c) => some (⟨t', t.tidy.insert h⟩, c)

def close (t : TidyTable α) (c : Channel) : Option (TidyTable α × Option α) :=
  match h : t.toChannelTable.close c with
  | none => none
  | some (t', freed) => some (⟨t', t.tidy.close h⟩, freed)

theorem of_insert {memory : Bool} {item : α} {c : Option Channel}
    (h : t.insert memory item = some (t', c)) :
    t.toChannelTable.insert memory item = some (t'.toChannelTable, c) := by
  unfold insert at h
  split at h
  next => cases h
  next heq =>
    cases h
    exact heq

theorem of_close {c : Channel} {freed : Option α} (h : t.close c = some (t', freed)) :
    t.toChannelTable.close c = some (t'.toChannelTable, freed) := by
  unfold close at h
  split at h
  next => cases h
  next heq =>
    cases h
    exact heq

/-- A table reaches what another did, and has as many items. -/
structure Agrees (t t' : TidyTable α) : Prop where
  live : t'.live = t.live
  reach : ∀ c t₁ got, t.acquire c = some (t₁, got) → ∃ t₂, t'.acquire c = some (t₂, got)

theorem Agrees.refl (t : TidyTable α) : t.Agrees t := ⟨rfl, fun _ t₁ _ h => ⟨t₁, h⟩⟩

theorem Agrees.trans {t'' : TidyTable α} (h : t.Agrees t') (h' : t'.Agrees t'') : t.Agrees t'' where
  live := h'.live.trans h.live
  reach c t₁ got hgot := by
    obtain ⟨t₂, hgot₂⟩ := h.reach c t₁ got hgot
    exact h'.reach c t₂ got hgot₂

theorem agrees_of_insert_close {t₁ : TidyTable α} {memory : Bool} {item : α} {c : Channel}
    {freed : Option α} (h : t.insert memory item = some (t₁, some c))
    (hclose : t₁.close c = some (t', freed)) : t.Agrees t' := by
  obtain ⟨hlive, hreach⟩ := t.tidy.insert_close (of_insert h) (of_close hclose)
  exact ⟨hlive, hreach⟩

end TidyTable

end Zzdds.Transport
