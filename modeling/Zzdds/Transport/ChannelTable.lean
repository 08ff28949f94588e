import Zzdds.Lib.FreeList
import Zzdds.Lib.Run
import Zzdds.Lib.Trapping

/-! # Channels

`ChannelTable` of `channel_table.zig`: slots that give sockets and connections their channel.  Each
operation is one critical section of the table's lock; none is where the program stops, at a failed
assertion or an overflow.  Memory may be missing for a new slot. -/

namespace Zzdds.Transport

open Lib Trapping

variable {α : Type}

/-! ### The table -/

structure Channel where
  token : ℕ
  generation : ℕ
deriving DecidableEq, Repr

structure Slot (α : Type) where
  item : Option α := none
  generation : ℕ := 1
  refs : ℕ := 0
  isOpen : Bool := false
  nextFree : Option ℕ := none
deriving DecidableEq, Repr

structure ChannelTable (α : Type) where
  slots : List (Slot α) := []
  freeHead : Option ℕ := none
  live : ℕ := 0
deriving DecidableEq, Repr

/-- The generation after one, which is never 0. -/
def nextGeneration (generation : ℕ) : ℕ :=
  let g := (generation + 1) % u32
  if g = 0 then 1 else g

namespace ChannelTable

variable (t : ChannelTable α)

/-- An item in a slot, with the owner's reference. -/
def put (index : ℕ) (item : α) : Option (ChannelTable α × Option Channel) :=
  t.slots[index]?.bind fun s => (add usize t.live 1).map fun live =>
    ({ slots := t.slots.set index
        { item := some item, generation := s.generation, refs := 1, isOpen := true }
       freeHead := s.nextFree
       live := live }, some ⟨index + 1, s.generation⟩)

/-- The channel of a new item, none where there is no memory for a slot. -/
def insert (memory : Bool) (item : α) : Option (ChannelTable α × Option Channel) :=
  match t.freeHead with
  | some index => t.put index item
  | none =>
    if memory then (narrow u32 t.slots.length).bind fun index =>
      { t with slots := t.slots ++ [({} : Slot α)] }.put index item
    else some (t, none)

def indexLocked (c : Channel) : Option (Option ℕ) :=
  if c.token = 0 ∨ t.slots.length < c.token then some none
  else (narrow u32 (c.token - 1)).bind fun index => t.slots[index]?.map fun s =>
    if s.item.isNone ∨ s.generation ≠ c.generation then none else some index

/-- The item of a channel, with a reference. -/
def acquire (c : Channel) : Option (ChannelTable α × Option α) :=
  (t.indexLocked c).bind fun
    | none => some (t, none)
    | some index => t.slots[index]?.bind fun s =>
      if !s.isOpen then some (t, none)
      else (add u32 s.refs 1).map fun refs =>
        ({ t with slots := t.slots.set index { s with refs := refs } }, s.item)

/-- Drop a reference; the last one gives the item back. -/
def unrefLocked (index : ℕ) : Option (ChannelTable α × Option α) :=
  t.slots[index]?.bind fun s => (sub s.refs 1).bind fun refs =>
    if 0 < refs then some ({ t with slots := t.slots.set index { s with refs := refs } }, none)
    else if s.isOpen then none
    else s.item.bind fun item => (sub t.live 1).map fun live =>
      ({ slots := t.slots.set index
          { generation := nextGeneration s.generation, nextFree := t.freeHead }
         freeHead := some index
         live := live }, some item)

def release (c : Channel) : Option (ChannelTable α × Option α) :=
  (t.indexLocked c).bind fun index => index.bind t.unrefLocked

def close (c : Channel) : Option (ChannelTable α × Option α) :=
  (t.indexLocked c).bind fun index => index.bind fun index => t.slots[index]?.bind fun s =>
    if s.isOpen then
      { t with slots := t.slots.set index { s with isOpen := false } }.unrefLocked index
    else none

end ChannelTable

/-! ### Its users -/

/-- An item inserted, and how often it was given back. -/
structure Inserted (α : Type) where
  channel : Channel
  item : α
  closed : Bool := false
  handed : ℕ := 0
deriving DecidableEq, Repr

/-- A table with everything inserted, and the channels of the references acquired and not
released. -/
structure ChannelUsers (α : Type) where
  table : ChannelTable α := {}
  inserted : List (Inserted α) := []
  borrowed : List Channel := []
deriving DecidableEq, Repr

inductive ChannelAction (α : Type) where
  | insert (item : α) (memory : Bool)
  | acquire (c : Channel)
  | release (c : Channel)
  | close (c : Channel)

namespace ChannelUsers

variable (s : ChannelUsers α)

/-- An operation on what a channel names. -/
def change (c : Channel) (f : Inserted α → Inserted α) : List (Inserted α) :=
  s.inserted.map fun e => if e.channel = c then f e else e

/-- The item of a channel was given back, or not. -/
def handBack (item : Option α) (e : Inserted α) : Inserted α :=
  { e with handed := e.handed + if item.isSome then 1 else 0 }

/-- Each release is of an acquire that succeeded, and each close of an insert. -/
def step : ChannelAction α → Option (ChannelUsers α)
  | .insert item memory => (s.table.insert memory item).map fun (table, c) =>
      { s with
        table := table
        inserted := s.inserted ++ (c.map fun c => ⟨c, item, false, 0⟩).toList }
  | .acquire c => (s.table.acquire c).map fun (table, item) =>
      { s with table := table, borrowed := s.borrowed ++ (item.map fun _ => c).toList }
  | .release c =>
    if c ∈ s.borrowed then (s.table.release c).map fun (table, item) =>
      { table := table, inserted := s.change c (handBack item), borrowed := s.borrowed.erase c }
    else none
  | .close c =>
    if s.inserted.any fun e => e.channel = c ∧ e.closed = false then
      (s.table.close c).map fun (table, item) =>
        { s with
          table := table
          inserted := s.change c fun e => handBack item { e with closed := true } }
    else none

/-- How often a slot was used. -/
def uses (token : ℕ) : ℕ := s.inserted.countP fun e => e.channel.token = token

/-- No slot comes to be reused 2^32 - 1 times. -/
def Fresh (s : ChannelUsers α) : ChannelAction α → Prop
  | .insert _ _ => ∀ i, s.table.freeHead = some i → s.uses (i + 1) < 2 ^ 32 - 1
  | _ => True

instance (a : ChannelAction α) : Decidable (s.Fresh a) := by
  cases a with
  | insert item memory => exact inferInstanceAs (Decidable (∀ i ∈ s.table.freeHead, _))
  | acquire | release | close => exact isTrue trivial

/-! ### What every operation keeps -/

/-- A cell of the free list. -/
def Unused (i : ℕ) : Prop := ∃ sl, s.table.slots[i]? = some sl ∧ sl.item = none

def next (i : ℕ) : Option ℕ := s.table.slots[i]?.bind (·.nextFree)

/-- The slot of an item that was not given back. -/
def slotOf (e : Inserted α) : Slot α where
  item := some e.item
  generation := e.channel.generation
  refs := (if e.closed then 0 else 1) + s.borrowed.count e.channel
  isOpen := !e.closed

structure Sound (s : ChannelUsers α) : Prop where
  nodup : (s.inserted.map (·.channel)).Nodup
  handed : ∀ e ∈ s.inserted,
    e.handed = if e.closed = true ∧ s.borrowed.count e.channel = 0 then 1 else 0
  borrowed : ∀ c ∈ s.borrowed, ∃ e ∈ s.inserted, e.channel = c
  token : ∀ e ∈ s.inserted, e.channel.token ≤ s.table.slots.length ∧
    e.channel.generation ≤ s.uses e.channel.token
  held : ∀ e ∈ s.inserted, e.handed = 0 →
    ∃ i, e.channel.token = i + 1 ∧ s.table.slots[i]? = some (s.slotOf e)
  used : ∀ i sl, s.table.slots[i]? = some sl → sl.item.isSome →
    sl.generation = s.uses (i + 1) ∧ ∃ e ∈ s.inserted, e.handed = 0 ∧ e.channel.token = i + 1
  unused : ∀ i sl, s.table.slots[i]? = some sl → sl.item = none →
    sl.generation = s.uses (i + 1) + 1 ∨ s.uses (i + 1) = 2 ^ 32 - 1
  uses_le : ∀ token, s.uses token ≤ 2 ^ 32 - 1
  length_le : s.table.slots.length ≤ 2 ^ 32
  free : FreeList s.next s.table.freeHead s.Unused
  live : s.table.live = s.inserted.countP fun e => e.handed = 0

section Spec

variable {s : ChannelUsers α} {e e' : Inserted α} {c : Channel} {i : ℕ}

theorem Sound.channel_inj (h : s.Sound) (he : e ∈ s.inserted) (he' : e' ∈ s.inserted)
    (hc : e.channel = e'.channel) : e = e' :=
  List.inj_on_of_nodup_map h.nodup he he' hc

/-- Two items that were not given back are in two slots. -/
theorem Sound.token_inj (h : s.Sound) (he : e ∈ s.inserted) (he' : e' ∈ s.inserted)
    (h0 : e.handed = 0) (h0' : e'.handed = 0) (ht : e.channel.token = e'.channel.token) :
    e = e' := by
  obtain ⟨i, hi, hslot⟩ := h.held e he h0
  obtain ⟨i', hi', hslot'⟩ := h.held e' he' h0'
  have heq : i = i' := by omega
  subst heq
  have hgen := congrArg Slot.generation (Option.some.inj (hslot.symm.trans hslot'))
  refine h.channel_inj he he' ?_
  obtain ⟨c, _⟩ := e
  obtain ⟨c', _⟩ := e'
  obtain ⟨token, generation⟩ := c
  obtain ⟨token', generation'⟩ := c'
  cases show token = token' from ht
  cases show generation = generation' from hgen
  rfl

/-- A channel names the slot of what was inserted under it, as long as that was not given back. -/
theorem Sound.indexLocked (h : s.Sound) (c : Channel) :
    (∃ e i, e ∈ s.inserted ∧ e.handed = 0 ∧ e.channel = c ∧ c.token = i + 1 ∧
      s.table.slots[i]? = some (s.slotOf e) ∧ s.table.indexLocked c = some (some i)) ∨
    (∀ e ∈ s.inserted, e.handed = 0 → e.channel ≠ c) ∧ s.table.indexLocked c = some none := by
  by_cases hlive : ∃ e ∈ s.inserted, e.handed = 0 ∧ e.channel = c
  · obtain ⟨e, he, h0, rfl⟩ := hlive
    obtain ⟨i, hi, hslot⟩ := h.held e he h0
    refine .inl ⟨e, i, he, h0, rfl, hi, hslot, ?_⟩
    obtain ⟨hlt, -⟩ := List.getElem?_eq_some_iff.mp hslot
    have hlen := h.length_le
    unfold ChannelTable.indexLocked
    rw [if_neg (by omega), hi, Nat.add_sub_cancel, narrow, if_pos (by unfold u32; omega),
      Option.bind_some, hslot, Option.map_some, if_neg]
    rintro (hnone | hgen)
    · cases hnone
    · exact hgen rfl
  · have hnot : ∀ e ∈ s.inserted, e.handed = 0 → e.channel ≠ c :=
      fun e he h0 hc => hlive ⟨e, he, h0, hc⟩
    refine .inr ⟨hnot, ?_⟩
    have hlen := h.length_le
    unfold ChannelTable.indexLocked
    split_ifs with hrange
    · rfl
    · obtain ⟨i, hi⟩ : ∃ i, c.token = i + 1 := Nat.exists_eq_succ_of_ne_zero (by omega)
      have hlt : i < s.table.slots.length := by omega
      rw [hi, Nat.add_sub_cancel, narrow, if_pos (by unfold u32; omega), Option.bind_some,
        List.getElem?_eq_getElem hlt, Option.map_some, if_pos]
      by_contra hno
      rw [not_or, not_not, Option.isNone_iff_eq_none, ← ne_eq, Option.ne_none_iff_isSome] at hno
      obtain ⟨-, e, he, h0, ht⟩ := h.used i _ (List.getElem?_eq_getElem hlt) hno.1
      obtain ⟨i', hi', hslot⟩ := h.held e he h0
      have heq : i' = i := by omega
      rw [heq, List.getElem?_eq_getElem hlt] at hslot
      have hgen : e.channel.generation = c.generation :=
        (congrArg Slot.generation (Option.some.inj hslot)).symm.trans hno.2
      refine hnot e he h0 ?_
      obtain ⟨⟨token, generation⟩, _⟩ := e
      obtain ⟨token', generation'⟩ := c
      cases show token = token' from ht.trans hi.symm
      cases show generation = generation' from hgen
      rfl

end Spec

section Keep

variable {s s' : ChannelUsers α} {e e' : Inserted α} {c : Channel} {i : ℕ} {sl sl' : Slot α}
  {item : α} {l₁ l₂ : List (Inserted α)} {f : Inserted α → Inserted α}

theorem getElem?_set (l : List (Slot α)) (hi : l[i]? = some sl) (j : ℕ) :
    (l.set i sl')[j]? = if j = i then some sl' else l[j]? := by
  obtain ⟨hlt, -⟩ := List.getElem?_eq_some_iff.mp hi
  split_ifs with hj
  · rw [hj, List.getElem?_set_self hlt]
  · exact List.getElem?_set_ne (Ne.symm hj)

theorem Sound.uses_eq_zero (h : s.Sound) {token : ℕ} (ht : s.table.slots.length < token) :
    s.uses token = 0 := by
  refine List.countP_eq_zero.mpr fun e he htoken => ?_
  have hle := (h.token e he).1
  rw [of_decide_eq_true htoken] at hle
  omega

/-- A new slot, if it were on the free list. -/
theorem Sound.extend (h : s.Sound) (hfree : s.table.freeHead = none)
    (hlen : s.table.slots.length < 2 ^ 32) :
    Sound { s with table :=
      { s.table with
        slots := s.table.slots ++ [({} : Slot α)]
        freeHead := some s.table.slots.length } } := by
  have hold {j : ℕ} (hj : j < s.table.slots.length) :
      (s.table.slots ++ [({} : Slot α)])[j]? = s.table.slots[j]? := List.getElem?_append_left hj
  have hnew : (s.table.slots ++ [({} : Slot α)])[s.table.slots.length]? = some {} :=
    List.getElem?_concat_length
  have hcases {j : ℕ} {sl : Slot α} (hj : (s.table.slots ++ [({} : Slot α)])[j]? = some sl) :
      s.table.slots[j]? = some sl ∨ j = s.table.slots.length ∧ sl = {} := by
    rcases Nat.lt_or_ge j s.table.slots.length with hlt | hge
    · exact .inl ((hold hlt).symm.trans hj)
    · obtain ⟨hlt, -⟩ := List.getElem?_eq_some_iff.mp hj
      rw [List.length_append, List.length_singleton] at hlt
      have heq : j = s.table.slots.length := by omega
      subst heq
      exact .inr ⟨rfl, Option.some.inj (hj.symm.trans hnew)⟩
  have hnone : s.uses (s.table.slots.length + 1) = 0 := h.uses_eq_zero (Nat.lt_succ_self _)
  have hsize : (s.table.slots ++ [({} : Slot α)]).length = s.table.slots.length + 1 :=
    List.length_append
  refine ⟨h.nodup, h.handed, h.borrowed, fun e he => ?_, fun e he h0 => ?_, fun j sl hj hsome => ?_,
    fun j sl hj hitem => ?_, h.uses_le, hsize ▸ hlen, ?_, h.live⟩
  · exact ⟨hsize ▸ (h.token e he).1.trans (Nat.le_succ _), (h.token e he).2⟩
  · obtain ⟨j, hj, hslot⟩ := h.held e he h0
    exact ⟨j, hj, (hold (List.getElem?_eq_some_iff.mp hslot).1).trans hslot⟩
  · rcases hcases hj with hj | ⟨-, rfl⟩
    · exact h.used j sl hj hsome
    · cases hsome
  · rcases hcases hj with hj | ⟨rfl, rfl⟩
    · exact h.unused j sl hj hitem
    · exact .inl (congrArg (· + 1) hnone).symm
  · have hnot (j : ℕ) : ¬ s.Unused j := (hfree ▸ h.free).not_unused j
    refine h.free.push (i := s.table.slots.length) (hnot _) ?_ (fun j hj => ?_) fun j => ?_
    · show ((s.table.slots ++ [({} : Slot α)])[s.table.slots.length]?).bind _ = _
      rw [hnew, hfree]
      rfl
    · show ((s.table.slots ++ [({} : Slot α)])[j]?).bind _ = (s.table.slots[j]?).bind _
      rcases Nat.lt_or_ge j s.table.slots.length with hlt | hge
      · rw [hold hlt]
      · rw [List.getElem?_eq_none hge, List.getElem?_eq_none (by rw [hsize]; omega)]
    · refine ⟨?_, ?_⟩
      · rintro ⟨sl, hj, hitem⟩
        rcases hcases hj with hj | ⟨rfl, -⟩
        · exact .inl ⟨sl, hj, hitem⟩
        · exact .inr rfl
      · rintro (hj | rfl)
        · exact absurd hj (hnot j)
        · exact ⟨{}, hnew, rfl⟩

/-- An item is put in the first unused slot. -/
theorem Sound.put (h : s.Sound) (hfree : s.table.freeHead = some i)
    (hi : s.table.slots[i]? = some sl) (huses : s.uses (i + 1) < 2 ^ 32 - 1) :
    sl.item = none ∧ Sound { s with
      table :=
        { slots := s.table.slots.set i
            { item := some item, generation := sl.generation, refs := 1, isOpen := true }
          freeHead := sl.nextFree
          live := s.table.live + 1 }
      inserted := s.inserted ++ [⟨⟨i + 1, sl.generation⟩, item, false, 0⟩] } := by
  have hitem : sl.item = none := by
    obtain ⟨sl', hi', hitem⟩ := (hfree ▸ h.free).head_unused
    cases Option.some.inj (hi.symm.trans hi')
    exact hitem
  have hgen : sl.generation = s.uses (i + 1) + 1 :=
    (h.unused i sl hi hitem).resolve_right huses.ne
  have hset := @getElem?_set α i sl
    { item := some item, generation := sl.generation, refs := 1, isOpen := true } s.table.slots hi
  have hfresh {e : Inserted α} (he : e ∈ s.inserted) : e.channel ≠ ⟨i + 1, sl.generation⟩ := by
    intro hc
    have hle := (h.token e he).2
    rw [hc] at hle
    dsimp only at hle
    omega
  have huses' (token : ℕ) : uses { s with
      inserted := s.inserted ++ [⟨⟨i + 1, sl.generation⟩, item, false, 0⟩] } token =
      s.uses token + if i + 1 = token then 1 else 0 := by
    unfold uses
    rw [List.countP_append, List.countP_singleton]
    simp only [decide_eq_true_eq]
  have hcount : s.borrowed.count ⟨i + 1, sl.generation⟩ = 0 := by
    refine List.count_eq_zero.mpr fun hmem => ?_
    obtain ⟨e, he, hc⟩ := h.borrowed _ hmem
    exact hfresh he hc
  obtain ⟨hlt, -⟩ := List.getElem?_eq_some_iff.mp hi
  refine ⟨hitem, ?_, ?_, ?_, ?_, ?_, ?_, ?_, ?_, ?_, ?_, ?_⟩
  · rw [List.map_append, List.nodup_append]
    refine ⟨h.nodup, List.nodup_singleton _, fun c hc c' hc' => ?_⟩
    obtain ⟨e, he, rfl⟩ := List.mem_map.mp hc
    cases List.mem_singleton.mp hc'
    exact hfresh he
  · intro e he
    rcases List.mem_append.mp he with he | he
    · exact h.handed e he
    · cases List.mem_singleton.mp he
      rfl
  · intro c hc
    obtain ⟨e, he, hec⟩ := h.borrowed c hc
    exact ⟨e, List.mem_append_left _ he, hec⟩
  · intro e he
    dsimp only
    rw [List.length_set]
    have huses := huses' e.channel.token
    rcases List.mem_append.mp he with he | he
    · have htoken := h.token e he
      exact ⟨htoken.1, htoken.2.trans (huses ▸ Nat.le_add_right _ _)⟩
    · cases List.mem_singleton.mp he
      rw [if_pos rfl] at huses
      exact ⟨hlt, (hgen.trans huses.symm).le⟩
  · intro e he h0
    rcases List.mem_append.mp he with he | he
    · obtain ⟨j, hj, hslot⟩ := h.held e he h0
      refine ⟨j, hj, (hset j).trans ?_⟩
      rw [if_neg, hslot]
      · rfl
      · rintro rfl
        rw [Option.some.inj (hi.symm.trans hslot)] at hitem
        cases hitem
    · cases List.mem_singleton.mp he
      refine ⟨i, rfl, (hset i).trans ?_⟩
      rw [if_pos rfl, slotOf]
      dsimp only
      rw [hcount]
      rfl
  · intro j sl' hj hsome
    have hj := (hset j).symm.trans hj
    have huses := huses' (j + 1)
    split_ifs at hj with hji
    · cases hj
      subst hji
      rw [if_pos rfl] at huses
      exact ⟨hgen.trans huses.symm, _, List.mem_append_right _ List.mem_cons_self, rfl, rfl⟩
    · obtain ⟨hg, e, he, h0, ht⟩ := h.used j sl' hj hsome
      rw [if_neg fun heq => hji (Nat.succ.inj heq).symm] at huses
      exact ⟨hg.trans huses.symm, e, List.mem_append_left _ he, h0, ht⟩
  · intro j sl' hj hnone
    have hj := (hset j).symm.trans hj
    have huses := huses' (j + 1)
    split_ifs at hj with hji
    · cases hj
      cases hnone
    · rw [if_neg fun heq => hji (Nat.succ.inj heq).symm] at huses
      exact (h.unused j sl' hj hnone).imp (fun hg => hg.trans (congrArg (· + 1) huses.symm))
        huses.trans
  · intro token
    refine (huses' token).le.trans ?_
    have hle := h.uses_le token
    split_ifs with ht
    · rw [← ht]
      omega
    · exact hle
  · rw [List.length_set]
    exact h.length_le
  · have hnext : s.next i = sl.nextFree := by rw [next, hi]; rfl
    rw [← hnext]
    refine (hfree ▸ h.free).pop (fun j hj => ?_) fun j => ?_
    · exact congrArg (·.bind (·.nextFree)) ((hset j).trans (if_neg hj))
    · unfold Unused
      dsimp only
      rw [hset j]
      split_ifs with hji
      · refine ⟨?_, fun hj => absurd hji hj.2⟩
        rintro ⟨sl', hj, hnone⟩
        cases hj
        cases hnone
      · exact (and_iff_left hji).symm
  · rw [List.countP_append, ← h.live]
    rfl

theorem Sound.channel_ne_of_split (h : s.Sound) (hl : s.inserted = l₁ ++ e :: l₂)
    (he' : e' ∈ l₁ ++ l₂) : e'.channel ≠ e.channel := by
  have hnodup := h.nodup
  rw [hl, List.map_append, List.map_cons, List.nodup_middle, List.nodup_cons,
    ← List.map_append] at hnodup
  exact fun hc => hnodup.1 (hc ▸ List.mem_map_of_mem he')

/-- An operation on a slot in use and the item in it, nothing else being touched. -/
structure Turned (s s' : ChannelUsers α) (i : ℕ) (sl' : Slot α) (e e' : Inserted α) : Prop where
  split : ∃ l₁ l₂, s.inserted = l₁ ++ e :: l₂ ∧ s'.inserted = l₁ ++ e' :: l₂
  slots : s'.table.slots = s.table.slots.set i sl'
  channel : e'.channel = e.channel
  unhanded : e.handed = 0
  token : e.channel.token = i + 1
  slot : s.table.slots[i]? = some (s.slotOf e)
  count : ∀ c, c ≠ e.channel → s'.borrowed.count c = s.borrowed.count c
  handed : e'.handed =
    if e'.closed = true ∧ s'.borrowed.count e'.channel = 0 then 1 else 0

namespace Turned

variable {x : Inserted α}

theorem mem (ht : Turned s s' i sl' e e') : e ∈ s.inserted := by
  obtain ⟨l₁, l₂, hl, -⟩ := ht.split
  exact hl ▸ List.mem_append_right _ List.mem_cons_self

theorem mem' (ht : Turned s s' i sl' e e') : e' ∈ s'.inserted := by
  obtain ⟨l₁, l₂, -, hl⟩ := ht.split
  exact hl ▸ List.mem_append_right _ List.mem_cons_self

theorem getElem?_slots (ht : Turned s s' i sl' e e') (j : ℕ) :
    s'.table.slots[j]? = if j = i then some sl' else s.table.slots[j]? := by
  rw [ht.slots]
  exact getElem?_set _ ht.slot j

theorem map_channel (ht : Turned s s' i sl' e e') :
    s'.inserted.map (·.channel) = s.inserted.map (·.channel) := by
  obtain ⟨l₁, l₂, hl, hl'⟩ := ht.split
  rw [hl, hl', List.map_append, List.map_append, List.map_cons, List.map_cons, ht.channel]

theorem uses (ht : Turned s s' i sl' e e') (token : ℕ) : s'.uses token = s.uses token := by
  obtain ⟨l₁, l₂, hl, hl'⟩ := ht.split
  unfold ChannelUsers.uses
  rw [hl, hl', List.countP_append, List.countP_append, List.countP_cons, List.countP_cons,
    ht.channel]

theorem mem_iff (h : s.Sound) (ht : Turned s s' i sl' e e') :
    x ∈ s'.inserted ↔ x = e' ∨ x ∈ s.inserted ∧ x.channel ≠ e.channel := by
  obtain ⟨l₁, l₂, hl, hl'⟩ := ht.split
  have hother {y : Inserted α} (hy : y ∈ l₁ ++ l₂) : y.channel ≠ e.channel :=
    h.channel_ne_of_split hl hy
  have hin : x ∈ s.inserted ↔ x = e ∨ x ∈ l₁ ++ l₂ := by
    rw [hl, List.mem_append, List.mem_cons, List.mem_append, or_left_comm]
  have hin' : x ∈ s'.inserted ↔ x = e' ∨ x ∈ l₁ ++ l₂ := by
    rw [hl', List.mem_append, List.mem_cons, List.mem_append, or_left_comm]
  rw [hin, hin']
  refine or_congr_right ⟨fun hx => ⟨.inr hx, hother hx⟩, fun hx => ?_⟩
  exact hx.1.resolve_left fun heq => hx.2 (heq ▸ rfl)

theorem slotOf (ht : Turned s s' i sl' e e') (hx : x.channel ≠ e.channel) :
    s'.slotOf x = s.slotOf x := by
  unfold ChannelUsers.slotOf
  rw [ht.count x.channel hx]

/-- The other items that were not given back are in other slots. -/
theorem held (h : s.Sound) (ht : Turned s s' i sl' e e') (hx : x ∈ s.inserted)
    (hne : x.channel ≠ e.channel) (h0 : x.handed = 0) :
    ∃ j, j ≠ i ∧ x.channel.token = j + 1 ∧ s'.table.slots[j]? = some (s'.slotOf x) := by
  obtain ⟨j, hj, hslot⟩ := h.held x hx h0
  have hji : j ≠ i := fun heq => hne (congrArg Inserted.channel
    (h.token_inj hx ht.mem h0 ht.unhanded (by rw [hj, ht.token, heq])))
  exact ⟨j, hji, hj, by rw [ht.getElem?_slots, if_neg hji, ht.slotOf hne, hslot]⟩

theorem live (ht : Turned s s' i sl' e e') :
    s.inserted.countP (fun e => e.handed = 0) =
      s'.inserted.countP (fun e => e.handed = 0) + if e'.handed = 0 then 0 else 1 := by
  obtain ⟨l₁, l₂, hl, hl'⟩ := ht.split
  rw [hl, hl', List.countP_append, List.countP_append, List.countP_cons, List.countP_cons,
    if_pos (decide_eq_true ht.unhanded)]
  split_ifs with h0 h0' h0'
  · omega
  · exact absurd (of_decide_eq_true h0) h0'
  · exact absurd (decide_eq_true h0') h0
  · omega

/-- The slot stays in use, or is the new head of the free list. -/
theorem sound (h : s.Sound) (ht : Turned s s' i sl' e e')
    (hcase : e'.handed = 0 ∧ sl' = s'.slotOf e' ∧ s'.table.freeHead = s.table.freeHead ∧
        s'.table.live = s.table.live ∨
      e'.handed = 1 ∧
        sl' =
          { generation := nextGeneration e.channel.generation
            nextFree := s.table.freeHead } ∧
        s'.table.freeHead = some i ∧ s'.table.live + 1 = s.table.live) :
    s'.Sound := by
  have hused := h.used i _ ht.slot rfl
  refine ⟨ht.map_channel ▸ h.nodup, fun x hx => ?_, fun c hc => ?_, fun x hx => ?_,
    fun x hx h0 => ?_, fun j sl hj hsome => ?_, fun j sl hj hitem => ?_,
    fun token => ht.uses token ▸ h.uses_le token, ?_, ?_, ?_⟩
  · rcases (ht.mem_iff h).mp hx with rfl | ⟨hx, hne⟩
    · exact ht.handed
    · rw [ht.count x.channel hne]
      exact h.handed x hx
  · by_cases hce : c = e.channel
    · exact ⟨e', ht.mem', ht.channel.trans hce.symm⟩
    · have hpos : 0 < s.borrowed.count c := ht.count c hce ▸ List.count_pos_iff.mpr hc
      obtain ⟨x, hx, rfl⟩ := h.borrowed c (List.count_pos_iff.mp hpos)
      exact ⟨x, (ht.mem_iff h).mpr (.inr ⟨hx, hce⟩), rfl⟩
  · rw [ht.slots, List.length_set, ht.uses]
    rcases (ht.mem_iff h).mp hx with rfl | ⟨hx, -⟩
    · exact ht.channel ▸ h.token e ht.mem
    · exact h.token x hx
  · rcases (ht.mem_iff h).mp hx with rfl | ⟨hx, hne⟩
    · obtain ⟨-, hsl, -⟩ | ⟨h1, -⟩ := hcase
      · exact ⟨i, ht.channel ▸ ht.token, by rw [ht.getElem?_slots, if_pos rfl, hsl]⟩
      · omega
    · obtain ⟨j, -, hj⟩ := ht.held h hx hne h0
      exact ⟨j, hj⟩
  · rw [ht.getElem?_slots] at hj
    rw [ht.uses]
    split_ifs at hj with hji
    · cases hj
      obtain ⟨h0, hsl, -⟩ | ⟨-, rfl, -⟩ := hcase
      · have hgen : sl'.generation = e.channel.generation := by
          rw [hsl]
          exact congrArg Channel.generation ht.channel
        refine ⟨hgen.trans (hji ▸ hused.1), e', ht.mem', h0, ?_⟩
        rw [ht.channel, ht.token, hji]
      · cases hsome
    · obtain ⟨hgen, x, hx, h0, htok⟩ := h.used j sl hj hsome
      have hne : x.channel ≠ e.channel := fun hc => hji (by
        have := ht.token
        rw [← hc, htok] at this
        omega)
      exact ⟨hgen, x, (ht.mem_iff h).mpr (.inr ⟨hx, hne⟩), h0, htok⟩
  · rw [ht.getElem?_slots] at hj
    rw [ht.uses]
    split_ifs at hj with hji
    · cases hj
      obtain ⟨-, hsl, -⟩ | ⟨-, rfl, -⟩ := hcase
      · rw [hsl] at hitem
        cases hitem
      · have hle := h.uses_le (i + 1)
        have hgen : e.channel.generation = s.uses (i + 1) := hused.1
        rw [hji, hgen]
        dsimp only
        unfold nextGeneration u32
        rcases Nat.lt_or_ge (s.uses (i + 1)) (2 ^ 32 - 1) with hlt | hge
        · rw [Nat.mod_eq_of_lt (by omega)]
          exact .inl (if_neg (by omega))
        · exact .inr (by omega)
    · exact h.unused j sl hj hitem
  · rw [ht.slots, List.length_set]
    exact h.length_le
  · have hnext {j : ℕ} (hji : j ≠ i) : s'.next j = s.next j := by
      unfold next
      rw [ht.getElem?_slots, if_neg hji]
    have hother {j : ℕ} (hji : j ≠ i) : s'.Unused j ↔ s.Unused j := by
      unfold Unused
      rw [ht.getElem?_slots, if_neg hji]
    have hin : ¬ s.Unused i := by
      rintro ⟨sl, hsl, hitem⟩
      cases Option.some.inj (ht.slot.symm.trans hsl)
      cases hitem
    have hself : s'.table.slots[i]? = some sl' := by rw [ht.getElem?_slots, if_pos rfl]
    obtain ⟨-, hsl, hhead, -⟩ | ⟨-, hsl, hhead, -⟩ := hcase
    · rw [hhead]
      have hin' : ¬ s'.Unused i := by
        rintro ⟨sl, hsl'', hitem⟩
        cases Option.some.inj (hself.symm.trans hsl'')
        rw [hsl] at hitem
        cases hitem
      refine h.free.congr (fun j hj => hnext ?_) fun j => ?_
      · rintro rfl
        exact hin hj
      · by_cases hji : j = i
        · subst hji
          exact iff_of_false hin' hin
        · exact hother hji
    · rw [hhead]
      refine h.free.push hin ?_ (fun j hji => hnext hji) fun j => ?_
      · unfold next
        rw [hself, hsl]
        rfl
      · by_cases hji : j = i
        · subst hji
          exact iff_of_true ⟨sl', hself, by rw [hsl]⟩ (.inr rfl)
        · rw [hother hji]
          exact (or_iff_left hji).symm
  · have hlive := ht.live
    rw [← h.live] at hlive
    obtain ⟨h0, -, -, hl⟩ | ⟨h1, -, -, hl⟩ := hcase
    · rw [if_pos h0] at hlive
      omega
    · rw [if_neg (by omega)] at hlive
      omega

end Turned

/-- What is done to an inserted item. -/
theorem Sound.change_eq (h : s.Sound) (he : e ∈ s.inserted) (f : Inserted α → Inserted α) :
    ∃ l₁ l₂, s.inserted = l₁ ++ e :: l₂ ∧ s.change e.channel f = l₁ ++ f e :: l₂ := by
  obtain ⟨l₁, l₂, hl⟩ := List.append_of_mem he
  have hother : ∀ l : List (Inserted α), (∀ y ∈ l, y ∈ l₁ ++ l₂) →
      l.map (fun x => if x.channel = e.channel then f x else x) = l := by
    intro l hsub
    refine (List.map_congr_left fun y hy => ?_).trans (List.map_id l)
    exact if_neg (h.channel_ne_of_split hl (hsub y hy))
  refine ⟨l₁, l₂, hl, ?_⟩
  unfold change
  rw [hl, List.map_append, List.map_cons, if_pos rfl,
    hother l₁ fun y hy => List.mem_append_left _ hy,
    hother l₂ fun y hy => List.mem_append_right _ hy]

theorem Sound.insert (h : s.Sound) {memory : Bool} (hfresh : s.Fresh (.insert item memory))
    {table : ChannelTable α} {c : Option Channel}
    (hs : s.table.insert memory item = some (table, c)) :
    Sound { s with
      table := table
      inserted := s.inserted ++ (c.map fun c => ⟨c, item, false, 0⟩).toList } := by
  have hput {s : ChannelUsers α} (h : s.Sound) {i : ℕ} (hfree : s.table.freeHead = some i)
      (huses : s.uses (i + 1) < 2 ^ 32 - 1) (hs : s.table.put i item = some (table, c)) :
      Sound { s with
        table := table
        inserted := s.inserted ++ (c.map fun c => ⟨c, item, false, 0⟩).toList } := by
    obtain ⟨sl, hi, hs⟩ := Option.bind_eq_some_iff.mp hs
    obtain ⟨live, hlive, hs⟩ := Option.map_eq_some_iff.mp hs
    cases hs
    cases (add_eq_some.mp hlive).2
    exact (h.put hfree hi huses).2
  unfold ChannelTable.insert at hs
  cases hfree : s.table.freeHead with
  | some i =>
    rw [hfree] at hs
    exact hput h hfree (hfresh i hfree) hs
  | none =>
    rw [hfree] at hs
    dsimp only at hs
    split_ifs at hs with hmemory
    · obtain ⟨i, hi, hs⟩ := Option.bind_eq_some_iff.mp hs
      obtain ⟨hlen, rfl⟩ := narrow_eq_some.mp hi
      have hzero := h.uses_eq_zero (Nat.lt_succ_self _)
      have hnew := hput (h.extend hfree hlen) rfl (hzero.trans_lt (by decide)) hs
      exact hnew
    · cases hs
      exact (List.append_nil s.inserted).symm ▸ h

theorem Sound.acquire (h : s.Sound) {table : ChannelTable α} {got : Option α}
    (hs : s.table.acquire c = some (table, got)) :
    Sound { s with
      table := table
      borrowed := s.borrowed ++ (got.map fun _ => c).toList } := by
  unfold ChannelTable.acquire at hs
  obtain ⟨e, i, he, h0, rfl, htoken, hslot, hindex⟩ | ⟨-, hindex⟩ := h.indexLocked c
  · rw [hindex, Option.bind_some] at hs
    dsimp only at hs
    rw [hslot, Option.bind_some] at hs
    split_ifs at hs with hopen
    · cases hs
      exact (List.append_nil s.borrowed).symm ▸ h
    · obtain ⟨refs, hrefs, hs⟩ := Option.map_eq_some_iff.mp hs
      cases hs
      cases (add_eq_some.mp hrefs).2
      have hclosed : e.closed = false := by
        cases hc : e.closed with
        | false => rfl
        | true =>
          rw [slotOf, hc] at hopen
          exact absurd rfl hopen
      obtain ⟨l₁, l₂, hl⟩ := List.append_of_mem he
      have hcount : (s.borrowed ++ [e.channel]).count e.channel =
          s.borrowed.count e.channel + 1 := by
        rw [List.count_append, List.count_singleton_self]
      have ht : Turned s { s with
          table := { s.table with
            slots := s.table.slots.set i { s.slotOf e with refs := (s.slotOf e).refs + 1 } }
          borrowed := s.borrowed ++ [e.channel] } i
          { s.slotOf e with refs := (s.slotOf e).refs + 1 } e e := by
        refine ⟨⟨l₁, l₂, hl, hl⟩, rfl, rfl, h0, htoken, hslot, fun c hc => ?_, ?_⟩
        · exact List.count_append.trans
            (congrArg _ (List.count_singleton.trans (if_neg fun heq =>
              hc (beq_iff_eq.mp heq).symm)))
        · rw [hclosed, h0]
          rfl
      refine ht.sound h (.inl ⟨h0, ?_, rfl, rfl⟩)
      exact congrArg (fun refs => { s.slotOf e with refs := refs })
        ((Nat.add_assoc _ _ 1).trans (congrArg _ hcount.symm))
  · rw [hindex] at hs
    cases hs
    exact (List.append_nil s.borrowed).symm ▸ h

theorem unrefLocked_of_pos {t : ChannelTable α} {r : ℕ} (hi : t.slots[i]? = some sl)
    (hrefs : sl.refs = r + 1) (hr : 0 < r) :
    t.unrefLocked i = some ({ t with slots := t.slots.set i { sl with refs := r } }, none) := by
  unfold ChannelTable.unrefLocked
  rw [hi, Option.bind_some, hrefs, sub, if_pos (Nat.le_add_left 1 r), Option.bind_some,
    Nat.add_sub_cancel, if_pos hr]

theorem unrefLocked_of_last {t : ChannelTable α} (hi : t.slots[i]? = some sl) (hrefs : sl.refs = 1)
    (hopen : sl.isOpen = false) (hitem : sl.item = some item) (hlive : 0 < t.live) :
    t.unrefLocked i = some
      ({ slots := t.slots.set i
          { generation := nextGeneration sl.generation, nextFree := t.freeHead }
         freeHead := some i
         live := t.live - 1 }, some item) := by
  unfold ChannelTable.unrefLocked
  rw [hi, Option.bind_some, hrefs, sub, if_pos le_rfl, Option.bind_some, if_neg (lt_irrefl 0),
    hopen, if_neg Bool.false_ne_true, hitem, Option.bind_some, sub_of_le hlive, Option.map_some]

/-- A reference to an item is dropped: the last one gives it back. -/
theorem Sound.unrefLocked (h : s.Sound) (he : e ∈ s.inserted) (h0 : e.handed = 0)
    (htoken : e.channel.token = i + 1) {t : ChannelTable α} (closed : Bool)
    (borrowed : List Channel) (hslot : t.slots[i]? = some { s.slotOf e with isOpen := !closed })
    (hset : ∀ sl', t.slots.set i sl' = s.table.slots.set i sl')
    (hfree : t.freeHead = s.table.freeHead) (hlive : t.live = s.table.live)
    (hcount : ∀ c, c ≠ e.channel → borrowed.count c = s.borrowed.count c)
    (hrefs : (s.slotOf e).refs = (if closed then 0 else 1) + borrowed.count e.channel + 1) :
    ∃ table item, t.unrefLocked i = some (table, item) ∧
      item = (if closed = true ∧ borrowed.count e.channel = 0 then some e.item else none) ∧
      Sound
        { table := table
          inserted := s.change e.channel fun e => handBack item { e with closed := closed }
          borrowed := borrowed } := by
  obtain ⟨i', hi', hheld⟩ := h.held e he h0
  have heq : i' = i := by omega
  subst heq
  by_cases hlast : closed = true ∧ borrowed.count e.channel = 0
  · obtain ⟨rfl, hnone⟩ := hlast
    have hpos : 0 < s.table.live := by
      rw [h.live]
      exact List.countP_pos_iff.mpr ⟨e, he, decide_eq_true h0⟩
    refine ⟨_, _, unrefLocked_of_last hslot (hrefs.trans (by rw [hnone]; rfl)) rfl rfl
      (hlive ▸ hpos), (if_pos ⟨rfl, hnone⟩).symm, ?_⟩
    obtain ⟨l₁, l₂, hl, hl'⟩ := h.change_eq he
      fun e' => handBack (some e.item) { e' with closed := true }
    refine Turned.sound h ⟨⟨l₁, l₂, hl, hl'⟩, hset _, rfl, h0, htoken, hheld, hcount, ?_⟩
      (.inr ⟨?_, ?_, rfl, ?_⟩)
    · refine Eq.trans ?_ (if_pos ⟨rfl, hnone⟩).symm
      exact congrArg (· + 1) h0
    · exact congrArg (· + 1) h0
    · rw [hfree]
      rfl
    · dsimp only
      rw [hlive]
      omega
  · have hr : 0 < (if closed then 0 else 1) + borrowed.count e.channel := by
      cases closed with
      | false => exact Nat.lt_add_right _ Nat.one_pos
      | true =>
        rw [if_pos rfl, Nat.zero_add]
        exact Nat.pos_of_ne_zero fun hnone => hlast ⟨rfl, hnone⟩
    refine ⟨_, _, unrefLocked_of_pos hslot hrefs hr, (if_neg hlast).symm, ?_⟩
    obtain ⟨l₁, l₂, hl, hl'⟩ := h.change_eq he
      fun e' => handBack none { e' with closed := closed }
    refine Turned.sound h ⟨⟨l₁, l₂, hl, hl'⟩, hset _, rfl, h0, htoken, hheld, hcount, ?_⟩
      (.inl ⟨h0, rfl, hfree, hlive⟩)
    exact h0.trans (if_neg hlast).symm

theorem Sound.change_congr (h : s.Sound) (he : e ∈ s.inserted) {f g : Inserted α → Inserted α}
    (hfg : f e = g e) : s.change e.channel f = s.change e.channel g := by
  refine List.map_congr_left fun e' he' => ?_
  split_ifs with hc
  · rw [h.channel_inj he' he hc, hfg]
  · rfl

/-- What was not given back has a reference left. -/
theorem Sound.handed_eq_zero (h : s.Sound) (he : e ∈ s.inserted) :
    e.handed = 0 ↔ e.closed = false ∨ 0 < s.borrowed.count e.channel := by
  rw [h.handed e he, ite_eq_right_iff, ← Bool.not_eq_true, Nat.pos_iff_ne_zero]
  tauto

theorem Sound.release (h : s.Sound) (he : e ∈ s.inserted) (hmem : e.channel ∈ s.borrowed) :
    ∃ table item, s.table.release e.channel = some (table, item) ∧
      item = (if e.closed = true ∧ s.borrowed.count e.channel = 1 then some e.item else none) ∧
      Sound
        { table := table
          inserted := s.change e.channel (handBack item)
          borrowed := s.borrowed.erase e.channel } := by
  have hpos := List.count_pos_iff.mpr hmem
  have h0 := (h.handed_eq_zero he).mpr (.inr hpos)
  obtain ⟨e₁, i, he₁, -, hc, htoken, hslot, hindex⟩ | ⟨hnone, -⟩ := h.indexLocked e.channel
  · cases h.channel_inj he₁ he hc
    have hself : s.borrowed.count e.channel =
        (s.borrowed.erase e.channel).count e.channel + 1 := by
      rw [List.count_erase_self]
      omega
    obtain ⟨table, item, ht, hitem, hsound⟩ := h.unrefLocked he h0 htoken
      (t := s.table) e.closed (s.borrowed.erase e.channel) hslot (fun _ => rfl) rfl rfl
      (fun c hc => List.count_erase_of_ne hc) (by rw [slotOf, hself, Nat.add_assoc])
    refine ⟨table, item, ?_, ?_, ?_⟩
    · rw [ChannelTable.release, hindex]
      exact ht
    · rw [hitem, hself]
      simp only [Nat.add_eq_right]
    · rw [h.change_congr he (g := fun e' => handBack item { e' with closed := e.closed }) rfl]
      exact hsound
  · exact absurd rfl (hnone e he h0)

theorem Sound.close (h : s.Sound) (he : e ∈ s.inserted) (hopen : e.closed = false) :
    ∃ table item, s.table.close e.channel = some (table, item) ∧
      item = (if s.borrowed.count e.channel = 0 then some e.item else none) ∧
      Sound { s with
        table := table
        inserted := s.change e.channel fun e => handBack item { e with closed := true } } := by
  have h0 := (h.handed_eq_zero he).mpr (.inl hopen)
  obtain ⟨e₁, i, he₁, -, hc, htoken, hslot, hindex⟩ | ⟨hnone, -⟩ := h.indexLocked e.channel
  · cases h.channel_inj he₁ he hc
    have hset : (s.table.slots.set i { s.slotOf e with isOpen := false })[i]? =
        some { s.slotOf e with isOpen := false } := (getElem?_set _ hslot i).trans (if_pos rfl)
    obtain ⟨table, item, ht, hitem, hsound⟩ := h.unrefLocked he h0 htoken
      (t := { s.table with slots := s.table.slots.set i { s.slotOf e with isOpen := false } })
      true s.borrowed hset (fun _ => List.set_set _) rfl rfl (fun _ _ => rfl) (by
        rw [slotOf, hopen]
        dsimp only
        rw [if_pos rfl, if_neg Bool.false_ne_true]
        omega)
    refine ⟨table, item, ?_, ?_, hsound⟩
    · rw [ChannelTable.close, hindex, Option.bind_some, Option.bind_some, hslot, Option.bind_some,
        if_pos (show (s.slotOf e).isOpen = true from congrArg (!·) hopen)]
      exact ht
    · rw [hitem]
      simp only [true_and]
  · exact absurd rfl (hnone e he h0)

end Keep

section Run

variable {s s' : ChannelUsers α} {a : ChannelAction α} {as : List (ChannelAction α)}

theorem init_sound : Sound ({} : ChannelUsers α) where
  nodup := List.nodup_nil
  handed _ he := nomatch he
  borrowed _ hc := nomatch hc
  token _ he := nomatch he
  held _ he := nomatch he
  used _ _ hsl := nomatch hsl
  unused _ _ hsl := nomatch hsl
  uses_le _ := Nat.zero_le _
  length_le := Nat.zero_le _
  free := .nil fun _ ⟨_, hsl, _⟩ => nomatch hsl
  live := rfl

theorem step_sound (h : s.Sound) (hfresh : s.Fresh a)
    (hs : s.step a = some s') : s'.Sound := by
  cases a with
  | insert item memory =>
    obtain ⟨⟨table, c⟩, hinsert, rfl⟩ := Option.map_eq_some_iff.mp hs
    exact h.insert hfresh hinsert
  | acquire c =>
    obtain ⟨⟨table, got⟩, hacquire, rfl⟩ := Option.map_eq_some_iff.mp hs
    exact h.acquire hacquire
  | release c =>
    rw [step.eq_def] at hs
    dsimp only at hs
    split_ifs at hs with hmem
    obtain ⟨⟨table, item⟩, hrelease, rfl⟩ := Option.map_eq_some_iff.mp hs
    obtain ⟨e, he, rfl⟩ := h.borrowed c hmem
    obtain ⟨table', item', hrelease', -, hsound⟩ := h.release he hmem
    cases Option.some.inj (hrelease.symm.trans hrelease')
    exact hsound
  | close c =>
    rw [step.eq_def] at hs
    dsimp only at hs
    split_ifs at hs with hopen
    obtain ⟨⟨table, item⟩, hclose, rfl⟩ := Option.map_eq_some_iff.mp hs
    obtain ⟨e, he, hdec⟩ := List.any_eq_true.mp hopen
    obtain ⟨rfl, hunclosed⟩ := of_decide_eq_true hdec
    obtain ⟨table', item', hclose', -, hsound⟩ := h.close he hunclosed
    cases Option.some.inj (hclose.symm.trans hclose')
    exact hsound

theorem run_sound (h : Run step Fresh {} as s) : s.Sound :=
  h.inv init_sound fun _ _ _ => step_sound

/-- **A channel reaches its item until it is closed, and the item is given back once, with its last
reference.** -/
theorem reaches_until_closed (h : Run step Fresh {} as s) :
    (s.inserted.map (·.channel)).Nodup ∧
    (∀ c, (∀ e ∈ s.inserted, e.channel = c → e.closed = true) →
      s.table.acquire c = some (s.table, none)) ∧
    (∀ e ∈ s.inserted, e.closed = false → s.borrowed.count e.channel < 2 ^ 32 - 2 →
      ∃ table, s.table.acquire e.channel = some (table, some e.item)) ∧
    (∀ c ∈ s.borrowed, ∃ e ∈ s.inserted, e.channel = c ∧
      ∃ table, s.table.release c = some (table,
        if e.closed = true ∧ s.borrowed.count c = 1 then some e.item else none)) ∧
    (∀ e ∈ s.inserted, e.closed = false →
      ∃ table, s.table.close e.channel = some (table,
        if s.borrowed.count e.channel = 0 then some e.item else none)) ∧
    (∀ e ∈ s.inserted, e.handed =
      if e.closed = true ∧ s.borrowed.count e.channel = 0 then 1 else 0) ∧
    (∀ e ∈ s.inserted, ∀ e' ∈ s.inserted, e.handed = 0 → e'.handed = 0 →
      e.channel.token = e'.channel.token → e = e') ∧
    FreeList s.next s.table.freeHead (fun i => i < s.table.slots.length ∧
      ∀ e ∈ s.inserted, e.handed = 0 → e.channel.token ≠ i + 1) ∧
    s.table.live = s.inserted.countP fun e => e.handed = 0 := by
  have h := run_sound h
  refine ⟨h.nodup, fun c hc => ?_, fun e he hopen hcount => ?_, fun c hc => ?_,
    fun e he hopen => ?_, h.handed, fun e he e' he' => h.token_inj he he', ?_, h.live⟩
  · unfold ChannelTable.acquire
    obtain ⟨e, i, he, -, rfl, -, hslot, hindex⟩ | ⟨-, hindex⟩ := h.indexLocked c
    · rw [hindex, Option.bind_some]
      dsimp only
      rw [hslot, Option.bind_some, slotOf, hc e he rfl]
      rfl
    · rw [hindex, Option.bind_some]
  · have h0 := (h.handed_eq_zero he).mpr (.inl hopen)
    obtain ⟨e₁, i, he₁, -, hc, -, hslot, hindex⟩ | ⟨hnone, -⟩ := h.indexLocked e.channel
    · cases h.channel_inj he₁ he hc
      have hrefs : (s.slotOf e).refs + 1 < u32 := by
        rw [slotOf, hopen]
        dsimp only
        rw [if_neg Bool.false_ne_true]
        unfold u32
        omega
      refine ⟨{ s.table with
        slots := s.table.slots.set i { s.slotOf e with refs := (s.slotOf e).refs + 1 } }, ?_⟩
      rw [ChannelTable.acquire, hindex, Option.bind_some]
      dsimp only
      rw [hslot, Option.bind_some, add_of_lt hrefs,
        if_neg (show ¬ (!(s.slotOf e).isOpen) = true from ?_)]
      · rfl
      · show ¬ (!!e.closed) = true
        rw [hopen]
        decide
    · exact absurd rfl (hnone e he h0)
  · obtain ⟨e, he, rfl⟩ := h.borrowed c hc
    obtain ⟨table, item, hrelease, rfl, -⟩ := h.release he hc
    exact ⟨e, he, rfl, table, hrelease⟩
  · obtain ⟨table, item, hclose, rfl, -⟩ := h.close he hopen
    exact ⟨table, hclose⟩
  · refine h.free.congr (fun _ _ => rfl) fun i => ⟨fun ⟨hi, hnone⟩ => ?_, ?_⟩
    · refine ⟨_, List.getElem?_eq_getElem hi, ?_⟩
      by_contra hsome
      obtain ⟨-, e, he, h0, htoken⟩ := h.used i _ (List.getElem?_eq_getElem hi)
        (Option.ne_none_iff_isSome.mp hsome)
      exact hnone e he h0 htoken
    · rintro ⟨sl, hsl, hitem⟩
      refine ⟨(List.getElem?_eq_some_iff.mp hsl).1, fun e he h0 htoken => ?_⟩
      obtain ⟨j, hj, hslot⟩ := h.held e he h0
      have heq : j = i := by omega
      subst heq
      cases Option.some.inj (hsl.symm.trans hslot)
      cases hitem

/-- A channel in use while it is closed, and the slot's next item. -/
def slotReused : List (ChannelAction ℕ) :=
  [.insert 7 true, .acquire ⟨1, 1⟩, .close ⟨1, 1⟩, .acquire ⟨1, 1⟩, .release ⟨1, 1⟩,
    .insert 9 true, .acquire ⟨1, 1⟩, .acquire ⟨1, 2⟩]

theorem reaches_until_closed_slotReused : ∃ s, Run step Fresh {} slotReused s ∧
    s.inserted = [⟨⟨1, 1⟩, 7, true, 1⟩, ⟨⟨1, 2⟩, 9, false, 0⟩] ∧
    s.table.acquire ⟨1, 1⟩ = some (s.table, none) := by
  obtain ⟨s, hrun, hinserted⟩ := exists_run_of_exec step Fresh {} slotReused
    (p := fun s => s.inserted = [⟨⟨1, 1⟩, 7, true, 1⟩, ⟨⟨1, 2⟩, 9, false, 0⟩])
    ⟨_, rfl, rfl⟩
  refine ⟨s, hrun, hinserted, (reaches_until_closed hrun).2.1 _ fun e he hc => ?_⟩
  rw [hinserted] at he
  rcases List.mem_pair.mp he with rfl | rfl
  · rfl
  · cases hc

end Run

end ChannelUsers

end Zzdds.Transport
