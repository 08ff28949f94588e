import Zzdds.Lib.Bisect
import Zzdds.Lib.Growable
import Zzdds.Lib.Run
import Zzdds.Rtps.Writer.EndMarkers

/-! # The history of a writer

The writer side of `history.zig` with the memory its changes take.  Room for a change is made before
the change is added (`addWriterChange`), or long before it (`reserve`, `addReservedWriterChange`);
`reserved` counts the changes room was made for that are still to come, and the array of changes has
room for them besides what it holds.  Appending beyond the capacity, and giving back more than was
reserved, would be a panic: there the operations give nothing. -/

namespace Zzdds.Rtps

open Lib StatefulWriter

structure WriterHistory where
  cache : HistoryCache
  reserved : ℕ := 0
  capacity : ℕ := 0

namespace WriterHistory

def init (kind : HistoryKind) (depth : ℕ) : WriterHistory := { cache := .init kind depth }

def changes (h : WriterHistory) : List CacheChange := h.cache.changes

def ensureTotalCapacity (h : WriterHistory) (mem : Memory) (need : ℕ) : Option WriterHistory :=
  (mem.ensure h.capacity need).map fun got => { h with capacity := got }

def newChange (guid : Guid) (s : Sample) (sn : ℤ) : CacheChange where
  kind := s.kind
  writerGuid := guid
  sequenceNumber := sn
  sourceTimestamp := s.sourceTimestamp
  instanceHandle := s.instanceHandle
  keyHash := s.keyHash
  data := s.data

/-- The cache without the changes that are to make way for one of the instance. -/
def trimmed (h : WriterHistory) (ih : InstanceHandle) : HistoryCache :=
  { h.cache with nextSn := h.cache.nextSn + 1 }.trimForKeepLast ih

/-- Add a change into capacity already made. -/
def addOwnedLocked (h : WriterHistory) (guid : Guid) (s : Sample) : Option (ℤ × WriterHistory) :=
  let sn := h.cache.nextSn
  let c := h.trimmed s.instanceHandle
  if c.changes.length < h.capacity then
    some (sn, { h with cache := { c with changes := c.changes ++ [newChange guid s sn] } })
  else none

/-- The part of `addWriterChange` that allocates; nothing where it fails. -/
def makeRoom (h : WriterHistory) (mem : Memory) : Option WriterHistory :=
  if mem.copies then h.ensureTotalCapacity mem (h.changes.length + h.reserved + 1) else none

def reserve (h : WriterHistory) (mem : Memory) (n : ℕ) : Option WriterHistory :=
  (h.ensureTotalCapacity mem (h.changes.length + h.reserved + n)).map fun h =>
    { h with reserved := h.reserved + n }

def release (h : WriterHistory) (n : ℕ) : Option WriterHistory :=
  if n ≤ h.reserved then some { h with reserved := h.reserved - n } else none

def addReservedWriterChange (h : WriterHistory) (guid : Guid) (s : Sample)
    (usesReservation : Bool) : Option (ℤ × WriterHistory) :=
  if usesReservation then (h.release 1).bind fun h => h.addOwnedLocked guid s
  else h.addOwnedLocked guid s

def allocSn (h : WriterHistory) : ℤ × WriterHistory :=
  (h.cache.allocSn.1, { h with cache := h.cache.allocSn.2 })

def removeChange (h : WriterHistory) (sn : ℤ) : WriterHistory :=
  { h with cache := { h.cache with
      changes := h.cache.changes.eraseP fun ch => ch.sequenceNumber == sn } }

def removeWriterChangesUpTo (h : WriterHistory) (upToSn : ℤ) : WriterHistory :=
  { h with cache := h.cache.removeWriterChangesUpTo upToSn }

/-- Whether the change at a place comes before `first`. -/
def isBefore (h : WriterHistory) (first : ℤ) (i : ℕ) : Bool :=
  match h.changes[i]? with
  | some ch => ch.sequenceNumber < first
  | none => false

/-- The source's own search, by bisection. -/
def hasWriterChangeIn (h : WriterHistory) (first last : ℤ) : Bool :=
  if last < first then false
  else
    match h.changes[bisect (h.isBefore first) 0 h.changes.length]? with
    | some ch => ch.sequenceNumber ≤ last
    | none => false

variable {h h' : WriterHistory} {guid : Guid} {s : Sample} {mem : Memory} {sn : ℤ}

def Sorted (h : WriterHistory) : Prop := (h.changes.map (·.sequenceNumber)).Pairwise (· < ·)

theorem sn_lt (hs : h.Sorted) {i j : ℕ} {x y : CacheChange} (hij : i < j)
    (hx : h.changes[i]? = some x) (hy : h.changes[j]? = some y) :
    x.sequenceNumber < y.sequenceNumber := by
  obtain ⟨hi, rfl⟩ := List.getElem?_eq_some_iff.1 hx
  obtain ⟨hj, rfl⟩ := List.getElem?_eq_some_iff.1 hy
  have hlt := List.pairwise_iff_getElem.1 hs i j (by simpa using hi) (by simpa using hj) hij
  rwa [List.getElem_map, List.getElem_map] at hlt

theorem isBefore_mono (hs : h.Sorted) (first : ℤ) (i j : ℕ) (hij : i ≤ j)
    (hj : h.isBefore first j = true) : h.isBefore first i = true := by
  rcases hij.lt_or_eq with hij | rfl
  · rw [isBefore] at hj ⊢
    split at hj
    next y hy =>
      have hi : i < h.changes.length := hij.trans (List.getElem?_eq_some_iff.1 hy).1
      rw [List.getElem?_eq_getElem hi]
      have hlt := sn_lt hs hij (List.getElem?_eq_getElem hi) hy
      exact decide_eq_true (hlt.trans (of_decide_eq_true hj))
    next => cases hj
  · exact hj

/-- In a sorted history, the bisection finds a change of the range if there is one. -/
theorem hasWriterChangeIn_iff (hs : h.Sorted) (first last : ℤ) :
    h.hasWriterChangeIn first last = true ↔
      ∃ ch ∈ h.changes, first ≤ ch.sequenceNumber ∧ ch.sequenceNumber ≤ last := by
  have hmono := isBefore_mono hs first
  unfold hasWriterChangeIn
  split
  next hlast =>
    refine ⟨fun h => (nomatch h), ?_⟩
    rintro ⟨ch, -, hf, hl⟩
    exact absurd hlast (not_lt.2 (hf.trans hl))
  next =>
    constructor
    · intro hin
      split at hin
      next ch hch =>
        have hfails := fails_of_bisect_le hmono le_rfl (List.getElem?_eq_some_iff.1 hch).1
        rw [isBefore, hch] at hfails
        exact ⟨ch, List.mem_of_getElem? hch, not_lt.1 (of_decide_eq_false hfails),
          of_decide_eq_true hin⟩
      next => cases hin
    · rintro ⟨ch, hmem, hf, hl⟩
      obtain ⟨i, hi⟩ := List.mem_iff_getElem?.1 hmem
      -- the place found is not behind that of the change
      have hle : bisect (h.isBefore first) 0 h.changes.length ≤ i := by
        refine not_lt.1 fun hi' => ?_
        have hp := passes_of_lt_bisect hmono (Nat.zero_le i) hi'
        rw [isBefore, hi] at hp
        exact absurd (of_decide_eq_true hp) (not_lt.2 hf)
      rcases hle.lt_or_eq with hlt | heq
      · have hlen := hlt.trans (List.getElem?_eq_some_iff.1 hi).1
        rw [List.getElem?_eq_getElem hlen]
        exact decide_eq_true ((sn_lt hs hlt (List.getElem?_eq_getElem hlen) hi).le.trans hl)
      · rw [heq, hi]
        exact decide_eq_true hl

/-! ### Making way -/

variable {ih ih' : InstanceHandle} {changes : List CacheChange}

/-- The changes of an instance. -/
def ofInstance (ih : InstanceHandle) (changes : List CacheChange) : List CacheChange :=
  changes.filter fun ch => ch.instanceHandle = ih

theorem ofInstance_evictOldest_same (n : ℕ) :
    ofInstance ih (HistoryCache.evictOldest ih n changes) = (ofInstance ih changes).drop n := by
  induction changes generalizing n with
  | nil => cases n <;> simp [HistoryCache.evictOldest, ofInstance]
  | cons ch changes ih' =>
    cases n with
    | zero => rw [HistoryCache.evictOldest, List.drop_zero]
    | succ n =>
      rw [HistoryCache.evictOldest]
      split
      next he => rw [ih', ofInstance, ofInstance, List.filter_cons_of_pos (by simpa using he)]; rfl
      next hne =>
        have hcons : ∀ l, ofInstance ih (ch :: l) = ofInstance ih l := fun l =>
          List.filter_cons_of_neg (by simpa using hne)
        rw [hcons, hcons, ih']

theorem ofInstance_evictOldest_ne (hne : ih' ≠ ih) (n : ℕ) :
    ofInstance ih' (HistoryCache.evictOldest ih n changes) = ofInstance ih' changes := by
  induction changes generalizing n with
  | nil => cases n <;> rfl
  | cons ch changes hind =>
    cases n with
    | zero => rw [HistoryCache.evictOldest]
    | succ n =>
      rw [HistoryCache.evictOldest]
      split
      next he =>
        have hskip : ¬ch.instanceHandle = ih' := fun h => hne (h.symm.trans he)
        rw [hind, ofInstance, ofInstance, List.filter_cons_of_neg (by simpa using hskip)]
      next =>
        have hrest := hind (n + 1)
        rw [ofInstance, ofInstance] at hrest
        rw [ofInstance, ofInstance, List.filter_cons, List.filter_cons, hrest]

theorem evictOldest_length {n : ℕ} (hn : n ≤ (ofInstance ih changes).length) :
    (HistoryCache.evictOldest ih n changes).length + n = changes.length := by
  induction changes generalizing n with
  | nil =>
    rw [ofInstance, List.filter_nil, List.length_nil] at hn
    obtain rfl := Nat.le_zero.1 hn
    rfl
  | cons ch changes hind =>
    cases n with
    | zero => rfl
    | succ n =>
      rw [HistoryCache.evictOldest]
      split
      next he =>
        rw [ofInstance, List.filter_cons_of_pos (by simpa using he), List.length_cons] at hn
        have := hind (Nat.le_of_succ_le_succ hn)
        rw [List.length_cons]
        omega
      next hne =>
        rw [ofInstance, List.filter_cons_of_neg (by simpa using hne)] at hn
        have := hind hn
        rw [List.length_cons, List.length_cons]
        omega

/-- How many changes of an instance make way for one more of it. -/
def excess (c : HistoryCache) (ih : InstanceHandle) : ℕ :=
  if c.kind = .keepLast ∧ c.depth ≠ 0 then (ofInstance ih c.changes).length + 1 - c.depth else 0

theorem trimmed_changes : (h.trimmed ih).changes =
    HistoryCache.evictOldest ih (excess h.cache ih) h.changes := by
  have hcount : h.cache.changes.countP (fun ch => ch.instanceHandle = ih) =
      (ofInstance ih h.cache.changes).length := List.countP_eq_length_filter
  unfold trimmed HistoryCache.trimForKeepLast excess
  dsimp only
  split
  next =>
    rw [hcount]
    rfl
  next =>
    rw [HistoryCache.evictOldest]
    rfl

theorem trimmed_rest (h : WriterHistory) (ih : InstanceHandle) :
    (h.trimmed ih).kind = h.cache.kind ∧ (h.trimmed ih).depth = h.cache.depth ∧
    (h.trimmed ih).nextSn = h.cache.nextSn + 1 := by
  unfold trimmed HistoryCache.trimForKeepLast
  dsimp only
  split <;> exact ⟨rfl, rfl, rfl⟩

/-- What a change added to a history with room for it does. -/
theorem addOwnedLocked_spec (ha : h.addOwnedLocked guid s = some (sn, h')) :
    sn = h.cache.nextSn ∧ h'.cache.nextSn = sn + 1 ∧ h'.cache.kind = h.cache.kind ∧
    h'.cache.depth = h.cache.depth ∧ h'.reserved = h.reserved ∧ h'.capacity = h.capacity ∧
    h'.changes = HistoryCache.evictOldest s.instanceHandle (excess h.cache s.instanceHandle)
      h.changes ++ [newChange guid s sn] := by
  obtain ⟨hkind, hdepth, hnext⟩ := trimmed_rest h s.instanceHandle
  rw [addOwnedLocked] at ha
  split at ha
  · obtain ⟨rfl, rfl⟩ := Prod.mk.inj (Option.some.inj ha)
    exact ⟨rfl, hnext, hkind, hdepth, rfl, rfl, congrArg (· ++ [_]) trimmed_changes⟩
  · cases ha

theorem excess_le : excess h.cache ih ≤ (ofInstance ih h.changes).length := by
  unfold excess
  split
  next hk =>
    have hpos := Nat.pos_of_ne_zero hk.2
    have hcount : (ofInstance ih h.cache.changes).length = (ofInstance ih h.changes).length := rfl
    omega
  next => exact Nat.zero_le _

theorem evicted_length (h : WriterHistory) (ih : InstanceHandle) :
    (HistoryCache.evictOldest ih (excess h.cache ih) h.changes).length +
    excess h.cache ih = h.changes.length := evictOldest_length excess_le

theorem isSome_addOwnedLocked (guid : Guid)
    (hroom : h.changes.length < h.capacity + excess h.cache s.instanceHandle) :
    (h.addOwnedLocked guid s).isSome := by
  have hlen := evicted_length h s.instanceHandle
  rw [addOwnedLocked, if_pos]
  · rfl
  · rw [trimmed_changes]
    omega

theorem makeRoom_spec (hm : h.makeRoom mem = some h') : h'.cache = h.cache ∧
    h'.reserved = h.reserved ∧ h.changes.length + h.reserved + 1 ≤ h'.capacity := by
  unfold makeRoom ensureTotalCapacity at hm
  split at hm
  · obtain ⟨got, hgot, rfl⟩ := Option.map_eq_some_iff.1 hm
    exact ⟨rfl, rfl, Memory.le_of_ensure hgot⟩
  · cases hm

theorem reserve_spec {n : ℕ} (hm : h.reserve mem n = some h') : h'.cache = h.cache ∧
    h'.reserved = h.reserved + n ∧ h.changes.length + h.reserved + n ≤ h'.capacity := by
  obtain ⟨h₁, he, rfl⟩ := Option.map_eq_some_iff.1 hm
  obtain ⟨got, hgot, rfl⟩ := Option.map_eq_some_iff.1 he
  exact ⟨rfl, rfl, Memory.le_of_ensure hgot⟩

/-! ### Runs -/

inductive HistoryOp where
  | addWriterChange (guid : Guid) (s : Sample) (mem : Memory)
  | reserve (n : ℕ) (mem : Memory)
  | release (n : ℕ)
  | addReservedWriterChange (guid : Guid) (s : Sample) (usesReservation : Bool)
  | allocSn
  | removeChange (sn : ℤ)
  | removeWriterChangesUpTo (upToSn : ℤ)

/-- A history, the numbers it gave out, in their order, and the changes that were added and not
removed since; what KEEP_LAST made way of is still among these. -/
structure HistoryRun where
  history : WriterHistory
  given : List ℤ := []
  unremoved : List CacheChange := []

namespace HistoryRun

def init (kind : HistoryKind) (depth : ℕ) : HistoryRun := { history := .init kind depth }

/-- The run after a change was added. -/
def added (r : HistoryRun) (guid : Guid) (s : Sample) : ℤ × WriterHistory → HistoryRun
  | (sn, h) =>
    { history := h
      given := r.given ++ [sn]
      unremoved := r.unremoved ++ [newChange guid s sn] }

/-- One call.  One that cannot allocate changes nothing. -/
def step (r : HistoryRun) : HistoryOp → Option HistoryRun
  | .addWriterChange guid s mem =>
    match r.history.makeRoom mem with
    | none => some r
    | some h => (h.addOwnedLocked guid s).map (r.added guid s)
  | .reserve n mem =>
    match r.history.reserve mem n with
    | none => some r
    | some h => some { r with history := h }
  | .release n => (r.history.release n).map fun h => { r with history := h }
  | .addReservedWriterChange guid s usesReservation =>
    (r.history.addReservedWriterChange guid s usesReservation).map (r.added guid s)
  | .allocSn =>
    some { r with history := r.history.allocSn.2, given := r.given ++ [r.history.allocSn.1] }
  | .removeChange sn =>
    some { r with
      history := r.history.removeChange sn
      unremoved := r.unremoved.filter fun ch => ch.sequenceNumber != sn }
  | .removeWriterChangesUpTo upToSn =>
    some { r with
      history := r.history.removeWriterChangesUpTo upToSn
      unremoved := r.unremoved.filter fun ch => upToSn < ch.sequenceNumber }

/-- What a call asks of its caller: only what was reserved is used or given back, and a change
without a reservation replaces one of its instance under KEEP_LAST 1. -/
def Permitted (r : HistoryRun) : HistoryOp → Prop
  | .release n => n ≤ r.history.reserved
  | .addReservedWriterChange _ _ true => 0 < r.history.reserved
  | .addReservedWriterChange _ s false =>
    r.history.cache.kind = .keepLast ∧ r.history.cache.depth = 1 ∧
      ofInstance s.instanceHandle r.history.changes ≠ []
  | _ => True

instance (r : HistoryRun) : ∀ op, Decidable (r.Permitted op)
  | .addWriterChange _ _ _ => .isTrue trivial
  | .reserve _ _ => .isTrue trivial
  | .release n => inferInstanceAs (Decidable (n ≤ r.history.reserved))
  | .addReservedWriterChange _ _ true => inferInstanceAs (Decidable (0 < r.history.reserved))
  | .addReservedWriterChange _ s false =>
    inferInstanceAs (Decidable (r.history.cache.kind = .keepLast ∧ r.history.cache.depth = 1 ∧
      ofInstance s.instanceHandle r.history.changes ≠ []))
  | .allocSn => .isTrue trivial
  | .removeChange _ => .isTrue trivial
  | .removeWriterChangesUpTo _ => .isTrue trivial

/-- What holds of a history throughout. -/
structure Sound (r : HistoryRun) : Prop where
  sorted : r.history.Sorted
  /-- No number is given out twice. -/
  given_sorted : r.given.Pairwise (· < ·)
  given_lt : ∀ sn ∈ r.given, sn < r.history.cache.nextSn
  mem_given : ∀ ch ∈ r.history.changes, ch.sequenceNumber ∈ r.given
  /-- KEEP_LAST keeps at most `depth` changes of an instance, ... -/
  depth_bound : r.history.cache.kind = .keepLast → r.history.cache.depth ≠ 0 ∧
    ∀ ih, (ofInstance ih r.history.changes).length ≤ r.history.cache.depth
  /-- ... the last of those that were not removed. -/
  newest : ∀ ih, ofInstance ih r.history.changes <:+ ofInstance ih r.unremoved
  room : r.history.changes.length + r.history.reserved ≤ r.history.capacity

variable {r r' : HistoryRun} {op : HistoryOp}

theorem sound_init (kind : HistoryKind) (depth : ℕ) : (init kind depth).Sound where
  sorted := .nil
  given_sorted := .nil
  given_lt := fun _ hsn => nomatch hsn
  mem_given := fun _ hch => nomatch hch
  depth_bound := by
    intro hk
    have hk' : kind = .keepLast := hk
    refine ⟨?_, fun ih => Nat.zero_le _⟩
    change (if kind = .keepLast ∧ depth = 0 then 1 else depth) ≠ 0
    split_ifs with h
    · exact one_ne_zero
    · exact fun h0 => h ⟨hk', h0⟩
  newest := fun _ => List.suffix_rfl
  room := le_rfl

/-- What changes only the room is sound where the room is enough. -/
theorem Sound.withRoom (hs : r.Sound) {h : WriterHistory} (hc : h.cache = r.history.cache)
    (hroom : h.changes.length + h.reserved ≤ h.capacity) : { r with history := h }.Sound := by
  have hch : h.changes = r.history.changes := congrArg HistoryCache.changes hc
  refine ⟨?_, hs.given_sorted, ?_, ?_, ?_, ?_, hroom⟩
  · rw [Sorted, hch]
    exact hs.sorted
  · rw [hc]
    exact hs.given_lt
  · rw [hch]
    exact hs.mem_given
  · rw [hc, hch]
    exact hs.depth_bound
  · rw [hch]
    exact hs.newest

/-- A number given out is above all before it. -/
theorem Sound.given_append (hs : r.Sound) :
    (r.given ++ [r.history.cache.nextSn]).Pairwise (· < ·) := by
  rw [List.pairwise_append]
  refine ⟨hs.given_sorted, List.pairwise_singleton _ _, fun sn hsn x hx => ?_⟩
  rw [List.mem_singleton.1 hx]
  exact hs.given_lt sn hsn

theorem Sound.given_append_lt (hs : r.Sound) :
    ∀ sn ∈ r.given ++ [r.history.cache.nextSn], sn < r.history.cache.nextSn + 1 := by
  intro sn hsn
  rcases List.mem_append.1 hsn with hsn | hsn
  · exact (hs.given_lt sn hsn).trans (lt_add_one _)
  · rw [List.mem_singleton.1 hsn]
    exact lt_add_one _

theorem Sound.sn_lt (hs : r.Sound) {ch : CacheChange} (hch : ch ∈ r.history.changes) :
    ch.sequenceNumber < r.history.cache.nextSn := hs.given_lt _ (hs.mem_given ch hch)

theorem ofInstance_append_same {l : List CacheChange} :
    ofInstance s.instanceHandle (l ++ [newChange guid s sn]) =
      ofInstance s.instanceHandle l ++ [newChange guid s sn] := by
  simp [ofInstance, newChange]

theorem ofInstance_append_ne {l : List CacheChange} (hne : ih ≠ s.instanceHandle) :
    ofInstance ih (l ++ [newChange guid s sn]) = ofInstance ih l := by
  rw [ofInstance, List.filter_append,
    List.filter_cons_of_neg (fun h => hne (of_decide_eq_true h).symm), List.filter_nil,
    List.append_nil]
  rfl

/-- What KEEP_LAST leaves of an instance has place for one more change. -/
theorem length_drop_excess {c : HistoryCache} (hk : c.kind = .keepLast) (hd : c.depth ≠ 0) :
    ((ofInstance ih c.changes).drop (excess c ih)).length + 1 ≤ c.depth := by
  rw [List.length_drop, excess, if_pos ⟨hk, hd⟩]
  omega

theorem suffix_append_one {l l' : List CacheChange} (ch : CacheChange) (hl : l <:+ l') :
    l ++ [ch] <:+ l' ++ [ch] := by
  obtain ⟨t, rfl⟩ := hl
  exact ⟨t, (List.append_assoc t l [ch]).symm⟩

/-- A change is added where there is room for it besides what is reserved, or one makes way. -/
theorem Sound.added (hs : r.Sound) {h : WriterHistory} {p : ℤ × WriterHistory}
    (hc : h.cache = r.history.cache)
    (hroom : h.changes.length + h.reserved < h.capacity + excess h.cache s.instanceHandle)
    (ha : h.addOwnedLocked guid s = some p) : (r.added guid s p).Sound := by
  obtain ⟨sn, h'⟩ := p
  obtain ⟨hsn, hnext, hkind, hdepth, hres, hcap, hch⟩ := addOwnedLocked_spec ha
  have hlen := evicted_length h s.instanceHandle
  have hold : h.changes = r.history.changes := congrArg HistoryCache.changes hc
  rw [hc] at hsn hch hkind hdepth hlen hroom
  rw [hold] at hch hlen hroom
  have hsub := HistoryCache.evictOldest_sublist s.instanceHandle
    (excess r.history.cache s.instanceHandle) r.history.changes
  subst hsn
  constructor
  · change (h'.changes.map (·.sequenceNumber)).Pairwise (· < ·)
    rw [hch, List.map_append, List.pairwise_append]
    refine ⟨hs.sorted.sublist (hsub.map _), List.pairwise_singleton _ _, ?_⟩
    intro a ha b hb
    obtain ⟨ch, hm, rfl⟩ := List.mem_map.1 ha
    rw [List.map_singleton, List.mem_singleton] at hb
    subst hb
    exact hs.sn_lt (hsub.subset hm)
  · exact hs.given_append
  · change ∀ sn ∈ r.given ++ [r.history.cache.nextSn], sn < h'.cache.nextSn
    rw [hnext]
    exact hs.given_append_lt
  · intro ch hm
    change ch ∈ h'.changes at hm
    rw [hch] at hm
    rcases List.mem_append.1 hm with hm | hm
    · exact List.mem_append_left _ (hs.mem_given ch (hsub.subset hm))
    · rw [List.mem_singleton.1 hm]
      exact List.mem_append_right _ (List.mem_singleton.2 rfl)
  · change h'.cache.kind = .keepLast → h'.cache.depth ≠ 0 ∧
      ∀ ih, (ofInstance ih h'.changes).length ≤ h'.cache.depth
    rw [hkind, hdepth, hch]
    intro hk
    obtain ⟨hd, hbound⟩ := hs.depth_bound hk
    refine ⟨hd, fun ih => ?_⟩
    rcases eq_or_ne ih s.instanceHandle with rfl | hne
    · rw [ofInstance_append_same, ofInstance_evictOldest_same, List.length_append]
      exact length_drop_excess hk hd
    · rw [ofInstance_append_ne hne, ofInstance_evictOldest_ne hne]
      exact hbound ih
  · intro ih
    change ofInstance ih h'.changes <:+
      ofInstance ih (r.unremoved ++ [newChange guid s r.history.cache.nextSn])
    rw [hch]
    rcases eq_or_ne ih s.instanceHandle with rfl | hne
    · rw [ofInstance_append_same, ofInstance_append_same, ofInstance_evictOldest_same]
      exact suffix_append_one _ ((List.drop_suffix _ _).trans (hs.newest _))
    · rw [ofInstance_append_ne hne, ofInstance_append_ne hne, ofInstance_evictOldest_ne hne]
      exact hs.newest ih
  · change h'.changes.length + h'.reserved ≤ h'.capacity
    rw [hch, hres, hcap, List.length_append, List.length_singleton]
    omega

/-- Removal by number keeps what is not removed, in the cache as among the changes not removed. -/
theorem Sound.removed (hs : r.Sound) {h : WriterHistory} {p : CacheChange → Bool}
    (hch : h.changes = r.history.changes.filter p) (hc : h.cache = { r.history.cache with
      changes := h.changes }) (hres : h.reserved = r.history.reserved)
    (hcap : h.capacity = r.history.capacity) :
    { r with history := h, unremoved := r.unremoved.filter p }.Sound := by
  have hsub : h.changes.Sublist r.history.changes := hch ▸ List.filter_sublist
  have hswap : ∀ (ih : InstanceHandle) (l : List CacheChange),
      ofInstance ih (l.filter p) = (ofInstance ih l).filter p := by
    intro ih l
    rw [ofInstance, ofInstance, List.filter_filter, List.filter_filter]
    simp only [Bool.and_comm]
  constructor
  · exact hs.sorted.sublist (hsub.map _)
  · exact hs.given_sorted
  · change ∀ sn ∈ r.given, sn < h.cache.nextSn
    rw [hc]
    exact hs.given_lt
  · exact fun ch hm => hs.mem_given ch (hsub.subset hm)
  · change h.cache.kind = .keepLast → h.cache.depth ≠ 0 ∧
      ∀ ih, (ofInstance ih h.changes).length ≤ h.cache.depth
    intro hk
    rw [hc] at hk
    obtain ⟨hd, hbound⟩ := hs.depth_bound hk
    have hdepth : h.cache.depth = r.history.cache.depth := by rw [hc]
    rw [hdepth]
    exact ⟨hd, fun ih => ((hsub.filter _).length_le).trans (hbound ih)⟩
  · intro ih
    change ofInstance ih h.changes <:+ ofInstance ih (r.unremoved.filter p)
    rw [hch, hswap, hswap]
    exact (hs.newest ih).filter p
  · change h.changes.length + h.reserved ≤ h.capacity
    rw [hres, hcap]
    exact (Nat.add_le_add_right hsub.length_le _).trans hs.room

/-- Of a sorted history only one change has a number. -/
theorem eraseP_eq_filter {l : List CacheChange} {sn : ℤ}
    (hl : (l.map (·.sequenceNumber)).Pairwise (· < ·)) :
    l.eraseP (fun ch => ch.sequenceNumber == sn) = l.filter fun ch => ch.sequenceNumber != sn := by
  induction l with
  | nil => rfl
  | cons ch l ih =>
    rw [List.map_cons, List.pairwise_cons] at hl
    by_cases he : ch.sequenceNumber = sn
    · have hrest : l.filter (fun ch => ch.sequenceNumber != sn) = l := by
        refine List.filter_eq_self.2 fun x hx => bne_iff_ne.2 fun hsn => ?_
        have hlt := hl.1 _ (List.mem_map_of_mem hx)
        exact absurd (he.trans hsn.symm) hlt.ne
      rw [List.eraseP_cons_of_pos (by simpa using he), List.filter_cons_of_neg (by simpa using he),
        hrest]
    · rw [List.eraseP_cons_of_neg (by simpa using he), List.filter_cons_of_pos (by simpa using he),
        ih hl.2]

/-- In a sorted history the changes up to a number are a prefix. -/
theorem dropWhile_eq_filter {l : List CacheChange} {upToSn : ℤ}
    (hl : (l.map (·.sequenceNumber)).Pairwise (· < ·)) :
    l.dropWhile (fun ch => ch.sequenceNumber ≤ upToSn) =
      l.filter fun ch => upToSn < ch.sequenceNumber := by
  induction l with
  | nil => rfl
  | cons ch l ih =>
    rw [List.map_cons, List.pairwise_cons] at hl
    by_cases hle : ch.sequenceNumber ≤ upToSn
    · rw [List.dropWhile_cons_of_pos (by simpa using hle),
        List.filter_cons_of_neg (by simpa using hle), ih hl.2]
    · have hrest : l.filter (fun ch => upToSn < ch.sequenceNumber) = l := by
        refine List.filter_eq_self.2 fun x hx => decide_eq_true ?_
        exact (not_le.1 hle).trans (hl.1 _ (List.mem_map_of_mem hx))
      rw [List.dropWhile_cons_of_neg (by simpa using hle),
        List.filter_cons_of_pos (by simpa using hle), hrest]

/-- There is room for a change that uses a reservation, or replaces one of its instance. -/
theorem Sound.reserved_room (hs : r.Sound) {usesReservation : Bool}
    (hok : r.Permitted (.addReservedWriterChange guid s usesReservation)) :
    ∃ h : WriterHistory, h.cache = r.history.cache ∧
      r.history.addReservedWriterChange guid s usesReservation = h.addOwnedLocked guid s ∧
      h.changes.length + h.reserved < h.capacity + excess h.cache s.instanceHandle := by
  have hroom := hs.room
  cases usesReservation with
  | true =>
    have hpos : 0 < r.history.reserved := hok
    have hrel : r.history.release 1 =
        some { r.history with reserved := r.history.reserved - 1 } := if_pos hpos
    refine ⟨{ r.history with reserved := r.history.reserved - 1 }, rfl, ?_, ?_⟩
    · rw [addReservedWriterChange, if_pos rfl, hrel, Option.bind_some]
    · change r.history.changes.length + (r.history.reserved - 1) < r.history.capacity + _
      omega
  | false =>
    obtain ⟨hk, hd, hne⟩ := hok
    have hpos := List.length_pos_of_ne_nil hne
    refine ⟨r.history, rfl, rfl, ?_⟩
    rw [excess, if_pos ⟨hk, hd ▸ one_ne_zero⟩, hd]
    change r.history.changes.length + r.history.reserved < r.history.capacity +
      ((ofInstance s.instanceHandle r.history.changes).length + 1 - 1)
    omega

theorem Sound.step (hs : r.Sound) (hok : r.Permitted op) (h : r.step op = some r') : r'.Sound := by
  cases op with
  | addWriterChange guid s mem =>
    rw [HistoryRun.step] at h
    split at h
    next =>
      cases h
      exact hs
    next h₁ hm =>
      obtain ⟨p, hp, rfl⟩ := Option.map_eq_some_iff.1 h
      obtain ⟨hc, hres, hcap⟩ := makeRoom_spec hm
      refine hs.added hc ?_ hp
      rw [hres, show h₁.changes = r.history.changes from congrArg HistoryCache.changes hc]
      omega
  | reserve n mem =>
    rw [HistoryRun.step] at h
    split at h
    next =>
      cases h
      exact hs
    next h₁ hm =>
      cases h
      obtain ⟨hc, hres, hcap⟩ := reserve_spec hm
      refine hs.withRoom hc ?_
      rw [hres, show h₁.changes = r.history.changes from congrArg HistoryCache.changes hc,
        ← Nat.add_assoc]
      exact hcap
  | release n =>
    obtain ⟨h₁, hrel, rfl⟩ := Option.map_eq_some_iff.1 h
    rw [WriterHistory.release] at hrel
    split at hrel
    · cases hrel
      have hroom := hs.room
      refine hs.withRoom rfl ?_
      change r.history.changes.length + (r.history.reserved - n) ≤ r.history.capacity
      omega
    · cases hrel
  | addReservedWriterChange guid s usesReservation =>
    obtain ⟨p, hp, rfl⟩ := Option.map_eq_some_iff.1 h
    obtain ⟨h₁, hc, he, hroom⟩ := hs.reserved_room hok
    rw [he] at hp
    exact hs.added hc hroom hp
  | allocSn =>
    cases h
    refine ⟨hs.sorted, hs.given_append, hs.given_append_lt, ?_, hs.depth_bound, hs.newest, hs.room⟩
    exact fun ch hch => List.mem_append_left _ (hs.mem_given ch hch)
  | removeChange sn =>
    cases h
    exact hs.removed (eraseP_eq_filter hs.sorted) rfl rfl rfl
  | removeWriterChangesUpTo upToSn =>
    cases h
    exact hs.removed (dropWhile_eq_filter hs.sorted) rfl rfl rfl

/-- A permitted call never panics: there is room for what is appended, and no more is given back
than was reserved. -/
theorem Sound.isSome_step (hs : r.Sound) (hok : r.Permitted op) : (r.step op).isSome := by
  cases op with
  | addWriterChange guid s mem =>
    rw [HistoryRun.step]
    split
    next => rfl
    next h₁ hm =>
      obtain ⟨hc, hres, hcap⟩ := makeRoom_spec hm
      rw [Option.isSome_map]
      refine isSome_addOwnedLocked _ ?_
      rw [show h₁.changes = r.history.changes from congrArg HistoryCache.changes hc]
      omega
  | reserve n mem =>
    rw [HistoryRun.step]
    split <;> rfl
  | release n =>
    have hle : n ≤ r.history.reserved := hok
    rw [HistoryRun.step, WriterHistory.release, if_pos hle]
    rfl
  | addReservedWriterChange guid s usesReservation =>
    obtain ⟨h₁, hc, he, hroom⟩ := hs.reserved_room hok
    rw [HistoryRun.step, he, Option.isSome_map]
    exact isSome_addOwnedLocked _ (by omega)
  | allocSn => rfl
  | removeChange sn => rfl
  | removeWriterChangesUpTo upToSn => rfl

/-- **The history of a writer.**  After any calls that keep to what is asked of the caller, the
history is sound, the next such call does not panic, and the search for a change of a range finds
one if there is one. -/
theorem writer_history (kind : HistoryKind) (depth : ℕ) {ops : List HistoryOp}
    (hrun : Run HistoryRun.step Permitted (init kind depth) ops r) :
    r.Sound ∧ (∀ op, r.Permitted op → (r.step op).isSome) ∧
      ∀ first last, r.history.hasWriterChangeIn first last = true ↔
        ∃ ch ∈ r.history.changes, first ≤ ch.sequenceNumber ∧ ch.sequenceNumber ≤ last := by
  have hs : r.Sound :=
    hrun.inv (sound_init kind depth) fun _ _ _ hi hok hstep => hi.step hok hstep
  exact ⟨hs, fun _ hok => hs.isSome_step hok, hasWriterChangeIn_iff hs.sorted⟩

/-- Room for one change is reserved and used, the change is replaced, and a number is taken. -/
theorem writer_history_replaced :
    let guid : Guid := ⟨GuidPrefix.unknown, EntityId.unknown⟩
    let s : Sample := ⟨.alive, ⟨0, 0⟩, INSTANCE_HANDLE_NIL, Bytes.zeroes 16, [1]⟩
    let mem := Memory.ample
    ∃ r, Run HistoryRun.step Permitted (init .keepLast 1)
        [.reserve 1 mem, .addReservedWriterChange guid s true,
          .addReservedWriterChange guid s false, .allocSn] r ∧
      r.given = [1, 2, 3] ∧ r.Sound ∧ (∀ op, r.Permitted op → (r.step op).isSome) ∧
      ∀ first last, r.history.hasWriterChangeIn first last = true ↔
        ∃ ch ∈ r.history.changes, first ≤ ch.sequenceNumber ∧ ch.sequenceNumber ≤ last := by
  intro guid s mem
  obtain ⟨r, hrun, hgiven⟩ := exists_run_of_exec HistoryRun.step Permitted (init .keepLast 1)
    [.reserve 1 mem, .addReservedWriterChange guid s true,
      .addReservedWriterChange guid s false, .allocSn]
    (show ∃ r, _ = some r ∧ r.given = [1, 2, 3] from ⟨_, rfl, rfl⟩)
  exact ⟨r, hrun, hgiven, writer_history .keepLast 1 hrun⟩

end HistoryRun

end WriterHistory

end Zzdds.Rtps
