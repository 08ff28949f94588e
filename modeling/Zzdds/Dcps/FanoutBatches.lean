import Mathlib.Data.Fintype.Card
import Mathlib.Data.List.Perm.Basic
import Mathlib.Order.Fin.Basic
import Mathlib.Tactic

/-! # Fan-out in batches

Without memory for a list of all readers, data is handed to them in batches in the order of their
keys.  Each batch is selected from the map of the readers, which may change between two batches: the
smallest keys above the last one, kept sorted in a buffer of fixed length while the map is iterated
in any order.  Every key present throughout is visited once, and no key twice. -/

namespace Zzdds.Dcps

/-! ### A batch -/

section Select

variable {κ : Type} [LinearOrder κ]

/-- Write to the buffer, within its bounds. -/
def store (out : List κ) (i : ℕ) (x : κ) : Option (List κ) :=
  if i < out.length then some (out.set i x) else none

/-- Move the keys above `k` up by one; the place that becomes free. -/
def shift (k : κ) : ℕ → List κ → Option (ℕ × List κ)
  | 0, out => some (0, out)
  | i + 1, out => do
    let x ← out[i]?
    if k < x then
      let out ← store out (i + 1) x
      shift k i out
    else some (i + 1, out)

/-- The buffer, how many keys it has, and whether there are more in the map. -/
structure Selection (κ : Type) where
  out : List κ
  len : ℕ := 0
  more : Bool := false
deriving DecidableEq, Repr

def place (k : κ) (s : Selection κ) : Option (Selection κ) := do
  let (i, out) ← shift k s.len s.out
  let out ← store out i k
  some { s with out := out, len := s.len + 1 }

/-- Whether `k` comes after `after`. -/
def eligible (after : Option κ) (k : κ) : Bool := after.all (· < k)

/-- What a key of the map does to the selection. -/
def consider (after : Option κ) (s : Selection κ) (k : κ) : Option (Selection κ) :=
  if !eligible after k then some s
  else if s.len = s.out.length then do
    let last ← s.out[s.len - 1]?
    if last < k then some { s with more := true }
    else place k { s with len := s.len - 1, more := true }
  else place k s

/-- The smallest keys of `map` greater than `after`. -/
def nextFanoutBatch (map : List κ) (after : Option κ) (out : List κ) : Option (Selection κ) :=
  map.foldlM (consider after) { out := out }

variable {k : κ} {l : List κ}

/-- The free place is where `k` belongs among the sorted keys `l`. -/
theorem shift_spec (hsorted : l.Pairwise (· < ·)) (hk : k ∉ l) (y : κ) (rest : List κ) :
    ∃ i out m, shift k l.length (l ++ y :: rest) = some (i, out) ∧
      store out i k = some (m ++ rest) ∧ m.Perm (k :: l) ∧ m.Pairwise (· < ·) := by
  induction l using List.reverseRecOn generalizing y rest with
  | nil => exact ⟨0, y :: rest, [k], rfl, rfl, .refl _, List.pairwise_singleton _ _⟩
  | append_singleton l x ih =>
    obtain ⟨hl, -, hx⟩ := List.pairwise_append.mp hsorted
    have hlt : ∀ a ∈ l, a < x := fun a ha => hx a ha x List.mem_cons_self
    rw [List.mem_append, List.mem_singleton, not_or] at hk
    have hget : (l ++ [x] ++ y :: rest)[l.length]? = some x := by simp
    rw [List.length_append, List.length_singleton, shift, hget, Option.bind_eq_bind,
      Option.bind_some]
    split_ifs with hkx
    · have hstore : store (l ++ [x] ++ y :: rest) (l.length + 1) x =
          some (l ++ x :: x :: rest) := by
        simp [store]
      obtain ⟨i, out, m, hshift, hout, hperm, hm⟩ := ih hl hk.1 x (x :: rest)
      refine ⟨i, out, m ++ [x], ?_, ?_, ?_, ?_⟩
      · rw [hstore, Option.bind_eq_bind, Option.bind_some, hshift]
      · rw [hout, List.append_assoc, List.singleton_append]
      · exact hperm.append_right [x]
      · refine List.pairwise_append.mpr ⟨hm, List.pairwise_singleton _ _, fun a ha b hb => ?_⟩
        rw [List.mem_singleton.mp hb]
        rcases List.mem_cons.mp (hperm.mem_iff.mp ha) with rfl | ha
        · exact hkx
        · exact hlt a ha
    · have hxk : x < k := lt_of_le_of_ne (not_lt.mp hkx) (Ne.symm hk.2)
      refine ⟨l.length + 1, l ++ [x] ++ y :: rest, l ++ [x] ++ [k], rfl, ?_, ?_, ?_⟩
      · simp [store]
      · exact List.perm_append_singleton k (l ++ [x])
      · refine List.pairwise_append.mpr ⟨hsorted, List.pairwise_singleton _ _, fun a ha b hb => ?_⟩
        rw [List.mem_singleton.mp hb]
        rcases List.mem_append.mp ha with ha | ha
        · exact (hlt a ha).trans hxk
        · rw [List.mem_singleton.mp ha]
          exact hxk

theorem place_spec (hsorted : l.Pairwise (· < ·)) (hk : k ∉ l) (y : κ) (rest : List κ)
    (more : Bool) : ∃ m, place k ⟨l ++ y :: rest, l.length, more⟩ =
      some ⟨m ++ rest, l.length + 1, more⟩ ∧ m.Perm (k :: l) ∧ m.Pairwise (· < ·) := by
  obtain ⟨i, out, m, hshift, hstore, hperm, hm⟩ := shift_spec hsorted hk y rest
  refine ⟨m, ?_, hperm, hm⟩
  rw [place, hshift, Option.bind_eq_bind, Option.bind_some]
  dsimp only
  rw [hstore]
  rfl

/-- Of the keys seen, the smallest are chosen; the others are rejected only if the buffer is
full. -/
structure Selected (after : Option κ) (seen : List κ) (s : Selection κ) (chosen rejected : List κ) :
    Prop where
  out : ∃ rest, s.out = chosen ++ rest
  len : s.len = chosen.length
  sorted : chosen.Pairwise (· < ·)
  perm : (chosen ++ rejected).Perm (seen.filter (eligible after))
  lt : ∀ a ∈ chosen, ∀ b ∈ rejected, a < b
  more : s.more = true ↔ rejected ≠ []
  full : rejected ≠ [] → chosen.length = s.out.length

variable {after : Option κ} {seen chosen rejected : List κ} {s : Selection κ}

theorem filter_concat_of_eligible (h : eligible after k = true) :
    (seen ++ [k]).filter (eligible after) = seen.filter (eligible after) ++ [k] := by
  rw [List.filter_append, List.filter_cons_of_pos h, List.filter_nil]

namespace Selected

/-- The key takes a place that is free. -/
theorem take (h : Selected after seen s chosen []) (hk : k ∉ seen)
    (heligible : eligible after k = true) (hroom : chosen.length < s.out.length) :
    ∃ t m, place k s = some t ∧ t.out.length = s.out.length ∧
      Selected after (seen ++ [k]) t m [] := by
  obtain ⟨out, len, more⟩ := s
  obtain ⟨rest, hout⟩ := h.out
  have hlen : len = chosen.length := h.len
  have hmore : more = false := Bool.eq_false_iff.mpr fun hm => h.more.mp hm rfl
  dsimp only at hout hroom
  subst hlen hmore hout
  obtain ⟨y, rest, rfl⟩ : ∃ y ys, rest = y :: ys := by
    refine List.exists_cons_of_ne_nil fun hnil => ?_
    rw [hnil, List.append_nil] at hroom
    exact lt_irrefl _ hroom
  have hperm := h.perm
  rw [List.append_nil] at hperm
  have hnot : k ∉ chosen := fun hmem => hk (List.mem_filter.mp (hperm.mem_iff.mp hmem)).1
  obtain ⟨m, hplace, hm, hsorted⟩ := place_spec h.sorted hnot y rest false
  refine ⟨_, m, hplace, ?_, ⟨rest, rfl⟩, ?_, hsorted, ?_, ?_, ?_, ?_⟩
  · simp only [List.length_append, hm.length_eq, List.length_cons]
    omega
  · rw [hm.length_eq, List.length_cons]
  · rw [List.append_nil, filter_concat_of_eligible heligible]
    exact (hm.trans (hperm.cons k)).trans (List.perm_append_singleton k _).symm
  · exact fun _ _ _ hb => nomatch hb
  · exact ⟨nofun, fun hne => absurd rfl hne⟩
  · exact fun hne => absurd rfl hne

/-- The key takes the place of the greatest one chosen. -/
theorem evict {x : κ} (h : Selected after seen s (chosen ++ [x]) rejected) (hk : k ∉ seen)
    (heligible : eligible after k = true) (hfull : s.len = s.out.length) (hkx : k < x) :
    ∃ t m, place k { s with len := s.len - 1, more := true } = some t ∧
      t.out.length = s.out.length ∧ Selected after (seen ++ [k]) t m (x :: rejected) := by
  obtain ⟨out, len, more⟩ := s
  obtain ⟨rest, hout⟩ := h.out
  have hlen : len = (chosen ++ [x]).length := h.len
  dsimp only at hout hfull
  obtain rfl : rest = [] := by
    simp only [hlen, hout, List.length_append] at hfull
    exact List.length_eq_zero_iff.mp (by omega)
  rw [List.append_nil] at hout
  subst hlen hout
  obtain ⟨hsorted, -, hx⟩ := List.pairwise_append.mp h.sorted
  have hnot : k ∉ chosen := fun hmem =>
    hk (List.mem_filter.mp (h.perm.mem_iff.mp (by simp [hmem]))).1
  obtain ⟨m, hplace, hm, hm'⟩ := place_spec hsorted hnot x [] true
  have hmem {a : κ} (ha : a ∈ m) : a = k ∨ a ∈ chosen := List.mem_cons.mp (hm.mem_iff.mp ha)
  refine ⟨⟨m ++ [], chosen.length + 1, true⟩, m, ?_, ?_, ⟨[], rfl⟩, ?_, hm', ?_, ?_, ?_, ?_⟩
  · rw [List.length_append, List.length_singleton, Nat.add_sub_cancel]
    exact hplace
  · simp [hm.length_eq]
  · rw [hm.length_eq, List.length_cons]
  · rw [filter_concat_of_eligible heligible]
    calc m ++ x :: rejected
      _ |>.Perm (k :: chosen ++ x :: rejected) := hm.append_right _
      _ |>.Perm (chosen ++ x :: rejected ++ [k]) := (List.perm_append_singleton k _).symm
      _ |>.Perm (seen.filter (eligible after) ++ [k]) := by
          have hperm := h.perm
          rw [List.append_assoc, List.singleton_append] at hperm
          exact hperm.append_right [k]
  · intro a ha b hb
    rcases List.mem_cons.mp hb with rfl | hb <;> rcases hmem ha with rfl | ha
    · exact hkx
    · exact hx a ha b List.mem_cons_self
    · exact hkx.trans (h.lt x (by simp) b hb)
    · exact h.lt a (by simp [ha]) b hb
  · exact ⟨fun _ => List.cons_ne_nil _ _, fun _ => rfl⟩
  · simp [hm.length_eq]

/-- The key is above all chosen ones, and there is no place. -/
theorem reject {x : κ} (h : Selected after seen s (chosen ++ [x]) rejected)
    (heligible : eligible after k = true) (hfull : s.len = s.out.length) (hxk : x < k) :
    Selected after (seen ++ [k]) { s with more := true } (chosen ++ [x]) (rejected ++ [k]) where
  out := h.out
  len := h.len
  sorted := h.sorted
  perm := by
    rw [filter_concat_of_eligible heligible, ← List.append_assoc]
    exact h.perm.append_right [k]
  lt a ha b hb := by
    rcases List.mem_append.mp hb with hb | hb
    · exact h.lt a ha b hb
    · rw [List.mem_singleton.mp hb]
      rcases List.mem_append.mp ha with ha | ha
      · have hax := (List.pairwise_append.mp h.sorted).2.2 a ha x List.mem_cons_self
        exact hax.trans hxk
      · rw [List.mem_singleton.mp ha]
        exact hxk
  more := ⟨fun _ => List.append_ne_nil_of_right_ne_nil _ (List.cons_ne_nil _ _), fun _ => rfl⟩
  full _ := h.len.symm.trans hfull

/-- One more key of the map. -/
theorem consider (h : Selected after seen s chosen rejected) (hk : k ∉ seen)
    (hsize : 0 < s.out.length) : ∃ t chosen' rejected', Dcps.consider after s k = some t ∧
      t.out.length = s.out.length ∧ Selected after (seen ++ [k]) t chosen' rejected' := by
  rw [Dcps.consider]
  by_cases heligible : eligible after k = true
  · rw [if_neg (by simp [heligible])]
    split_ifs with hfull
    · obtain ⟨before, x, rfl⟩ : ∃ before x, chosen = before ++ [x] := by
        rcases List.eq_nil_or_concat chosen with rfl | ⟨before, x, rfl⟩
        · rw [h.len, List.length_nil] at hfull
          omega
        · exact ⟨before, x, List.concat_eq_append⟩
      have hlast : s.out[s.len - 1]? = some x := by
        obtain ⟨rest, hout⟩ := h.out
        rw [h.len, hout, List.length_append, List.length_singleton]
        simp
      rw [hlast, Option.bind_eq_bind, Option.bind_some]
      split_ifs with hxk
      · exact ⟨_, _, _, rfl, rfl, h.reject heligible hfull hxk⟩
      · have hne : k ≠ x := by
          rintro rfl
          exact hk (List.mem_filter.mp (h.perm.mem_iff.mp (by simp))).1
        obtain ⟨t, m, hplace, hlength, ht⟩ :=
          h.evict hk heligible hfull (lt_of_le_of_ne (not_lt.mp hxk) hne)
        exact ⟨t, m, _, hplace, hlength, ht⟩
    · have hnil : rejected = [] := by
        by_contra hne
        exact hfull (h.len.trans (h.full hne))
      subst hnil
      obtain ⟨rest, hout⟩ := h.out
      have hroom : chosen.length < s.out.length := by
        refine lt_of_le_of_ne ?_ fun heq => hfull (h.len.trans heq)
        rw [hout, List.length_append]
        exact Nat.le_add_right _ _
      obtain ⟨t, m, hplace, hlength, ht⟩ := h.take hk heligible hroom
      exact ⟨t, m, [], hplace, hlength, ht⟩
  · rw [if_pos (by simp [heligible])]
    refine ⟨s, chosen, rejected, rfl, rfl, { h with perm := ?_ }⟩
    rw [List.filter_append, List.filter_cons_of_neg heligible, List.filter_nil, List.append_nil]
    exact h.perm

end Selected

/-- A batch has the smallest keys after the last one, and all of them unless there are more than
the buffer takes. -/
theorem nextFanoutBatch_spec {map : List κ} (hmap : map.Nodup) {out : List κ}
    (hsize : 0 < out.length) : ∃ s chosen rejected, nextFanoutBatch map after out = some s ∧
      s.out.length = out.length ∧ Selected after map s chosen rejected := by
  rw [nextFanoutBatch]
  induction map using List.reverseRecOn with
  | nil =>
    exact ⟨_, [], [], rfl, rfl, ⟨out, rfl⟩, rfl, List.Pairwise.nil, .refl _,
      fun _ ha => (List.not_mem_nil ha).elim, ⟨nofun, fun h => absurd rfl h⟩,
      fun h => absurd rfl h⟩
  | append_singleton map k ih =>
    obtain ⟨hnodup, -, hk⟩ := List.nodup_append.mp hmap
    obtain ⟨s, chosen, rejected, hfold, hlength, hs⟩ := ih hnodup
    have hnew : k ∉ map := fun hmem => hk k hmem k List.mem_cons_self rfl
    obtain ⟨t, chosen', rejected', hstep, hlength', ht⟩ := hs.consider hnew (hlength ▸ hsize)
    refine ⟨t, chosen', rejected', ?_, hlength'.trans hlength, ht⟩
    rw [List.foldlM_append, hfold, Option.bind_eq_bind, Option.bind_some, List.foldlM_cons, hstep]
    rfl

end Select

/-! ### All batches -/

/-- The key of a reader, a `u32`. -/
abbrev ReaderKey := Fin (2 ^ 32)

/-- Where the fan-out is, and the readers it has gone to. -/
structure FanoutState where
  after : Option ReaderKey := none
  visited : List ReaderKey := []
  finished : Bool := false
deriving DecidableEq, Repr

/-- Hand the data to one batch of readers, each of which must be in the map. -/
def dispatchBatch (map buffer : List ReaderKey) (s : FanoutState) : Option FanoutState := do
  let sel ← nextFanoutBatch map s.after buffer
  let keys := sel.out.take sel.len
  if keys.all (· ∈ map) then
    if sel.more then
      let last ← sel.out[sel.len - 1]?
      some ⟨some last, s.visited ++ keys, false⟩
    else some ⟨s.after, s.visited ++ keys, true⟩
  else none

/-- A fan-out: at each batch, the keys of the map in the order of its iteration, and what the buffer
holds before. -/
structure Fanout where
  size : ℕ
  size_pos : 0 < size
  maps : ℕ → List ReaderKey
  nodup : ∀ i, (maps i).Nodup
  buffers : ℕ → List ReaderKey
  length_buffer : ∀ i, (buffers i).length = size

namespace Fanout

variable (f : Fanout)

/-- The state after some batches; none is made after the last one. -/
def dispatchToReadersBatched : ℕ → Option FanoutState
  | 0 => some {}
  | i + 1 => do
    let s ← dispatchToReadersBatched i
    if s.finished then some s else dispatchBatch (f.maps i) (f.buffers i) s

/-- The readers were visited in order, each from the map of its batch, and all up to `after` that
were there throughout. -/
structure Visits (i : ℕ) (s : FanoutState) : Prop where
  sorted : s.visited.Pairwise (· < ·)
  after : s.finished = false → s.after = s.visited.getLast?
  source : ∀ k ∈ s.visited, ∃ j < i, k ∈ f.maps j
  complete : ∀ k, (∀ j < i, k ∈ f.maps j) → s.finished ∨ eligible s.after k = false → k ∈ s.visited
  progress : s.finished = false → i ≤ s.visited.length

variable {f} {i : ℕ} {s : FanoutState}

theorem visits_zero : f.Visits 0 {} where
  sorted := List.Pairwise.nil
  after _ := rfl
  source _ hk := (List.not_mem_nil hk).elim
  complete _ _ h := h.elim nofun nofun
  progress _ := le_rfl

theorem eligible_eq_false {after : Option ReaderKey} {k : ReaderKey} :
    eligible after k = false ↔ ∃ lo, after = some lo ∧ k ≤ lo := by
  cases after <;> simp [eligible]

/-- What comes after the last key comes after all of them. -/
theorem Visits.lt_of_eligible (h : f.Visits i s) (hs : s.finished = false) {a k : ReaderKey}
    (ha : a ∈ s.visited) (hk : eligible s.after k = true) : a < k := by
  rw [h.after hs] at hk
  have hsorted := h.sorted
  rcases List.eq_nil_or_concat s.visited with hnil | ⟨before, lo, hconcat⟩
  · rw [hnil] at ha
    cases ha
  · rw [hconcat, List.concat_eq_append] at ha hk hsorted
    have hlo : lo < k := by simpa [eligible] using hk
    rcases List.mem_append.mp ha with ha | ha
    · exact ((List.pairwise_append.mp hsorted).2.2 a ha lo List.mem_cons_self).trans hlo
    · rw [List.mem_singleton.mp ha]
      exact hlo

/-- A batch keeps what holds of the visits. -/
theorem Visits.dispatchBatch (h : f.Visits i s) (hs : s.finished = false) :
    ∃ t, Dcps.dispatchBatch (f.maps i) (f.buffers i) s = some t ∧ f.Visits (i + 1) t := by
  have hbuffer := f.length_buffer i
  obtain ⟨sel, chosen, rejected, hsel, hlength, hselected⟩ :
      ∃ sel chosen rejected, nextFanoutBatch (f.maps i) s.after (f.buffers i) = some sel ∧
        sel.out.length = (f.buffers i).length ∧
        Selected s.after (f.maps i) sel chosen rejected :=
    nextFanoutBatch_spec (f.nodup i) (hbuffer ▸ f.size_pos)
  obtain ⟨rest, hout⟩ := hselected.out
  have hkeys : sel.out.take sel.len = chosen := by
    rw [hout, hselected.len, List.take_left]
  have hchosen : ∀ k ∈ chosen, k ∈ f.maps i ∧ eligible s.after k = true := fun k hk =>
    List.mem_filter.mp (hselected.perm.mem_iff.mp (List.mem_append_left _ hk))
  have hall : chosen.all (· ∈ f.maps i) = true :=
    List.all_eq_true.mpr fun k hk => decide_eq_true (hchosen k hk).1
  have hsorted : (s.visited ++ chosen).Pairwise (· < ·) :=
    List.pairwise_append.mpr ⟨h.sorted, hselected.sorted, fun a ha b hb =>
      h.lt_of_eligible hs ha (hchosen b hb).2⟩
  have hsource : ∀ k ∈ s.visited ++ chosen, ∃ j < i + 1, k ∈ f.maps j := by
    intro k hk
    rcases List.mem_append.mp hk with hk | hk
    · obtain ⟨j, hj, hmem⟩ := h.source k hk
      exact ⟨j, Nat.lt_succ_of_lt hj, hmem⟩
    · exact ⟨i, Nat.lt_succ_self i, (hchosen k hk).1⟩
  -- A key that was there throughout was visited, is chosen or is rejected.
  have hthere : ∀ k, (∀ j < i + 1, k ∈ f.maps j) → k ∈ s.visited ++ chosen ∨ k ∈ rejected := by
    intro k hk
    cases hk' : eligible s.after k with
    | true =>
      have hmem := hselected.perm.mem_iff.mpr
        (List.mem_filter.mpr ⟨hk i (Nat.lt_succ_self i), hk'⟩)
      rcases List.mem_append.mp hmem with hmem | hmem
      · exact .inl (List.mem_append_right _ hmem)
      · exact .inr hmem
    | false =>
      exact .inl (List.mem_append_left _
        (h.complete k (fun j hj => hk j (Nat.lt_succ_of_lt hj)) (.inr hk')))
  rw [Dcps.dispatchBatch, hsel, Option.bind_eq_bind, Option.bind_some]
  dsimp only
  rw [hkeys, if_pos hall]
  by_cases hmore : sel.more = true
  · have hfull := hselected.full (hselected.more.mp hmore)
    obtain ⟨before, x, rfl⟩ : ∃ before x, chosen = before ++ [x] := by
      rcases List.eq_nil_or_concat chosen with rfl | ⟨before, x, rfl⟩
      · rw [hlength, hbuffer] at hfull
        exact absurd hfull f.size_pos.ne
      · exact ⟨before, x, List.concat_eq_append⟩
    have hlast : sel.out[sel.len - 1]? = some x := by
      rw [hout, hselected.len, List.length_append, List.length_singleton]
      simp
    rw [if_pos hmore, hlast]
    refine ⟨_, rfl, hsorted, fun _ => ?_, hsource, fun k hk hle => ?_, fun _ => ?_⟩
    · rw [← List.append_assoc, List.getLast?_append, List.getLast?_singleton, Option.some_or]
    · refine (hthere k hk).resolve_right fun hrejected => ?_
      obtain ⟨lo, hlo, hle⟩ := eligible_eq_false.mp (hle.resolve_left nofun)
      cases hlo
      exact absurd (hselected.lt x (by simp) k hrejected) (not_lt.mpr hle)
    · have hprogress := h.progress hs
      simp only [List.length_append, List.length_singleton]
      omega
  · have hnil : rejected = [] := by
      by_contra hne
      exact hmore (hselected.more.mpr hne)
    rw [if_neg hmore]
    refine ⟨_, rfl, hsorted, nofun, hsource, fun k hk _ => ?_, nofun⟩
    exact (hthere k hk).resolve_right (hnil ▸ List.not_mem_nil)

/-- Every number of batches is made without a trap. -/
theorem exists_visits (f : Fanout) (i : ℕ) :
    ∃ s, f.dispatchToReadersBatched i = some s ∧ (s.finished = false → f.Visits i s) := by
  induction i with
  | zero => exact ⟨{}, rfl, fun _ => visits_zero⟩
  | succ i ih =>
    obtain ⟨s, hs, h⟩ := ih
    rw [Fanout.dispatchToReadersBatched, hs, Option.bind_eq_bind, Option.bind_some]
    cases hfinished : s.finished with
    | true =>
      refine ⟨s, if_pos rfl, fun hf => ?_⟩
      cases hfinished.symm.trans hf
    | false =>
      obtain ⟨t, ht, hvisits⟩ := (h hfinished).dispatchBatch hfinished
      exact ⟨t, (if_neg nofun).trans ht, fun _ => hvisits⟩

/-- There are not more batches than keys. -/
theorem exists_finished (f : Fanout) :
    ∃ i s, f.dispatchToReadersBatched i = some s ∧ s.finished = true := by
  obtain ⟨s, hs, h⟩ := f.exists_visits (2 ^ 32 + 1)
  refine ⟨_, s, hs, ?_⟩
  by_contra hfinished
  have hvisits := h (Bool.eq_false_iff.mpr hfinished)
  have hcard := hvisits.sorted.nodup.length_le_card
  have hprogress := hvisits.progress (Bool.eq_false_iff.mpr hfinished)
  rw [Fintype.card_fin] at hcard
  omega

/-- Up to the last batch none was the last, and what holds of the visits holds after it. -/
theorem exists_last (f : Fanout) : ∃ i s, f.dispatchToReadersBatched i = some s ∧
    s.finished = true ∧ f.Visits i s ∧
    ∀ j < i, ∃ t, f.dispatchToReadersBatched j = some t ∧ t.finished = false := by
  classical
  obtain ⟨s, hs, hfinished⟩ := Nat.find_spec f.exists_finished
  have hbefore : ∀ j < Nat.find f.exists_finished,
      ∃ t, f.dispatchToReadersBatched j = some t ∧ t.finished = false := by
    intro j hj
    obtain ⟨t, ht, -⟩ := f.exists_visits j
    exact ⟨t, ht, Bool.eq_false_iff.mpr fun h => Nat.find_min f.exists_finished hj ⟨t, ht, h⟩⟩
  refine ⟨_, s, hs, hfinished, ?_, hbefore⟩
  cases hi : Nat.find f.exists_finished with
  | zero =>
    rw [hi] at hs
    cases hs
    cases hfinished
  | succ j =>
    obtain ⟨t, ht, hnot⟩ := hbefore j (hi ▸ Nat.lt_succ_self j)
    obtain ⟨t', ht', hvisits⟩ := f.exists_visits j
    cases ht.symm.trans ht'
    obtain ⟨s', hs', hvisits'⟩ := (hvisits hnot).dispatchBatch hnot
    have hnext : f.dispatchToReadersBatched (j + 1) = some s' := by
      rw [Fanout.dispatchToReadersBatched, ht, Option.bind_eq_bind, Option.bind_some, hnot]
      exact (if_neg nofun).trans hs'
    rw [hi] at hs
    cases hs.symm.trans hnext
    exact hvisits'

/-- The fan-out ends, after it has visited no reader twice and every reader that was there
throughout once: all of them in order, if the map does not change. -/
theorem visits_once (f : Fanout) : ∃ i s, f.dispatchToReadersBatched i = some s ∧ s.finished ∧
    (∀ j < i, ∃ t, f.dispatchToReadersBatched j = some t ∧ t.finished = false) ∧
    s.visited.Pairwise (· < ·) ∧ s.visited.Nodup ∧
    (∀ k, (∀ j < i, k ∈ f.maps j) → s.visited.count k = 1) ∧
    ∀ keys : List ReaderKey, (∀ j < i, (f.maps j).Perm keys) → s.visited.Perm keys := by
  obtain ⟨i, s, hs, hfinished, hvisits, hbefore⟩ := f.exists_last
  have hnodup : s.visited.Nodup := hvisits.sorted.nodup
  have hmem : ∀ k, (∀ j < i, k ∈ f.maps j) → k ∈ s.visited := fun k hk =>
    hvisits.complete k hk (.inl hfinished)
  refine ⟨i, s, hs, hfinished, hbefore, hvisits.sorted, hnodup,
    fun k hk => List.count_eq_one_of_mem hnodup (hmem k hk), fun keys hkeys => ?_⟩
  have hpos : 0 < i := by
    refine Nat.pos_of_ne_zero fun h0 => ?_
    rw [h0] at hs
    cases hs
    cases hfinished
  have hkeysNodup : keys.Nodup := (hkeys 0 hpos).nodup_iff.mp (f.nodup 0)
  refine (List.perm_ext_iff_of_nodup hnodup hkeysNodup).mpr fun k => ⟨fun hk => ?_, fun hk => ?_⟩
  · obtain ⟨j, hj, hkj⟩ := hvisits.source k hk
    exact (hkeys j hj).mem_iff.mp hkj
  · exact hmem k fun j hj => (hkeys j hj).mem_iff.mpr hk

end Fanout

end Zzdds.Dcps
