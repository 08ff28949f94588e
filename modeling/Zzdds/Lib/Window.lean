import Mathlib.Data.List.Basic
import Mathlib.Data.List.Count
import Mathlib.Data.List.Sublists

/-! # Windows on queues

A window is what a queue held at one time.  From then on the queue may lose entries anywhere and
gain newcomers at its end; `opened` of its first entries are open.  What is left of the window stays
in order before the newcomers, and all of it is open. -/

namespace Zzdds.Lib

variable {α : Type*} [DecidableEq α] {window queue queue' : List α} {opened : ℕ} {p : α → Bool}

/-- What is left of the window is in order, before the newcomers, and open. -/
def Windowed (window queue : List α) (opened : ℕ) : Prop :=
  ∃ old new, queue = old ++ new ∧ old.Sublist window ∧ (∀ a ∈ new, a ∉ window) ∧
    old.length ≤ opened

namespace Windowed

theorem start (l : List α) : Windowed l l l.length :=
  ⟨l, [], (List.append_nil l).symm, .refl l, fun _ ha => (nomatch ha), le_rfl⟩

/-- Entries are lost anywhere. -/
theorem sublist (h : Windowed window queue opened) (hs : queue'.Sublist queue) :
    Windowed window queue' opened := by
  obtain ⟨old, new, rfl, hold, hnew, hlen⟩ := h
  obtain ⟨old', new', rfl, hold', hnew'⟩ := List.sublist_append_iff.1 hs
  exact ⟨old', new', rfl, hold'.trans hold, fun a ha => hnew a (hnew'.subset ha),
    hold'.length_le.trans hlen⟩

/-- Newcomers join at the end. -/
theorem append (h : Windowed window queue opened) {l : List α} (hl : ∀ a ∈ l, a ∉ window) :
    Windowed window (queue ++ l) opened := by
  obtain ⟨old, new, rfl, hold, hnew, hlen⟩ := h
  refine ⟨old, new ++ l, List.append_assoc .., hold, fun a ha => ?_, hlen⟩
  rcases List.mem_append.1 ha with ha | ha
  · exact hnew a ha
  · exact hl a ha

/-- The first entry leaves through the window. -/
theorem serve {a : α} (h : Windowed window (a :: queue) (opened + 1)) :
    Windowed window queue opened := by
  obtain ⟨old, new, heq, hold, hnew, hlen⟩ := h
  cases old with
  | nil =>
    rw [List.nil_append] at heq
    subst heq
    exact ⟨[], queue, rfl, List.nil_sublist _, fun b hb => hnew b (List.mem_cons_of_mem a hb),
      Nat.zero_le _⟩
  | cons b old =>
    obtain ⟨rfl, rfl⟩ := List.cons.inj heq
    exact ⟨old, new, rfl, (List.sublist_cons_self _ _).trans hold, hnew,
      Nat.le_of_succ_le_succ hlen⟩

theorem filter_mem {old new : List α} (hold : old.Sublist window) (hnew : ∀ a ∈ new, a ∉ window) :
    (old ++ new).filter (· ∈ window) = old := by
  rw [List.filter_append, List.filter_eq_self.2 fun a ha => decide_eq_true (hold.subset ha),
    List.filter_eq_nil_iff.2 fun a ha => by simpa using hnew a ha, List.append_nil]

/-- What is left of a window is in the window's order. -/
theorem left_sublist (h : Windowed window queue opened) :
    (queue.filter (· ∈ window)).Sublist window := by
  obtain ⟨old, new, rfl, hold, hnew, -⟩ := h
  rw [filter_mem hold hnew]
  exact hold

/-- The first entry left of the window that passes is the first open entry that does. -/
theorem find?_take (h : Windowed window queue opened) {a : α}
    (ha : (queue.filter (· ∈ window)).find? p = some a) : (queue.take opened).find? p = some a := by
  obtain ⟨old, new, rfl, hold, hnew, hlen⟩ := h
  rw [filter_mem hold hnew] at ha
  rw [List.take_append, List.take_of_length_le hlen, List.find?_append, ha]
  rfl

/-- The first open entry that passes is of the window exactly if one of the window passes, or no
open newcomer does. -/
theorem find?_mem_iff (h : Windowed window queue opened) :
    (∀ a, (queue.take opened).find? p = some a → a ∈ window) ↔
      (∃ a ∈ queue, a ∈ window ∧ p a = true) ∨
        ∀ a ∈ queue.take opened, a ∉ window → p a = false := by
  constructor
  · intro hfirst
    by_cases hnone : ∀ a ∈ queue.take opened, a ∉ window → p a = false
    · exact .inr hnone
    · push Not at hnone
      obtain ⟨b, hb, -, hpb⟩ := hnone
      obtain ⟨a, ha⟩ := Option.isSome_iff_exists.1
        (List.find?_isSome.2 ⟨b, hb, eq_true_of_ne_false hpb⟩)
      exact .inl ⟨a, List.mem_of_mem_take (List.mem_of_find?_eq_some ha), hfirst a ha,
        List.find?_some ha⟩
  · rintro (⟨b, hb, hbw, hpb⟩ | hnone) a ha
    · have hmem : b ∈ queue.filter (· ∈ window) := List.mem_filter.2 ⟨hb, decide_eq_true hbw⟩
      obtain ⟨c, hc⟩ := Option.isSome_iff_exists.1 (List.find?_isSome.2 ⟨b, hmem, hpb⟩)
      cases Option.some.inj ((h.find?_take hc).symm.trans ha)
      exact of_decide_eq_true (List.mem_filter.1 (List.mem_of_find?_eq_some hc)).2
    · by_contra haw
      have hp := List.find?_some ha
      rw [hnone a (List.mem_of_find?_eq_some ha) haw] at hp
      exact Bool.noConfusion hp

/-- The first `n` entries that pass are of the window exactly if no newcomer passes, or enough of
the window do. -/
theorem take_filter_mem_iff (h : Windowed window queue opened) {n : ℕ} :
    (∀ a ∈ (queue.filter p).take n, a ∈ window) ↔
      (∀ a ∈ queue, a ∉ window → p a = false) ∨
        n ≤ ((queue.filter (· ∈ window)).filter p).length := by
  obtain ⟨old, new, rfl, hold, hnew, -⟩ := h
  rw [filter_mem hold hnew, List.filter_append, List.take_append]
  constructor
  · intro hall
    by_contra hnot
    push Not at hnot
    obtain ⟨⟨a, ha, haw, hpa⟩, hlt⟩ := hnot
    have hanew : a ∈ new.filter p := by
      refine List.mem_filter.2 ⟨(List.mem_append.1 ha).resolve_left fun hmem => ?_,
        eq_true_of_ne_false hpa⟩
      exact haw (hold.subset hmem)
    obtain ⟨b, l, hl⟩ := List.exists_cons_of_ne_nil (List.ne_nil_of_mem hanew)
    have hb : b ∈ new.filter p := hl ▸ List.mem_cons_self
    refine hnew b (List.mem_of_mem_filter hb) (hall b (List.mem_append_right _ ?_))
    rw [hl, ← Nat.succ_pred_eq_of_pos (Nat.sub_pos_of_lt hlt), List.take_succ_cons]
    exact List.mem_cons_self
  · rintro (hnone | hle) a ha
    · rcases List.mem_append.1 ha with ha | ha
      · exact hold.subset (List.mem_of_mem_filter (List.mem_of_mem_take ha))
      · have hmem := List.mem_filter.1 (List.mem_of_mem_take ha)
        rw [hnone a (List.mem_append_right _ hmem.1) (hnew a hmem.1)] at hmem
        exact Bool.noConfusion hmem.2
    · rw [Nat.sub_eq_zero_of_le hle, List.take_zero, List.append_nil] at ha
      exact hold.subset (List.mem_of_mem_filter (List.mem_of_mem_take ha))

end Windowed

end Zzdds.Lib
