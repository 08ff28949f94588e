import Mathlib.Data.List.Dedup
import Mathlib.Data.List.Perm.Subperm
import Mathlib.Data.Int.Notation

/-! # Quotas

Limits on a collection of entries with keys: how many entries in all, how many with one key, and how
many different keys.  Only the keys of the entries count, in any order. -/

namespace Zzdds.Lib

/-- A limit that is not positive is none. -/
def positive (n : ℤ) : Option ℕ := if 0 < n then some n.toNat else none

theorem forall_mem_positive {n : ℤ} {P : ℕ → Prop} :
    (∀ m ∈ positive n, P m) ↔ (0 < n → P n.toNat) := by
  unfold positive
  split_ifs with h
  · exact ⟨fun hm _ => hm _ rfl, fun hp m hm => Option.some.inj hm ▸ hp h⟩
  · exact ⟨fun _ hn => absurd hn h, fun _ _ hm => (nomatch hm)⟩

/-- A limit that is none is not imposed. -/
structure Quota where
  total : Option ℕ := none
  perKey : Option ℕ := none
  keys : Option ℕ := none
deriving DecidableEq, Repr

namespace Quota

variable {κ : Type*} [DecidableEq κ] {q : Quota} {l l' : List κ} {k : κ}

/-- Entries with these keys are within the limits. -/
def Admits (q : Quota) (l : List κ) : Prop :=
  (∀ n ∈ q.total, l.length ≤ n) ∧ (∀ n ∈ q.perKey, ∀ k, l.countP (· = k) ≤ n) ∧
    ∀ n ∈ q.keys, l.dedup.length ≤ n

theorem length_dedup_le_of_subset (h : l' ⊆ l) : l'.dedup.length ≤ l.dedup.length := by
  refine ((List.nodup_dedup l').subperm fun a ha => ?_).length_le
  exact List.mem_dedup.2 (h (List.mem_dedup.1 ha))

/-- Fewer entries, in any order, are within the limits as well. -/
theorem Admits.subperm (h : q.Admits l) (hs : l'.Subperm l) : q.Admits l' :=
  ⟨fun n hn => Nat.le_trans hs.length_le (h.1 n hn),
    fun n hn k => Nat.le_trans (hs.countP_le _) (h.2.1 n hn k),
    fun n hn => Nat.le_trans (length_dedup_le_of_subset hs.subset) (h.2.2 n hn)⟩

theorem Admits.perm (h : q.Admits l) (hp : l'.Perm l) : q.Admits l' := h.subperm hp.subperm

/-- One more entry is within the limits exactly if none is used up for it. -/
theorem admits_cons_iff : q.Admits (k :: l) ↔ q.Admits l ∧ (∀ n ∈ q.total, l.length < n) ∧
    (∀ n ∈ q.perKey, l.countP (· = k) < n) ∧ ∀ n ∈ q.keys, k ∉ l → l.dedup.length < n := by
  have hself : (k :: l).countP (· = k) = l.countP (· = k) + 1 := by simp
  constructor
  · intro h
    refine ⟨h.subperm (List.sublist_cons_self k l).subperm, fun n hn => h.1 n hn, fun n hn => ?_,
      fun n hn hk => ?_⟩
    · have hcount := h.2.1 n hn k
      rw [hself] at hcount
      exact hcount
    · have hkeys := h.2.2 n hn
      rw [List.dedup_cons_of_notMem hk] at hkeys
      exact hkeys
  · rintro ⟨h, htotal, hkey, hkeys⟩
    refine ⟨fun n hn => htotal n hn, fun n hn k' => ?_, fun n hn => ?_⟩
    · by_cases hk : k = k'
      · subst hk
        rw [hself]
        exact hkey n hn
      · have hother : (k :: l).countP (· = k') = l.countP (· = k') := by simp [hk]
        rw [hother]
        exact h.2.1 n hn k'
    · by_cases hk : k ∈ l
      · rw [List.dedup_cons_of_mem hk]
        exact h.2.2 n hn
      · rw [List.dedup_cons_of_notMem hk]
        exact hkeys n hn hk

end Quota

end Zzdds.Lib
