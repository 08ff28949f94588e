import Mathlib.Data.List.Nodup
import Mathlib.Tactic

/-! # Forests as binary trees

A forest is kept as its first tree's root, the forest of the root's children and the forest of the
other trees.  In a forest `Ordered` by a relation every node stands in it to its children; with a
transitive relation every node is then below a root.  `Cut t c f g` says that `g` is what `f` is
without the tree of `t`, whose children are `c`. -/

namespace Zzdds.Lib

universe u

inductive Forest (α : Type u) where
  | nil
  | node (t : α) (children siblings : Forest α)
deriving DecidableEq, Repr

namespace Forest

variable {α : Type u}

def nodes : Forest α → List α
  | nil => []
  | node t c s => t :: (c.nodes ++ s.nodes)

def roots : Forest α → List α
  | nil => []
  | node t _ s => t :: s.roots

/-- Every node stands in the relation to each of its children. -/
def Ordered (r : α → α → Prop) : Forest α → Prop
  | nil => True
  | node t c s => (∀ u ∈ c.roots, r t u) ∧ c.Ordered r ∧ s.Ordered r

variable {r : α → α → Prop} {t u : α} {c f g : Forest α}

theorem mem_nodes_of_mem_roots (h : u ∈ f.roots) : u ∈ f.nodes := by
  induction f with
  | nil => exact h
  | node t c s _ ihs =>
    rcases List.mem_cons.mp h with rfl | h
    · exact List.mem_cons_self
    · exact List.mem_cons_of_mem _ (List.mem_append_right _ (ihs h))

theorem length_roots_le : f.roots.length ≤ f.nodes.length := by
  induction f with
  | nil => exact le_rfl
  | node t c s _ ihs =>
    simp only [roots, nodes, List.length_cons, List.length_append]
    omega

theorem Ordered.congr {r' : α → α → Prop} (h : f.Ordered r)
    (hr : ∀ u v, u ∈ f.nodes → v ∈ f.nodes → r u v → r' u v) : f.Ordered r' := by
  induction f with
  | nil => trivial
  | node t c s ihc ihs =>
    obtain ⟨hroots, hc, hs⟩ := h
    have hmemc {u : α} (hu : u ∈ c.nodes) : u ∈ (node t c s).nodes :=
      List.mem_cons_of_mem _ (List.mem_append_left _ hu)
    have hmems {u : α} (hu : u ∈ s.nodes) : u ∈ (node t c s).nodes :=
      List.mem_cons_of_mem _ (List.mem_append_right _ hu)
    exact ⟨fun u hu => hr t u List.mem_cons_self (hmemc (mem_nodes_of_mem_roots hu)) (hroots u hu),
      ihc hc fun u v hu hv => hr u v (hmemc hu) (hmemc hv),
      ihs hs fun u v hu hv => hr u v (hmems hu) (hmems hv)⟩

/-- Every node is a root or below one. -/
theorem Ordered.exists_root (htrans : ∀ a b c, r a b → r b c → r a c) (h : f.Ordered r)
    (hu : u ∈ f.nodes) : ∃ t ∈ f.roots, t = u ∨ r t u := by
  induction f with
  | nil => cases hu
  | node t c s ihc ihs =>
    obtain ⟨hroots, hc, hs⟩ := h
    rcases List.mem_cons.mp hu with rfl | hu
    · exact ⟨u, List.mem_cons_self, .inl rfl⟩
    · rcases List.mem_append.mp hu with hu | hu
      · obtain ⟨v, hv, hvu⟩ := ihc hc hu
        refine ⟨t, List.mem_cons_self, .inr ?_⟩
        rcases hvu with rfl | hvu
        · exact hroots v hv
        · exact htrans t v u (hroots v hv) hvu
      · obtain ⟨v, hv, hvu⟩ := ihs hs hu
        exact ⟨v, List.mem_cons_of_mem t hv, hvu⟩

/-! ### Taking a tree out -/

/-- The second forest is the first without the tree of `t`, whose children are `c`. -/
inductive Cut (t : α) (c : Forest α) : Forest α → Forest α → Prop
  | here (s : Forest α) : Cut t c (node t c s) s
  | child {u : α} {d d' : Forest α} (s : Forest α) (h : Cut t c d d') :
      Cut t c (node u d s) (node u d' s)
  | sibling {u : α} (d : Forest α) {s s' : Forest α} (h : Cut t c s s') :
      Cut t c (node u d s) (node u d s')

theorem exists_cut (h : t ∈ f.nodes) : ∃ c g, Cut t c f g := by
  induction f with
  | nil => cases h
  | node u d s ihd ihs =>
    rcases List.mem_cons.mp h with rfl | h
    · exact ⟨d, s, .here s⟩
    · rcases List.mem_append.mp h with h | h
      · obtain ⟨c, d', hcut⟩ := ihd h
        exact ⟨c, node u d' s, hcut.child s⟩
      · obtain ⟨c, s', hcut⟩ := ihs h
        exact ⟨c, node u d s', hcut.sibling d⟩

namespace Cut

theorem perm (h : Cut t c f g) : f.nodes.Perm (t :: (c.nodes ++ g.nodes)) := by
  induction h with
  | here s => exact .refl _
  | @child u d d' s _ ih =>
    calc u :: (d.nodes ++ s.nodes)
      _ |>.Perm (u :: (t :: (c.nodes ++ d'.nodes) ++ s.nodes)) := (ih.append_right _).cons u
      _ |>.Perm (t :: u :: (c.nodes ++ (d'.nodes ++ s.nodes))) := by
          rw [List.cons_append, List.append_assoc]
          exact .swap t u _
      _ |>.Perm (t :: (c.nodes ++ u :: (d'.nodes ++ s.nodes))) := List.perm_middle.symm.cons t
  | @sibling u d s s' _ ih =>
    calc u :: (d.nodes ++ s.nodes)
      _ |>.Perm (u :: (d.nodes ++ t :: (c.nodes ++ s'.nodes))) := (ih.append_left _).cons u
      _ |>.Perm (u :: t :: (d.nodes ++ (c.nodes ++ s'.nodes))) := List.perm_middle.cons u
      _ |>.Perm (t :: u :: (c.nodes ++ (d.nodes ++ s'.nodes))) :=
          (List.Perm.swap t u _).trans (((List.perm_append_comm_assoc ..).cons u).cons t)
      _ |>.Perm (t :: (c.nodes ++ u :: (d.nodes ++ s'.nodes))) := List.perm_middle.symm.cons t

theorem mem_nodes (h : Cut t c f g) : t ∈ f.nodes := h.perm.mem_iff.mpr List.mem_cons_self

theorem roots_sublist (h : Cut t c f g) : g.roots.Sublist f.roots := by
  induction h with
  | here s => exact List.sublist_cons_self _ _
  | child s _ _ => exact List.Sublist.refl _
  | sibling d _ ih => exact ih.cons_cons _

/-- The tree of a first root that is no other node is taken out at the front. -/
theorem of_root {d s : Forest α} (h : Cut t c (node t d s) g) (hnot : t ∉ d.nodes ++ s.nodes) :
    c = d ∧ g = s := by
  cases h with
  | here => exact ⟨rfl, rfl⟩
  | child _ h => exact absurd (List.mem_append_left _ h.mem_nodes) hnot
  | sibling _ h => exact absurd (List.mem_append_right _ h.mem_nodes) hnot

/-- What is taken out and what is left are ordered. -/
theorem ordered (h : Cut t c f g) (hf : f.Ordered r) : c.Ordered r ∧ g.Ordered r := by
  induction h with
  | here s => exact hf.2
  | child s h ih =>
    obtain ⟨hc, hd⟩ := ih hf.2.1
    exact ⟨hc, fun u hu => hf.1 u (h.roots_sublist.subset hu), hd, hf.2.2⟩
  | sibling d h ih =>
    obtain ⟨hc, hs⟩ := ih hf.2.2
    exact ⟨hc, hf.1, hf.2.1, hs⟩

end Cut

end Forest

end Zzdds.Lib
