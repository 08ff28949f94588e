import Zzdds.Lib.Forest
import Zzdds.Lib.Run
import Zzdds.Runtime.Core

/-! # The heap of timers as it is linked

The armed timers are the nodes of a pairing heap, linked in place: each one to its first child, to
its next sibling, and back to its previous sibling or, if it is a first child, to its parent.  The
loops that meld the children of a node have a bound on their iterations here; beyond it they are
undefined.  Each operation turns a heap into one with a timer more or less (`insert_spec`,
`pop_spec`, `remove_spec`). -/

namespace Zzdds.Core

open Lib Forest

/-- What the heap has of a timer. -/
structure HeapTimer where
  deadlineNs : ℤ
  order : ℕ
  heapChild : Option TimerId := none
  heapSibling : Option TimerId := none
  heapPrev : Option TimerId := none
deriving DecidableEq, Repr

/-- The timers in memory. -/
abbrev Timers := TimerId → HeapTimer

namespace Timers

variable (m : Timers) (t : TimerId) (v : Option TimerId)

def setChild : Timers := Function.update m t { m t with heapChild := v }

def setSibling : Timers := Function.update m t { m t with heapSibling := v }

def setPrev : Timers := Function.update m t { m t with heapPrev := v }

end Timers

def HeapTimer.less (a b : HeapTimer) : Bool :=
  a.deadlineNs < b.deadlineNs || (a.deadlineNs == b.deadlineNs && a.order < b.order)

/-! ### The operations -/

section Loops

/-- Make `child` the first child of `parent`, which becomes a root. -/
def link (m : Timers) (parent child : TimerId) : Timers :=
  let m := m.setPrev child (some parent)
  let m := m.setSibling child (m parent).heapChild
  let m := match (m parent).heapChild with
    | some c => m.setPrev c (some child)
    | none => m
  let m := m.setChild parent (some child)
  let m := m.setPrev parent none
  m.setSibling parent none

def meld (m : Timers) (a b : Option TimerId) : Timers × Option TimerId :=
  match a, b with
  | none, b => (m, b)
  | some x, none => (m, some x)
  | some x, some y =>
    let (parent, child) := if (m y).less (m x) then (y, x) else (x, y)
    (link m parent child, some parent)

/-- Meld the trees from `cur` on by twos, and put the results in front of `reversed`. -/
def pairUp : ℕ → Timers → Option TimerId → Option TimerId → Option (Timers × Option TimerId)
  | _, m, none, reversed => some (m, reversed)
  | 0, _, some _, _ => none
  | n + 1, m, some a, reversed => do
    let b := (m a).heapSibling
    let m := m.setSibling a none
    let (m, pair, next) ← match b with
      | some bb => do
        let next := (m bb).heapSibling
        let m := m.setSibling bb none
        let (m, pair) := meld m (some a) (some bb)
        some (m, ← pair, next)
      | none => some (m.setPrev a none, a, none)
    pairUp n (m.setSibling pair reversed) next (some pair)

/-- Meld the trees from `reversed` on into `result`. -/
def meldAll : ℕ → Timers → Option TimerId → Option TimerId → Option (Timers × Option TimerId)
  | _, m, none, result => some (m, result)
  | 0, _, some _, _ => none
  | n + 1, m, some p, result =>
    let reversed := (m p).heapSibling
    let (m, result) := meld (m.setSibling p none) result (some p)
    meldAll n m reversed result

def mergePairs (fuel : ℕ) (m : Timers) (first : Option TimerId) :
    Option (Timers × Option TimerId) := do
  let (m, reversed) ← pairUp fuel m first none
  meldAll fuel m reversed none

/-- Take `t` with what is below it out of the links to it. -/
def detach (m : Timers) (t : TimerId) : Option Timers := do
  let prev ← (m t).heapPrev
  let m := if (m prev).heapChild = some t then m.setChild prev (m t).heapSibling
    else m.setSibling prev (m t).heapSibling
  let m := match (m t).heapSibling with
    | some s => m.setPrev s (some prev)
    | none => m
  let m := m.setSibling t none
  some (m.setPrev t none)

end Loops

structure TimerHeap where
  timers : Timers
  root : Option TimerId := none

namespace TimerHeap

variable (h : TimerHeap)

def insert (t : TimerId) : TimerHeap :=
  let m := ((h.timers.setChild t none).setSibling t none).setPrev t none
  let (m, root) := meld m h.root (some t)
  ⟨m, root⟩

def peek : Option TimerId := h.root

def pop (fuel : ℕ) : Option (TimerHeap × Option TimerId) :=
  match h.root with
  | none => some (h, none)
  | some r => do
    let (m, root) ← mergePairs fuel h.timers (h.timers r).heapChild
    some (⟨m.setChild r none, root⟩, some r)

def remove (fuel : ℕ) (t : TimerId) : Option TimerHeap :=
  if h.root = some t then (h.pop fuel).map Prod.fst
  else do
    let m ← detach h.timers t
    let (m, sub) ← mergePairs fuel m (m t).heapChild
    let m := m.setChild t none
    let (m, root) := meld m h.root sub
    some ⟨m, root⟩

end TimerHeap

/-! ### More iterations

A loop that has ended is not changed by the iterations that it may still take. -/

section Iterations

variable {m : Timers} {n k : ℕ} {first second : Option TimerId} {x : Timers × Option TimerId}

theorem pairUp_mono (h : pairUp n m first second = some x) (hle : n ≤ k) :
    pairUp k m first second = some x := by
  induction n generalizing k m first second with
  | zero =>
    cases first with
    | none =>
      cases k <;> exact h
    | some a => cases h
  | succ n ih =>
    obtain ⟨k, rfl⟩ : ∃ j, k = j + 1 := ⟨k - 1, by omega⟩
    cases first with
    | none => exact h
    | some a =>
      have hle' := Nat.le_of_succ_le_succ hle
      rw [pairUp] at h ⊢
      cases hsibling : (m a).heapSibling with
      | none =>
        rw [hsibling] at h
        exact ih h hle'
      | some b =>
        rw [hsibling] at h
        dsimp only at h ⊢
        generalize meld _ (some a) (some b) = melded at h ⊢
        obtain ⟨m', pair⟩ := melded
        cases pair with
        | none => cases h
        | some pair => exact ih h hle'

theorem meldAll_mono (h : meldAll n m first second = some x) (hle : n ≤ k) :
    meldAll k m first second = some x := by
  induction n generalizing k m first second with
  | zero =>
    cases first with
    | none =>
      cases k <;> exact h
    | some a => cases h
  | succ n ih =>
    obtain ⟨k, rfl⟩ : ∃ j, k = j + 1 := ⟨k - 1, by omega⟩
    cases first with
    | none => exact h
    | some a =>
      rw [meldAll] at h ⊢
      exact ih h (Nat.le_of_succ_le_succ hle)

theorem mergePairs_mono (h : mergePairs n m first = some x) (hle : n ≤ k) :
    mergePairs k m first = some x := by
  obtain ⟨y, hpairs, hall⟩ := Option.bind_eq_some_iff.mp h
  rw [mergePairs, pairUp_mono hpairs hle, Option.bind_eq_bind, Option.bind_some]
  exact meldAll_mono hall hle

theorem TimerHeap.pop_mono {h : TimerHeap} {y : TimerHeap × Option TimerId}
    (hpop : h.pop n = some y) (hle : n ≤ k) : h.pop k = some y := by
  unfold pop at hpop ⊢
  split at hpop
  · exact hpop
  · obtain ⟨x, hmerge, hpop⟩ := Option.bind_eq_some_iff.mp hpop
    rw [mergePairs_mono hmerge hle]
    exact hpop

theorem TimerHeap.remove_mono {h h' : TimerHeap} {t : TimerId} (hremove : h.remove n t = some h')
    (hle : n ≤ k) : h.remove k t = some h' := by
  unfold remove at hremove ⊢
  split_ifs at hremove ⊢
  · obtain ⟨y, hpop, hy⟩ := Option.map_eq_some_iff.mp hremove
    rw [pop_mono hpop hle]
    exact congrArg some hy
  · obtain ⟨m, hdetach, hremove⟩ := Option.bind_eq_some_iff.mp hremove
    obtain ⟨x, hmerge, hremove⟩ := Option.bind_eq_some_iff.mp hremove
    rw [hdetach, Option.bind_eq_bind, Option.bind_some, mergePairs_mono hmerge hle]
    exact hremove

end Iterations

/-! ### What the links mean -/

/-- A forest is linked from `first` on, which goes back to `prev`. -/
def Linked (m : Timers) : Forest TimerId → Option TimerId → Option TimerId → Prop
  | nil, _, first => first = none
  | node t c s, prev, first => first = some t ∧ (m t).heapPrev = prev ∧
      Linked m c (some t) (m t).heapChild ∧ Linked m s (some t) (m t).heapSibling

/-- The trees of a forest are linked from `first` on, and where they go back to is `ok`. -/
def Row (m : Timers) (ok : Option TimerId → Prop) : Forest TimerId → Option TimerId → Prop
  | nil, first => first = none
  | node t c s, first => first = some t ∧ ok (m t).heapPrev ∧
      Linked m c (some t) (m t).heapChild ∧ Row m ok s (m t).heapSibling

def HeapTimer.key (t : HeapTimer) : ℤ × ℕ := (t.deadlineNs, t.order)

/-- Due before, or at the same time and not armed after. -/
def Precedes (a b : ℤ × ℕ) : Prop := a.1 < b.1 ∨ a.1 = b.1 ∧ a.2 ≤ b.2

/-- One timer precedes another. -/
def Timers.precedes (m : Timers) (t u : TimerId) : Prop := Precedes (m t).key (m u).key

/-- A heap is one tree, or empty. -/
structure IsHeap (m : Timers) (root : Option TimerId) (f : Forest TimerId) : Prop where
  linked : Linked m f none root
  single : f.roots.length ≤ 1
  ordered : f.Ordered m.precedes
  nodup : f.nodes.Nodup

/-- Timers other than some stay as they are, and all keep when they are due. -/
structure Keeps (m m' : Timers) (ts : List TimerId) : Prop where
  key : ∀ t, (m' t).key = (m t).key
  other : ∀ t ∉ ts, m' t = m t

/-! ### Writing to memory -/

namespace Timers

variable {m : Timers} {t u : TimerId} {v : Option TimerId}

@[simp] theorem setChild_self : m.setChild t v t = { m t with heapChild := v } :=
  Function.update_self ..

@[simp] theorem setSibling_self : m.setSibling t v t = { m t with heapSibling := v } :=
  Function.update_self ..

@[simp] theorem setPrev_self : m.setPrev t v t = { m t with heapPrev := v } :=
  Function.update_self ..

theorem setChild_of_ne (h : u ≠ t) : m.setChild t v u = m u := Function.update_of_ne h ..

theorem setSibling_of_ne (h : u ≠ t) : m.setSibling t v u = m u := Function.update_of_ne h ..

theorem setPrev_of_ne (h : u ≠ t) : m.setPrev t v u = m u := Function.update_of_ne h ..

end Timers

namespace Keeps

variable {m m' m'' : Timers} {ts ts' : List TimerId} {t : TimerId} {v : Option TimerId}

theorem refl (m : Timers) (ts : List TimerId) : Keeps m m ts := ⟨fun _ => rfl, fun _ _ => rfl⟩

theorem trans (h : Keeps m m' ts) (h' : Keeps m' m'' ts) : Keeps m m'' ts :=
  ⟨fun t => (h'.key t).trans (h.key t), fun t ht => (h'.other t ht).trans (h.other t ht)⟩

theorem mono (h : Keeps m m' ts) (hsub : ts ⊆ ts') : Keeps m m' ts' :=
  ⟨h.key, fun t ht => h.other t fun hmem => ht (hsub hmem)⟩

theorem setChild (ht : t ∈ ts) : Keeps m (m.setChild t v) ts where
  key u := by
    by_cases hu : u = t
    · rw [hu, Timers.setChild_self]
      rfl
    · rw [Timers.setChild_of_ne hu]
  other u hu := Timers.setChild_of_ne fun heq => hu (heq ▸ ht)

theorem setSibling (ht : t ∈ ts) : Keeps m (m.setSibling t v) ts where
  key u := by
    by_cases hu : u = t
    · rw [hu, Timers.setSibling_self]
      rfl
    · rw [Timers.setSibling_of_ne hu]
  other u hu := Timers.setSibling_of_ne fun heq => hu (heq ▸ ht)

theorem setPrev (ht : t ∈ ts) : Keeps m (m.setPrev t v) ts where
  key u := by
    by_cases hu : u = t
    · rw [hu, Timers.setPrev_self]
      rfl
    · rw [Timers.setPrev_of_ne hu]
  other u hu := Timers.setPrev_of_ne fun heq => hu (heq ▸ ht)

theorem precedes_eq (h : Keeps m m' ts) : m'.precedes = m.precedes := by
  funext t u
  rw [Timers.precedes, Timers.precedes, h.key, h.key]

end Keeps

/-! ### Order -/

theorem Precedes.trans {a b c : ℤ × ℕ} (h : Precedes a b) (h' : Precedes b c) : Precedes a c := by
  unfold Precedes at *
  omega

theorem precedes_of_less {a b : HeapTimer} (h : a.less b = true) : Precedes a.key b.key := by
  simp only [HeapTimer.less, Bool.or_eq_true, Bool.and_eq_true, decide_eq_true_eq, beq_iff_eq] at h
  simp only [Precedes, HeapTimer.key]
  omega

theorem precedes_of_not_less {a b : HeapTimer} (h : ¬ a.less b = true) : Precedes b.key a.key := by
  simp only [HeapTimer.less, Bool.or_eq_true, Bool.and_eq_true, decide_eq_true_eq, beq_iff_eq] at h
  simp only [Precedes, HeapTimer.key]
  omega

theorem not_less_of_precedes {a b : HeapTimer} (h : Precedes a.key b.key) : b.less a = false := by
  by_contra hless
  rw [Bool.not_eq_false, HeapTimer.less, Bool.or_eq_true, Bool.and_eq_true, decide_eq_true_eq,
    decide_eq_true_eq, beq_iff_eq] at hless
  simp only [Precedes, HeapTimer.key] at h
  omega

/-! ### Linked forests -/

section LinkedForests

variable {m m' : Timers} {f : Forest TimerId} {prev prev' first : Option TimerId}
  {ok ok' : Option TimerId → Prop}

theorem Linked.congr (h : Linked m f prev first) (hsame : ∀ u ∈ f.nodes, m' u = m u) :
    Linked m' f prev first := by
  induction f generalizing prev first with
  | nil => exact h
  | node t c s ihc ihs =>
    obtain ⟨hfirst, hprev, hc, hs⟩ := h
    have ht := hsame t List.mem_cons_self
    refine ⟨hfirst, ht ▸ hprev, ?_, ?_⟩
    · rw [ht]
      exact ihc hc fun u hu => hsame u (List.mem_cons_of_mem _ (List.mem_append_left _ hu))
    · rw [ht]
      exact ihs hs fun u hu => hsame u (List.mem_cons_of_mem _ (List.mem_append_right _ hu))

/-- The first timer goes back to another one. -/
theorem Linked.reroot (h : Linked m f prev first) (hnodup : f.nodes.Nodup)
    (hfirst : ∀ c, first = some c → m' c = { m c with heapPrev := prev' })
    (hsame : ∀ u ∈ f.nodes, first ≠ some u → m' u = m u) : Linked m' f prev' first := by
  cases f with
  | nil => exact h
  | node t c s =>
    obtain ⟨rfl, -, hc, hs⟩ := h
    have ht := hfirst t rfl
    obtain ⟨hnot, -⟩ := List.nodup_cons.mp hnodup
    have hrest : ∀ u ∈ c.nodes ++ s.nodes, m' u = m u := fun u hu =>
      hsame u (List.mem_cons_of_mem _ hu) fun heq => hnot (Option.some.inj heq ▸ hu)
    refine ⟨rfl, by rw [ht], ?_, ?_⟩
    · rw [ht]
      exact hc.congr fun u hu => hrest u (List.mem_append_left _ hu)
    · rw [ht]
      exact hs.congr fun u hu => hrest u (List.mem_append_right _ hu)

theorem Row.congr (h : Row m ok f first) (hsame : ∀ u ∈ f.nodes, m' u = m u) :
    Row m' ok f first := by
  induction f generalizing first with
  | nil => exact h
  | node t c s _ ihs =>
    obtain ⟨hfirst, hok, hc, hs⟩ := h
    have ht := hsame t List.mem_cons_self
    refine ⟨hfirst, ht ▸ hok, ?_, ?_⟩
    · rw [ht]
      exact hc.congr fun u hu => hsame u (List.mem_cons_of_mem _ (List.mem_append_left _ hu))
    · rw [ht]
      exact ihs hs fun u hu => hsame u (List.mem_cons_of_mem _ (List.mem_append_right _ hu))

/-- A linked forest is a row, wherever its trees go back to. -/
theorem Linked.row (h : Linked m f prev first) : Row m (fun _ => True) f first := by
  induction f generalizing prev first with
  | nil => exact h
  | node t c s _ ihs =>
    obtain ⟨hfirst, -, hc, hs⟩ := h
    exact ⟨hfirst, trivial, hc, ihs hs⟩

theorem Linked.mem_of_first {t : TimerId} (h : Linked m f prev first) (ht : first = some t) :
    t ∈ f.nodes := by
  cases f with
  | nil => cases h.symm.trans ht
  | node u c s =>
    cases h.1.symm.trans ht
    exact List.mem_cons_self

end LinkedForests

/-! ### Melding two trees -/

section Link

variable {m : Timers} {p q u : TimerId}

theorem link_of_ne (hpq : p ≠ q) (hp : u ≠ p) (hq : u ≠ q) (hhead : (m p).heapChild ≠ some u) :
    link m p q u = m u := by
  unfold link
  rw [Timers.setSibling_of_ne hp, Timers.setPrev_of_ne hp, Timers.setChild_of_ne hp,
    Timers.setSibling_of_ne hpq, Timers.setPrev_of_ne hpq]
  cases hchild : (m p).heapChild with
  | none =>
    dsimp only
    rw [Timers.setSibling_of_ne hq, Timers.setPrev_of_ne hq]
  | some c =>
    have hc : u ≠ c := by
      rintro rfl
      exact hhead hchild
    dsimp only
    rw [Timers.setPrev_of_ne hc, Timers.setSibling_of_ne hq, Timers.setPrev_of_ne hq]

theorem link_parent (hpq : p ≠ q) (hhead : (m p).heapChild ≠ some p) : link m p q p =
    { m p with heapChild := some q, heapSibling := none, heapPrev := none } := by
  unfold link
  rw [Timers.setSibling_self, Timers.setPrev_self, Timers.setChild_self]
  dsimp only
  rw [Timers.setSibling_of_ne hpq, Timers.setPrev_of_ne hpq]
  cases hchild : (m p).heapChild with
  | none =>
    dsimp only
    rw [Timers.setSibling_of_ne hpq, Timers.setPrev_of_ne hpq]
  | some c =>
    have hc : p ≠ c := by
      rintro rfl
      exact hhead hchild
    dsimp only
    rw [Timers.setPrev_of_ne hc, Timers.setSibling_of_ne hpq, Timers.setPrev_of_ne hpq]

theorem link_child (hpq : p ≠ q) (hhead : (m p).heapChild ≠ some q) : link m p q q =
    { m q with heapPrev := some p, heapSibling := (m p).heapChild } := by
  unfold link
  rw [Timers.setSibling_of_ne hpq.symm, Timers.setPrev_of_ne hpq.symm,
    Timers.setChild_of_ne hpq.symm]
  dsimp only
  rw [Timers.setSibling_of_ne hpq, Timers.setPrev_of_ne hpq]
  cases hchild : (m p).heapChild with
  | none =>
    dsimp only
    rw [Timers.setSibling_self, Timers.setPrev_self]
  | some c =>
    have hc : q ≠ c := by
      rintro rfl
      exact hhead hchild
    dsimp only
    rw [Timers.setPrev_of_ne hc, Timers.setSibling_self, Timers.setPrev_self]

theorem link_head (hpq : p ≠ q) (hp : u ≠ p) (hq : u ≠ q) (hhead : (m p).heapChild = some u) :
    link m p q u = { m u with heapPrev := some q } := by
  unfold link
  rw [Timers.setSibling_of_ne hp, Timers.setPrev_of_ne hp, Timers.setChild_of_ne hp]
  dsimp only
  rw [Timers.setSibling_of_ne hpq, Timers.setPrev_of_ne hpq, hhead]
  dsimp only
  rw [Timers.setPrev_self, Timers.setSibling_of_ne hq, Timers.setPrev_of_ne hq]

theorem link_keeps (hpq : p ≠ q) {ts : List TimerId} (hp : p ∈ ts) (hq : q ∈ ts)
    (hhead : ∀ c, (m p).heapChild = some c → c ∈ ts) : Keeps m (link m p q) ts := by
  unfold link
  dsimp only
  rw [Timers.setSibling_of_ne hpq, Timers.setPrev_of_ne hpq]
  have hchild : Keeps m ((m.setPrev q (some p)).setSibling q (m p).heapChild) ts :=
    (Keeps.setPrev hq).trans (.setSibling hq)
  refine (Keeps.trans ?_ (.setChild hp)).trans ((Keeps.setPrev hp).trans (.setSibling hp))
  split
  next c hc => exact hchild.trans (.setPrev (hhead c hc))
  next => exact hchild

variable {cp cq : Forest TimerId}

/-- The two trees are one, with the child in front of the parent's other children. -/
theorem link_linked (hp : Linked m cp (some p) (m p).heapChild)
    (hq : Linked m cq (some q) (m q).heapChild)
    (hnodup : (p :: (cp.nodes ++ q :: cq.nodes)).Nodup) :
    Linked (link m p q) (node p (node q cq cp) nil) none (some p) := by
  obtain ⟨hpnot, hrest⟩ := List.nodup_cons.mp hnodup
  obtain ⟨hcp, hqcq, hdisjoint⟩ := List.nodup_append.mp hrest
  obtain ⟨hqnot, hcq⟩ := List.nodup_cons.mp hqcq
  have hpq : p ≠ q := fun h => hpnot (by simp [h])
  have hhead {c : TimerId} (h : (m p).heapChild = some c) : c ∈ cp.nodes := hp.mem_of_first h
  have hheadp : (m p).heapChild ≠ some p := fun h => hpnot (List.mem_append_left _ (hhead h))
  have hheadq : (m p).heapChild ≠ some q := fun h =>
    hdisjoint q (hhead h) q List.mem_cons_self rfl
  have hparent := link_parent hpq hheadp
  have hchild := link_child hpq hheadq
  refine ⟨rfl, by rw [hparent], ?_, by rw [hparent]; rfl⟩
  rw [hparent]
  refine ⟨rfl, by rw [hchild], ?_, ?_⟩
  · rw [hchild]
    refine hq.congr fun u hu => link_of_ne hpq ?_ ?_ fun h => ?_
    · rintro rfl
      exact hpnot (List.mem_append_right _ (List.mem_cons_of_mem _ hu))
    · rintro rfl
      exact hqnot hu
    · exact hdisjoint u (hhead h) u (List.mem_cons_of_mem _ hu) rfl
  · rw [hchild]
    refine hp.reroot hcp (fun c hc => ?_) fun u hu hne => ?_
    · refine link_head hpq ?_ ?_ hc
      · rintro rfl
        exact hheadp hc
      · rintro rfl
        exact hheadq hc
    · refine link_of_ne hpq ?_ ?_ hne
      · rintro rfl
        exact hpnot (List.mem_append_left _ hu)
      · rintro rfl
        exact hdisjoint u hu u List.mem_cons_self rfl

/-- A timer and the forest of its children. -/
structure Subtree (m : Timers) (t : TimerId) (c : Forest TimerId) : Prop where
  linked : Linked m c (some t) (m t).heapChild
  first : ∀ u ∈ c.roots, m.precedes t u
  ordered : c.Ordered m.precedes
  nodup : (t :: c.nodes).Nodup

theorem Subtree.isHeap (h : Subtree m p cp) (hsibling : (m p).heapSibling = none)
    (hprev : (m p).heapPrev = none) : IsHeap m (some p) (node p cp nil) where
  linked := ⟨rfl, hprev, h.linked, hsibling⟩
  single := le_rfl
  ordered := ⟨h.first, h.ordered, trivial⟩
  nodup := by
    rw [nodes, nodes, List.append_nil]
    exact h.nodup

theorem IsHeap.subtree (h : IsHeap m (some p) (node q cp cq)) :
    q = p ∧ cq = nil ∧ Subtree m p cp := by
  obtain ⟨hfirst, -, hc, -⟩ := h.linked
  obtain rfl := Option.some.inj hfirst
  have hnil : cq = nil := by
    have hsingle := h.single
    cases cq with
    | nil => rfl
    | node => simp [roots] at hsingle
  subst hnil
  have hnodup := h.nodup
  rw [nodes, nodes, List.append_nil] at hnodup
  exact ⟨rfl, rfl, hc, h.ordered.1, h.ordered.2.1, hnodup⟩

/-- The root that does not come after the other one gets it as its first child. -/
theorem link_isHeap (hp : Subtree m p cp) (hq : Subtree m q cq) (hle : m.precedes p q)
    (hdisjoint : ∀ u ∈ p :: cp.nodes, ∀ v ∈ q :: cq.nodes, u ≠ v) :
    IsHeap (link m p q) (some p) (node p (node q cq cp) nil) ∧
      Keeps m (link m p q) (p :: cp.nodes ++ q :: cq.nodes) := by
  have hnodup : (p :: (cp.nodes ++ q :: cq.nodes)).Nodup :=
    List.nodup_append.mpr ⟨hp.nodup, hq.nodup, hdisjoint⟩
  have hpq : p ≠ q := hdisjoint p List.mem_cons_self q List.mem_cons_self
  have hkeeps : Keeps m (link m p q) (p :: cp.nodes ++ q :: cq.nodes) := by
    refine link_keeps hpq (by simp) (by simp) fun c hc => ?_
    have hmem := hp.linked.mem_of_first hc
    simp [hmem]
  refine ⟨?_, hkeeps⟩
  constructor
  · exact link_linked hp.linked hq.linked hnodup
  · exact le_rfl
  · rw [hkeeps.precedes_eq]
    refine ⟨fun u hu => ?_, ⟨hq.first, hq.ordered, hp.ordered⟩, trivial⟩
    rcases List.mem_cons.mp hu with rfl | hu
    · exact hle
    · exact hp.first u hu
  · refine (List.Perm.nodup_iff ?_).mp hnodup
    simp only [nodes, List.append_nil]
    exact (List.perm_middle.trans (List.perm_append_comm.cons q)).cons p

/-- Melding two trees. -/
theorem meld_some (hp : Subtree m p cp) (hq : Subtree m q cq)
    (hdisjoint : ∀ u ∈ p :: cp.nodes, ∀ v ∈ q :: cq.nodes, u ≠ v) :
    ∃ m' r c, meld m (some p) (some q) = (m', some r) ∧ IsHeap m' (some r) (node r c nil) ∧
      (r :: c.nodes).Perm (p :: cp.nodes ++ q :: cq.nodes) ∧
      Keeps m m' (p :: cp.nodes ++ q :: cq.nodes) := by
  rw [meld]
  by_cases hless : (m q).less (m p) = true
  · obtain ⟨hheap, hkeeps⟩ := link_isHeap hq hp (precedes_of_less hless)
      fun u hu v hv h => hdisjoint v hv u hu h.symm
    rw [if_pos hless]
    refine ⟨_, q, _, rfl, hheap, ?_, hkeeps.mono (List.perm_append_comm.subset)⟩
    calc q :: p :: (cp.nodes ++ cq.nodes)
      _ |>.Perm (p :: q :: (cp.nodes ++ cq.nodes)) := .swap p q _
      _ |>.Perm (p :: (cp.nodes ++ q :: cq.nodes)) := List.perm_middle.symm.cons p
  · obtain ⟨hheap, hkeeps⟩ := link_isHeap hp hq (precedes_of_not_less hless) hdisjoint
    rw [if_neg hless]
    refine ⟨_, p, _, rfl, hheap, ?_, hkeeps⟩
    calc p :: q :: (cq.nodes ++ cp.nodes)
      _ |>.Perm (p :: q :: (cp.nodes ++ cq.nodes)) := (List.perm_append_comm.cons q).cons p
      _ |>.Perm (p :: (cp.nodes ++ q :: cq.nodes)) := List.perm_middle.symm.cons p

end Link

/-- Melding two heaps. -/
theorem meld_isHeap {m : Timers} {a b : Option TimerId} {f g : Forest TimerId} (ha : IsHeap m a f)
    (hb : IsHeap m b g) (hdisjoint : ∀ u ∈ f.nodes, ∀ v ∈ g.nodes, u ≠ v) :
    ∃ m' root f', meld m a b = (m', root) ∧ IsHeap m' root f' ∧
      f'.nodes.Perm (f.nodes ++ g.nodes) ∧ Keeps m m' (f.nodes ++ g.nodes) := by
  cases f with
  | nil =>
    obtain rfl : a = none := ha.linked
    exact ⟨m, b, g, rfl, hb, .refl _, .refl _ _⟩
  | node x cx sx =>
    obtain rfl : a = some x := ha.linked.1
    obtain ⟨-, rfl, hx⟩ := ha.subtree
    cases g with
    | nil =>
      obtain rfl : b = none := hb.linked
      exact ⟨m, some x, _, rfl, ha, by rw [nodes, nodes, List.append_nil], .refl _ _⟩
    | node y cy sy =>
      obtain rfl : b = some y := hb.linked.1
      obtain ⟨-, rfl, hy⟩ := hb.subtree
      simp only [nodes, List.append_nil] at hdisjoint ⊢
      obtain ⟨m', r, c, hmeld, hheap, hperm, hkeeps⟩ := meld_some hx hy hdisjoint
      exact ⟨m', some r, _, hmeld, hheap, by simpa [nodes] using hperm, hkeeps⟩

/-! ### Melding the children of a node -/

section Pairing

variable {m m' : Timers} {r t : TimerId} {c f g : Forest TimerId} {ts : List TimerId}
  {cur reversed : Option TimerId}

theorem Subtree.congr (h : Subtree m t c) (hkeeps : Keeps m m' ts)
    (hchild : (m' t).heapChild = (m t).heapChild) (hsame : ∀ u ∈ c.nodes, m' u = m u) :
    Subtree m' t c where
  linked := by
    rw [hchild]
    exact h.linked.congr hsame
  first := by
    rw [hkeeps.precedes_eq]
    exact h.first
  ordered := by
    rw [hkeeps.precedes_eq]
    exact h.ordered
  nodup := h.nodup

/-- The trees from `first` on have no links back, and are in order. -/
structure Roots (m : Timers) (f : Forest TimerId) (first : Option TimerId) : Prop where
  row : Row m (· = none) f first
  ordered : f.Ordered m.precedes

theorem Roots.congr {first : Option TimerId} (h : Roots m f first) (hkeeps : Keeps m m' ts)
    (hsame : ∀ u ∈ f.nodes, m' u = m u) : Roots m' f first where
  row := h.row.congr hsame
  ordered := by
    rw [hkeeps.precedes_eq]
    exact h.ordered

/-- A heap is put in front of the trees. -/
theorem Roots.push (h : Roots m g reversed) (hr : IsHeap m (some r) (node r c nil))
    (hdisjoint : ∀ u ∈ r :: c.nodes, ∀ v ∈ g.nodes, u ≠ v) :
    Roots (m.setSibling r reversed) (node r c g) (some r) := by
  obtain ⟨-, -, hsub⟩ := hr.subtree
  have hself : m.setSibling r reversed r = { m r with heapSibling := reversed } :=
    Timers.setSibling_self
  have hother {u : TimerId} (hu : u ≠ r) : m.setSibling r reversed u = m u :=
    Timers.setSibling_of_ne hu
  have hkeeps : Keeps m (m.setSibling r reversed) [r] := .setSibling (by simp)
  constructor
  · refine ⟨rfl, by rw [hself]; exact hr.linked.2.1, ?_, ?_⟩
    · rw [hself]
      refine hsub.linked.congr fun u hu => hother ?_
      rintro rfl
      exact (List.nodup_cons.mp hsub.nodup).1 hu
    · rw [hself]
      exact h.row.congr fun u hu => hother fun heq =>
        hdisjoint r List.mem_cons_self u hu heq.symm
  · rw [hkeeps.precedes_eq]
    exact ⟨hsub.first, hsub.ordered, h.ordered⟩

/-- The first pass. -/
theorem pairUp_spec (n : ℕ) : ∀ {m : Timers} {f g : Forest TimerId} {cur reversed : Option TimerId},
    Row m (fun _ => True) f cur → f.Ordered m.precedes → Roots m g reversed →
    (f.nodes ++ g.nodes).Nodup → f.roots.length ≤ n →
    ∃ m' first g', pairUp n m cur reversed = some (m', first) ∧ Roots m' g' first ∧
      g'.nodes.Perm (f.nodes ++ g.nodes) ∧ g'.roots.length ≤ f.roots.length + g.roots.length ∧
      Keeps m m' (f.nodes ++ g.nodes) := by
  induction n with
  | zero =>
    intro m f g cur reversed hrow _ hg _ hn
    cases f with
    | nil =>
      obtain rfl : cur = none := hrow
      exact ⟨m, reversed, g, rfl, hg, .refl _, by simp [roots], .refl _ _⟩
    | node => simp [roots] at hn
  | succ n ih =>
    intro m f g cur reversed hrow hf hg hnodup hn
    cases f with
    | nil =>
      obtain rfl : cur = none := hrow
      exact ⟨m, reversed, g, rfl, hg, .refl _, by simp [roots], .refl _ _⟩
    | node a ca s =>
      obtain ⟨rfl, -, hca, hs⟩ := hrow
      have hna : (a :: ca.nodes).Nodup :=
        hnodup.sublist (List.sublist_append_of_sublist_left
          ((List.sublist_append_left ca.nodes s.nodes).cons_cons a))
      have hsub : Subtree m a ca := ⟨hca, hf.1, hf.2.1, hna⟩
      cases s with
      | nil =>
        have hdisjoint : ∀ u ∈ a :: ca.nodes, ∀ v ∈ g.nodes, u ≠ v := fun u hu v hv =>
          (List.nodup_append.mp hnodup).2.2 u (by simpa [nodes] using hu) v hv
        have hself : ((m.setSibling a none).setPrev a none) a =
            { m a with heapSibling := none, heapPrev := none } := by
          rw [Timers.setPrev_self, Timers.setSibling_self]
        have hother {u : TimerId} (hu : u ≠ a) :
            ((m.setSibling a none).setPrev a none) u = m u := by
          rw [Timers.setPrev_of_ne hu, Timers.setSibling_of_ne hu]
        have hkeeps : Keeps m ((m.setSibling a none).setPrev a none) [a] :=
          (Keeps.setSibling (by simp)).trans (.setPrev (by simp))
        have hheap : IsHeap ((m.setSibling a none).setPrev a none) (some a) (node a ca nil) := by
          refine (hsub.congr hkeeps (by rw [hself]) fun u hu => hother ?_).isHeap
            (by rw [hself]) (by rw [hself])
          rintro rfl
          exact (List.nodup_cons.mp hna).1 hu
        have hrest : Roots ((m.setSibling a none).setPrev a none) g reversed :=
          hg.congr hkeeps fun u hu => hother fun h => hdisjoint a List.mem_cons_self u hu h.symm
        have hpush := hrest.push hheap hdisjoint
        obtain ⟨m', first, g', hpair, hroots, hperm, hlength, hkeeps'⟩ :=
          ih (show Row _ _ nil none from rfl) trivial hpush (by simpa [nodes] using hnodup)
            (Nat.zero_le _)
        refine ⟨m', first, g', ?_, hroots, ?_, ?_, ?_⟩
        · rw [pairUp, show (m a).heapSibling = none from hs]
          exact hpair
        · simpa [nodes] using hperm
        · simpa [roots, Nat.add_comm] using hlength
        · refine (hkeeps.mono ?_).trans ((Keeps.setSibling ?_).trans (hkeeps'.mono ?_))
          all_goals simp [nodes]
      | node b cb s =>
        obtain ⟨hb, -, hcb, hs⟩ := hs
        -- The timers are those of the two trees, of the trees after them and of those before.
        have hall : ((a :: ca.nodes ++ b :: cb.nodes) ++ (s.nodes ++ g.nodes)).Nodup := by
          simpa [nodes] using hnodup
        obtain ⟨hpair, hsg, hapart⟩ := List.nodup_append.mp hall
        obtain ⟨-, hnb, hdisjoint⟩ := List.nodup_append.mp hpair
        have hab : b ≠ a := (hdisjoint a List.mem_cons_self b List.mem_cons_self).symm
        have hsubb : Subtree m b cb := ⟨hcb, hf.2.2.1, hf.2.2.2.1, hnb⟩
        have hkeeps : Keeps m ((m.setSibling a none).setSibling b none) [a, b] :=
          (Keeps.setSibling (by simp)).trans (.setSibling (by simp))
        have hself : ((m.setSibling a none).setSibling b none) a =
            { m a with heapSibling := none } := by
          rw [Timers.setSibling_of_ne hab.symm, Timers.setSibling_self]
        have hself' : ((m.setSibling a none).setSibling b none) b =
            { m b with heapSibling := none } := by
          rw [Timers.setSibling_self, Timers.setSibling_of_ne hab]
        have hother {u : TimerId} (ha : u ≠ a) (hb : u ≠ b) :
            ((m.setSibling a none).setSibling b none) u = m u := by
          rw [Timers.setSibling_of_ne hb, Timers.setSibling_of_ne ha]
        have hna' := (List.nodup_cons.mp hna).1
        have hnb' := (List.nodup_cons.mp hnb).1
        obtain ⟨m', r, c, hmeld, hheap, hperm, hkeeps'⟩ := meld_some
          (hsub.congr hkeeps (by rw [hself]) fun u hu => hother (fun h => hna' (h ▸ hu))
            (hdisjoint u (List.mem_cons_of_mem _ hu) b List.mem_cons_self))
          (hsubb.congr hkeeps (by rw [hself']) fun u hu =>
            hother (hdisjoint a List.mem_cons_self u (List.mem_cons_of_mem _ hu)).symm
              (fun h => hnb' (h ▸ hu)))
          hdisjoint
        have hsame : ∀ u ∈ s.nodes ++ g.nodes, m' u = m u := by
          intro u hu
          have hne : ∀ v ∈ a :: ca.nodes ++ b :: cb.nodes, v ≠ u := fun v hv => hapart v hv u hu
          rw [hkeeps'.other u fun h => hne u h rfl]
          exact hother (hne a (by simp)).symm (hne b (by simp)).symm
        have hall' : ((r :: c.nodes) ++ (s.nodes ++ g.nodes)).Nodup :=
          (hperm.append_right _).nodup_iff.mpr hall
        have hapart' := (List.nodup_append.mp hall').2.2
        have hkeeps₂ : Keeps m m' (a :: ca.nodes ++ b :: cb.nodes) :=
          (hkeeps.mono (by simp)).trans hkeeps'
        have hrest : Roots m' g reversed :=
          hg.congr hkeeps₂ fun u hu => hsame u (List.mem_append_right _ hu)
        have hpush := hrest.push hheap fun u hu v hv => hapart' u hu v (List.mem_append_right _ hv)
        have hr : Keeps m' (m'.setSibling r reversed) [r] := .setSibling (by simp)
        have hrow' : Row (m'.setSibling r reversed) (fun _ => True) s (m b).heapSibling := by
          refine hs.congr fun u hu => ?_
          rw [Timers.setSibling_of_ne (hapart' r List.mem_cons_self u
            (List.mem_append_left _ hu)).symm]
          exact hsame u (List.mem_append_left _ hu)
        have hordered : s.Ordered (m'.setSibling r reversed).precedes := by
          rw [hr.precedes_eq, hkeeps₂.precedes_eq]
          exact hf.2.2.2.2
        have hnodes : (s.nodes ++ (node r c g).nodes).Perm
            ((node a ca (node b cb s)).nodes ++ g.nodes) := by
          calc s.nodes ++ (r :: (c.nodes ++ g.nodes))
            _ |>.Perm ((r :: c.nodes) ++ (s.nodes ++ g.nodes)) := by
                rw [← List.cons_append]
                exact List.perm_append_comm_assoc ..
            _ |>.Perm ((a :: ca.nodes ++ b :: cb.nodes) ++ (s.nodes ++ g.nodes)) :=
                hperm.append_right _
            _ |>.Perm ((node a ca (node b cb s)).nodes ++ g.nodes) := by simp [nodes]
        obtain ⟨m'', first, g', hpairs, hroots, hperm', hlength, hkeeps''⟩ :=
          ih hrow' hordered hpush (hnodes.nodup_iff.mpr hnodup) (by simp [roots] at hn; omega)
        refine ⟨m'', first, g', ?_, hroots, hperm'.trans hnodes, ?_, ?_⟩
        · rw [pairUp, hb]
          simp only [Option.bind_eq_bind, Option.bind_some]
          rw [Timers.setSibling_of_ne hab, hmeld]
          exact hpairs
        · simp only [roots, List.length_cons] at hlength ⊢
          omega
        · have hmem : r :: c.nodes ⊆ a :: ca.nodes ++ b :: cb.nodes := hperm.subset
          refine (hkeeps₂.mono ?_).trans ((Keeps.setSibling ?_).trans (hkeeps''.mono hnodes.subset))
          · intro u hu
            simp only [nodes, List.mem_append, List.mem_cons] at hu ⊢
            tauto
          · have hr' := hmem List.mem_cons_self
            simp only [nodes, List.mem_append, List.mem_cons] at hr' ⊢
            tauto

theorem IsHeap.congr {root : Option TimerId} (h : IsHeap m root f) (hkeeps : Keeps m m' ts)
    (hsame : ∀ u ∈ f.nodes, m' u = m u) : IsHeap m' root f where
  linked := h.linked.congr hsame
  single := h.single
  ordered := by
    rw [hkeeps.precedes_eq]
    exact h.ordered
  nodup := h.nodup

/-- The second pass. -/
theorem meldAll_spec (n : ℕ) : ∀ {m : Timers} {f g : Forest TimerId}
    {reversed result : Option TimerId}, Roots m f reversed → IsHeap m result g →
    (f.nodes ++ g.nodes).Nodup → f.roots.length ≤ n →
    ∃ m' root f', meldAll n m reversed result = some (m', root) ∧ IsHeap m' root f' ∧
      f'.nodes.Perm (f.nodes ++ g.nodes) ∧ Keeps m m' (f.nodes ++ g.nodes) := by
  induction n with
  | zero =>
    intro m f g reversed result hf hg _ hn
    cases f with
    | nil =>
      obtain rfl : reversed = none := hf.row
      exact ⟨m, result, g, rfl, hg, .refl _, .refl _ _⟩
    | node => simp [roots] at hn
  | succ n ih =>
    intro m f g reversed result hf hg hnodup hn
    cases f with
    | nil =>
      obtain rfl : reversed = none := hf.row
      exact ⟨m, result, g, rfl, hg, .refl _, .refl _ _⟩
    | node t c s =>
      obtain ⟨rfl, hprev, hc, hs⟩ := hf.row
      have hall : ((t :: c.nodes) ++ (s.nodes ++ g.nodes)).Nodup := by
        simpa [nodes] using hnodup
      obtain ⟨hnt, hsg, hapart⟩ := List.nodup_append.mp hall
      have hother {u : TimerId} (hu : u ≠ t) : m.setSibling t none u = m u :=
        Timers.setSibling_of_ne hu
      have hkeeps : Keeps m (m.setSibling t none) [t] := .setSibling (by simp)
      have hsub : Subtree m t c := ⟨hc, hf.ordered.1, hf.ordered.2.1, hnt⟩
      have hheap : IsHeap (m.setSibling t none) (some t) (node t c nil) := by
        refine (hsub.congr hkeeps (by rw [Timers.setSibling_self]) fun u hu => hother ?_).isHeap
          (by rw [Timers.setSibling_self]) (by rw [Timers.setSibling_self]; exact hprev)
        rintro rfl
        exact (List.nodup_cons.mp hnt).1 hu
      have hg' : IsHeap (m.setSibling t none) result g := hg.congr hkeeps fun u hu =>
        hother (hapart t List.mem_cons_self u (List.mem_append_right _ hu)).symm
      obtain ⟨m', root, f', hmeld, hmelded, hperm, hkeeps'⟩ := meld_isHeap hg' hheap
        fun u hu v hv => (hapart v (by simpa [nodes] using hv) u (List.mem_append_right _ hu)).symm
      have hsame : ∀ u ∈ s.nodes, m' u = m u := by
        intro u hu
        have hgu : u ∉ g.nodes := fun h => (List.nodup_append.mp hsg).2.2 u hu u h rfl
        have htu : u ∉ t :: c.nodes := fun h => hapart u h u (List.mem_append_left _ hu) rfl
        rw [hkeeps'.other u (by simp only [nodes, List.append_nil, List.mem_append]; tauto)]
        exact hother (List.ne_of_not_mem_cons htu)
      have hs' : Roots m' s (m t).heapSibling :=
        ⟨hs.congr hsame, by
          rw [hkeeps'.precedes_eq, hkeeps.precedes_eq]
          exact hf.ordered.2.2⟩
      have hnodes : (s.nodes ++ f'.nodes).Perm ((node t c s).nodes ++ g.nodes) := by
        calc s.nodes ++ f'.nodes
          _ |>.Perm (s.nodes ++ (g.nodes ++ t :: c.nodes)) :=
              (hperm.trans (by simp [nodes])).append_left _
          _ |>.Perm ((t :: c.nodes) ++ (s.nodes ++ g.nodes)) := by
              rw [← List.append_assoc]
              exact List.perm_append_comm
          _ |>.Perm ((node t c s).nodes ++ g.nodes) := by simp [nodes]
      obtain ⟨m'', root', f'', hrest, hresult, hperm', hkeeps''⟩ :=
        ih hs' hmelded (hnodes.nodup_iff.mpr hnodup) (by simpa [roots] using hn)
      refine ⟨m'', root', f'', ?_, hresult, hperm'.trans hnodes, ?_⟩
      · rw [meldAll, hmeld]
        exact hrest
      · refine ((hkeeps.mono ?_).trans (hkeeps'.mono ?_)).trans (hkeeps''.mono hnodes.subset)
        · simp [nodes]
        · intro u hu
          simp only [nodes, List.mem_append, List.mem_cons, List.append_nil] at hu ⊢
          tauto

/-- The trees become one, in as many iterations as there are trees. -/
theorem mergePairs_spec {fuel : ℕ} {first : Option TimerId} (hrow : Row m (fun _ => True) f first)
    (hf : f.Ordered m.precedes) (hnodup : f.nodes.Nodup) (hfuel : f.roots.length ≤ fuel) :
    ∃ m' root f', mergePairs fuel m first = some (m', root) ∧ IsHeap m' root f' ∧
      f'.nodes.Perm f.nodes ∧ Keeps m m' f.nodes := by
  have hnil : Roots m nil none := ⟨rfl, trivial⟩
  obtain ⟨m', reversed, g, hpairs, hg, hperm, hlength, hkeeps⟩ :=
    pairUp_spec fuel hrow hf hnil (by simpa [nodes] using hnodup) hfuel
  simp only [nodes, roots, List.append_nil, List.length_nil, Nat.add_zero] at hperm hlength hkeeps
  have hempty : IsHeap m' none nil := ⟨rfl, Nat.zero_le _, trivial, List.nodup_nil⟩
  obtain ⟨m'', root, f', hall, hheap, hperm', hkeeps'⟩ := meldAll_spec fuel hg hempty
    (by simpa [nodes] using hperm.nodup_iff.mpr hnodup) (hlength.trans hfuel)
  simp only [nodes, List.append_nil] at hperm' hkeeps'
  refine ⟨m'', root, f', ?_, hheap, hperm'.trans hperm, hkeeps.trans (hkeeps'.mono hperm.subset)⟩
  rw [mergePairs, hpairs]
  exact hall

end Pairing

/-! ### Taking a timer out of its place -/

section Detach

variable {m m' : Timers} {t p : TimerId} {c f g : Forest TimerId} {prev first : Option TimerId}

/-- What taking `t` out changes: the link to it, the link back from its next sibling, and its own
links to both. -/
structure Detached (m m' : Timers) (t p : TimerId) : Prop where
  prev : m' p = if (m p).heapChild = some t then { m p with heapChild := (m t).heapSibling }
    else { m p with heapSibling := (m t).heapSibling }
  self : m' t = { m t with heapSibling := none, heapPrev := none }
  next : ∀ s, (m t).heapSibling = some s → m' s = { m s with heapPrev := some p }
  other : ∀ u, u ≠ p → u ≠ t → (m t).heapSibling ≠ some u → m' u = m u

theorem exists_detached (hprev : (m t).heapPrev = some p) (hpt : p ≠ t)
    (hp : (m t).heapSibling ≠ some p) (ht : (m t).heapSibling ≠ some t) :
    ∃ m', detach m t = some m' ∧ Detached m m' t p := by
  obtain ⟨m₁, hm₁⟩ : ∃ m₁, m₁ = if (m p).heapChild = some t then m.setChild p (m t).heapSibling
    else m.setSibling p (m t).heapSibling := ⟨_, rfl⟩
  have hself : m₁ p = if (m p).heapChild = some t then { m p with heapChild := (m t).heapSibling }
      else { m p with heapSibling := (m t).heapSibling } := by
    rw [hm₁]
    split_ifs
    · exact Timers.setChild_self
    · exact Timers.setSibling_self
  have hother : ∀ u, u ≠ p → m₁ u = m u := by
    intro u hu
    rw [hm₁]
    split_ifs
    · exact Timers.setChild_of_ne hu
    · exact Timers.setSibling_of_ne hu
  have ht₁ : m₁ t = m t := hother t hpt.symm
  obtain ⟨m₂, hm₂⟩ : ∃ m₂, m₂ = match (m t).heapSibling with
    | some s => m₁.setPrev s (some p)
    | none => m₁ := ⟨_, rfl⟩
  have hnext : ∀ s, (m t).heapSibling = some s → m₂ s = { m₁ s with heapPrev := some p } := by
    intro s hs
    rw [hs] at hm₂
    rw [hm₂]
    exact Timers.setPrev_self
  have hrest : ∀ u, (m t).heapSibling ≠ some u → m₂ u = m₁ u := by
    intro u hu
    rw [hm₂]
    cases hs : (m t).heapSibling with
    | none => rfl
    | some s => exact Timers.setPrev_of_ne fun heq => hu (heq ▸ hs)
  rw [detach, hprev, Option.bind_eq_bind, Option.bind_some, ← hm₁]
  dsimp only
  rw [ht₁, ← hm₂]
  refine ⟨_, rfl, ?_, ?_, ?_, ?_⟩
  · rw [Timers.setPrev_of_ne hpt, Timers.setSibling_of_ne hpt, hrest p hp, hself]
  · rw [Timers.setPrev_self, Timers.setSibling_self, hrest t ht, ht₁]
  · intro s hs
    have hst : s ≠ t := fun heq => ht (heq ▸ hs)
    have hsp : s ≠ p := fun heq => hp (heq ▸ hs)
    rw [Timers.setPrev_of_ne hst, Timers.setSibling_of_ne hst, hnext s hs, hother s hsp]
  · intro u hup hut hne
    rw [Timers.setPrev_of_ne hut, Timers.setSibling_of_ne hut, hrest u hne, hother u hup]

theorem Detached.key (h : Detached m m' t p) (u : TimerId) : (m' u).key = (m u).key := by
  by_cases hp : u = p
  · rw [hp, h.prev]
    split_ifs <;> rfl
  · by_cases ht : u = t
    · rw [ht, h.self]
      rfl
    · by_cases hnext : (m t).heapSibling = some u
      · rw [h.next u hnext]
        rfl
      · rw [h.other u hp ht hnext]

/-- The siblings after `t` take its place. -/
theorem Detached.linked {r : Forest TimerId} (h : Detached m m' t p)
    (hr : Linked m r (some t) (m t).heapSibling) (hnodup : r.nodes.Nodup) (hp : p ∉ r.nodes)
    (ht : t ∉ r.nodes) : Linked m' r (some p) (m t).heapSibling :=
  hr.reroot hnodup h.next fun u hu hne =>
    h.other u (fun heq => hp (heq ▸ hu)) (fun heq => ht (heq ▸ hu)) hne

/-- Taking out the first tree of a forest that goes back to `p`. -/
theorem detach_first {d d' : Forest TimerId} (hd : Linked m d (some p) (some t))
    (hcut : Cut t c d d') (hnodup : d.nodes.Nodup) (hp : p ∉ d.nodes) :
    ∃ m', detach m t = some m' ∧ Detached m m' t p ∧ Linked m' d' (some p) (m t).heapSibling ∧
      Linked m' c (some t) (m' t).heapChild ∧ ∀ u, u ∉ p :: d.nodes → m' u = m u := by
  cases d with
  | nil => cases hd
  | node u e r =>
    obtain ⟨hfirst, hprev, he, hr⟩ := hd
    cases hfirst
    obtain ⟨ht, her⟩ := List.nodup_cons.mp hnodup
    obtain ⟨hne, hnr, hdisjoint⟩ := List.nodup_append.mp her
    obtain ⟨rfl, rfl⟩ := hcut.of_root ht
    have hpt : p ≠ t := fun h => hp (h ▸ List.mem_cons_self)
    have hpr : p ∉ d'.nodes := fun h => hp (List.mem_cons_of_mem _ (List.mem_append_right _ h))
    have htr : t ∉ d'.nodes := fun h => ht (List.mem_append_right _ h)
    obtain ⟨m', hdetach, hm'⟩ := exists_detached hprev hpt (fun h => hpr (hr.mem_of_first h))
      (fun h => htr (hr.mem_of_first h))
    have hother : ∀ u, u ≠ p → u ≠ t → u ∉ d'.nodes → m' u = m u := fun u hup hut hur =>
      hm'.other u hup hut fun h => hur (hr.mem_of_first h)
    refine ⟨m', hdetach, hm', hm'.linked hr hnr hpr htr, ?_, fun u hu => ?_⟩
    · rw [hm'.self]
      refine he.congr fun u hu => hother u ?_ ?_ fun h => hdisjoint u hu u h rfl
      · rintro rfl
        exact hp (List.mem_cons_of_mem _ (List.mem_append_left _ hu))
      · rintro rfl
        exact ht (List.mem_append_left _ hu)
    · simp only [nodes, List.mem_cons, List.mem_append, not_or] at hu
      exact hother u hu.1 hu.2.1 hu.2.2.2

/-- Without the tree of `t` a linked forest is linked, and so is what was below `t`. -/
theorem detach_spec (hcut : Cut t c f g) : ∀ {prev first : Option TimerId}, Linked m f prev first →
    f.nodes.Nodup → first ≠ some t → ∃ m', detach m t = some m' ∧ Linked m' g prev first ∧
      Linked m' c (some t) (m' t).heapChild ∧ Keeps m m' f.nodes := by
  induction hcut with
  | here s => exact fun h _ hne => absurd h.1 hne
  | @child u d d' s hcut ih =>
    intro prev first h hnodup _
    obtain ⟨hfirst, hprev, hd, hs⟩ := h
    obtain ⟨hu, hds⟩ := List.nodup_cons.mp hnodup
    obtain ⟨hnd, hns, hdisjoint⟩ := List.nodup_append.mp hds
    by_cases hchild : (m u).heapChild = some t
    · rw [hchild] at hd
      obtain ⟨m', hdetach, hm', hlinked, hc, hother⟩ :=
        detach_first hd hcut hnd fun h => hu (List.mem_append_left _ h)
      have hmu := hm'.prev
      rw [if_pos hchild] at hmu
      refine ⟨m', hdetach, ⟨hfirst, by rw [hmu]; exact hprev, ?_, ?_⟩, hc, hm'.key, ?_⟩
      · rw [hmu]
        exact hlinked
      · rw [hmu]
        refine hs.congr fun v hv => hother v (List.not_mem_cons_of_ne_of_not_mem ?_ fun h => ?_)
        · rintro rfl
          exact hu (List.mem_append_right _ hv)
        · exact hdisjoint v h v hv rfl
      · intro v hv
        simp only [nodes, List.mem_cons, List.mem_append, not_or] at hv
        exact hother v (List.not_mem_cons_of_ne_of_not_mem hv.1 hv.2.1)
    · obtain ⟨m', hdetach, hlinked, hc, hkeeps⟩ := ih hd hnd hchild
      have hsame : ∀ v, v ∉ d.nodes → m' v = m v := hkeeps.other
      have hmu : m' u = m u := hsame u fun h => hu (List.mem_append_left _ h)
      refine ⟨m', hdetach, ⟨hfirst, hmu ▸ hprev, ?_, ?_⟩, hc, hkeeps.mono ?_⟩
      · rw [hmu]
        exact hlinked
      · rw [hmu]
        exact hs.congr fun v hv => hsame v fun h => hdisjoint v h v hv rfl
      · exact fun v hv => List.mem_cons_of_mem _ (List.mem_append_left _ hv)
  | @sibling u d s s' hcut ih =>
    intro prev first h hnodup _
    obtain ⟨hfirst, hprev, hd, hs⟩ := h
    obtain ⟨hu, hds⟩ := List.nodup_cons.mp hnodup
    obtain ⟨hnd, hns, hdisjoint⟩ := List.nodup_append.mp hds
    by_cases hsibling : (m u).heapSibling = some t
    · have hchild : (m u).heapChild ≠ some t := fun h =>
        hdisjoint t (hd.mem_of_first h) t hcut.mem_nodes rfl
      rw [hsibling] at hs
      obtain ⟨m', hdetach, hm', hlinked, hc, hother⟩ :=
        detach_first hs hcut hns fun h => hu (List.mem_append_right _ h)
      have hmu := hm'.prev
      rw [if_neg hchild] at hmu
      refine ⟨m', hdetach, ⟨hfirst, by rw [hmu]; exact hprev, ?_, ?_⟩, hc, hm'.key, ?_⟩
      · rw [hmu]
        refine hd.congr fun v hv => hother v (List.not_mem_cons_of_ne_of_not_mem ?_ fun h => ?_)
        · rintro rfl
          exact hu (List.mem_append_left _ hv)
        · exact hdisjoint v hv v h rfl
      · rw [hmu]
        exact hlinked
      · intro v hv
        simp only [nodes, List.mem_cons, List.mem_append, not_or] at hv
        exact hother v (List.not_mem_cons_of_ne_of_not_mem hv.1 hv.2.2)
    · obtain ⟨m', hdetach, hlinked, hc, hkeeps⟩ := ih hs hns hsibling
      have hsame : ∀ v, v ∉ s.nodes → m' v = m v := hkeeps.other
      have hmu : m' u = m u := hsame u fun h => hu (List.mem_append_right _ h)
      refine ⟨m', hdetach, ⟨hfirst, hmu ▸ hprev, ?_, ?_⟩, hc, hkeeps.mono ?_⟩
      · rw [hmu]
        exact hd.congr fun v hv => hsame v fun h => hdisjoint v hv v h rfl
      · rw [hmu]
        exact hlinked
      · exact fun v hv => List.mem_cons_of_mem _ (List.mem_append_right _ hv)

end Detach

/-! ### The operations on a heap -/

namespace TimerHeap

variable {h : TimerHeap} {f : Forest TimerId} {t r : TimerId} {fuel : ℕ}

theorem insert_spec (hheap : IsHeap h.timers h.root f) (ht : t ∉ f.nodes) :
    ∃ g, IsHeap (h.insert t).timers (h.insert t).root g ∧ g.nodes.Perm (t :: f.nodes) ∧
      Keeps h.timers (h.insert t).timers (t :: f.nodes) := by
  have hself : ((h.timers.setChild t none).setSibling t none).setPrev t none t =
      { h.timers t with heapChild := none, heapSibling := none, heapPrev := none } := by
    rw [Timers.setPrev_self, Timers.setSibling_self, Timers.setChild_self]
  have hother {u : TimerId} (hu : u ≠ t) :
      ((h.timers.setChild t none).setSibling t none).setPrev t none u = h.timers u := by
    rw [Timers.setPrev_of_ne hu, Timers.setSibling_of_ne hu, Timers.setChild_of_ne hu]
  have hkeeps : Keeps h.timers
      (((h.timers.setChild t none).setSibling t none).setPrev t none) [t] :=
    (Keeps.trans (.setChild (by simp)) (.setSibling (by simp))).trans (.setPrev (by simp))
  have hrest : IsHeap (((h.timers.setChild t none).setSibling t none).setPrev t none) h.root f :=
    hheap.congr hkeeps fun u hu => hother fun heq => ht (heq ▸ hu)
  have hone : IsHeap (((h.timers.setChild t none).setSibling t none).setPrev t none) (some t)
      (node t nil nil) :=
    ⟨⟨rfl, by rw [hself], by rw [hself]; rfl, by rw [hself]; rfl⟩, le_rfl,
      ⟨fun _ hu => (List.not_mem_nil hu).elim, trivial, trivial⟩, List.nodup_singleton t⟩
  obtain ⟨m', root, g, hmeld, hg, hperm, hkeeps'⟩ := meld_isHeap hrest hone fun u hu v hv => by
    rw [List.mem_singleton.mp hv]
    exact fun heq => ht (heq ▸ hu)
  have hinsert : h.insert t = ⟨m', root⟩ := by
    rw [insert, hmeld]
  have hperm' : (f.nodes ++ [t]).Perm (t :: f.nodes) := List.perm_append_singleton t f.nodes
  rw [hinsert]
  exact ⟨g, hg, hperm.trans hperm',
    (hkeeps.mono (by simp)).trans (hkeeps'.mono hperm'.subset)⟩

/-- The root precedes all timers of the heap. -/
theorem root_precedes (hheap : IsHeap h.timers h.root f) (hroot : h.root = some r) :
    r ∈ f.nodes ∧ ∀ u ∈ f.nodes, r = u ∨ h.timers.precedes r u := by
  rw [hroot] at hheap
  have hmem := hheap.linked.mem_of_first rfl
  cases f with
  | nil => cases hmem
  | node q c s =>
    obtain ⟨rfl, rfl, -⟩ := hheap.subtree
    refine ⟨hmem, fun u hu => ?_⟩
    have htrans : ∀ a b c, h.timers.precedes a b → h.timers.precedes b c →
        h.timers.precedes a c := fun _ _ _ hab hbc => Precedes.trans hab hbc
    obtain ⟨v, hv, hvu⟩ := hheap.ordered.exists_root htrans hu
    rw [List.mem_singleton.mp hv] at hvu
    exact hvu

/-- The root is taken out. -/
theorem pop_spec (hheap : IsHeap h.timers h.root f) (hroot : h.root = some r)
    (hfuel : f.nodes.length ≤ fuel) :
    ∃ h' g, h.pop fuel = some (h', some r) ∧ IsHeap h'.timers h'.root g ∧
      f.nodes.Perm (r :: g.nodes) ∧ Keeps h.timers h'.timers f.nodes := by
  rw [hroot] at hheap
  cases f with
  | nil => cases hheap.linked
  | node q c s =>
    obtain ⟨rfl, rfl, hsub⟩ := hheap.subtree
    obtain ⟨hq, hc⟩ := List.nodup_cons.mp hsub.nodup
    have hlength : c.roots.length ≤ fuel := by
      have hroots := c.length_roots_le
      simp only [nodes, List.append_nil, List.length_cons] at hfuel
      omega
    obtain ⟨m', root, g, hmerge, hg, hperm, hkeeps⟩ :=
      mergePairs_spec hsub.linked.row hsub.ordered hc hlength
    have hkeeps' : Keeps m' (m'.setChild q none) [q] := .setChild (by simp)
    refine ⟨⟨m'.setChild q none, root⟩, g, ?_, hg.congr hkeeps' fun u hu => ?_, ?_, ?_⟩
    · rw [pop, hroot]
      dsimp only
      rw [hmerge]
      rfl
    · refine Timers.setChild_of_ne ?_
      rintro rfl
      exact hq (hperm.mem_iff.mp hu)
    · rw [nodes, nodes, List.append_nil]
      exact hperm.symm.cons q
    · refine (hkeeps.mono ?_).trans (.setChild ?_)
      · simp [nodes]
      · simp [nodes]

theorem remove_spec (hheap : IsHeap h.timers h.root f) (ht : t ∈ f.nodes)
    (hfuel : f.nodes.length ≤ fuel) :
    ∃ h' g, h.remove fuel t = some h' ∧ IsHeap h'.timers h'.root g ∧
      f.nodes.Perm (t :: g.nodes) ∧ Keeps h.timers h'.timers f.nodes := by
  by_cases hroot : h.root = some t
  · obtain ⟨h', g, hpop, hrest⟩ := pop_spec hheap hroot hfuel
    exact ⟨h', g, by rw [remove, if_pos hroot, hpop]; rfl, hrest⟩
  · obtain ⟨c, g, hcut⟩ := exists_cut ht
    have hperm := hcut.perm
    obtain ⟨htcg, hcg⟩ := List.nodup_cons.mp (hperm.nodup_iff.mp hheap.nodup)
    obtain ⟨hc, hg, hdisjoint⟩ := List.nodup_append.mp hcg
    obtain ⟨hco, hgo⟩ := hcut.ordered hheap.ordered
    obtain ⟨m₁, hdetach, hlinked, hlinkedc, hkeeps₁⟩ :=
      detach_spec hcut hheap.linked hheap.nodup hroot
    have hheap₁ : IsHeap m₁ h.root g := by
      refine ⟨hlinked, hcut.roots_sublist.length_le.trans hheap.single, ?_, hg⟩
      rw [hkeeps₁.precedes_eq]
      exact hgo
    have hlength : c.roots.length ≤ fuel := by
      have hroots := c.length_roots_le
      have hlen := hperm.length_eq
      simp only [List.length_cons, List.length_append] at hlen
      omega
    obtain ⟨m₂, sub, d, hmerge, hd, hpermd, hkeeps₂⟩ :=
      mergePairs_spec hlinkedc.row (hkeeps₁.precedes_eq ▸ hco) hc hlength
    have hkeeps₃ : Keeps m₂ (m₂.setChild t none) [t] := .setChild (by simp)
    have hsub : IsHeap (m₂.setChild t none) sub d := hd.congr hkeeps₃ fun u hu =>
      Timers.setChild_of_ne fun heq =>
        htcg (List.mem_append_left _ (hpermd.mem_iff.mp (heq ▸ hu)))
    have hrest : IsHeap (m₂.setChild t none) h.root g :=
      (hheap₁.congr hkeeps₂ fun u hu => hkeeps₂.other u fun hmem => hdisjoint u hmem u hu rfl).congr
        hkeeps₃ fun u hu => Timers.setChild_of_ne fun heq =>
          htcg (List.mem_append_right _ (heq ▸ hu))
    obtain ⟨m', root, g', hmeld, hg', hpermg, hkeeps₄⟩ := meld_isHeap hrest hsub
      fun u hu v hv heq => hdisjoint v (hpermd.mem_iff.mp hv) u hu heq.symm
    have hnodes : (t :: (g.nodes ++ d.nodes)).Perm f.nodes :=
      (((hpermd.append_left _).trans List.perm_append_comm).cons t).trans hperm.symm
    refine ⟨⟨m', root⟩, g', ?_, hg', hnodes.symm.trans (hpermg.symm.cons t), ?_⟩
    · rw [remove, if_neg hroot, hdetach, Option.bind_eq_bind, Option.bind_some, hmerge,
        Option.bind_eq_bind, Option.bind_some]
      dsimp only
      rw [hmeld]
    · have hcsub : c.nodes ⊆ f.nodes := fun u hu =>
        hperm.mem_iff.mpr (List.mem_cons_of_mem t (List.mem_append_left _ hu))
      refine (hkeeps₁.trans (hkeeps₂.mono hcsub)).trans ((Keeps.setChild ht).trans
        (hkeeps₄.mono fun u hu => hnodes.subset (List.mem_cons_of_mem t hu)))

end TimerHeap

end Zzdds.Core
