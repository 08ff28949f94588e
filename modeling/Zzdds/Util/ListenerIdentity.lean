import Zzdds.Lib.Run
import Zzdds.Lib.Threads
import Zzdds.Lib.Trapping

/-! # Listener identities

`Registry` and `Identity` of `listener_identity.zig`: a counted record for each listener, found by
its key, with one execution right and a queue of those who wait for it.  The calls of `retain` and
`release` are made of atomic steps, which any number of threads take in any order; a weak
compare-exchange may fail for no reason, and memory may be missing.  A step is none where it waits
for a lock, where an assertion fails or where it would touch a record that was freed. -/

namespace Zzdds.Util

open Lib Trapping

/-! ### Records -/

inductive KeyKind where
  | context
  | registration
deriving DecidableEq, Repr

structure Key where
  ptr : ℕ
  kind : KeyKind
deriving DecidableEq, Repr

/-- A queued waiter, with the number of its arrival. -/
structure Waiting where
  ticket : ℕ
  waiter : ℕ
deriving DecidableEq, Repr

/-- A record.  `freed` says how often it was destroyed, `arrivals` how many waiters were queued; of
these the right was passed to some, some of them were called, and some were cancelled. -/
structure Identity where
  key : Key
  refs : ℕ := 1
  held : Bool := false
  queue : List Waiting := []
  freed : ℕ := 0
  arrivals : ℕ := 0
  passed : List ℕ := []
  granted : List ℕ := []
  cancelled : List ℕ := []
deriving DecidableEq, Repr

namespace Identity

variable (r : Identity)

def retain : Identity := { r with refs := (r.refs + 1) % u32 }

/-- `fetchSub` of one reference. -/
def unref : Identity := { r with refs := (r.refs + (u32 - 1)) % u32 }

def tryAcquire (w : ℕ) : Identity × Bool :=
  if !r.held then ({ r with held := true }, true)
  else ({ r with queue := r.queue ++ [⟨r.arrivals, w⟩], arrivals := r.arrivals + 1 }, false)

def tryTake : Identity × Bool := if r.held then (r, false) else ({ r with held := true }, true)

/-- The record, and whom the right is passed to. -/
def releaseRight : Option (Identity × Option ℕ) :=
  if r.held then some <| match r.queue with
    | [] => ({ r with held := false }, none)
    | w :: queue => ({ r with queue := queue, passed := r.passed ++ [w.ticket] }, some w.ticket)
  else none

def cancel (w : ℕ) : Identity × Bool :=
  match r.queue.find? (·.waiter = w) with
  | none => (r, false)
  | some x => ({ r with queue := r.queue.erase x, cancelled := r.cancelled ++ [x.ticket] }, true)

/-- The references that the right and the queue need. -/
def needs : ℕ := r.queue.length + if r.held then 1 else 0

end Identity

/-! ### The registry -/

/-- The registry; `references` are those that callers have. -/
structure Registry where
  records : List Identity := []
  locked : ℕ → Bool := fun _ => false
  map : Key → Option ℕ := fun _ => none
  references : List ℕ := []

def stripe (key : Key) : ℕ := key.ptr / 16 % 64

/-- Steps of a thread: of `retain`, of `release`, and the call of a waiter. -/
inductive IdentityFrame where
  | retain (key : Key)
  | lookup (key : Key)
  | revive (key : Key) (id : ℕ)
  | unlock (j : ℕ) (got : Option ℕ)
  | release (id : ℕ)
  | drop (id r : ℕ)
  | last (j id : ℕ)
  | remove (j id : ℕ)
  | destroy (id : ℕ)
  | grant (id ticket : ℕ)
deriving DecidableEq

namespace Registry

variable (g : Registry)

/-- A record that may be touched. -/
def alive (id : ℕ) : Option Identity :=
  g.records[id]?.bind fun r => if r.freed = 0 then some r else none

def put (id : ℕ) (r : Identity) : Registry := { g with records := g.records.set id r }

def lock (j : ℕ) : Registry := { g with locked := Function.update g.locked j true }

def create (key : Key) : Registry := { g with records := g.records ++ [{ key := key }] }

/-- An atomic step; `choice` says that there is memory, or that a compare-exchange fails. -/
def run (choice : Bool) (g : Registry) : IdentityFrame → Option (Registry × List IdentityFrame)
  | .retain key =>
    if key.kind = .registration then
      some (if choice then
        { g.create key with references := g.references ++ [g.records.length] } else g, [])
    else if g.locked (stripe key) then none
    else some (g.lock (stripe key), [.lookup key])
  | .lookup key =>
    match g.map key with
    | some id => some (g, [.revive key id])
    | none =>
      if choice then some
        ({ g.create key with map := Function.update g.map key (some g.records.length) },
          [.unlock (stripe key) (some g.records.length)])
      else some (g, [.unlock (stripe key) none])
  | .revive key id => (g.alive id).map fun r =>
      (g.put id r.retain, [.unlock (stripe key) (some id)])
  | .unlock j got => some
      ({ g with
        locked := Function.update g.locked j false
        references := g.references ++ got.toList }, [])
  | .release id => (g.alive id).map fun r =>
      if r.key.kind = .registration then
        (g.put id r.unref, if r.refs = 1 then [.destroy id] else [])
      else (g, [.drop id r.refs])
  | .drop id n => (g.alive id).bind fun r =>
      if 1 < n then some <|
        if r.refs = n ∧ ¬ choice then (g.put id { r with refs := n - 1 }, [])
        else (g, [.drop id r.refs])
      else if g.locked (stripe r.key) then none
      else some (g.lock (stripe r.key), [.last (stripe r.key) id])
  | .last j id => (g.alive id).map fun r =>
      (g.put id r.unref, if r.refs = 1 then [.remove j id] else [.unlock j none])
  | .remove j id => (g.alive id).map fun r =>
      ({ g with map := Function.update g.map r.key none }, [.unlock j none, .destroy id])
  | .destroy id => (g.alive id).bind fun r =>
      if r.held ∨ r.queue ≠ [] then none
      else some (g.put id { r with freed := r.freed + 1 }, [])
  | .grant id ticket => some
      ({ g with
        records := g.records.modify id fun r => { r with granted := r.granted ++ [ticket] } }, [])

end Registry

/-! ### Its users -/

abbrev RegistryThreads := Threads Registry IdentityFrame

inductive RegistryAction where
  | retain (key : Key)
  | share (id : ℕ)
  | release (id : ℕ)
  | tryAcquire (id w : ℕ)
  | tryTake (id : ℕ)
  | releaseRight (id : ℕ)
  | cancel (id w : ℕ)
  | turn (i : ℕ) (choice : Bool)

namespace RegistryThreads

variable (t : RegistryThreads)

/-- A holder of the right and a waiter have a reference each, and keep it. -/
def Spare (g : Registry) (id : ℕ) : Prop :=
  ∃ r ∈ g.alive id, r.needs < g.references.count id

instance (g : Registry) (id : ℕ) : Decidable (Spare g id) := by
  unfold Spare
  infer_instance

/-- Callers use their own references, a waiter is queued once, and whom the right is passed to gives
it up after it was called. -/
def step : RegistryAction → Option RegistryThreads
  | .retain key => some (t.spawn t.shared [.retain key])
  | .share id =>
    if id ∈ t.shared.references then (t.shared.alive id).map fun r =>
      { t with shared :=
        { t.shared.put id r.retain with references := t.shared.references ++ [id] } }
    else none
  | .release id =>
    if Spare t.shared id then some
      (t.spawn { t.shared with references := t.shared.references.erase id } [.release id])
    else none
  | .tryAcquire id w =>
    if Spare t.shared id ∧ ∀ r ∈ t.shared.records, ∀ x ∈ r.queue, x.waiter ≠ w then
      (t.shared.alive id).map fun r => { t with shared := t.shared.put id (r.tryAcquire w).1 }
    else none
  | .tryTake id =>
    if Spare t.shared id then
      (t.shared.alive id).map fun r => { t with shared := t.shared.put id r.tryTake.1 }
    else none
  | .releaseRight id => (t.shared.alive id).bind fun r =>
      if r.held ∧ r.granted = r.passed then r.releaseRight.map fun (r', ticket) =>
        t.spawn (t.shared.put id r') (ticket.map (.grant id)).toList
      else none
  | .cancel id w =>
    if id ∈ t.shared.references then
      (t.shared.alive id).map fun r => { t with shared := t.shared.put id (r.cancel w).1 }
    else none
  | .turn i choice => t.turn (Registry.run choice) i

end RegistryThreads

/-! ### The execution right -/

namespace Identity

variable {r : Identity} {granting : ℕ → ℕ} {w : ℕ}

def tickets (r : Identity) : List ℕ := r.queue.map (·.ticket)

/-- The right goes from waiter to waiter in the order they arrived, each waiter is passed it once,
is queued or was cancelled, and whom it was passed to last is called once. -/
structure Fair (r : Identity) (granting : ℕ → ℕ) : Prop where
  order : (r.passed ++ r.tickets).Pairwise (· < ·)
  once : (r.passed ++ r.tickets ++ r.cancelled).Perm (List.range r.arrivals)
  held : r.queue ≠ [] → r.held = true
  granted : r.passed = r.granted ∧ (∀ ticket, granting ticket = 0) ∨
    ∃ ticket, r.passed = r.granted ++ [ticket] ∧ r.held = true ∧
      ∀ ticket', granting ticket' = if ticket = ticket' then 1 else 0

namespace Fair

theorem fresh (key : Key) (hnone : ∀ ticket, granting ticket = 0) :
    Fair { key := key } granting where
  order := .nil
  once := .refl _
  held h := absurd rfl h
  granted := .inl ⟨rfl, hnone⟩

theorem lt (h : r.Fair granting) {ticket : ℕ} (ht : ticket ∈ r.passed ++ r.tickets) :
    ticket < r.arrivals :=
  List.mem_range.mp (h.once.mem_iff.mp (List.mem_append_left _ ht))

theorem tryAcquire (h : r.Fair granting) (w : ℕ) : (r.tryAcquire w).1.Fair granting := by
  unfold Identity.tryAcquire
  split_ifs with hheld
  · exact ⟨h.order, h.once, fun _ => rfl, h.granted.imp_right
      fun ⟨ticket, hp, _, hg⟩ => ⟨ticket, hp, rfl, hg⟩⟩
  · have hheld : r.held = true := by
      cases hr : r.held with
      | true => rfl
      | false => exact absurd (congrArg (!·) hr) hheld
    have htickets : (r.queue ++ [(⟨r.arrivals, w⟩ : Waiting)]).map (·.ticket) =
        r.tickets ++ [r.arrivals] := List.map_append
    refine ⟨?_, ?_, fun _ => hheld, h.granted⟩
    · unfold tickets
      dsimp only
      rw [htickets, ← List.append_assoc, List.pairwise_append]
      refine ⟨h.order, List.pairwise_singleton _ _, fun ticket ht ticket' ht' => ?_⟩
      cases List.mem_singleton.mp ht'
      exact h.lt ht
    · unfold tickets
      dsimp only
      rw [htickets, ← List.append_assoc, List.append_assoc, List.range_succ]
      exact (List.perm_append_comm.append_left _).trans (by
        rw [← List.append_assoc]
        exact h.once.append_right _)

theorem tryTake (h : r.Fair granting) : r.tryTake.1.Fair granting := by
  unfold Identity.tryTake
  split_ifs with hheld
  · exact h
  · exact ⟨h.order, h.once, fun _ => rfl, h.granted.imp_right
      fun ⟨ticket, hp, _, hg⟩ => ⟨ticket, hp, rfl, hg⟩⟩

theorem cancel (h : r.Fair granting) (w : ℕ) : (r.cancel w).1.Fair granting := by
  unfold Identity.cancel
  split
  · exact h
  next x hx =>
    have hmem := List.mem_of_find?_eq_some hx
    have hsub : ((r.queue.erase x).map (·.ticket)).Sublist r.tickets := List.erase_sublist.map _
    have hperm : (x.ticket :: (r.queue.erase x).map (·.ticket)).Perm r.tickets :=
      (List.perm_cons_erase hmem).symm.map Waiting.ticket
    refine ⟨h.order.sublist (hsub.append_left _), ?_, fun hne => h.held (List.ne_nil_of_mem hmem),
      h.granted⟩
    unfold tickets
    dsimp only
    refine List.Perm.trans ?_ h.once
    rw [List.append_assoc, List.append_assoc]
    refine List.Perm.append_left _ ?_
    rw [← List.append_assoc]
    refine List.perm_append_comm.trans ?_
    rw [List.singleton_append, ← List.cons_append]
    exact hperm.append_right _

theorem done (h : r.Fair granting) (hdone : r.granted = r.passed) (ticket : ℕ) :
    granting ticket = 0 := by
  obtain ⟨-, hnone⟩ | ⟨last, hp, -⟩ := h.granted
  · exact hnone ticket
  · exact absurd (hdone.trans hp) (by simp)

theorem releaseRight (h : r.Fair granting) (hdone : r.granted = r.passed) {r' : Identity}
    {got : Option ℕ} (hs : r.releaseRight = some (r', got)) {granting' : ℕ → ℕ}
    (hg : ∀ ticket, granting' ticket = (if got = some ticket then 1 else 0) + granting ticket) :
    r'.Fair granting' := by
  have hnone := h.done hdone
  unfold Identity.releaseRight at hs
  split_ifs at hs with hheld
  split at hs
  next hqueue =>
    cases hs
    refine ⟨h.order, h.once, fun hne => absurd hqueue hne, .inl ⟨hdone.symm, fun ticket => ?_⟩⟩
    rw [hg, hnone]
    rfl
  next w queue hqueue =>
    cases hs
    have htickets : r.tickets = w.ticket :: queue.map (·.ticket) := by
      unfold tickets
      rw [hqueue]
      rfl
    have hsplit : r.passed ++ r.tickets = r.passed ++ [w.ticket] ++ queue.map (·.ticket) := by
      rw [htickets, List.append_cons]
    refine ⟨hsplit ▸ h.order, hsplit ▸ h.once, fun _ => hheld,
      .inr ⟨w.ticket, congrArg (· ++ _) hdone.symm, hheld, fun ticket => ?_⟩⟩
    rw [hg, hnone, Nat.add_zero]
    simp only [Option.some.injEq]

theorem grant (h : r.Fair granting) {ticket : ℕ} {granting' : ℕ → ℕ}
    (hg : ∀ ticket', granting ticket' = (if ticket = ticket' then 1 else 0) + granting' ticket') :
    Fair { r with granted := r.granted ++ [ticket] } granting' := by
  have hone := hg ticket
  rw [if_pos rfl] at hone
  obtain ⟨-, hnone⟩ | ⟨last, hp, -, hlast⟩ := h.granted
  · rw [hnone] at hone
    omega
  · have heq : last = ticket := by
      by_contra hne
      rw [hlast, if_neg hne] at hone
      omega
    subst heq
    refine ⟨h.order, h.once, h.held, .inl ⟨hp, fun ticket' => ?_⟩⟩
    have hother := hg ticket'
    rw [hlast] at hother
    omega

theorem recount (h : r.Fair granting) (refs freed : ℕ) :
    Fair { r with refs := refs, freed := freed } granting :=
  ⟨h.order, h.once, h.held, h.granted⟩

end Fair

end Identity

end Zzdds.Util
