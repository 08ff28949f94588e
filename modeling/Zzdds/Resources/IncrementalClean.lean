import Zzdds.Resources.IncrementalRuns

/-! # What an incremental owner leaves behind

Every call and every reply keeps the invariant, and none of them meets an access that is not
there. -/

namespace Zzdds.Resources

open Lib

variable {n : ℕ}

namespace IncrementalWorld

open Incremental

variable {w w' : IncrementalWorld n} {f : IncrementalFrame n} {slot : Fin n} {before : List Live}
  {e : Entity}

/-! ### Calls -/

theorem deletable_holds {o : Incremental n} {h : Handle} :
    (o.deletable h).Holds fun i => o.state = .ready ∧ (o.entries i).entity ≠ none ∧
      Unreferred o.entries i := by
  refine ready_holds.bind fun _ hready => get_holds.bind fun i hi =>
    Outcome.reject_holds.bind fun _ hdependents => ?_
  exact ⟨hready, hi.2.2.1, hasDependents_eq_false.mp (Bool.eq_false_iff.mpr hdependents)⟩

/-- Deletion of what nothing leads to. -/
theorem Core.delete (h : w.Core) (hframes : w.frames = []) (hsettled : Settled w.owner)
    (handle : Handle) : ∃ w', w.delete handle = some w' ∧ w'.Sound := by
  unfold IncrementalWorld.delete
  cases hslot : w.owner.deletable handle with
  | trap => exact absurd hslot deletable_holds.ne_trap
  | error err => exact ⟨w, rfl, h, .inl ⟨hframes, hsettled⟩⟩
  | ok slot =>
    obtain ⟨-, hentity, hun⟩ := deletable_holds.of_ok hslot
    obtain ⟨e, he⟩ := Option.ne_none_iff_exists'.mp hentity
    obtain ⟨on, herase⟩ := erase_entity (w := w.setOwner { w.owner with state := .deleting })
      h.ledger he
    dsimp only
    rw [herase]
    exact ⟨_, rfl, h.of_eq rfl rfl rfl rfl rfl rfl, .inr ⟨_, congrArg _ hframes, rfl,
      ⟨e, on, he, rfl⟩, hun⟩⟩

/-- `destroy` outside any call. -/
theorem Core.destroy (h : w.Core) (hframes : w.frames = []) (hsettled : Settled w.owner) :
    ∃ w', w.destroy = some w' ∧ w'.Ending ∧ w'.dds = w.dds := by
  have hloops := Core.destroyFrom (h.of_eq rfl rfl rfl rfl rfl rfl :
    (w.setOwner { w.owner with state := .closing }).Core) hframes rfl _ (sweeps_destroyOrder _)
  unfold IncrementalWorld.destroy
  rcases hsettled with hstate | hstate | ⟨hstate, hnone⟩
  · rw [hstate]
    exact hloops
  · rw [hstate]
    exact hloops
  · rw [hstate]
    exact ⟨w, rfl, ⟨⟨h, .inl ⟨hframes, .inr (.inr ⟨hstate, hnone⟩)⟩⟩, fun _ => hstate,
      fun f hf => absurd (hframes ▸ hf) List.not_mem_nil⟩, rfl⟩

/-- A call outside any other. -/
theorem Core.call (h : w.Core) (hframes : w.frames = []) (hsettled : Settled w.owner) :
    ∀ c, ∃ w', w.call c = some w' ∧ w'.Sound
  | .createParticipant _ => h.create hframes hsettled createParticipant_holds
  | .createTopic _ _ => h.create hframes hsettled h.createTopic
  | .createPublisher _ _ => h.create hframes hsettled
      (h.container rfl rfl (by decide) fun _ _ => id)
  | .createSubscriber _ _ => h.create hframes hsettled
      (h.container rfl rfl (by decide) fun _ _ => id)
  | .createWriter _ _ _ => h.create hframes hsettled h.createWriter
  | .createReader _ _ _ => h.create hframes hsettled h.createReader
  | .delete handle => h.delete hframes hsettled handle
  | .cancel => ⟨_, rfl, h.of_eq rfl rfl rfl rfl rfl rfl, .inl ⟨hframes, hsettled⟩⟩
  | .destroy => (h.destroy hframes hsettled).imp fun _ h => ⟨h.1, h.2.1.toSound⟩

/-! ### Calls inside a call -/

/-- The owner waits for DDS, or is closed. -/
def Busy (o : Incremental n) : Prop := o.state ≠ .ready ∧ o.state ≠ .failed

theorem Waits.busy (h : w.Waits f) : Busy w.owner := by
  have hstate : w.owner.state = .creating ∨ w.owner.state = .deleting ∨
      w.owner.state = .closing := by
    unfold Waits at h
    split at h
    · exact .inl h.1
    · exact .inl h.1
    · exact .inr (.inl h.1)
    · exact .inr (.inl h.1)
    · exact .inr (.inr h.1)
  unfold Busy
  rcases hstate with h | h | h <;> rw [h] <;> decide

/-- A call waits for what the slots and DDS hold. -/
theorem Waits.of_eq (h : w.Waits f) (hstate : w'.owner.state = w.owner.state)
    (hplan : w'.owner.plan = w.owner.plan) (hentries : w'.owner.entries = w.owner.entries)
    (hdds : w'.dds = w.dds) (hissued : w'.issued = w.issued) : w'.Waits f := by
  have hfresh {slot : Fin n} (h : w.Fresh slot f.before) : w'.Fresh slot f.before := by
    obtain ⟨hentity, hun, hunissued⟩ := h
    refine ⟨?_, ?_, ?_⟩
    · rwa [hentries, hdds]
    · rwa [hentries]
    · rwa [Unissued, hentries, hissued]
  simp only [Waits, Deletes, Unissued, hstate, hplan, hentries, hdds, hissued] at h ⊢
  cases hcont : f.cont with
  | registering | rollingBack =>
    rw [hcont] at h
    exact ⟨h.1, h.2.1, hfresh h.2.2⟩
  | _ => simpa only [hcont] using h

theorem ready_of_busy {o : Incremental n} (h : Busy o) : o.ready = .error .invalidState := by
  unfold Incremental.ready Outcome.reject
  rw [if_pos h.1]
  rfl

/-- No creation is begun while the owner waits. -/
theorem create_of_busy {b : Outcome Error (Begun n)} (hb : b = .error .invalidState) :
    w.create b = some (w.fail .invalidState w.dds.live) := by
  rw [hb]
  rfl

/-- A call inside a call is refused, or only cancels. -/
theorem call_of_busy (h : Busy w.owner) (c : IncrementalCall) : ∃ w', w.call c = some w' ∧
    (w' = w ∨ w' = w.setOwner w.owner.cancel ∨ w' = w.fail .invalidState w.dds.live) := by
  cases c with
  | delete handle =>
    refine ⟨w, ?_, .inl rfl⟩
    unfold IncrementalWorld.call IncrementalWorld.delete Incremental.deletable
    rw [ready_of_busy h]
    rfl
  | cancel => exact ⟨_, rfl, .inr (.inl rfl)⟩
  | destroy =>
    unfold IncrementalWorld.call IncrementalWorld.destroy
    cases hstate : w.owner.state with
    | ready => exact absurd hstate h.1
    | failed => exact absurd hstate h.2
    | creating => exact ⟨_, rfl, .inr (.inl rfl)⟩
    | deleting | closing | closed => exact ⟨_, rfl, .inl rfl⟩
  | _ =>
    refine ⟨_, create_of_busy ?_, .inr (.inr rfl)⟩
    simp only [createParticipant, createTopic, createPublisher, createSubscriber, createWriter,
      createReader, Incremental.container, endpoint, ready_of_busy h]
    rfl

theorem Sound.call (h : w.Sound) (c : IncrementalCall) :
    ∃ w', w.call c = some w' ∧ w'.Sound := by
  rcases h.phase with ⟨hframes, hsettled⟩ | ⟨f, hframes, hwaits⟩
  · exact h.toCore.call hframes hsettled c
  · obtain ⟨w', hw', hcases⟩ := call_of_busy hwaits.busy c
    refine ⟨w', hw', ?_⟩
    rcases hcases with rfl | rfl | rfl
    · exact h
    · exact ⟨h.toCore.of_eq rfl rfl rfl rfl rfl rfl,
        .inr ⟨f, hframes, hwaits.of_eq rfl rfl rfl rfl rfl⟩⟩
    · exact ⟨h.toCore.fail fun _ => rfl, .inr ⟨f, hframes, hwaits.of_eq rfl rfl rfl rfl rfl⟩⟩

/-! ### Replies -/

/-- The world without the call that DDS has answered. -/
def popped (w : IncrementalWorld n) (d : Dds) : IncrementalWorld n :=
  { w with dds := d, frames := [] }

theorem Core.popped (h : w.Core) : (w.popped w.dds).Core :=
  h.of_eq rfl rfl rfl rfl rfl rfl

theorem setEntity_generation {o : Incremental n} {x : Option Entity} (i : Fin n) :
    ((o.setEntity slot x).entries i).generation = (o.entries i).generation := by
  dsimp only [Incremental.setEntity]
  by_cases hi : i = slot
  · rw [hi, Function.update_self]
  · rw [Function.update_of_ne hi]

/-- What DDS has created goes into its slot, where nothing leads to it yet. -/
theorem Core.record (h : w.Core) {kind : Kind} (hnone : (w.owner.entries slot).entity = none)
    (hfits : Fits w.owner.plan w.owner.entries slot kind)
    (hnew : w.dds.existing (creationAt w.owner.plan w.owner.entries slot kind) = none)
    (hunissued : w.Unissued slot) :
    let w' := (w.popped (w.dds.add (creationAt w.owner.plan w.owner.entries slot kind))).setOwner
      (w.owner.setEntity slot (some ⟨kind, w.dds.handles⟩))
    w'.Core ∧ w'.Fresh slot w.dds.live := by
  have hun := h.ledger.unreferred_of_none hnone
  refine ⟨⟨h.ledger.record hnone hfits hnew, fun hh e hmem => ?_, h.undone⟩,
    ⟨⟨⟨kind, w.dds.handles⟩, ?_, ?_⟩, fun j hj => ?_, fun p hp hslot => ?_⟩⟩
  · obtain ⟨howner, i, hi, hissued⟩ := h.issued hh e hmem
    refine ⟨howner, i, hi, ?_⟩
    by_cases hslot : i = slot
    · subst hslot
      left
      exact (hunissued _ hmem hi).trans_eq (setEntity_generation i).symm
    · simp only [setOwner, Incremental.setEntity, Function.update_of_ne hslot]
      exact hissued
  · simp only [setOwner, Incremental.setEntity, Function.update_self]
  · simp only [setOwner, IncrementalWorld.popped, Dds.add, List.filter_append,
      List.filter_singleton, ne_eq, not_true_eq_false, decide_false, cond_false,
      List.append_nil]
    refine List.filter_eq_self.mpr fun x hx => decide_eq_true fun heq => ?_
    exact absurd (h.ledger.sound.handle_lt hx) (heq ▸ lt_irrefl _)
  · simp only [setOwner, Incremental.setEntity] at hj ⊢
    by_cases hjslot : j = slot
    · rw [hjslot, Function.update_self]
      exact hfits.not_refers hnone
    · rw [Function.update_of_ne hjslot] at hj ⊢
      exact hun j hj
  · exact (hunissued p hp hslot).trans_eq (setEntity_generation slot).symm

/-- DDS answers a creation. -/
theorem Core.created (h : w.Core) {kind : Kind} {failure : Error}
    {definition : Option Participant} {d : Dds} {r : Reply} {a : Answer}
    (hstate : w.owner.state = .creating) (hnone : (w.owner.entries slot).entity = none)
    (hfits : Fits w.owner.plan w.owner.entries slot kind)
    (hnew : w.dds.existing (creationAt w.owner.plan w.owner.entries slot kind) = none)
    (hunissued : w.Unissued slot)
    (ha : w.dds.answer (.create (creationAt w.owner.plan w.owner.entries slot kind)) r =
      some (d, a)) :
    ∃ w', (w.popped d).resume w.dds.live (.creating slot kind failure definition) a = some w' ∧
      w'.Sound := by
  cases r with
  | nil =>
    obtain ⟨rfl, rfl⟩ := Prod.mk.inj (Option.some.inj ha)
    exact h.popped.rollback_none rfl hnone rfl
  | ok | error => cases ha
  | entity =>
    obtain ⟨hd, rfl⟩ := Prod.mk.inj (Option.some.inj ha)
    rw [Dds.create_of_new hnew] at hd ⊢
    subst hd
    obtain ⟨hcore, hfresh⟩ := h.record hnone hfits hnew hunissued
    unfold resume
    cases definition with
    | none => exact hcore.complete rfl hfresh
    | some definition =>
      dsimp only
      split_ifs
      · exact hcore.rollback rfl hfresh
      · exact hcore.registerTypes rfl hstate hfresh definition _

theorem Fresh.popped (h : w.Fresh slot before) : (w.popped w.dds).Fresh slot before :=
  ⟨h.entity, h.unreferred, h.unissued⟩

/-- A callback that registers a type returns. -/
theorem Core.registered (h : w.Core) {definition : Participant} {types : List TypeDef}
    {name : Name} {d : Dds} {r : Reply} {a : Answer} (hstate : w.owner.state = .creating)
    (hfresh : w.Fresh slot before) (ha : w.dds.answer (.register name) r = some (d, a)) :
    ∃ w', (w.popped d).resume before (.registering slot definition types) a = some w' ∧
      w'.Sound := by
  cases r with
  | nil | entity => cases ha
  | ok =>
    obtain ⟨rfl, rfl⟩ := Prod.mk.inj (Option.some.inj ha)
    unfold resume
    dsimp only
    split_ifs
    · exact h.popped.rollback rfl hfresh.popped
    · exact h.popped.registerTypes rfl hstate hfresh.popped definition types
  | error code =>
    obtain ⟨rfl, rfl⟩ := Prod.mk.inj (Option.some.inj ha)
    exact h.popped.rollback rfl hfresh.popped

/-- A deletion fails. -/
theorem Core.deletion_failed (h : w.Core) {o : Incremental n} (ho : o = {
      w.owner with
      cleanupError := some .cleanupFailed
      state := .failed }) :
    ((w.popped w.dds).setOwner o).Sound := by
  subst ho
  exact ⟨h.of_eq rfl rfl rfl rfl rfl rfl, .inl ⟨rfl, .inr (.inl rfl)⟩⟩

/-- DDS answers a deletion: what is in the slot stays, or goes. -/
theorem answer_delete {on : Option ℕ} {handle : ℕ} {d d' : Dds} {r : Reply} {a : Answer}
    (ha : d.answer (.delete on handle) r = some (d', a)) :
    a = .ok ∧ d' = d.delete handle ∨ (∃ code, a = .failed code) ∧ d' = d := by
  cases r with
  | nil | entity => cases ha
  | ok =>
    obtain ⟨rfl, rfl⟩ := Prod.mk.inj (Option.some.inj ha)
    exact .inl ⟨rfl, rfl⟩
  | error code =>
    obtain ⟨rfl, rfl⟩ := Prod.mk.inj (Option.some.inj ha)
    exact .inr ⟨⟨code, rfl⟩, rfl⟩

/-- The world once the entity of a slot is gone. -/
def erased (w : IncrementalWorld n) (slot : Fin n) (e : Entity) : IncrementalWorld n :=
  (w.popped (w.dds.delete e.handle)).setOwner (w.owner.setEntity slot none)

theorem Core.erased (h : w.Core) (he : (w.owner.entries slot).entity = some e)
    (hun : Unreferred w.owner.entries slot) : (w.erased slot e).Core :=
  (h.clear he hun).of_eq rfl rfl rfl rfl rfl rfl

/-- What is left to look at once the entity of the first slot is gone. -/
theorem Sweeps.tail {es : Fin n → Entry n} {kind : Kind} {rest : List (Kind × Fin n)}
    (h : Sweeps es ((kind, slot) :: rest)) :
    Sweeps (Function.update es slot { es slot with entity := none }) rest := by
  refine ⟨h.ordered.of_cons, fun i e he => ?_⟩
  by_cases hi : i = slot
  · rw [hi, Function.update_self] at he
    cases he
  · rw [Function.update_of_ne hi] at he
    rcases List.mem_cons.mp (h.all i e he) with heq | hmem
    · exact absurd (Prod.mk.inj heq).2 hi
    · exact hmem

theorem Sound.waits (h : w.Sound) (hf : f ∈ w.frames) : w.frames = [f] ∧ w.Waits f := by
  rcases h.phase with ⟨hframes, -⟩ | ⟨f', hframes, hwaits⟩
  · exact absurd (hframes ▸ hf) List.not_mem_nil
  · rw [hframes] at hf
    cases List.mem_singleton.mp hf
    exact ⟨hframes, hwaits⟩

theorem Sound.resume (h : w.Sound) (hf : f ∈ w.frames) {d : Dds} {r : Reply} {a : Answer}
    (ha : w.dds.answer f.request r = some (d, a)) :
    ∃ w', (w.popped d).resume f.before f.cont a = some w' ∧ w'.Sound := by
  obtain ⟨-, hwaits⟩ := h.waits hf
  obtain ⟨request, cont, before⟩ := f
  cases cont with
  | creating slot kind failure definition =>
    obtain ⟨hstate, hbefore, hnone, hfits, hrequest, hnew, hunissued⟩ := hwaits
    dsimp only at hbefore hrequest ha ⊢
    subst hbefore hrequest
    exact h.toCore.created hstate hnone hfits hnew hunissued ha
  | registering slot definition types =>
    obtain ⟨hstate, ⟨name, hrequest⟩, hfresh⟩ := hwaits
    dsimp only at hrequest ha ⊢
    subst hrequest
    exact h.toCore.registered hstate hfresh ha
  | rollingBack slot err =>
    obtain ⟨-, ⟨e, on, he, hrequest⟩, hfresh⟩ := hwaits
    dsimp only at hrequest ha ⊢
    subst hrequest
    obtain ⟨e', he', hlive⟩ := hfresh.entity
    cases he.symm.trans he'
    rcases answer_delete ha with ⟨rfl, rfl⟩ | ⟨⟨code, rfl⟩, rfl⟩
    · refine ⟨_, rfl, ?_, .inl ⟨rfl, .inl rfl⟩⟩
      refine Core.fail (w := _) ?_ fun _ => hlive
      exact (h.toCore.erased he hfresh.unreferred).of_eq rfl rfl rfl rfl rfl rfl
    · refine ⟨_, rfl, ?_, .inl ⟨rfl, .inr (.inl rfl)⟩⟩
      refine Core.fail (w := _) (h.toCore.deletion_failed rfl).toCore fun hnone => ?_
      cases hnone
  | deleting slot =>
    obtain ⟨hstate, ⟨e, on, he, hrequest⟩, hun⟩ := hwaits
    dsimp only at hrequest ha ⊢
    subst hrequest
    rcases answer_delete ha with ⟨rfl, rfl⟩ | ⟨⟨code, rfl⟩, rfl⟩
    · refine ⟨_, rfl, (h.toCore.erased he hun).of_eq rfl rfl rfl rfl rfl rfl, .inl ⟨rfl, .inl ?_⟩⟩
      exact if_pos hstate
    · exact ⟨_, rfl, h.toCore.deletion_failed rfl⟩
  | destroying slot rest =>
    obtain ⟨hstate, ⟨e, on, he, hrequest⟩, e', he', hsweeps⟩ := hwaits
    dsimp only at hrequest ha ⊢
    subst hrequest
    cases he.symm.trans he'
    rcases answer_delete ha with ⟨rfl, rfl⟩ | ⟨⟨code, rfl⟩, rfl⟩
    · obtain ⟨w', hw', hending, -⟩ := (h.toCore.erased he
        (unreferred_of_sweeps h.ledger he hsweeps)).destroyFrom rfl hstate rest hsweeps.tail
      exact ⟨w', hw', hending.toSound⟩
    · exact ⟨_, rfl, h.toCore.deletion_failed rfl⟩

/-- DDS replies when it has been asked, and the owner takes every reply to what it has asked. -/
theorem Sound.step (h : w.Sound) {a : IncrementalAction} (hs : w.step a = some w') : w'.Sound := by
  cases a with
  | call c =>
    obtain ⟨w₁, hw₁, hsound⟩ := h.call c
    cases hw₁.symm.trans hs
    exact hsound
  | reply r =>
    unfold IncrementalWorld.step at hs
    rcases h.phase with ⟨hframes, -⟩ | ⟨f, hframes, -⟩
    · rw [hframes] at hs
      cases hs
    · rw [hframes] at hs
      obtain ⟨⟨d, a⟩, ha, hs⟩ := Option.bind_eq_some_iff.mp hs
      obtain ⟨w₁, hw₁, hsound⟩ := h.resume (hframes ▸ List.mem_singleton_self f) ha
      cases hw₁.symm.trans hs
      exact hsound

/-- DDS's reply is taken. -/
theorem Sound.reply (h : w.Sound) (hf : f ∈ w.frames) {r : Reply}
    (hr : (w.dds.answer f.request r).isSome) : ∃ w', w.step (.reply r) = some w' := by
  obtain ⟨⟨d, a⟩, ha⟩ := Option.isSome_iff_exists.mp hr
  obtain ⟨w', hw', -⟩ := h.resume hf ha
  refine ⟨w', ?_⟩
  unfold IncrementalWorld.step
  rw [(h.waits hf).1]
  dsimp only
  rw [ha]
  exact hw'

/-! ### Runs -/

/-- What an owner and DDS have between them.  Every handle that DDS has given out is in one slot or
has been deleted, once; a deletion is asked for only of what is there and has nothing under it or
for it; a creation is asked for only where DDS makes something new; a handle given out stands for
what it was given out for, or for nothing; and a creation that fails undoes what it did, or the
owner says that it could not. -/
structure Clean (w : IncrementalWorld n) : Prop where
  recorded : ∀ h, h < w.dds.handles ↔ (∃ i, handleAt w.owner.entries i = some h) ∨ h ∈ w.dds.deleted
  once : w.dds.deleted.Nodup
  apart : ∀ i h, handleAt w.owner.entries i = some h → h ∉ w.dds.deleted ∧
    ∀ j, handleAt w.owner.entries j = some h → i = j
  one : w.frames.length ≤ 1
  asked : ∀ f ∈ w.frames, (∀ on h, f.request = .delete on h →
      h ∈ w.dds.live.map Live.handle ∧ ∀ x ∈ w.dds.live, x.parent ≠ some h ∧ x.topic ≠ some h) ∧
    ∀ c, f.request = .create c → w.dds.existing c = none
  stands : ∀ h e, (h, e) ∈ w.issued → ∀ i, w.owner.get h = .ok i →
    (w.owner.entries i).entity = some e
  idle : w.frames = [] → w.owner.state = .ready ∨ w.owner.state = .failed ∨
    w.owner.state = .closed ∧ w.dds.live = []
  undone : ∀ f ∈ w.failedCreates, f.cleanupError = none → f.after = f.before

/-- What a waiting call has asked for. -/
theorem Sound.request (h : w.Sound) (hwaits : w.Waits f) :
    (∃ c, f.request = .create c ∧ w.dds.existing c = none) ∨ (∃ name, f.request = .register name) ∨
      ∃ i e on, (w.owner.entries i).entity = some e ∧ f.request = .delete on e.handle ∧
        Unreferred w.owner.entries i := by
  unfold Waits at hwaits
  split at hwaits
  · obtain ⟨-, -, -, -, hrequest, hnew, -⟩ := hwaits
    exact .inl ⟨_, hrequest, hnew⟩
  · exact .inr (.inl hwaits.2.1)
  · obtain ⟨-, ⟨e, on, he, hrequest⟩, hfresh⟩ := hwaits
    exact .inr (.inr ⟨_, e, on, he, hrequest, hfresh.unreferred⟩)
  · obtain ⟨-, ⟨e, on, he, hrequest⟩, hun⟩ := hwaits
    exact .inr (.inr ⟨_, e, on, he, hrequest, hun⟩)
  · obtain ⟨-, ⟨e, on, he, hrequest⟩, e', he', hsweeps⟩ := hwaits
    cases he.symm.trans he'
    exact .inr (.inr ⟨_, e, on, he, hrequest, unreferred_of_sweeps h.ledger he hsweeps⟩)

theorem Sound.asked (h : w.Sound) (hwaits : w.Waits f) : (∀ on hh, f.request = .delete on hh →
      hh ∈ w.dds.live.map Live.handle ∧ ∀ x ∈ w.dds.live, x.parent ≠ some hh ∧ x.topic ≠ some hh) ∧
    ∀ c, f.request = .create c → w.dds.existing c = none := by
  rcases h.request hwaits with ⟨c, hrequest, hnew⟩ | ⟨name, hrequest⟩ |
    ⟨i, e, on, he, hrequest, hun⟩ <;> rw [hrequest]
  · refine ⟨(by rintro _ _ ⟨⟩), ?_⟩
    rintro _ ⟨⟩
    exact hnew
  · exact ⟨(by rintro _ _ ⟨⟩), (by rintro _ ⟨⟩)⟩
  · refine ⟨?_, (by rintro _ ⟨⟩)⟩
    rintro _ _ ⟨⟩
    exact ⟨(h.ledger.handles _).mpr ⟨i, handleAt_of_entity he⟩, h.ledger.no_dependents he hun⟩

theorem Sound.settled (h : w.Sound) (hframes : w.frames = []) : Settled w.owner := by
  rcases h.phase with ⟨-, hsettled⟩ | ⟨f, hf, -⟩
  · exact hsettled
  · exact absurd (hf.symm.trans hframes) (List.cons_ne_nil f [])

theorem Sound.clean (h : w.Sound) : w.Clean where
  recorded hh := by
    rw [← h.ledger.handles]
    exact h.ledger.sound.all hh
  once := List.Nodup.of_append_right h.ledger.sound.apart
  apart i hh hi := by
    refine ⟨fun hdeleted => ?_, fun j hj => h.ledger.inj i j hh hi hj⟩
    exact List.disjoint_of_nodup_append h.ledger.sound.apart ((h.ledger.handles hh).mpr ⟨i, hi⟩)
      hdeleted
  one := by
    rcases h.phase with ⟨hframes, -⟩ | ⟨f, hframes, -⟩ <;> rw [hframes]
    · exact Nat.zero_le 1
    · exact le_rfl
  asked f hf := h.asked (h.waits hf).2
  stands hh e hmem i hget := by
    obtain ⟨-, hslot, hentity, hgeneration⟩ := get_holds.of_ok hget
    obtain ⟨-, j, hj, hissued⟩ := h.issued hh e hmem
    cases Fin.val_injective (hslot.symm.trans hj)
    obtain ⟨e', he'⟩ := Option.ne_none_iff_exists'.mp hentity
    rcases hissued with hlt | ⟨-, heq⟩
    · exact absurd hgeneration hlt.ne'
    · rw [he', heq e' he']
  idle hframes := by
    refine (h.settled hframes).imp_right (Or.imp_right fun ⟨hclosed, hnone⟩ => ⟨hclosed, ?_⟩)
    refine List.eq_nil_iff_forall_not_mem.mpr fun x hx => ?_
    obtain ⟨i, hi⟩ := (h.ledger.live x).mp hx
    rw [liveAt_of_none (hnone i)] at hi
    cases hi
  undone := h.undone

theorem checkBindings_holds : ∀ {bindings earlier : List StaticBinding},
    (checkBindings earlier bindings).Holds fun _ => True
  | [], _ => trivial
  | _ :: _, _ => Outcome.reject_holds.bind fun _ _ => checkBindings_holds

theorem init_holds {self : ℕ} {plan : Plan} {factory : Option ℕ} {bindings : List StaticBinding} :
    (Incremental.init n self plan factory bindings).Holds fun o =>
      o = { self := self, plan := plan, bindings := bindings } :=
  Outcome.reject_holds.bind fun _ _ => Outcome.reject_holds.bind fun _ _ =>
    (checkBindings_holds.bind fun _ _ => Outcome.reject_holds).bind fun _ _ => rfl

theorem sound_init {self : ℕ} {plan : Plan} {factory : Option ℕ} {bindings : List StaticBinding}
    {o : Incremental n} (ho : Incremental.init n self plan factory bindings = .ok o) :
    ({ owner := o } : IncrementalWorld n).Sound := by
  obtain rfl := init_holds.of_ok ho
  exact ⟨⟨⟨⟨List.nodup_nil, by simp, by simp⟩, by simp [liveAt], by simp [handleAt], by simp⟩,
    by simp, by simp⟩, .inl ⟨rfl, .inl rfl⟩⟩

section Runs

variable {self : ℕ} {plan : Plan} {factory : Option ℕ} {bindings : List StaticBinding}
  {o : Incremental n} {as bs : List IncrementalAction}

theorem sound_of_run (ho : Incremental.init n self plan factory bindings = .ok o)
    (h : Run IncrementalWorld.step (fun _ _ => True) { owner := o } as w) : w.Sound :=
  h.inv (sound_init ho) fun _ _ _ hsound _ hs => hsound.step hs

/-- Whatever is called and when, also inside DDS, and whatever DDS replies. -/
theorem clean_of_run (ho : Incremental.init n self plan factory bindings = .ok o)
    (h : Run IncrementalWorld.step (fun _ _ => True) { owner := o } as w) : w.Clean ∧
      (∀ c, ∃ w', w.step (.call c) = some w') ∧
      ∀ f ∈ w.frames, ∀ r, (w.dds.answer f.request r).isSome →
        ∃ w', w.step (.reply r) = some w' := by
  have hsound := sound_of_run ho h
  refine ⟨hsound.clean, fun c => ?_, fun f hf r hr => hsound.reply hf hr⟩
  obtain ⟨w', hw', -⟩ := hsound.call c
  exact ⟨w', hw'⟩

/-- A participant with a type and a topic. -/
def somePlan : Plan where
  application := ⟨[97], [⟨[112], 0, [⟨[116]⟩], [⟨[117], [84], [116]⟩], [], [], [], []⟩]⟩
  resolved p hp := by
    obtain rfl := List.mem_singleton.mp hp
    exact ⟨List.nodup_singleton _, fun _ he => (by cases he), fun _ he => (by cases he)⟩

def someOwner : Incremental 2 where
  self := 7
  plan := somePlan
  bindings := [{ typeName := [116] }]

theorem init_someOwner :
    Incremental.init 2 7 somePlan (some 0) [{ typeName := [116] }] = .ok someOwner := rfl

/-- The participant and the topic are created. -/
def someActions : List IncrementalAction :=
  [.call (.createParticipant [112]), .reply .entity, .reply .ok,
    .call (.createTopic ⟨7, 0, 1⟩ [117]), .reply .entity]

theorem clean_of_run_someActions : ∃ w : IncrementalWorld 2, w.Clean ∧ w.issued.length = 2 := by
  obtain ⟨w, hrun, hw⟩ := exists_run_of_exec IncrementalWorld.step (fun _ _ => True)
    { owner := someOwner } someActions (p := fun w => w.issued.length = 2) ⟨_, rfl, rfl⟩
  exact ⟨w, (clean_of_run init_someOwner hrun).1, hw⟩

/-! ### The end -/

/-- A call, or a reply that it has been done. -/
def Succeeds (_ : IncrementalWorld n) : IncrementalAction → Prop
  | .call _ => True
  | .reply r => r = .ok

instance (w : IncrementalWorld n) : ∀ a, Decidable (Succeeds w a)
  | .call _ => inferInstanceAs (Decidable True)
  | .reply r => inferInstanceAs (Decidable (r = .ok))

def isReply : IncrementalAction → Bool
  | .call _ => false
  | .reply _ => true

/-- Either everything is gone, or the loops wait for a deletion. -/
theorem Ending.cases (h : w.Ending) : w.frames = [] ∧ w.owner.state = .closed ∧ w.dds.live = [] ∨
    ∃ f slot rest e on, w.frames = [f] ∧ f.cont = .destroying slot rest ∧
      w.owner.state = .closing ∧ (w.owner.entries slot).entity = some e ∧
      f.request = .delete on e.handle ∧ Sweeps w.owner.entries ((e.kind, slot) :: rest) := by
  rcases h.phase with ⟨hframes, -⟩ | ⟨f, hframes, hwaits⟩
  · have hclosed := h.closed hframes
    rcases h.toSound.clean.idle hframes with hstate | hstate | ⟨-, hlive⟩
    · cases hclosed.symm.trans hstate
    · cases hclosed.symm.trans hstate
    · exact .inl ⟨hframes, hclosed, hlive⟩
  · obtain ⟨slot, rest, hcont⟩ := h.loops f (hframes ▸ List.mem_singleton_self f)
    unfold Waits at hwaits
    rw [hcont] at hwaits
    obtain ⟨hstate, ⟨e, on, he, hrequest⟩, e', he', hsweeps⟩ := hwaits
    cases he.symm.trans he'
    exact .inr ⟨f, slot, rest, e, on, hframes, hcont, hstate, he, hrequest, hsweeps⟩

theorem Ending.busy (h : w.Ending) : Busy w.owner := by
  unfold Busy
  rcases h.cases with ⟨-, hclosed, -⟩ | ⟨f, slot, rest, e, on, -, -, hclosing, -⟩
  · rw [hclosed]
    decide
  · rw [hclosing]
    decide

theorem Ending.call (h : w.Ending) {c : IncrementalCall} (hs : w.call c = some w') :
    w'.Ending ∧ w'.dds = w.dds := by
  obtain ⟨w₁, hw₁, hsound⟩ := h.toSound.call c
  obtain ⟨w₂, hw₂, hcases⟩ := call_of_busy h.busy c
  cases hw₁.symm.trans hs
  cases hw₂.symm.trans hs
  rcases hcases with rfl | rfl | rfl
  · exact ⟨h, rfl⟩
  · exact ⟨⟨hsound, h.closed, h.loops⟩, rfl⟩
  · exact ⟨⟨hsound, h.closed, h.loops⟩, rfl⟩

/-- DDS has deleted what the loops have asked it to. -/
theorem Ending.reply (h : w.Ending) (hs : w.step (.reply .ok) = some w') :
    w'.Ending ∧ w'.dds.live.length + 1 = w.dds.live.length := by
  unfold IncrementalWorld.step at hs
  rcases h.cases with ⟨hframes, -⟩ |
    ⟨f, slot, rest, e, on, hframes, hcont, hstate, he, hrequest, hsweeps⟩
  · rw [hframes] at hs
    cases hs
  · dsimp only at hs
    rw [hframes] at hs
    dsimp only at hs
    rw [hcont, hrequest] at hs
    obtain ⟨w₁, hw₁, hending, hdds⟩ := (h.toCore.erased he
      (unreferred_of_sweeps h.ledger he hsweeps)).destroyFrom rfl hstate _ hsweeps.tail
    cases hw₁.symm.trans hs
    refine ⟨hending, ?_⟩
    rw [hdds]
    exact h.ledger.sound.length_delete (h.ledger.mem_of_entity he)

theorem Ending.of_destroy (h : w.Sound) (hidle : w.frames = [])
    (hs : w.step (.call .destroy) = some w') : w'.Ending ∧ w'.dds = w.dds := by
  obtain ⟨w₁, hw₁, hending⟩ := h.toCore.destroy hidle (h.settled hidle)
  cases hw₁.symm.trans hs
  exact hending

theorem Ending.of_run (h : w.Ending) (hrun : Run IncrementalWorld.step Succeeds w bs w') :
    w'.Ending ∧ w'.dds.live.length + bs.countP isReply = w.dds.live.length := by
  induction hrun with
  | nil => exact ⟨h, rfl⟩
  | @snoc bs a w₁ w₂ _ hok hs ih =>
    obtain ⟨hending, hcount⟩ := ih
    cases a with
    | call c =>
      obtain ⟨hending', hdds⟩ := hending.call hs
      refine ⟨hending', ?_⟩
      rw [hdds, List.countP_append]
      exact hcount
    | reply r =>
      obtain rfl : r = .ok := hok
      obtain ⟨hending', hlength⟩ := hending.reply hs
      refine ⟨hending', ?_⟩
      have hreply : isReply (.reply .ok) = true := rfl
      rw [List.countP_append, List.countP_singleton, if_pos hreply]
      omega

theorem Ending.closed_iff (h : w.Ending) : w.owner.state = .closed ↔ w.dds.live = [] := by
  rcases h.cases with ⟨-, hclosed, hlive⟩ | ⟨f, slot, rest, e, on, -, -, hclosing, he, -⟩
  · exact iff_of_true hclosed hlive
  · refine iff_of_false (fun hclosed => ?_) (List.ne_nil_of_mem (h.ledger.mem_of_entity he))
    cases hclosing.symm.trans hclosed

/-- While anything is left, the loops wait for its deletion. -/
theorem Ending.asks (h : w.Ending) (hlive : w.dds.live ≠ []) :
    ∃ w', w.step (.reply .ok) = some w' := by
  rcases h.cases with ⟨-, -, hnil⟩ | ⟨f, slot, rest, e, on, hframes, -, -, -, hrequest, -⟩
  · exact absurd hnil hlive
  · refine h.toSound.reply (hframes ▸ List.mem_singleton_self f) ?_
    rw [hrequest]
    rfl

/-- `destroy` outside any call, also one that retries after a cleanup that failed: with each
deletion that DDS reports there is one entity less, whatever is called in between, and the owner is
closed once nothing is left. -/
theorem closed_of_destroy (ho : Incremental.init n self plan factory bindings = .ok o)
    (h : Run IncrementalWorld.step (fun _ _ => True) { owner := o } as w) (hidle : w.frames = [])
    {w₁ w₂ : IncrementalWorld n} (hdestroy : w.step (.call .destroy) = some w₁)
    (hrun : Run IncrementalWorld.step Succeeds w₁ bs w₂) :
    w₂.dds.live.length + bs.countP isReply = w.dds.live.length ∧
      (w₂.owner.state = .closed ↔ w₂.dds.live = []) ∧
      (w₂.dds.live ≠ [] → ∃ w₃, w₂.step (.reply .ok) = some w₃) := by
  obtain ⟨hending, hdds⟩ := Ending.of_destroy (sound_of_run ho h) hidle hdestroy
  obtain ⟨hending', hcount⟩ := hending.of_run hrun
  rw [hdds] at hcount
  exact ⟨hcount, hending'.closed_iff, hending'.asks⟩

theorem closed_of_destroy_someActions :
    ∃ w : IncrementalWorld 2, w.owner.state = .closed ∧ w.dds.deleted = [1, 0] := by
  obtain ⟨w, hrun, hidle, hlive, w₁, hdestroy, w₂, hloops, hdeleted⟩ := exists_run_of_exec
    IncrementalWorld.step (fun _ _ => True) { owner := someOwner } someActions
    (p := fun w => w.frames = [] ∧ w.dds.live.length = 2 ∧
      ∃ w₁, w.step (.call .destroy) = some w₁ ∧
        ∃ w₂, exec IncrementalWorld.step Succeeds w₁ [.reply .ok, .call .cancel, .reply .ok] =
          some w₂ ∧ w₂.dds.deleted = [1, 0])
    ⟨_, rfl, rfl, rfl, _, rfl, _, rfl, rfl⟩
  obtain ⟨hcount, hclosed, -⟩ := closed_of_destroy init_someOwner hrun hidle hdestroy
    (run_of_exec _ hloops)
  rw [hlive] at hcount
  exact ⟨w₂, hclosed.mpr (List.length_eq_zero_iff.mp (Nat.add_right_cancel hcount)), hdeleted⟩

end Runs

end IncrementalWorld

end Zzdds.Resources
