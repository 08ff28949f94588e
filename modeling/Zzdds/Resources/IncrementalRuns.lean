import Zzdds.Lib.Run
import Zzdds.Resources.Ledger

/-! # Runs of an incremental owner

Calls are made, DDS replies, and listeners make further calls while DDS has not replied yet.  A call
inside another one is refused or only cancels, so at most one call is inside DDS, and what the slots
hold is what DDS holds. -/

namespace Zzdds.Resources

open Lib

variable {n : ℕ}

namespace IncrementalWorld

/-! ### The invariant -/

/-- No handle has been given out for what is in the slot. -/
def Unissued (w : IncrementalWorld n) (slot : Fin n) : Prop :=
  ∀ p ∈ w.issued, p.1.slot = slot → p.1.generation < (w.owner.entries slot).generation

/-- What has been created and is not given out yet is in the slot. -/
structure Fresh (w : IncrementalWorld n) (slot : Fin n) (before : List Live) : Prop where
  entity : ∃ e, (w.owner.entries slot).entity = some e ∧
    w.dds.live.filter (fun x => x.handle ≠ e.handle) = before
  unreferred : Unreferred w.owner.entries slot
  unissued : w.Unissued slot

/-- The deletion of what is in the slot is asked for. -/
def Deletes (w : IncrementalWorld n) (slot : Fin n) (request : Request) : Prop :=
  ∃ e on, (w.owner.entries slot).entity = some e ∧ request = .delete on e.handle

/-- Where the loops of `destroy` look last. -/
structure Sweeps (es : Fin n → Entry n) (rest : List (Kind × Fin n)) : Prop where
  ordered : rest.Pairwise fun a b => a.1.rank ≤ b.1.rank
  all : ∀ i e, (es i).entity = some e → (e.kind, i) ∈ rest

/-- A call inside DDS and the state of the owner. -/
def Waits (w : IncrementalWorld n) (f : IncrementalFrame n) : Prop :=
  match f.cont with
  | .creating slot kind _ _ => w.owner.state = .creating ∧ f.before = w.dds.live ∧
      (w.owner.entries slot).entity = none ∧ Fits w.owner.plan w.owner.entries slot kind ∧
      f.request = .create (creationAt w.owner.plan w.owner.entries slot kind) ∧
      w.dds.existing (creationAt w.owner.plan w.owner.entries slot kind) = none ∧ w.Unissued slot
  | .registering slot _ _ => w.owner.state = .creating ∧
      (∃ name, f.request = .register name) ∧ w.Fresh slot f.before
  | .rollingBack slot _ => w.owner.state = .deleting ∧ w.Deletes slot f.request ∧
      w.Fresh slot f.before
  | .deleting slot => w.owner.state = .deleting ∧ w.Deletes slot f.request ∧
      Unreferred w.owner.entries slot
  | .destroying slot rest => w.owner.state = .closing ∧ w.Deletes slot f.request ∧
      ∃ e, (w.owner.entries slot).entity = some e ∧
        Sweeps w.owner.entries ((e.kind, slot) :: rest)

/-- The owner outside any call. -/
def Settled (o : Incremental n) : Prop :=
  o.state = .ready ∨ o.state = .failed ∨ o.state = .closed ∧ ∀ i, (o.entries i).entity = none

/-- What holds between any two steps of a call. -/
structure Core (w : IncrementalWorld n) : Prop where
  ledger : Ledger w.owner.plan w.owner.entries w.dds
  issued : ∀ h e, (h, e) ∈ w.issued → h.owner = w.owner.self ∧ ∃ i : Fin n, h.slot = i ∧
    (h.generation < (w.owner.entries i).generation ∨
      h.generation = (w.owner.entries i).generation ∧
        ∀ e', (w.owner.entries i).entity = some e' → e' = e)
  undone : ∀ f ∈ w.failedCreates, f.cleanupError = none → f.after = f.before

structure Sound (w : IncrementalWorld n) : Prop extends Core w where
  phase : w.frames = [] ∧ Settled w.owner ∨ ∃ f, w.frames = [f] ∧ w.Waits f

/-- The loops of `destroy`, or what they have led to. -/
structure Ending (w : IncrementalWorld n) : Prop extends Sound w where
  closed : w.frames = [] → w.owner.state = .closed
  loops : ∀ f ∈ w.frames, ∃ slot rest, f.cont = .destroying slot rest

variable {w w' : IncrementalWorld n} {slot : Fin n} {before : List Live} {e : Entity}

/-! ### What steps leave alone -/

theorem Core.of_eq (h : w.Core) (hplan : w'.owner.plan = w.owner.plan)
    (hself : w'.owner.self = w.owner.self) (hentries : w'.owner.entries = w.owner.entries)
    (hdds : w'.dds = w.dds) (hissued : w'.issued = w.issued)
    (hfailed : w'.failedCreates = w.failedCreates) : w'.Core where
  ledger := by
    rw [hplan, hentries, hdds]
    exact h.ledger
  issued := by
    rw [hself, hentries, hissued]
    exact h.issued
  undone := by
    rw [hfailed]
    exact h.undone

/-- A creation fails that has left what there was. -/
theorem Core.fail (h : w.Core) {err : Error}
    (hbefore : w.owner.cleanupError = none → w.dds.live = before) : (w.fail err before).Core where
  ledger := h.ledger
  issued := h.issued
  undone f hf hnone := by
    rcases List.mem_append.mp hf with hf | hf
    · exact h.undone f hf hnone
    · cases List.mem_singleton.mp hf
      exact hbefore hnone

/-- What is in the slot of a handle changes only to nothing. -/
theorem Core.clear (h : w.Core) (he : (w.owner.entries slot).entity = some e)
    (hun : Unreferred w.owner.entries slot) :
    ({ w with owner := w.owner.setEntity slot none, dds := w.dds.delete e.handle } :
      IncrementalWorld n).Core where
  ledger := h.ledger.clear he hun
  issued hh e' hmem := by
    obtain ⟨howner, i, hi, hgen⟩ := h.issued hh e' hmem
    refine ⟨howner, i, hi, ?_⟩
    by_cases hslot : i = slot
    · subst hslot
      simp only [Incremental.setEntity, Function.update_self]
      exact hgen.imp_right fun hgen => ⟨hgen.1, fun _ he => by cases he⟩
    · simp only [Incremental.setEntity, Function.update_of_ne hslot]
      exact hgen
  undone := h.undone

/-! ### Deletions -/

/-- `erase` finds the entity it is to delete, and the entity that one is under. -/
theorem erase_entity (h : Ledger w.owner.plan w.owner.entries w.dds)
    (he : (w.owner.entries slot).entity = some e) :
    ∃ on, w.owner.erase slot = .ok (some (.delete on e.handle)) := by
  unfold Incremental.erase
  rw [he]
  dsimp only
  cases hk : e.kind.container with
  | none => exact ⟨none, rfl⟩
  | some kind =>
    obtain ⟨j, e', hj, he', rfl, -⟩ := (h.fits slot e he).container kind hk
    refine ⟨some e'.handle, ?_⟩
    have haccess : w.owner.access (w.owner.entries slot).parent e'.kind = .ok e'.handle := by
      rw [hj, Incremental.access, Option.bind_some, he']
      exact if_pos rfl
    simp only [haccess]
    rfl

theorem erase_none (he : (w.owner.entries slot).entity = none) :
    w.owner.erase slot = .ok none := by
  rw [Incremental.erase, he]

/-- A rollback of what has been created. -/
theorem Core.rollback (h : w.Core) {err : Error} (hframes : w.frames = [])
    (hslot : w.Fresh slot before) : ∃ w', w.rollback slot err before = some w' ∧ w'.Sound := by
  obtain ⟨e, he, hlive⟩ := hslot.entity
  obtain ⟨on, herase⟩ := erase_entity (w := w.setOwner { w.owner with state := .deleting })
    h.ledger he
  unfold IncrementalWorld.rollback
  dsimp only
  rw [herase]
  refine ⟨_, rfl, h.of_eq rfl rfl rfl rfl rfl rfl,
    .inr ⟨_, congrArg _ hframes, rfl, ⟨e, on, he, rfl⟩, ?_⟩⟩
  exact ⟨⟨e, he, hlive⟩, hslot.unreferred, hslot.unissued⟩

/-- A rollback with nothing created. -/
theorem Core.rollback_none (h : w.Core) {err : Error} (hframes : w.frames = [])
    (he : (w.owner.entries slot).entity = none) (hbefore : before = w.dds.live) :
    ∃ w', w.rollback slot err before = some w' ∧ w'.Sound := by
  have herase := erase_none (w := w.setOwner { w.owner with state := .deleting }) he
  unfold IncrementalWorld.rollback
  dsimp only
  rw [herase]
  refine ⟨_, rfl, ?_, .inl ⟨hframes, .inl rfl⟩⟩
  refine Core.fail (w := _) ?_ fun _ => hbefore.symm
  exact h.of_eq rfl rfl rfl rfl rfl rfl

/-! ### Creations -/

theorem Core.complete (h : w.Core) (hframes : w.frames = []) (hslot : w.Fresh slot before) :
    ∃ w', w.complete slot before = some w' ∧ w'.Sound := by
  obtain ⟨e, he, hlive⟩ := hslot.entity
  unfold IncrementalWorld.complete Incremental.completed Outcome.reject
  by_cases hc : w.owner.cancelled = true
  · rw [if_pos hc]
    exact h.rollback hframes hslot
  · rw [if_neg hc]
    refine ⟨_, rfl, ⟨h.ledger, fun hh e' hmem => ?_, h.undone⟩, .inl ⟨hframes, .inl rfl⟩⟩
    rcases List.mem_append.mp hmem with hmem | hmem
    · exact h.issued hh e' hmem
    · simp only [he, Option.map_some, Option.toList_some, List.mem_singleton, Prod.mk.injEq] at hmem
      obtain ⟨rfl, rfl⟩ := hmem
      refine ⟨rfl, slot, rfl, .inr ⟨rfl, fun e'' he'' => ?_⟩⟩
      exact Option.some.inj (he''.symm.trans he)

theorem Core.registerTypes (h : w.Core) (hframes : w.frames = [])
    (hstate : w.owner.state = .creating) (hslot : w.Fresh slot before) (definition : Participant) :
    ∀ types : List TypeDef,
      ∃ w', w.registerTypes slot definition before types = some w' ∧ w'.Sound
  | [] => h.complete hframes hslot
  | t :: types => by
      unfold IncrementalWorld.registerTypes
      split_ifs
      · refine ⟨_, rfl, h.of_eq rfl rfl rfl rfl rfl rfl, .inr ⟨_, congrArg _ hframes, ?_⟩⟩
        exact ⟨hstate, ⟨t.name, rfl⟩, hslot.entity, hslot.unreferred, hslot.unissued⟩
      · exact h.rollback hframes hslot
      · exact h.registerTypes hframes hstate hslot definition types

/-! ### The end -/

/-- The loops of `destroy` ask for the next deletion, or end with nothing left. -/
theorem Core.destroyFrom (h : w.Core) (hframes : w.frames = [])
    (hstate : w.owner.state = .closing) :
    ∀ rest : List (Kind × Fin n), Sweeps w.owner.entries rest →
      ∃ w', w.destroyFrom rest = some w' ∧ w'.Ending ∧ w'.dds = w.dds
  | [], hsweeps => by
      have hnone : ∀ i, (w.owner.entries i).entity = none := fun i => by
        by_contra hi
        obtain ⟨e, he⟩ := Option.ne_none_iff_exists'.mp hi
        exact absurd (hsweeps.all i e he) List.not_mem_nil
      exact ⟨_, rfl, ⟨⟨h.of_eq rfl rfl rfl rfl rfl rfl, .inl ⟨hframes, .inr (.inr ⟨rfl, hnone⟩)⟩⟩,
        fun _ => rfl, fun f hf => absurd (hframes ▸ hf) List.not_mem_nil⟩, rfl⟩
  | (kind, slot) :: rest, hsweeps => by
      unfold IncrementalWorld.destroyFrom
      by_cases hkind : (w.owner.entries slot).entity.map Entity.kind = some kind
      · obtain ⟨e, he, rfl⟩ := Option.map_eq_some_iff.mp hkind
        obtain ⟨on, herase⟩ := erase_entity h.ledger he
        rw [if_pos hkind, herase]
        refine ⟨_, rfl, ⟨⟨h.of_eq rfl rfl rfl rfl rfl rfl, .inr ⟨_, congrArg _ hframes, hstate,
          ⟨e, on, he, rfl⟩, e, he, hsweeps⟩⟩, fun hnil => ?_, fun f hf => ?_⟩, rfl⟩
        · exact absurd hnil (List.cons_ne_nil _ _)
        · rw [IncrementalWorld.ask, hframes] at hf
          cases List.mem_singleton.mp hf
          exact ⟨slot, rest, rfl⟩
      · rw [if_neg hkind]
        refine h.destroyFrom hframes hstate rest ⟨hsweeps.ordered.of_cons, fun i e he => ?_⟩
        rcases List.mem_cons.mp (hsweeps.all i e he) with heq | hmem
        · obtain ⟨rfl, rfl⟩ := Prod.mk.inj heq
          exact absurd (congrArg _ he) hkind
        · exact hmem

/-- Nothing leads to the entity that `destroy` deletes next. -/
theorem unreferred_of_sweeps {rest : List (Kind × Fin n)}
    (h : Ledger w.owner.plan w.owner.entries w.dds) (he : (w.owner.entries slot).entity = some e)
    (hsweeps : Sweeps w.owner.entries ((e.kind, slot) :: rest)) :
    Unreferred w.owner.entries slot := by
  intro j hj
  obtain ⟨e', he'⟩ := Option.ne_none_iff_exists'.mp hj
  have hrank : e.kind.rank ≤ e'.kind.rank := by
    rcases List.mem_cons.mp (hsweeps.all j e' he') with heq | hmem
    · rw [(Prod.mk.inj heq).1]
    · exact List.rel_of_pairwise_cons hsweeps.ordered hmem
  have hnot : ¬((w.owner.entries j).parent = some slot ∨ (w.owner.entries j).topic = some slot) :=
    fun hrefers => absurd ((h.fits j e' he').rank_lt hrefers he) (not_lt.mpr hrank)
  exact not_or.mp hnot

theorem sweeps_destroyOrder (es : Fin n → Entry n) : Sweeps es (Incremental.destroyOrder n) where
  ordered := by
    refine List.pairwise_flatMap.mpr ⟨fun kind _ => ?_, ?_⟩
    · rw [List.pairwise_map]
      exact List.pairwise_of_forall fun _ _ => le_rfl
    · have hkinds : [Kind.writer, .reader, .publisher, .subscriber, .topic, .participant].Pairwise
          fun a b => a.rank ≤ b.rank := by decide
      refine hkinds.imp fun hab x hx y hy => ?_
      obtain ⟨_, -, rfl⟩ := List.mem_map.mp hx
      obtain ⟨_, -, rfl⟩ := List.mem_map.mp hy
      exact hab
  all i e _ := by
    refine List.mem_flatMap.mpr ⟨e.kind, ?_, List.mem_map.mpr ⟨i, List.mem_finRange i, rfl⟩⟩
    cases e.kind <;> decide

/-! ### Calls -/

/-- A creation that is to be made for a slot. -/
structure Begins (w : IncrementalWorld n) (b : Begun n) : Prop where
  begun : ∃ slot kind failure definition, (w.owner.entries slot).entity = none ∧
    (∃ E : Entry n, E.entity = none ∧ E.generation = (w.owner.entries slot).generation + 1 ∧
      b.owner = { w.owner with
        entries := Function.update w.owner.entries slot E
        state := .creating }) ∧
    b.cont = .creating slot kind failure definition ∧
    Fits b.owner.plan b.owner.entries slot kind ∧
    b.request = .create (creationAt b.owner.plan b.owner.entries slot kind) ∧
    w.dds.existing (creationAt b.owner.plan b.owner.entries slot kind) = none

theorem Core.create (h : w.Core) (hframes : w.frames = []) (hsettled : Settled w.owner)
    {b : Outcome Error (Begun n)} (hb : b.Holds w.Begins) :
    ∃ w', w.create b = some w' ∧ w'.Sound := by
  cases b with
  | trap => exact hb.elim
  | error err => exact ⟨_, rfl, h.fail fun _ => rfl, .inl ⟨hframes, hsettled⟩⟩
  | ok b =>
    obtain ⟨owner, request, cont⟩ := b
    obtain ⟨slot, kind, failure, definition, hnone, ⟨E, hE, hgen, howner⟩, hcont, hfits, hrequest,
      hnew⟩ := hb.begun
    cases howner
    cases hcont
    have hlt : ∀ hh e, (hh, e) ∈ w.issued → hh.slot = slot →
        hh.generation < (Function.update w.owner.entries slot E slot).generation := by
      intro hh e hmem hslot
      obtain ⟨-, i, hi, hissued⟩ := h.issued hh e hmem
      cases Fin.val_injective (hi.symm.trans hslot)
      rw [Function.update_self, hgen]
      exact Nat.lt_succ_of_le (hissued.elim le_of_lt fun heq => heq.1.le)
    refine ⟨_, rfl, ⟨h.ledger.reserve hnone hE, fun hh e hmem => ?_, h.undone⟩,
      .inr ⟨_, congrArg _ hframes, rfl, rfl, ?_, hfits, hrequest, hnew, fun p hp => hlt p.1 p.2 hp⟩⟩
    · obtain ⟨hself, i, hi, hissued⟩ := h.issued hh e hmem
      refine ⟨hself, i, hi, ?_⟩
      by_cases hslot : i = slot
      · subst hslot
        exact .inl (hlt hh e hmem hi)
      · simp only [ask, setOwner, Function.update_of_ne hslot]
        exact hissued
    · simp only [ask, setOwner, Function.update_self, hE]

end IncrementalWorld

/-! ### What calls check -/

namespace Incremental

variable {o : Incremental n} {h : Handle} {slot : Fin n} {kind : Kind}

theorem ready_holds : o.ready.Holds fun _ => o.state = .ready :=
  Outcome.reject_holds.bind fun _ hstate =>
    Outcome.reject_holds.mono fun _ _ => not_not.mp hstate

theorem get_holds : (o.get h).Holds fun i => h.owner = o.self ∧ h.slot = i.val ∧
    (o.entries i).entity ≠ none ∧ (o.entries i).generation = h.generation := by
  refine Outcome.reject_holds.bind fun _ howner => ?_
  split
  · refine Outcome.reject_holds.bind fun _ hentry => ?_
    obtain ⟨hentity, hgen⟩ := not_or.mp hentry
    exact ⟨not_not.mp howner, rfl, hentity, not_not.mp hgen⟩
  · trivial

theorem expect_holds : (o.expect h kind).Holds fun i =>
    ∃ e, (o.entries i).entity = some e ∧ e.kind = kind := by
  refine get_holds.bind fun i _ => Outcome.reject_holds.bind fun _ hkind => ?_
  exact Option.map_eq_some_iff.mp (not_not.mp hkind)

/-- An item that is there is what the rest goes on with. -/
theorem bind_item {α β : Type} {items : List α} {i : ℕ} {a : α} {f : α → Outcome Error β}
    {Q : β → Prop} (ha : items[i]? = some a) (h : (f a).Holds Q) :
    (item items i >>= f).Holds Q := by
  rw [item, ha]
  exact h

theorem orElse_holds {α : Type} {a : Option α} {err : Error} :
    (orElse a err).Holds fun b => a = some b := by
  cases a with
  | none => trivial
  | some a => exact rfl

/-- A slot without an entity is reserved. -/
theorem reserve_holds {p definition : ℕ} {parent topic : Option (Fin n)} :
    (o.reserve p definition parent topic).Holds fun r =>
      ∃ slot, (o.entries slot).entity = none ∧
        r = (slot, o.reserved slot p definition parent topic) :=
  ready_holds.bind fun _ _ => orElse_holds.bind fun slot hslot => by
    have hfree := List.find?_some hslot
    exact ⟨slot, (of_decide_eq_true hfree).1, rfl⟩

end Incremental

/-! ### Creations fit -/

section Fits

variable {plan : Plan} {es : Fin n → Entry n} {slot : Fin n} {kind : Kind} {E : Entry n}

/-- The entry of a reserved slot fits if what it leads to does. -/
theorem fits_update_self (hnone : (es slot).entity = none)
    (defined : ∃ p, plan.application.participants[E.participantDefinition]? = some p ∧
      p.Defines E.definition kind)
    (container : ∀ k, kind.container = some k → ∃ j e, E.parent = some j ∧
      (es j).entity = some e ∧ e.kind = k ∧ (es j).participantDefinition = E.participantDefinition)
    (root : kind.container = none → E.parent = none)
    (topic : kind.endpoint → ∃ j e, E.topic = some j ∧ (es j).entity = some e ∧ e.kind = .topic)
    (plain : kind.endpoint = false → E.topic = none) :
    Fits plan (Function.update es slot E) slot kind := by
  refine ⟨?_, fun k hk => ?_, fun hk => ?_, fun hk => ?_, fun hk => ?_⟩
  · rw [Function.update_self]
    exact defined
  · obtain ⟨j, e, hj, he, hkind, hpd⟩ := container k hk
    refine ⟨j, e, ?_⟩
    rw [Function.update_self, Function.update_of_ne (ne_of_entity hnone he)]
    exact ⟨hj, he, hkind, hpd⟩
  · rw [Function.update_self]
    exact root hk
  · obtain ⟨j, e, hj, he, hkind⟩ := topic hk
    refine ⟨j, e, ?_⟩
    rw [Function.update_self, Function.update_of_ne (ne_of_entity hnone he)]
    exact ⟨hj, he, hkind⟩
  · rw [Function.update_self]
    exact plain hk

end Fits

namespace Incremental

section Reserved

variable {o : Incremental n} {slot j : Fin n} {e : Entity} {kind : Kind} {p definition : ℕ}
  {parent topic : Option (Fin n)}

/-- An entity in another slot is still there once the slot is reserved. -/
theorem entries_reserved (hnone : (o.entries slot).entity = none)
    (he : (o.entries j).entity = some e) :
    (o.reserved slot p definition parent topic).entries j = o.entries j :=
  Function.update_of_ne (ne_of_entity hnone he) _ _

theorem bind_access {β : Type} {f : ℕ → Outcome Error β} {Q : β → Prop}
    (hnone : (o.entries slot).entity = none) (he : (o.entries j).entity = some e)
    (hkind : e.kind = kind) (h : (f e.handle).Holds Q) :
    ((o.reserved slot p definition parent topic).access (some j) kind >>= f).Holds Q := by
  rw [access, Option.bind_some, entries_reserved hnone he, he]
  dsimp only
  rw [if_pos hkind]
  exact h

theorem creationAt_reserved (hparent : parent ≠ some slot) (htopic : topic ≠ some slot) :
    creationAt o.plan (o.reserved slot p definition parent topic).entries slot kind =
      { kind := kind
        parent := parent.bind (handleAt o.entries)
        topicName := if kind = .topic then
          o.plan.application.participants[p]?.bind fun q =>
            q.topics[definition]?.map Topic.topicName else none
        topic := topic.bind (handleAt o.entries) } := by
  simp only [creationAt, topicNameAt, reserved, Function.update_self, bind_handleAt_update hparent,
    bind_handleAt_update htopic]

end Reserved

end Incremental

namespace IncrementalWorld

open Incremental

variable {w : IncrementalWorld n} {name : Name} {parent topic : Handle}

theorem createParticipant_holds : (w.owner.createParticipant name).Holds w.Begins := by
  refine ready_holds.bind fun _ _ => orElse_holds.bind fun p hp => ?_
  obtain ⟨definition, hdefinition, -⟩ := getElem?_of_index hp
  refine bind_item hdefinition (reserve_holds.bind ?_)
  rintro _ ⟨slot, hnone, rfl⟩
  refine ⟨slot, _, _, _, hnone, ⟨_, rfl, rfl, rfl⟩, rfl, ?_, ?_, Ledger.existing_plain (by decide)⟩
  · exact fits_update_self hnone ⟨_, hdefinition, trivial⟩ (by rintro _ ⟨⟩) (fun _ => rfl)
      (by rintro ⟨⟩) fun _ => rfl
  · simp only [creationAt, reserved, Function.update_self]
    rfl

theorem Core.createTopic (h : w.Core) : (w.owner.createTopic parent name).Holds w.Begins := by
  refine ready_holds.bind fun _ _ => expect_holds.bind fun pe hpe => ?_
  obtain ⟨e, he, hkind⟩ := hpe
  obtain ⟨p, hp, -⟩ := (h.ledger.fits pe e he).defined
  refine bind_item hp (orElse_holds.bind fun definition hdefinition =>
    Outcome.reject_holds.bind fun _ hother => reserve_holds.bind ?_)
  rintro _ ⟨slot, hnone, rfl⟩
  obtain ⟨t, ht, -⟩ := getElem?_of_index hdefinition
  refine bind_access hnone he hkind (bind_item ht ?_)
  have hne : some pe ≠ some slot := fun hpe => ne_of_entity hnone he (Option.some.inj hpe)
  have hfits : Fits w.owner.plan (w.owner.reserved slot
      (w.owner.entries pe).participantDefinition definition (some pe) none).entries slot
      .topic := by
    refine fits_update_self hnone ⟨p, hp, index_lt hdefinition⟩ ?_ (by rintro ⟨⟩) (by rintro ⟨⟩)
      fun _ => rfl
    rintro _ ⟨⟩
    exact ⟨pe, e, rfl, he, hkind, rfl⟩
  refine ⟨slot, _, _, _, hnone, ⟨_, rfl, rfl, rfl⟩, rfl, hfits, ?_, ?_⟩
  · refine congrArg Request.create (Eq.symm ?_)
    refine (creationAt_reserved hne (Option.some_ne_none slot).symm).trans ?_
    rw [if_pos rfl, hp, Option.bind_some, Option.bind_some, ht, handleAt_of_entity he]
    rfl
  · refine (h.ledger.reserve hnone rfl).existing_topic hfits fun j ej hej htopic hparent hdef => ?_
    by_cases hj : j = slot
    · rw [hj, Function.update_self] at hej
      cases hej
    · rw [Function.update_of_ne hj] at hej hparent hdef
      rw [Function.update_self] at hparent hdef
      exact hother ⟨j, by rw [hej]; exact congrArg some htopic, hparent, hdef⟩

/-- `createPublisher` and `createSubscriber`. -/
theorem Core.container (h : w.Core) {kind : Kind} {definitions : Participant → List Container}
    {failure : Error} (hcontainer : kind.container = some .participant)
    (hplain : kind.endpoint = false) (hkind : kind ≠ .topic)
    (hdefines : ∀ p d, d < (definitions p).length → p.Defines d kind) :
    (w.owner.container parent name kind definitions failure).Holds w.Begins := by
  refine ready_holds.bind fun _ _ => expect_holds.bind fun pe hpe => ?_
  obtain ⟨e, he, hekind⟩ := hpe
  obtain ⟨p, hp, -⟩ := (h.ledger.fits pe e he).defined
  refine bind_item hp (orElse_holds.bind fun definition hdefinition => reserve_holds.bind ?_)
  rintro _ ⟨slot, hnone, rfl⟩
  refine bind_access hnone he hekind ?_
  have hne : some pe ≠ some slot := fun hpe => ne_of_entity hnone he (Option.some.inj hpe)
  refine ⟨slot, _, _, _, hnone, ⟨_, rfl, rfl, rfl⟩, rfl, ?_, ?_, Ledger.existing_plain hkind⟩
  · refine fits_update_self hnone ⟨p, hp, hdefines _ _ (index_lt hdefinition)⟩ ?_ ?_ ?_ fun _ => rfl
    · intro k hk
      cases hcontainer.symm.trans hk
      exact ⟨pe, e, rfl, he, hekind, rfl⟩
    · intro hk
      cases hcontainer.symm.trans hk
    · intro hk
      cases hplain.symm.trans hk
  · refine congrArg Request.create (Eq.symm ?_)
    refine (creationAt_reserved hne (Option.some_ne_none slot).symm).trans ?_
    rw [if_neg hkind, Option.bind_some, handleAt_of_entity he]
    rfl

/-- The parent and the topic that `endpoint` finds, and where they are. -/
structure FoundEndpoint (w : IncrementalWorld n) (parentKind : Kind)
    (definitions : Participant → List Endpoint) (pe te : Fin n) (definition : ℕ) (t : Topic)
    (e et : Entity) : Prop where
  parent : (w.owner.entries pe).entity = some e
  kind : e.kind = parentKind
  topic : (w.owner.entries te).entity = some et
  isTopic : et.kind = .topic
  same : (w.owner.entries pe).parent = (w.owner.entries te).parent
  pd : (w.owner.entries te).participantDefinition = (w.owner.entries pe).participantDefinition
  defined : ∃ p,
    w.owner.plan.application.participants[(w.owner.entries pe).participantDefinition]? = some p ∧
      definition < (definitions p).length ∧
      p.topics[(w.owner.entries te).definition]? = some t

theorem Core.endpoint (h : w.Core) {parentKind : Kind}
    {definitions : Participant → List Endpoint} {containers : Participant → List Container}
    (hcontainer : parentKind.container = some .participant)
    (hdefines : ∀ p d, p.Defines d parentKind → d < (containers p).length) :
    (w.owner.endpoint parent topic name parentKind definitions containers).Holds fun r =>
      ∃ e et, w.FoundEndpoint parentKind definitions r.1 r.2.1 r.2.2.1 r.2.2.2 e et := by
  refine ready_holds.bind fun _ _ => expect_holds.bind fun pe hpe => expect_holds.bind fun te hte =>
    Outcome.reject_holds.bind fun _ hsame => ?_
  obtain ⟨e, he, hkind⟩ := hpe
  obtain ⟨et, het, htopic⟩ := hte
  have hsame := not_not.mp hsame
  obtain ⟨p, hp, hpdef⟩ := (h.ledger.fits pe e he).defined
  obtain ⟨p', hp', htdef⟩ := (h.ledger.fits te et het).defined
  -- Both are created under one participant, so both belong to the same one of the plan.
  obtain ⟨j, ej, hj, -, -, hpd⟩ := (h.ledger.fits pe e he).container _ (hkind ▸ hcontainer)
  obtain ⟨j', ej', hj', -, -, hpd'⟩ := (h.ledger.fits te et het).container .participant
    (by rw [htopic]; rfl)
  cases (hj.symm.trans hsame).trans hj'
  have hpds := hpd'.symm.trans hpd
  rw [hpds] at hp'
  cases hp.symm.trans hp'
  refine bind_item hp (orElse_holds.bind fun definition hdefinition => ?_)
  obtain ⟨ep, hep, -⟩ := getElem?_of_index hdefinition
  rw [hkind] at hpdef
  rw [htopic] at htdef
  have ht := List.getElem?_eq_getElem htdef
  refine bind_item hep (bind_item (List.getElem?_eq_getElem (hdefines p _ hpdef))
    (Outcome.reject_holds.bind fun _ _ => bind_item ht (Outcome.reject_holds.bind fun _ _ => ?_)))
  exact ⟨e, et, he, hkind, het, htopic, hsame, hpds, p, hp, index_lt hdefinition, ht⟩

/-- A writer or a reader in a reserved slot, under what `endpoint` has found. -/
theorem FoundEndpoint.begins {parentKind kind : Kind} {definitions : Participant → List Endpoint}
    {pe te slot : Fin n} {definition : ℕ} {t : Topic} {e et : Entity} {failure : Error}
    (hfound : w.FoundEndpoint parentKind definitions pe te definition t e et)
    (hkind : kind.container = some parentKind) (hendpoint : kind.endpoint)
    (hdefines : ∀ p d, d < (definitions p).length → p.Defines d kind)
    (hnone : (w.owner.entries slot).entity = none) :
    w.Begins ⟨w.owner.reserved slot (w.owner.entries pe).participantDefinition definition (some pe)
      (some te), .create { kind := kind, parent := some e.handle, topic := some et.handle },
      .creating slot kind failure none⟩ := by
  obtain ⟨he, hekind, het, htopic, -, -, p, hp, hdefinition, -⟩ := hfound
  have hnetopic : kind ≠ .topic := by
    rintro rfl
    cases hendpoint
  refine ⟨slot, _, _, _, hnone, ⟨_, rfl, rfl, rfl⟩, rfl, ?_, ?_, Ledger.existing_plain hnetopic⟩
  · refine fits_update_self hnone ⟨p, hp, hdefines p _ hdefinition⟩ (fun k hk => ?_) (fun hk => ?_)
      (fun _ => ⟨te, et, rfl, het, htopic⟩) fun hk => ?_
    · cases hkind.symm.trans hk
      exact ⟨pe, e, rfl, he, hekind, rfl⟩
    · cases hkind.symm.trans hk
    · cases hk.symm.trans hendpoint
  · refine congrArg Request.create (Eq.symm ?_)
    refine (creationAt_reserved (fun h => ne_of_entity hnone he (Option.some.inj h))
      fun h => ne_of_entity hnone het (Option.some.inj h)).trans ?_
    rw [if_neg hnetopic, Option.bind_some, Option.bind_some, handleAt_of_entity he,
      handleAt_of_entity het]

theorem Core.createWriter (h : w.Core) :
    (w.owner.createWriter parent topic name).Holds w.Begins := by
  have hendpoint : (w.owner.endpoint parent topic name .publisher Participant.writers
      Participant.publishers).Holds _ := h.endpoint rfl fun _ _ => id
  refine hendpoint.bind ?_
  rintro ⟨pe, te, definition, t⟩ ⟨e, et, hfound⟩
  refine reserve_holds.bind ?_
  rintro _ ⟨slot, hnone, rfl⟩
  refine bind_access hnone hfound.parent hfound.kind
    (bind_access hnone hfound.topic hfound.isTopic ?_)
  exact hfound.begins rfl rfl (fun _ _ _ => trivial) hnone

/-- What DDS finds by the name of the topic is the topic in the slot. -/
theorem FoundEndpoint.lookup (h : w.Core) {parentKind : Kind}
    {definitions : Participant → List Endpoint} {pe te j : Fin n} {definition : ℕ} {t : Topic}
    {e et ej : Entity} (hfound : w.FoundEndpoint parentKind definitions pe te definition t e et)
    (hj : (w.owner.entries pe).parent = some j) (hej : (w.owner.entries j).entity = some ej) :
    w.dds.lookupTopicdescription ej.handle t.topicName = some et.handle := by
  obtain ⟨p, hp, -, ht⟩ := hfound.defined
  refine h.ledger.sound.lookup_eq (h.ledger.mem_of_entity hfound.topic) ?_ ?_
  · simp only [creationAt]
    rw [← hfound.same, hj, Option.bind_some, handleAt_of_entity hej]
  · simp only [creationAt, if_pos hfound.isTopic, topicNameAt]
    rw [hfound.pd, hp, Option.bind_some, ht, Option.map_some]

theorem Core.createReader (h : w.Core) :
    (w.owner.createReader w.dds parent topic name).Holds w.Begins := by
  have hendpoint : (w.owner.endpoint parent topic name .subscriber Participant.readers
      Participant.subscribers).Holds _ := h.endpoint rfl fun _ _ => id
  refine hendpoint.bind ?_
  rintro ⟨pe, te, definition, t⟩ ⟨e, et, hfound⟩
  refine reserve_holds.bind ?_
  rintro _ ⟨slot, hnone, rfl⟩
  obtain ⟨j, ej, hj, hej, hdp, -⟩ :=
    (h.ledger.fits pe e hfound.parent).container .participant (hfound.kind ▸ rfl)
  refine bind_access hnone hfound.parent hfound.kind ?_
  rw [entries_reserved hnone hfound.parent, hj]
  refine bind_access hnone hej hdp ?_
  rw [hfound.lookup h hj hej]
  exact hfound.begins rfl rfl (fun _ _ _ => trivial) hnone

end IncrementalWorld

end Zzdds.Resources
