import Zzdds.Resources.Incremental

/-! # Slots and entities

The slots of an owner agree with what DDS holds: each entity is in one slot, with the slots of the
entities it was created under and for.  Nothing else in an owner matters for that, so all is said of
a plan and slots. -/

namespace Zzdds.Resources

variable {n : ℕ}

/-- An item of the participant's list for the kind. -/
def Participant.Defines (p : Participant) (definition : ℕ) : Kind → Prop
  | .topic => definition < p.topics.length
  | .publisher => definition < p.publishers.length
  | .subscriber => definition < p.subscribers.length
  | _ => True

/-- How soon entities of the kind have to go. -/
def Kind.rank : Kind → ℕ
  | .writer => 0
  | .reader => 0
  | .publisher => 1
  | .subscriber => 1
  | .topic => 1
  | .participant => 2

def Kind.endpoint (kind : Kind) : Bool := kind == .writer || kind == .reader

/-! ### Slots -/

section Slots

variable (plan : Plan) (es : Fin n → Entry n)

def handleAt (i : Fin n) : Option ℕ := (es i).entity.map Entity.handle

/-- The name DDS knows the topic in the slot by. -/
def topicNameAt (i : Fin n) : Option Name :=
  plan.application.participants[(es i).participantDefinition]?.bind fun p =>
    p.topics[(es i).definition]?.map Topic.topicName

/-- What the entity of the slot is created with, if it is of the kind. -/
def creationAt (i : Fin n) (kind : Kind) : Creation where
  kind := kind
  parent := (es i).parent.bind (handleAt es)
  topicName := if kind = .topic then topicNameAt plan es i else none
  topic := (es i).topic.bind (handleAt es)

/-- What DDS holds for the slot. -/
def liveAt (i : Fin n) : Option Live :=
  (es i).entity.map fun e => { toCreation := creationAt plan es i e.kind, handle := e.handle }

/-- The slot leads to slots of entities that fit one of the kind. -/
structure Fits (i : Fin n) (kind : Kind) : Prop where
  defined : ∃ p, plan.application.participants[(es i).participantDefinition]? = some p ∧
    p.Defines (es i).definition kind
  container : ∀ k, kind.container = some k → ∃ j e, (es i).parent = some j ∧
    (es j).entity = some e ∧ e.kind = k ∧
    (es j).participantDefinition = (es i).participantDefinition
  root : kind.container = none → (es i).parent = none
  topic : kind.endpoint → ∃ j e, (es i).topic = some j ∧ (es j).entity = some e ∧ e.kind = .topic
  plain : kind.endpoint = false → (es i).topic = none

/-- No entity leads to the slot. -/
def Unreferred (i : Fin n) : Prop :=
  ∀ j, (es j).entity ≠ none → (es j).parent ≠ some i ∧ (es j).topic ≠ some i

/-- The slots hold what DDS holds. -/
structure Ledger (d : Dds) : Prop where
  sound : d.Sound
  live : ∀ x, x ∈ d.live ↔ ∃ i, liveAt plan es i = some x
  inj : ∀ i j h, handleAt es i = some h → handleAt es j = some h → i = j
  fits : ∀ i e, (es i).entity = some e → Fits plan es i e.kind

end Slots

variable {plan : Plan} {es : Fin n → Entry n} {i j : Fin n} {d : Dds} {e : Entity} {kind : Kind}

theorem liveAt_of_entity (he : (es i).entity = some e) :
    liveAt plan es i = some { toCreation := creationAt plan es i e.kind, handle := e.handle } := by
  rw [liveAt, he]
  rfl

theorem handleAt_of_entity (he : (es i).entity = some e) : handleAt es i = some e.handle := by
  rw [handleAt, he]
  rfl

theorem liveAt_of_none (he : (es i).entity = none) : liveAt plan es i = none := by
  rw [liveAt, he]
  rfl

theorem ne_of_entity (hi : (es i).entity = none) (he : (es j).entity = some e) : j ≠ i := by
  rintro rfl
  exact Option.some_ne_none e (he.symm.trans hi)

/-- An entity with the handle is in the slot. -/
theorem entity_of_handleAt {h : ℕ} (hh : handleAt es i = some h) :
    ∃ e, (es i).entity = some e ∧ e.handle = h :=
  Option.map_eq_some_iff.mp hh

theorem entity_of_liveAt {x : Live} (hx : liveAt plan es i = some x) :
    ∃ e, (es i).entity = some e ∧
      x = { toCreation := creationAt plan es i e.kind, handle := e.handle } := by
  obtain ⟨e, he, rfl⟩ := Option.map_eq_some_iff.mp hx
  exact ⟨e, he, rfl⟩

theorem hasDependents_eq_false {o : Incremental n} :
    o.hasDependents i = false ↔ Unreferred o.entries i := by
  simp only [Incremental.hasDependents, List.any_eq_false, List.mem_finRange, true_implies,
    Bool.and_eq_true, Bool.or_eq_true, beq_iff_eq, not_and, not_or, Option.isSome_iff_ne_none,
    Unreferred]

namespace Fits

theorem parent_entity (h : Fits plan es i kind) (hj : (es i).parent = some j) :
    ∃ e, (es j).entity = some e ∧ kind.container = some e.kind := by
  cases hk : kind.container with
  | none => exact absurd (hj.symm.trans (h.root hk)) (Option.some_ne_none j)
  | some k =>
    obtain ⟨j', e, hj', he, rfl, -⟩ := h.container k hk
    cases hj.symm.trans hj'
    exact ⟨e, he, rfl⟩

theorem topic_entity (h : Fits plan es i kind) (hj : (es i).topic = some j) :
    ∃ e, (es j).entity = some e ∧ e.kind = .topic ∧ kind.endpoint := by
  cases hk : kind.endpoint with
  | false => exact absurd (hj.symm.trans (h.plain hk)) (Option.some_ne_none j)
  | true =>
    obtain ⟨j', e, hj', he, htopic⟩ := h.topic hk
    cases hj.symm.trans hj'
    exact ⟨e, he, htopic, rfl⟩

/-- An entity goes before the ones it leads to. -/
theorem rank_lt (h : Fits plan es i kind) (hj : (es i).parent = some j ∨ (es i).topic = some j)
    (he : (es j).entity = some e) : kind.rank < e.kind.rank := by
  rcases hj with hj | hj
  · obtain ⟨e', he', hk⟩ := h.parent_entity hj
    cases he.symm.trans he'
    cases kind <;> cases hk' : e.kind <;> simp_all [Kind.container, Kind.rank]
  · obtain ⟨e', he', htopic, hk⟩ := h.topic_entity hj
    cases he.symm.trans he'
    rw [htopic]
    cases kind <;> simp_all [Kind.endpoint, Kind.rank]

/-- Nothing leads to an empty slot. -/
theorem not_refers (h : Fits plan es i kind) (hj : (es j).entity = none) :
    (es i).parent ≠ some j ∧ (es i).topic ≠ some j := by
  constructor
  · intro hp
    obtain ⟨e, he, -⟩ := h.parent_entity hp
    exact absurd (he.symm.trans hj) (Option.some_ne_none e)
  · intro ht
    obtain ⟨e, he, -⟩ := h.topic_entity ht
    exact absurd (he.symm.trans hj) (Option.some_ne_none e)

/-- Another slot changes that the slot does not lead to; the slot keeps what it leads to. -/
theorem update {E : Entry n} (h : Fits plan es i kind) (hp : (es i).parent ≠ some j)
    (ht : (es i).topic ≠ some j)
    (hself : i = j → E.participantDefinition = (es i).participantDefinition ∧
      E.definition = (es i).definition ∧ E.parent = (es i).parent ∧ E.topic = (es i).topic) :
    Fits plan (Function.update es j E) i kind := by
  have hi : (Function.update es j E i).participantDefinition = (es i).participantDefinition ∧
      (Function.update es j E i).definition = (es i).definition ∧
      (Function.update es j E i).parent = (es i).parent ∧
      (Function.update es j E i).topic = (es i).topic := by
    by_cases hij : i = j
    · rw [hij, Function.update_self, ← hij]
      exact hself hij
    · rw [Function.update_of_ne hij]
      exact ⟨rfl, rfl, rfl, rfl⟩
  obtain ⟨hpd, hdef, hparent, htopic⟩ := hi
  refine ⟨?_, fun k hk => ?_, fun hk => hparent.trans (h.root hk), fun hk => ?_,
    fun hk => htopic.trans (h.plain hk)⟩
  · rw [hpd, hdef]
    exact h.defined
  · obtain ⟨l, e, hl, he, hkind, heq⟩ := h.container k hk
    have hlj : l ≠ j := fun hlj => hp (hlj ▸ hl)
    refine ⟨l, e, hparent.trans hl, ?_, hkind, ?_⟩
    · rw [Function.update_of_ne hlj]
      exact he
    · rw [Function.update_of_ne hlj, hpd]
      exact heq
  · obtain ⟨l, e, hl, he, hkind⟩ := h.topic hk
    have hlj : l ≠ j := fun hlj => ht (hlj ▸ hl)
    refine ⟨l, e, htopic.trans hl, ?_, hkind⟩
    rw [Function.update_of_ne hlj]
    exact he

end Fits

/-! ### A slot changes -/

section Update

variable {E : Entry n}

theorem handleAt_update_of_ne (hij : i ≠ j) :
    handleAt (Function.update es j E) i = handleAt es i := by
  rw [handleAt, handleAt, Function.update_of_ne hij]

theorem bind_handleAt_update {k : Option (Fin n)} (hk : k ≠ some j) :
    k.bind (handleAt (Function.update es j E)) = k.bind (handleAt es) := by
  cases k with
  | none => rfl
  | some k => exact handleAt_update_of_ne fun h => hk (congrArg some h)

theorem creationAt_update_of_ne (hij : i ≠ j) (hp : (es i).parent ≠ some j)
    (ht : (es i).topic ≠ some j) :
    creationAt plan (Function.update es j E) i kind = creationAt plan es i kind := by
  simp only [creationAt, topicNameAt, Function.update_of_ne hij, bind_handleAt_update hp,
    bind_handleAt_update ht]

theorem liveAt_update_of_ne (hij : i ≠ j) (h : Unreferred es j) :
    liveAt plan (Function.update es j E) i = liveAt plan es i := by
  cases he : (es i).entity with
  | none =>
    rw [liveAt_of_none he, liveAt_of_none]
    rw [Function.update_of_ne hij]
    exact he
  | some e =>
    obtain ⟨hp, ht⟩ := h i (by rw [he]; exact Option.some_ne_none e)
    rw [liveAt_of_entity he, liveAt_of_entity, creationAt_update_of_ne hij hp ht]
    rw [Function.update_of_ne hij]
    exact he

/-- Only the entity of a slot changes. -/
theorem creationAt_update_entity {x : Option Entity} (hp : (es i).parent ≠ some i)
    (ht : (es i).topic ≠ some i) :
    creationAt plan (Function.update es i { es i with entity := x }) i kind =
      creationAt plan es i kind := by
  simp only [creationAt, topicNameAt, Function.update_self, bind_handleAt_update hp,
    bind_handleAt_update ht]

end Update

namespace Ledger

/-- Nothing leads to an empty slot. -/
theorem unreferred_of_none (h : Ledger plan es d) (hi : (es i).entity = none) :
    Unreferred es i := by
  intro j hj
  obtain ⟨e, he⟩ := Option.ne_none_iff_exists'.mp hj
  exact (h.fits j e he).not_refers hi

theorem mem_of_entity (h : Ledger plan es d) (he : (es i).entity = some e) :
    ({ toCreation := creationAt plan es i e.kind, handle := e.handle } : Live) ∈ d.live :=
  (h.live _).mpr ⟨i, liveAt_of_entity he⟩

theorem handles (h : Ledger plan es d) (hh : ℕ) :
    hh ∈ d.live.map Live.handle ↔ ∃ i, handleAt es i = some hh := by
  rw [List.mem_map]
  constructor
  · rintro ⟨x, hx, rfl⟩
    obtain ⟨i, hi⟩ := (h.live x).mp hx
    obtain ⟨e, he, rfl⟩ := entity_of_liveAt hi
    exact ⟨i, handleAt_of_entity he⟩
  · rintro ⟨i, hi⟩
    obtain ⟨e, he, rfl⟩ := entity_of_handleAt hi
    exact ⟨_, h.mem_of_entity he, rfl⟩

/-- No entity depends on one in a slot that nothing leads to. -/
theorem no_dependents (h : Ledger plan es d) (he : (es i).entity = some e) (hi : Unreferred es i) :
    ∀ x ∈ d.live, x.parent ≠ some e.handle ∧ x.topic ≠ some e.handle := by
  have hback : ∀ k : Option (Fin n), k.bind (handleAt es) = some e.handle → k = some i := by
    intro k hk
    obtain ⟨l, rfl, hl⟩ := Option.bind_eq_some_iff.mp hk
    rw [h.inj l i e.handle hl (handleAt_of_entity he)]
  intro x hx
  obtain ⟨j, hj⟩ := (h.live x).mp hx
  obtain ⟨e', he', rfl⟩ := entity_of_liveAt hj
  obtain ⟨hp, ht⟩ := hi j (by rw [he']; exact Option.some_ne_none e')
  exact ⟨fun hx => hp (hback _ hx), fun hx => ht (hback _ hx)⟩

/-- A slot without an entity is given another purpose. -/
theorem reserve (h : Ledger plan es d) {E : Entry n} (hi : (es i).entity = none)
    (hE : E.entity = none) : Ledger plan (Function.update es i E) d := by
  have hun := h.unreferred_of_none hi
  have hentity : ∀ j, (Function.update es i E j).entity = (es j).entity := by
    intro j
    by_cases hji : j = i
    · rw [hji, Function.update_self, hE, hi]
    · rw [Function.update_of_ne hji]
  have hhandle : ∀ j, handleAt (Function.update es i E) j = handleAt es j := fun j => by
    rw [handleAt, handleAt, hentity]
  refine ⟨h.sound, fun x => ?_, fun j k hh hj hk => ?_, fun j e he => ?_⟩
  · rw [h.live]
    refine exists_congr fun j => ?_
    by_cases hji : j = i
    · rw [hji, liveAt_of_none hi, liveAt_of_none ((hentity i).trans hi)]
    · rw [liveAt_update_of_ne hji hun]
  · rw [hhandle] at hj hk
    exact h.inj j k hh hj hk
  · rw [hentity] at he
    have hji := ne_of_entity hi he
    obtain ⟨hp, ht⟩ := hun j (by rw [he]; exact Option.some_ne_none e)
    exact (h.fits j e he).update hp ht fun hji' => absurd hji' hji

/-- What DDS has created is recorded in a slot that fits. -/
theorem record (h : Ledger plan es d) (hi : (es i).entity = none) (hfits : Fits plan es i kind)
    (hnew : d.existing (creationAt plan es i kind) = none) :
    Ledger plan (Function.update es i { es i with entity := some ⟨kind, d.handles⟩ })
      (d.add (creationAt plan es i kind)) := by
  have hun := h.unreferred_of_none hi
  obtain ⟨hip, hit⟩ := hfits.not_refers hi
  have hself : liveAt plan (Function.update es i { es i with entity := some ⟨kind, d.handles⟩ }) i =
      some { toCreation := creationAt plan es i kind, handle := d.handles } := by
    rw [liveAt_of_entity (e := ⟨kind, d.handles⟩) (by rw [Function.update_self]),
      creationAt_update_entity hip hit]
  have hlt : ∀ j hh, handleAt es j = some hh → hh < d.handles := by
    intro j hh hj
    obtain ⟨e, he, rfl⟩ := entity_of_handleAt hj
    exact h.sound.handle_lt (h.mem_of_entity he)
  have hselfHandle :
      handleAt (Function.update es i { es i with entity := some ⟨kind, d.handles⟩ }) i =
        some d.handles := by
    rw [handleAt, Function.update_self]
    rfl
  refine ⟨h.sound.add hnew, fun x => ?_, fun j k hh hj hk => ?_, fun j e he => ?_⟩
  · rw [Dds.mem_add, h.live]
    constructor
    · rintro (⟨j, hj⟩ | rfl)
      · have hji : j ≠ i := by
          rintro rfl
          rw [liveAt_of_none hi] at hj
          cases hj
        exact ⟨j, (liveAt_update_of_ne hji hun).trans hj⟩
      · exact ⟨i, hself⟩
    · rintro ⟨j, hj⟩
      by_cases hji : j = i
      · rw [hji, hself] at hj
        exact .inr (Option.some.inj hj).symm
      · rw [liveAt_update_of_ne hji hun] at hj
        exact .inl ⟨j, hj⟩
  · by_cases hji : j = i <;> by_cases hki : k = i
    · rw [hji, hki]
    · rw [hji, hselfHandle] at hj
      rw [handleAt_update_of_ne hki] at hk
      cases hj
      exact absurd (hlt k _ hk) (lt_irrefl _)
    · rw [hki, hselfHandle] at hk
      rw [handleAt_update_of_ne hji] at hj
      cases hk
      exact absurd (hlt j _ hj) (lt_irrefl _)
    · rw [handleAt_update_of_ne hji] at hj
      rw [handleAt_update_of_ne hki] at hk
      exact h.inj j k hh hj hk
  · by_cases hji : j = i
    · subst hji
      rw [Function.update_self] at he
      cases he
      exact hfits.update hip hit fun _ => ⟨rfl, rfl, rfl, rfl⟩
    · rw [Function.update_of_ne hji] at he
      obtain ⟨hp, ht⟩ := hun j (by rw [he]; exact Option.some_ne_none e)
      exact (h.fits j e he).update hp ht fun hji' => absurd hji' hji

/-- What DDS has deleted is taken out of its slot. -/
theorem clear (h : Ledger plan es d) (he : (es i).entity = some e) (hun : Unreferred es i) :
    Ledger plan (Function.update es i { es i with entity := none }) (d.delete e.handle) := by
  have hself : liveAt plan (Function.update es i { es i with entity := none }) i = none :=
    liveAt_of_none (by rw [Function.update_self])
  refine ⟨h.sound.delete (h.mem_of_entity he), fun x => ?_, fun j k hh hj hk => ?_,
    fun j e' he' => ?_⟩
  · rw [Dds.mem_delete, h.live]
    constructor
    · rintro ⟨⟨j, hj⟩, hne⟩
      have hji : j ≠ i := by
        rintro rfl
        rw [liveAt_of_entity he] at hj
        cases hj
        exact hne rfl
      exact ⟨j, (liveAt_update_of_ne hji hun).trans hj⟩
    · rintro ⟨j, hj⟩
      have hji : j ≠ i := by
        rintro rfl
        rw [hself] at hj
        cases hj
      rw [liveAt_update_of_ne hji hun] at hj
      refine ⟨⟨j, hj⟩, fun hx => hji ?_⟩
      obtain ⟨e', he', rfl⟩ := entity_of_liveAt hj
      exact h.inj j i e.handle ((handleAt_of_entity he').trans (congrArg some hx))
        (handleAt_of_entity he)
  · have hne : ∀ l, handleAt (Function.update es i { es i with entity := none }) l = some hh →
        handleAt es l = some hh := by
      intro l hl
      by_cases hli : l = i
      · rw [hli, handleAt, Function.update_self] at hl
        cases hl
      · rwa [handleAt_update_of_ne hli] at hl
    exact h.inj j k hh (hne j hj) (hne k hk)
  · have hji : j ≠ i := by
      rintro rfl
      rw [Function.update_self] at he'
      cases he'
    rw [Function.update_of_ne hji] at he'
    obtain ⟨hp, ht⟩ := hun j (by rw [he']; exact Option.some_ne_none e')
    exact (h.fits j e' he').update hp ht fun hji' => absurd hji' hji

/-- A topic is not created where there already is one by its name: the plan's topics have different
names, and no slot is for the same definition. -/
theorem existing_topic (h : Ledger plan es d) (hfits : Fits plan es i .topic)
    (hother : ∀ j e, (es j).entity = some e → e.kind = .topic → (es j).parent = (es i).parent →
      (es j).definition ≠ (es i).definition) :
    d.existing (creationAt plan es i .topic) = none := by
  by_contra hex
  obtain ⟨hh, hex⟩ := Option.ne_none_iff_exists'.mp hex
  obtain ⟨x, hx, dp, name, hdp, hname, hxdp, hxname⟩ := Dds.Sound.of_existing hex
  obtain ⟨j, hj⟩ := (h.live x).mp hx
  obtain ⟨e, he, rfl⟩ := entity_of_liveAt hj
  have htopic : e.kind = .topic := by
    by_contra hkind
    simp only [creationAt, if_neg hkind] at hxname
    cases hxname
  -- Both are created under the participant `dp`, which is in one slot.
  obtain ⟨a, ha, hadp⟩ := Option.bind_eq_some_iff.mp hdp
  obtain ⟨b, hb, hbdp⟩ := Option.bind_eq_some_iff.mp hxdp
  have hab : b = a := h.inj b a dp hbdp hadp
  subst hab
  have hfitsj := h.fits j e he
  rw [htopic] at hfitsj
  obtain ⟨c, ec, hc, -, -, hcpd⟩ := hfits.container .participant rfl
  obtain ⟨c', ec', hc', -, -, hcpd'⟩ := hfitsj.container .participant rfl
  cases ha.symm.trans hc
  cases hb.symm.trans hc'
  have hpd : (es j).participantDefinition = (es i).participantDefinition := hcpd'.symm.trans hcpd
  obtain ⟨p, hp, hdef⟩ := hfits.defined
  obtain ⟨p', hp', hdef'⟩ := hfitsj.defined
  rw [hpd] at hp'
  cases hp.symm.trans hp'
  have hnodup := (plan.resolved p (List.mem_of_getElem? hp)).topicNames
  have hi : (p.topics.map Topic.topicName)[(es i).definition]? = some name := by
    simpa only [creationAt, topicNameAt, if_true, hp, Option.bind_some, List.getElem?_map]
      using hname
  have hj' : (p.topics.map Topic.topicName)[(es j).definition]? = some name := by
    simpa only [creationAt, topicNameAt, if_pos htopic, hpd, hp, Option.bind_some,
      List.getElem?_map] using hxname
  refine hother j e he htopic (hb.trans ha.symm) ?_
  exact (List.getElem?_inj (by rw [List.length_map]; exact hdef') hnodup).mp (hj'.trans hi.symm)

/-- A creation that is not one of a topic finds nothing there. -/
theorem existing_plain (hkind : kind ≠ .topic) : d.existing (creationAt plan es i kind) = none := by
  unfold Dds.existing
  cases hp : (creationAt plan es i kind).parent with
  | none => rfl
  | some dp =>
    simp only [creationAt, if_neg hkind]
    rfl

end Ledger

end Zzdds.Resources
