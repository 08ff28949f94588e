import Mathlib.Data.List.Nodup
import Zzdds.Lib.Checked

/-! # Resource plans

A plan names the entities an application is to have: participants, and in each its types, topics,
publishers, subscribers, writers and readers.  Resolving an authored application checks names,
limits and references; a `Plan` carries what the checks leave true. -/

namespace Zzdds.Resources

open Lib

/-- The bytes of a name. -/
abbrev Name := List UInt8

inductive Error
  | invalidName | resourceLimit | duplicateName | invalidDomain | unknownReference
  | duplicateTopicName | invalidQos | duplicateBinding | missingBinding | invalidFactory
  | invalidState | cancelled | wrongOwner | staleHandle | wrongKind | wrongParent | alreadyExists
  | liveDependents | participantCreationFailed | topicCreationFailed | publisherCreationFailed
  | subscriberCreationFailed | writerCreationFailed | readerCreationFailed | cleanupFailed
  | constructionInProgress | cleanupInProgress
  | binding (code : ℕ)
deriving DecidableEq, Repr

inductive ReliabilityKind
  | bestEffort | reliable
deriving DecidableEq, Repr

inductive DataRepresentation
  | xcdr1 | xcdr2
deriving DecidableEq, Repr

structure EndpointQos where
  reliability : ReliabilityKind := .bestEffort
  dataRepresentation : DataRepresentation := .xcdr1
  historyDepth : ℤ := 1
  maxSamples : ℤ := 32
  maxInstances : ℤ := 1
  maxSamplesPerInstance : ℤ := 32
deriving DecidableEq, Repr

structure TypeDef where
  name : Name
deriving DecidableEq, Repr

structure Topic where
  name : Name
  topicName : Name
  typeRef : Name
deriving DecidableEq, Repr

structure Container where
  name : Name
deriving DecidableEq, Repr

structure Endpoint where
  name : Name
  containerRef : Name
  topicRef : Name
  qos : EndpointQos := {}
deriving DecidableEq, Repr

structure Participant where
  name : Name
  domainId : ℤ
  types : List TypeDef := []
  topics : List Topic := []
  publishers : List Container := []
  subscribers : List Container := []
  writers : List Endpoint := []
  readers : List Endpoint := []
deriving DecidableEq, Repr

structure Application where
  name : Name
  participants : List Participant
deriving DecidableEq, Repr

structure Limits where
  maxResources : ℕ := 1024
  maxNameBytes : ℕ := 128

/-- What has a name that references use. -/
class Named (α : Type) where
  name : α → Name

instance : Named TypeDef := ⟨TypeDef.name⟩
instance : Named Topic := ⟨Topic.name⟩
instance : Named Container := ⟨Container.name⟩
instance : Named Endpoint := ⟨Endpoint.name⟩
instance : Named Participant := ⟨Participant.name⟩

section Lookup

variable {α : Type} [Named α] {items : List α} {name : Name} {i : ℕ}

/-- The place of the first item with the name. -/
def index (items : List α) (name : Name) : Option ℕ :=
  items.findIdx? fun item => Named.name item == name

theorem getElem?_of_index (h : index items name = some i) :
    ∃ item, items[i]? = some item ∧ Named.name item = name := by
  obtain ⟨hi, hname, -⟩ := List.findIdx?_eq_some_iff_getElem.mp h
  exact ⟨items[i], List.getElem?_eq_getElem hi, beq_iff_eq.mp hname⟩

theorem index_lt (h : index items name = some i) : i < items.length := by
  obtain ⟨item, hitem, -⟩ := getElem?_of_index h
  exact (List.getElem?_eq_some_iff.mp hitem).1

end Lookup

/-! ### Resolving -/

def EndpointQos.invalidField (q : EndpointQos) : Option String :=
  if q.historyDepth ≤ 0 then some "history_depth"
  else if q.maxSamples ≤ 0 then some "max_samples"
  else if q.maxInstances ≤ 0 then some "max_instances"
  else if q.maxSamplesPerInstance ≤ 0 then some "max_samples_per_instance"
  else if q.historyDepth > q.maxSamplesPerInstance then some "history_depth"
  else if q.maxSamplesPerInstance > q.maxSamples then some "max_samples_per_instance"
  else if q.maxInstances > q.maxSamples then some "max_instances"
  else none

def EndpointQos.validate (q : EndpointQos) : Outcome Error Unit :=
  .reject (q.invalidField ≠ none) .invalidQos

def checkName (name : Name) (limits : Limits) : Outcome Error Unit :=
  .reject (name = [] ∨ limits.maxNameBytes < name.length ∨ 0 ∈ name) .invalidName

/-- The names of `items`, with `earlier` the items before them. -/
def checkEach {α : Type} [Named α] (limits : Limits) (earlier : List α) :
    List α → Outcome Error Unit
  | [] => .ok ()
  | item :: items => do
      checkName (Named.name item) limits
      .reject (index earlier (Named.name item) ≠ none) .duplicateName
      checkEach limits (earlier ++ [item]) items

/-- The number of resources with `items` counted, whose names are checked. -/
def checkNames {α : Type} [Named α] (items : List α) (limits : Limits) (count : ℕ) :
    Outcome Error ℕ := do
  .reject (2 ^ 64 ≤ count + items.length) .resourceLimit
  .reject (limits.maxResources < count + items.length) .resourceLimit
  checkEach limits [] items
  .ok (count + items.length)

/-- The topics, with `earlier` the topics before them. -/
def checkTopics (limits : Limits) (types : List TypeDef) (earlier : List Topic) :
    List Topic → Outcome Error Unit
  | [] => .ok ()
  | t :: topics => do
      checkName t.topicName limits
      .reject (index types t.typeRef = none) .unknownReference
      .reject (t.topicName ∈ earlier.map Topic.topicName) .duplicateTopicName
      checkTopics limits types (earlier ++ [t]) topics

def checkEndpoints (containers : List Container) (topics : List Topic) :
    List Endpoint → Outcome Error Unit
  | [] => .ok ()
  | item :: items => do
      .reject (index containers item.containerRef = none ∨ index topics item.topicRef = none)
        .unknownReference
      item.qos.validate
      checkEndpoints containers topics items

def checkParticipants (limits : Limits) : List Participant → ℕ → Outcome Error Unit
  | [], _ => .ok ()
  | p :: participants, count => do
      .reject (p.domainId < 0 ∨ 232 < p.domainId) .invalidDomain
      let count ← checkNames p.types limits count
      let count ← checkNames p.topics limits count
      let count ← checkNames p.publishers limits count
      let count ← checkNames p.subscribers limits count
      let count ← checkNames p.writers limits count
      let count ← checkNames p.readers limits count
      checkTopics limits p.types [] p.topics
      checkEndpoints p.publishers p.topics p.writers
      checkEndpoints p.subscribers p.topics p.readers
      checkParticipants limits participants count

def checkApplication (limits : Limits) (app : Application) : Outcome Error Unit := do
  checkName app.name limits
  let count ← checkNames app.participants limits 1
  checkParticipants limits app.participants count

/-- The references of an endpoint lead somewhere. -/
def Endpoint.Resolved (containers : List Container) (topics : List Topic) (e : Endpoint) : Prop :=
  index containers e.containerRef ≠ none ∧ index topics e.topicRef ≠ none

structure Participant.Resolved (p : Participant) : Prop where
  topicNames : (p.topics.map Topic.topicName).Nodup
  writers : ∀ e ∈ p.writers, e.Resolved p.publishers p.topics
  readers : ∀ e ∈ p.readers, e.Resolved p.subscribers p.topics

/-- An application in whose participants topics are distinct and references lead somewhere. -/
structure Plan where
  application : Application
  resolved : ∀ p ∈ application.participants, p.Resolved

section Checks

variable {limits : Limits}

theorem checkTopics_holds {types : List TypeDef} : ∀ (topics earlier : List Topic),
    (earlier.map Topic.topicName).Nodup → (checkTopics limits types earlier topics).Holds fun _ =>
      ((earlier ++ topics).map Topic.topicName).Nodup
  | [], earlier, h => by
      rw [List.append_nil]
      exact h
  | t :: topics, earlier, h => by
      refine Outcome.reject_holds.bind fun _ _ => Outcome.reject_holds.bind fun _ _ =>
        Outcome.reject_holds.bind fun _ hnew => ?_
      have hnodup : ((earlier ++ [t]).map Topic.topicName).Nodup := by
        rw [List.map_append, List.map_singleton, ← List.concat_eq_append]
        exact h.concat hnew
      rw [← List.singleton_append, ← List.append_assoc]
      exact checkTopics_holds topics (earlier ++ [t]) hnodup

theorem checkEndpoints_holds {containers : List Container} {topics : List Topic} :
    ∀ {items : List Endpoint}, (checkEndpoints containers topics items).Holds fun _ =>
      ∀ e ∈ items, e.Resolved containers topics
  | [] => fun _ he => absurd he List.not_mem_nil
  | item :: items => by
      refine Outcome.reject_holds.bind fun _ hrefs => Outcome.reject_holds.bind fun _ _ =>
        checkEndpoints_holds.mono fun _ hitems e he => ?_
      rcases List.mem_cons.mp he with rfl | he
      · exact not_or.mp hrefs
      · exact hitems e he

theorem checkEach_holds {α : Type} [Named α] : ∀ {items earlier : List α},
    (checkEach limits earlier items).Holds fun _ => True
  | [], _ => trivial
  | _ :: _, _ => Outcome.reject_holds.bind fun _ _ => Outcome.reject_holds.bind fun _ _ =>
      checkEach_holds

theorem checkNames_holds {α : Type} [Named α] {items : List α} {count : ℕ} :
    (checkNames items limits count).Holds fun _ => True :=
  Outcome.reject_holds.bind fun _ _ => Outcome.reject_holds.bind fun _ _ =>
    checkEach_holds.bind fun _ _ => trivial

theorem checkParticipants_holds : ∀ {participants : List Participant} {count : ℕ},
    (checkParticipants limits participants count).Holds fun _ => ∀ p ∈ participants, p.Resolved
  | [], _ => fun _ hp => absurd hp List.not_mem_nil
  | p :: participants, count => by
      refine Outcome.reject_holds.bind fun _ _ => checkNames_holds.bind fun _ _ =>
        checkNames_holds.bind fun _ _ => checkNames_holds.bind fun _ _ =>
        checkNames_holds.bind fun _ _ => checkNames_holds.bind fun _ _ =>
        checkNames_holds.bind fun _ _ =>
        (checkTopics_holds _ [] List.nodup_nil).bind fun _ htopics =>
        checkEndpoints_holds.bind fun _ hwriters => checkEndpoints_holds.bind fun _ hreaders =>
        checkParticipants_holds.mono fun _ hrest q hq => ?_
      rcases List.mem_cons.mp hq with rfl | hq
      · exact ⟨htopics, hwriters, hreaders⟩
      · exact hrest q hq

theorem checkApplication_holds {app : Application} :
    (checkApplication limits app).Holds fun _ => ∀ p ∈ app.participants, p.Resolved :=
  Outcome.reject_holds.bind fun _ _ => checkNames_holds.bind fun _ _ => checkParticipants_holds

end Checks

/-- Resolve an application: what passes the checks is a plan. -/
def Plan.resolve (limits : Limits) (app : Application) : Outcome Error Plan :=
  match h : checkApplication limits app with
  | .ok _ => .ok ⟨app, checkApplication_holds.of_ok h⟩
  | .error e => .error e
  | .trap => .trap

/-! ### Bindings -/

/-- A callback that installs the support of a type.  It is for one participant, or for all. -/
structure StaticBinding where
  participant : Option Name := none
  typeName : Name
deriving DecidableEq, Repr

/-- The binding is for the type in the participant. -/
def StaticBinding.applies (b : StaticBinding) (participant typeName : Name) : Bool :=
  b.typeName == typeName && (b.participant == none || b.participant == some participant)

/-- The bindings, with `earlier` the bindings before them. -/
def checkBindings (earlier : List StaticBinding) : List StaticBinding → Outcome Error Unit
  | [] => .ok ()
  | b :: bindings => do
      .reject (∃ other ∈ earlier, b.typeName = other.typeName ∧
        (b.participant = none ∨ other.participant = none ∨ b.participant = other.participant))
        .duplicateBinding
      checkBindings (earlier ++ [b]) bindings

def validateBindings (plan : Plan) (bindings : List StaticBinding) : Outcome Error Unit := do
  checkBindings [] bindings
  .reject (∃ p ∈ plan.application.participants, ∃ t ∈ p.types,
    bindings.any (fun b => b.applies p.name t.name) = false) .missingBinding

end Zzdds.Resources
