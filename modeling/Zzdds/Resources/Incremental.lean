import Mathlib.Data.List.FinRange
import Zzdds.Resources.Dds

/-! # Incremental construction

An owner that creates the entities of a plan one by one, in slots that are used again.  Each
function is the part of a call up to what it asks of DDS, or from DDS's answer on. -/

namespace Zzdds.Resources

open Lib

/-- A borrowed identity: the address of its owner, a slot, and the generation of the slot. -/
structure Handle where
  owner : ℕ
  slot : ℕ
  generation : ℕ
deriving DecidableEq, Repr

structure Entity where
  kind : Kind
  handle : ℕ
deriving DecidableEq, Repr

structure Entry (n : ℕ) where
  generation : ℕ := 0
  entity : Option Entity := none
  participantDefinition : ℕ := 0
  definition : ℕ := 0
  parent : Option (Fin n) := none
  topic : Option (Fin n) := none
deriving DecidableEq, Repr

inductive IncrementalState
  | ready | creating | deleting | failed | closing | closed
deriving DecidableEq, Repr

/-- The owner at an address, with `n` slots. -/
structure Incremental (n : ℕ) where
  self : ℕ
  plan : Plan
  bindings : List StaticBinding
  entries : Fin n → Entry n := fun _ => {}
  state : IncrementalState := .ready
  cancelled : Bool := false
  cleanupError : Option Error := none

/-- What a call waits for DDS to answer. -/
inductive IncrementalCont (n : ℕ)
  | creating (slot : Fin n) (kind : Kind) (failure : Error) (definition : Option Participant)
  | registering (slot : Fin n) (definition : Participant) (types : List TypeDef)
  | rollingBack (slot : Fin n) (err : Error)
  | deleting (slot : Fin n)
  | destroying (slot : Fin n) (rest : List (Kind × Fin n))

/-- A creation that has reserved its slot. -/
structure Begun (n : ℕ) where
  owner : Incremental n
  request : Request
  cont : IncrementalCont n

/-- The kind of entity that one of the kind is created under. -/
def Kind.container : Kind → Option Kind
  | .participant => none
  | .topic => some .participant
  | .publisher => some .participant
  | .subscriber => some .participant
  | .writer => some .publisher
  | .reader => some .subscriber

/-- An item of a slice. -/
def item {α : Type} (items : List α) (i : ℕ) : Outcome Error α :=
  match items[i]? with
  | some a => .ok a
  | none => .trap

def orElse {α : Type} (a : Option α) (e : Error) : Outcome Error α :=
  match a with
  | some a => .ok a
  | none => .error e

namespace Incremental

variable {n : ℕ}

def init (n self : ℕ) (plan : Plan) (factory : Option ℕ) (bindings : List StaticBinding) :
    Outcome Error (Incremental n) := do
  .reject (factory = none) .invalidFactory
  .reject (n = 0 ∨ 65536 < n) .resourceLimit
  validateBindings plan bindings
  .ok { self := self, plan := plan, bindings := bindings }

variable (o : Incremental n)

def cancel : Incremental n := { o with cancelled := true }

def ready : Outcome Error Unit := do
  .reject (o.state ≠ .ready) .invalidState
  .reject (o.cancelled = true) .cancelled

/-- The slot of a handle. -/
def get (h : Handle) : Outcome Error (Fin n) := do
  .reject (h.owner ≠ o.self) .wrongOwner
  if hslot : h.slot < n then
    .reject ((o.entries ⟨h.slot, hslot⟩).entity = none ∨
      (o.entries ⟨h.slot, hslot⟩).generation ≠ h.generation) .staleHandle
    .ok ⟨h.slot, hslot⟩
  else .error .staleHandle

def expect (h : Handle) (kind : Kind) : Outcome Error (Fin n) := do
  let slot ← o.get h
  .reject ((o.entries slot).entity.map Entity.kind ≠ some kind) .wrongKind
  .ok slot

/-- The entity in a slot, which has to be there and of the kind. -/
def access (slot : Option (Fin n)) (kind : Kind) : Outcome Error ℕ :=
  match slot.bind fun i => (o.entries i).entity with
  | some e => if e.kind = kind then .ok e.handle else .trap
  | none => .trap

/-- The owner with a slot reserved. -/
def reserved (slot : Fin n) (p definition : ℕ) (parent topic : Option (Fin n)) : Incremental n :=
  { o with
    entries := Function.update o.entries slot {
      generation := (o.entries slot).generation + 1
      participantDefinition := p
      definition := definition
      parent := parent
      topic := topic }
    state := .creating }

def reserve (p definition : ℕ) (parent topic : Option (Fin n)) :
    Outcome Error (Fin n × Incremental n) := do
  o.ready
  let slot ← orElse ((List.finRange n).find? fun i =>
    (o.entries i).entity = none ∧ (o.entries i).generation ≠ 2 ^ 64 - 1) .resourceLimit
  .ok (slot, o.reserved slot p definition parent topic)

def completed (slot : Fin n) : Outcome Error (Handle × Incremental n) := do
  .reject (o.cancelled = true) .cancelled
  .ok (⟨o.self, slot, (o.entries slot).generation⟩, { o with state := .ready })

/-- Record what DDS has created, or that it has been deleted. -/
def setEntity (slot : Fin n) (entity : Option Entity) : Incremental n :=
  { o with entries := Function.update o.entries slot { o.entries slot with entity := entity } }

def createParticipant (name : Name) : Outcome Error (Begun n) := do
  o.ready
  let p ← orElse (index o.plan.application.participants name) .unknownReference
  let definition ← item o.plan.application.participants p
  let (slot, o) ← o.reserve p p none none
  .ok ⟨o, .create { kind := .participant },
    .creating slot .participant .participantCreationFailed (some definition)⟩

def createTopic (parent : Handle) (name : Name) : Outcome Error (Begun n) := do
  o.ready
  let pe ← o.expect parent .participant
  let p := (o.entries pe).participantDefinition
  let participant ← item o.plan.application.participants p
  let definition ← orElse (index participant.topics name) .unknownReference
  -- DDS may return the topic there already is, which has an owner.
  .reject (∃ i, (o.entries i).entity.map Entity.kind = some .topic ∧
    (o.entries i).parent = some pe ∧ (o.entries i).definition = definition) .alreadyExists
  let (slot, o) ← o.reserve p definition (some pe) none
  let dp ← o.access (some pe) .participant
  let topic ← item participant.topics definition
  .ok ⟨o, .create { kind := .topic, parent := some dp, topicName := some topic.topicName },
    .creating slot .topic .topicCreationFailed none⟩

/-- `createPublisher` and `createSubscriber`. -/
def container (parent : Handle) (name : Name) (kind : Kind)
    (definitions : Participant → List Container) (failure : Error) : Outcome Error (Begun n) := do
  o.ready
  let pe ← o.expect parent .participant
  let p := (o.entries pe).participantDefinition
  let participant ← item o.plan.application.participants p
  let definition ← orElse (index (definitions participant) name) .unknownReference
  let (slot, o) ← o.reserve p definition (some pe) none
  let dp ← o.access (some pe) .participant
  .ok ⟨o, .create { kind := kind, parent := some dp }, .creating slot kind failure none⟩

def createPublisher (parent : Handle) (name : Name) : Outcome Error (Begun n) :=
  o.container parent name .publisher Participant.publishers .publisherCreationFailed

def createSubscriber (parent : Handle) (name : Name) : Outcome Error (Begun n) :=
  o.container parent name .subscriber Participant.subscribers .subscriberCreationFailed

/-- The checks of `createWriter` and `createReader`: the slots of the parent and the topic, and the
definition, its place and the topic's. -/
def endpoint (parent topic : Handle) (name : Name) (parentKind : Kind)
    (definitions : Participant → List Endpoint) (containers : Participant → List Container) :
    Outcome Error (Fin n × Fin n × ℕ × Topic) := do
  o.ready
  let pe ← o.expect parent parentKind
  let te ← o.expect topic .topic
  .reject ((o.entries pe).parent ≠ (o.entries te).parent) .wrongParent
  let p ← item o.plan.application.participants (o.entries pe).participantDefinition
  let definition ← orElse (index (definitions p) name) .unknownReference
  let e ← item (definitions p) definition
  let c ← item (containers p) (o.entries pe).definition
  .reject (c.name ≠ e.containerRef) .wrongParent
  let t ← item p.topics (o.entries te).definition
  .reject (t.name ≠ e.topicRef) .wrongParent
  .ok (pe, te, definition, t)

def createWriter (parent topic : Handle) (name : Name) : Outcome Error (Begun n) := do
  let (pe, te, definition, _) ←
    o.endpoint parent topic name .publisher Participant.writers Participant.publishers
  let (slot, o) ←
    o.reserve (o.entries pe).participantDefinition definition (some pe) (some te)
  let publisher ← o.access (some pe) .publisher
  let topic ← o.access (some te) .topic
  .ok ⟨o, .create { kind := .writer, parent := some publisher, topic := some topic },
    .creating slot .writer .writerCreationFailed none⟩

/-- The reader's topic is looked up by name. -/
def createReader (d : Dds) (parent topic : Handle) (name : Name) : Outcome Error (Begun n) := do
  let (pe, te, definition, t) ←
    o.endpoint parent topic name .subscriber Participant.readers Participant.subscribers
  let (slot, o) ←
    o.reserve (o.entries pe).participantDefinition definition (some pe) (some te)
  let subscriber ← o.access (some pe) .subscriber
  let dp ← o.access (o.entries pe).parent .participant
  let topic := d.lookupTopicdescription dp t.topicName
  .ok ⟨o, .create { kind := .reader, parent := some subscriber, topic := topic },
    .creating slot .reader .readerCreationFailed none⟩

def writer (h : Handle) : Outcome Error ℕ := do
  o.ready
  let slot ← o.expect h .writer
  o.access (some slot) .writer

def reader (h : Handle) : Outcome Error ℕ := do
  o.ready
  let slot ← o.expect h .reader
  o.access (some slot) .reader

def hasDependents (slot : Fin n) : Bool :=
  (List.finRange n).any fun i => (o.entries i).entity.isSome &&
    ((o.entries i).parent == some slot || (o.entries i).topic == some slot)

/-- The deletion that `erase` asks for, if there is something to delete. -/
def erase (slot : Fin n) : Outcome Error (Option Request) :=
  match (o.entries slot).entity with
  | none => .ok none
  | some e =>
      match e.kind.container with
      | none => .ok (some (.delete none e.handle))
      | some kind => do
          let on ← o.access (o.entries slot).parent kind
          .ok (some (.delete (some on) e.handle))

/-- The checks of `delete`: the slot. -/
def deletable (h : Handle) : Outcome Error (Fin n) := do
  o.ready
  let slot ← o.get h
  .reject (o.hasDependents slot = true) .liveDependents
  .ok slot

/-- `delete` returns. -/
def doneDeleting : Incremental n :=
  { o with state := if o.state = .deleting then .ready else o.state }

/-- In the order in which `destroy` looks at the slots, what it looks for in each. -/
def destroyOrder (n : ℕ) : List (Kind × Fin n) :=
  [Kind.writer, .reader, .publisher, .subscriber, .topic, .participant].flatMap fun kind =>
    (List.finRange n).map fun slot => (kind, slot)

end Incremental

/-! ### Calls -/

/-- A call inside DDS, with what it has asked for and what was live when it was made. -/
structure IncrementalFrame (n : ℕ) where
  request : Request
  cont : IncrementalCont n
  before : List Live

/-- A creation that has failed: its error, what was live before and after, and what the owner had to
say of the cleanup. -/
structure FailedCreate where
  error : Error
  before : List Live
  after : List Live
  cleanupError : Option Error

/-- An owner, DDS, and the calls inside DDS, the last made first.  The handles given out, each with
what it is for, and the failed creations are not in the source. -/
structure IncrementalWorld (n : ℕ) where
  owner : Incremental n
  dds : Dds := {}
  frames : List (IncrementalFrame n) := []
  issued : List (Handle × Entity) := []
  failedCreates : List FailedCreate := []

inductive IncrementalCall
  | createParticipant (name : Name)
  | createTopic (parent : Handle) (name : Name)
  | createPublisher (parent : Handle) (name : Name)
  | createSubscriber (parent : Handle) (name : Name)
  | createWriter (parent topic : Handle) (name : Name)
  | createReader (parent topic : Handle) (name : Name)
  | delete (h : Handle)
  | cancel
  | destroy

inductive IncrementalAction
  | call (c : IncrementalCall)
  | reply (r : Reply)

namespace IncrementalWorld

variable {n : ℕ} (w : IncrementalWorld n)

def setOwner (o : Incremental n) : IncrementalWorld n := { w with owner := o }

/-- The owner waits for DDS. -/
def ask (request : Request) (cont : IncrementalCont n) (before : List Live) : IncrementalWorld n :=
  { w with frames := ⟨request, cont, before⟩ :: w.frames }

/-- A creation returns an error. -/
def fail (err : Error) (before : List Live) : IncrementalWorld n :=
  { w with failedCreates :=
      w.failedCreates ++ [⟨err, before, w.dds.live, w.owner.cleanupError⟩] }

def rollback (slot : Fin n) (err : Error) (before : List Live) : Option (IncrementalWorld n) :=
  let w := w.setOwner { w.owner with state := .deleting }
  match w.owner.erase slot with
  | .ok (some request) => some (w.ask request (.rollingBack slot err) before)
  | .ok none => some ((w.setOwner { w.owner with state := .ready }).fail err before)
  | .error _ => none
  | .trap => none

def complete (slot : Fin n) (before : List Live) : Option (IncrementalWorld n) :=
  match w.owner.completed slot with
  | .ok (h, o) => some { w with
      owner := o
      issued := w.issued ++ ((o.entries slot).entity.map fun e => (h, e)).toList }
  | .error err => w.rollback slot err before
  | .trap => none

/-- `registerTypes`, over the types left, and the end of the creation. -/
def registerTypes (slot : Fin n) (definition : Participant) (before : List Live) :
    List TypeDef → Option (IncrementalWorld n)
  | [] => w.complete slot before
  | t :: types =>
      if w.owner.bindings.any fun b => b.applies definition.name t.name then
        some (w.ask (.register t.name) (.registering slot definition types) before)
      else if w.owner.cancelled then w.rollback slot .cancelled before
      else registerTypes slot definition before types

/-- The loops of `destroy`, over what is left to look at. -/
def destroyFrom : List (Kind × Fin n) → Option (IncrementalWorld n)
  | [] => some (w.setOwner { w.owner with cleanupError := none, state := .closed })
  | (kind, slot) :: rest =>
      if (w.owner.entries slot).entity.map Entity.kind = some kind then
        match w.owner.erase slot with
        | .ok (some request) => some (w.ask request (.destroying slot rest) [])
        | .ok none => destroyFrom rest
        | .error _ => none
        | .trap => none
      else destroyFrom rest

def create : Outcome Error (Begun n) → Option (IncrementalWorld n)
  | .ok b => some ((w.setOwner b.owner).ask b.request b.cont w.dds.live)
  | .error err => some (w.fail err w.dds.live)
  | .trap => none

def delete (h : Handle) : Option (IncrementalWorld n) :=
  match w.owner.deletable h with
  | .ok slot =>
      let w := w.setOwner { w.owner with state := .deleting }
      match w.owner.erase slot with
      | .ok (some request) => some (w.ask request (.deleting slot) [])
      | .ok none => some (w.setOwner w.owner.doneDeleting)
      | .error _ => none
      | .trap => none
  | .error _ => some w
  | .trap => none

def destroy : Option (IncrementalWorld n) :=
  match w.owner.state with
  | .creating => some (w.setOwner w.owner.cancel)
  | .closing => some w
  | .deleting => some w
  | .closed => some w
  | .ready | .failed =>
      (w.setOwner { w.owner with state := .closing }).destroyFrom (Incremental.destroyOrder n)

def call : IncrementalCall → Option (IncrementalWorld n)
  | .createParticipant name => w.create (w.owner.createParticipant name)
  | .createTopic parent name => w.create (w.owner.createTopic parent name)
  | .createPublisher parent name => w.create (w.owner.createPublisher parent name)
  | .createSubscriber parent name => w.create (w.owner.createSubscriber parent name)
  | .createWriter parent topic name => w.create (w.owner.createWriter parent topic name)
  | .createReader parent topic name => w.create (w.owner.createReader w.dds parent topic name)
  | .delete h => w.delete h
  | .cancel => some (w.setOwner w.owner.cancel)
  | .destroy => w.destroy

/-- DDS has answered: the call goes on. -/
def resume (before : List Live) : IncrementalCont n → Answer → Option (IncrementalWorld n)
  | .creating slot _ failure _, .nil => w.rollback slot failure before
  | .creating slot kind _ definition, .created h =>
      let w := w.setOwner (w.owner.setEntity slot (some ⟨kind, h⟩))
      match definition with
      | none => w.complete slot before
      | some definition =>
          if w.owner.cancelled then w.rollback slot .cancelled before
          else w.registerTypes slot definition before definition.types
  | .registering slot definition types, .ok =>
      if w.owner.cancelled then w.rollback slot .cancelled before
      else w.registerTypes slot definition before types
  | .registering slot _ _, .failed code => w.rollback slot (.binding code) before
  | .rollingBack slot err, .ok =>
      some ((w.setOwner { w.owner.setEntity slot none with state := .ready }).fail err before)
  | .rollingBack _ err, .failed _ =>
      some ((w.setOwner { w.owner with cleanupError := some .cleanupFailed, state := .failed }).fail
        err before)
  | .deleting slot, .ok => some (w.setOwner (w.owner.setEntity slot none).doneDeleting)
  | .deleting _, .failed _ =>
      some (w.setOwner { w.owner with cleanupError := some .cleanupFailed, state := .failed })
  | .destroying slot rest, .ok => (w.setOwner (w.owner.setEntity slot none)).destroyFrom rest
  | .destroying _ _, .failed _ =>
      some (w.setOwner { w.owner with cleanupError := some .cleanupFailed, state := .failed })
  | _, _ => none

def step : IncrementalAction → Option (IncrementalWorld n)
  | .call c => w.call c
  | .reply r =>
      match w.frames with
      | [] => none
      | f :: frames => do
          let (d, a) ← w.dds.answer f.request r
          { w with dds := d, frames := frames }.resume f.before f.cont a

end IncrementalWorld

end Zzdds.Resources
