import Zzdds.Discovery.QosMatch
import Mathlib.Data.List.GetD

/-! # Announcements

What a participant announces of an endpoint, and what another makes of it: the encoders and the
decoder of `sedp.zig`, and the endpoint's own record in `participant.zig` that both its
announcement and the local match come from.

The PL_CDR codec of a built-in topic type is generated, so it is a parameter, `PlCdr`.  What the
code relies on is `RoundTrips`: what the encoder wrote, the decoder reads back.  Allocation
succeeds. -/

namespace Zzdds.Discovery

open Zzdds.Lib Zzdds.Rtps

/-! ### GUIDs -/

/-- The 16 bytes of a GUID on the wire; `guidToKeyHash` has the same. -/
def guidBytes (g : Guid) : Bytes 16 where
  val := g.guidPrefix.val ++ (g.entityId.entityKey.val ++ [g.entityId.entityKind])
  len := by simp

/-- `keyHashToGuid` is the same. -/
def guidFromBytes (b : Bytes 16) : Guid where
  guidPrefix := ⟨b.val.take 12, by simp⟩
  entityId := ⟨⟨(b.val.drop 12).take 3, by simp⟩, b.val.getD 15 0⟩

@[simp] theorem guidFromBytes_guidBytes (g : Guid) : guidFromBytes (guidBytes g) = g := by
  obtain ⟨⟨p, hp⟩, ⟨⟨k, hk⟩, kind⟩⟩ := g
  have hdrop : (p ++ (k ++ [kind])).drop 12 = k ++ [kind] := by
    rw [← hp, List.drop_left]
  have hkind : (p ++ (k ++ [kind])).getD 15 0 = kind := by
    have h : (p ++ k).length = 15 := by simp [hp, hk]
    rw [← List.append_assoc, List.getD_append_right _ _ _ _ (by omega), h]
    rfl
  have htake : (p ++ (k ++ [kind])).take 12 = p := by rw [← hp, List.take_left]
  have hkey : (k ++ [kind]).take 3 = k := by rw [← hk, List.take_left]
  simp only [guidFromBytes, guidBytes, htake, hdrop, hkey, hkind]

/-! ### The codec -/

/-- The generated codec of a built-in topic type. -/
structure PlCdr (α : Type) where
  /-- `emitPlCdr`. -/
  serialize : α → Option (List UInt8)
  /-- `deserializeFromPlCdr`, lenient. -/
  deserialize : List UInt8 → Option α

/-- What was written is read back; it begins with the 4 bytes of an encapsulation header. -/
structure PlCdr.RoundTrips {α : Type} (c : PlCdr α) : Prop where
  reads : ∀ d b, c.serialize d = some b → c.deserialize b = some d
  header : ∀ d b, c.serialize d = some b → 4 ≤ b.length

inductive CodecError where
  | serialize
deriving DecidableEq, Repr

def PlCdr.emitPlCdr {α : Type} (c : PlCdr α) (d : α) : Outcome CodecError (List UInt8) :=
  match c.serialize d with
  | some b => .ok b
  | none => .error .serialize

theorem PlCdr.emitPlCdr_eq_ok {α : Type} {c : PlCdr α} {d : α} {b : List UInt8} :
    c.emitPlCdr d = .ok b ↔ c.serialize d = some b := by
  unfold emitPlCdr
  cases c.serialize d <;> simp

/-- A codec that knows a single value. -/
def PlCdr.only {α : Type} [DecidableEq α] (d : α) (b : List UInt8) : PlCdr α where
  serialize := fun x => if x = d then some b else none
  deserialize := fun y => if y = b then some d else none

theorem PlCdr.only_roundTrips {α : Type} [DecidableEq α] {d : α} {b : List UInt8}
    (h : 4 ≤ b.length) : (PlCdr.only d b).RoundTrips := by
  constructor
  · intro x y hx
    simp only [only] at hx ⊢
    split at hx
    next e =>
      cases hx
      simp [e]
    next => cases hx
  · intro x y hx
    simp only [only] at hx
    split at hx
    · cases hx
      exact h
    · cases hx

/-! ### Encoding -/

def PID_TYPE_INFORMATION : UInt16 := 0x0075

def PID_PARTITION_LEGACY : UInt16 := 0x0035

structure WriterAnnouncement where
  guid : Guid
  groupGuid : Option Guid := none
  topicName : List UInt8
  typeName : List UInt8
  qos : DataWriterQos
  presentation : PresentationQos := {}
  partitionNames : List (List UInt8) := []
  typeInfoCdr : List UInt8 := []
deriving DecidableEq, Repr

structure ReaderAnnouncement where
  guid : Guid
  topicName : List UInt8
  typeName : List UInt8
  qos : DataReaderQos
  presentation : PresentationQos := {}
  partitionNames : List (List UInt8) := []
  typeInfoCdr : List UInt8 := []
deriving DecidableEq, Repr

/-- Partition names as the wire has them. -/
def partitionWire (names : List (List UInt8)) : Option (List CString) :=
  if names.isEmpty then none else some (names.map span)

/-- The type information goes out as a parameter without a member. -/
def typeInfoParams (xtypes : Bool) (typeInfoCdr : List UInt8) : List RawParam :=
  if xtypes && !typeInfoCdr.isEmpty then [⟨PID_TYPE_INFORMATION, typeInfoCdr⟩] else []

/-- What `encodeWriterData` hands to the codec. -/
def WriterAnnouncement.wire {ε : Type} (xtypes : Bool) (ann : WriterAnnouncement) :
    Outcome ε DiscoveredWriterData :=
  (writerDiscoveredData xtypes ann.qos ann.presentation).map fun out => { out with
    writerGuid := guidBytes ann.guid
    groupGuid := ann.groupGuid.map guidBytes
    topicName := ann.topicName
    typeName := ann.typeName
    partitionNames := partitionWire ann.partitionNames
    unknownParams := typeInfoParams xtypes ann.typeInfoCdr }

/-- What `encodeReaderData` hands to the codec: without the destination order, and never with type
information. -/
def ReaderAnnouncement.wire {ε : Type} (xtypes : Bool) (ann : ReaderAnnouncement) :
    Outcome ε DiscoveredReaderData :=
  (readerDiscoveredData xtypes ann.qos ann.presentation).map fun out => { out with
    readerGuid := guidBytes ann.guid
    topicName := ann.topicName
    typeName := ann.typeName
    destinationOrder := none
    partitionNames := partitionWire ann.partitionNames }

def encodeWriterData (xtypes : Bool) (c : PlCdr DiscoveredWriterData) (ann : WriterAnnouncement) :
    Outcome CodecError (List UInt8) :=
  (ann.wire xtypes).bind c.emitPlCdr

def encodeReaderData (xtypes : Bool) (c : PlCdr DiscoveredReaderData) (ann : ReaderAnnouncement) :
    Outcome CodecError (List UInt8) :=
  (ann.wire xtypes).bind c.emitPlCdr

/-! ### Decoding -/

/-- The byte order that the payload's encapsulation header names. -/
def isLittleEndian (payload : List UInt8) : Bool := payload.getD 1 0 &&& 1 != 0

/-- The loop of `legacyPartitionSeq`: `n` more names at most. -/
def legacyNames (le : Bool) : ℕ → List UInt8 → List (List UInt8)
  | 0, _ => []
  | n + 1, v =>
      if v.length < 4 then []
      else
        let slen := readInt le (v.take 4)
        let v := v.drop 4
        if slen = 0 ∨ v.length < slen then []
        -- the length counts the NUL
        else v.take (slen - 1) :: legacyNames le n (v.drop ((slen + 3) / 4 * 4))

/-- The value of a legacy PID_PARTITION parameter. -/
def legacyPartitionSeq (v : List UInt8) (le : Bool) : List (List UInt8) :=
  if v.length < 4 then [] else legacyNames le (readInt le (v.take 4)) (v.drop 4)

/-- The legacy parameter wins over the declared member. -/
def partitionNamesOwned (unknown : List RawParam) (declared : Option (List CString)) (le : Bool) :
    List (List UInt8) :=
  match unknown.find? (fun rp => rp.pid == PID_PARTITION_LEGACY) with
  | some rp => legacyPartitionSeq rp.bytes le
  | none => (declared.getD []).map (·.bytes)

def typeInfoBlob (unknown : List RawParam) : List UInt8 :=
  ((unknown.find? (fun rp => rp.pid == PID_TYPE_INFORMATION)).map (·.bytes)).getD []

/-- `decodeEndpointT`. -/
def decodeEndpointT {α : Type} (c : PlCdr α) (payload : List UInt8) : Option α :=
  if payload.length < 4 then none else c.deserialize payload

/-! ### Locators of a discovered endpoint -/

/-- A participant's default locators that the data transport reaches. -/
structure ParticipantLocators where
  unicastForData : List Locator
  multicastForData : List Locator
deriving DecidableEq, Repr

def isInvalidOrReserved : Locator → Bool
  | .invalid => true
  | .custom kind _ _ => kind == 0
  | _ => false

/-- What the decoder of endpoint announcements works with. -/
structure SedpConfig where
  writerCodec : PlCdr DiscoveredWriterData
  readerCodec : PlCdr DiscoveredReaderData
  canReach : Locator → Bool
  /-- Set when data goes over another transport than discovery. -/
  dataReachable : Option (Locator → Bool) := none
  participantLocs : GuidPrefix → Option ParticipantLocators

def SedpConfig.filterReachable (cfg : SedpConfig) (locators : List Locator) : List Locator :=
  locators.filter (fun loc => !isInvalidOrReserved loc && cfg.dataReachable.getD cfg.canReach loc)

/-- An endpoint's own locators, or else its participant's. -/
def SedpConfig.resolveEffectiveLocators (cfg : SedpConfig) (gp : GuidPrefix)
    (unicast multicast : List Locator) : List Locator × List Locator :=
  let uc := cfg.filterReachable unicast
  let mc := cfg.filterReachable multicast
  match cfg.participantLocs gp with
  | none => (uc, mc)
  | some pl => (if uc.isEmpty then pl.unicastForData else uc,
      if mc.isEmpty then pl.multicastForData else mc)

/-- Only over a data transport of its own can an endpoint be out of reach. -/
def SedpConfig.reachable (cfg : SedpConfig) (eff : List Locator × List Locator) : Bool :=
  !(cfg.dataReachable.isSome && eff.1.isEmpty && eff.2.isEmpty)

/-! ### Discovered endpoints -/

structure WriterData where
  guid : Guid
  topicName : List UInt8
  typeName : List UInt8
  qos : DiscoveredWriterData
  partitionNames : List (List UInt8)
  unicastLocators : List Locator
  multicastLocators : List Locator
  typeObject : List UInt8
  rawParameterList : List UInt8
deriving DecidableEq, Repr

structure ReaderData where
  guid : Guid
  topicName : List UInt8
  typeName : List UInt8
  qos : DiscoveredReaderData
  partitionNames : List (List UInt8)
  unicastLocators : List Locator
  multicastLocators : List Locator
  rawParameterList : List UInt8
deriving DecidableEq, Repr

/-- A kind left out is the default. -/
def seedReliability (default : UInt32) (r : ReliabilityWire) : ReliabilityWire :=
  if r.kind = 0 then { r with kind := default } else r

/-- `handleEndpointChange` of a writer announcement: what `on_writer_discovered` is called with, if
it is called. -/
def SedpConfig.writerData (cfg : SedpConfig) (payload : List UInt8) : Option WriterData :=
  (decodeEndpointT cfg.writerCodec payload).bind fun data =>
    let data := { data with reliability := seedReliability 2 data.reliability }
    let g := guidFromBytes data.writerGuid
    let eff := cfg.resolveEffectiveLocators g.guidPrefix data.unicastLocatorList
      data.multicastLocatorList
    if cfg.reachable eff then some {
      guid := g
      topicName := data.topicName
      typeName := data.typeName
      qos := data
      partitionNames := partitionNamesOwned data.unknownParams data.partitionNames
        (isLittleEndian payload)
      unicastLocators := eff.1
      multicastLocators := eff.2
      typeObject := typeInfoBlob data.unknownParams
      rawParameterList := payload }
    else none

/-- The same of a reader announcement, for `on_reader_discovered`. -/
def SedpConfig.readerData (cfg : SedpConfig) (payload : List UInt8) : Option ReaderData :=
  (decodeEndpointT cfg.readerCodec payload).bind fun data =>
    let data := { data with reliability := seedReliability 1 data.reliability }
    let g := guidFromBytes data.readerGuid
    let eff := cfg.resolveEffectiveLocators g.guidPrefix data.unicastLocatorList
      data.multicastLocatorList
    if cfg.reachable eff then some {
      guid := g
      topicName := data.topicName
      typeName := data.typeName
      qos := data
      partitionNames := partitionNamesOwned data.unknownParams data.partitionNames
        (isLittleEndian payload)
      unicastLocators := eff.1
      multicastLocators := eff.2
      rawParameterList := payload }
    else none

/-! ### What an announcement is decoded to -/

theorem decodeEndpointT_of_emitPlCdr {α : Type} {c : PlCdr α} (hc : c.RoundTrips) {d : α}
    {b : List UInt8} (h : c.emitPlCdr d = .ok b) : decodeEndpointT c b = some d := by
  have hs := PlCdr.emitPlCdr_eq_ok.mp h
  have hlen : ¬ b.length < 4 := Nat.not_lt.mpr (hc.header d b hs)
  rw [decodeEndpointT, if_neg hlen]
  exact hc.reads d b hs

theorem partitionNamesOwned_partitionWire {params : List RawParam} {le : Bool}
    (hp : params.find? (fun rp => rp.pid == PID_PARTITION_LEGACY) = none)
    (names : List (List UInt8)) :
    partitionNamesOwned params (partitionWire names) le = names.map (fun n => (span n).bytes) := by
  rw [partitionNamesOwned, hp]
  cases names with
  | nil => rfl
  | cons n ns => simp [partitionWire]

theorem find_typeInfoParams (xtypes : Bool) (ti : List UInt8) :
    (typeInfoParams xtypes ti).find? (fun rp => rp.pid == PID_PARTITION_LEGACY) = none := by
  unfold typeInfoParams
  split <;> rfl

theorem typeInfoBlob_typeInfoParams (xtypes : Bool) (ti : List UInt8) :
    typeInfoBlob (typeInfoParams xtypes ti) = if xtypes then ti else [] := by
  cases xtypes with
  | false => rfl
  | true =>
    cases ti with
    | nil => rfl
    | cons b bs => simp [typeInfoParams, typeInfoBlob]

variable {cfg : SedpConfig} {xtypes : Bool} {b : List UInt8}

/-- What the endpoints of a participant fall back to is in reach. -/
def SedpConfig.Reaches (cfg : SedpConfig) (gp : GuidPrefix) : Prop :=
  cfg.reachable (cfg.resolveEffectiveLocators gp [] []) = true

instance (gp : GuidPrefix) : Decidable (cfg.Reaches gp) := inferInstanceAs (Decidable (_ = _))

theorem seedReliability_of_ne {default : UInt32} {r : ReliabilityWire} (h : r.kind ≠ 0) :
    seedReliability default r = r := by rw [seedReliability, if_neg h]

/-- What both encoders leave to the participant: it has no locators of its own. -/
theorem writerDiscoveredData_eq_ok {ε : Type} {qos : DataWriterQos} {p : PresentationQos}
    {wd : DiscoveredWriterData} (h : writerDiscoveredData (ε := ε) xtypes qos p = .ok wd) :
    wd.reliability.kind ≠ 0 ∧ wd.unicastLocatorList = [] ∧ wd.multicastLocatorList = [] := by
  obtain ⟨_, -, h⟩ := Outcome.bind_eq_ok.mp h
  obtain ⟨_, -, h⟩ := Outcome.bind_eq_ok.mp h
  obtain ⟨_, -, h⟩ := Outcome.bind_eq_ok.mp h
  cases h
  exact ⟨reliabilityWire_kind_ne _, rfl, rfl⟩

theorem readerDiscoveredData_eq_ok {ε : Type} {qos : DataReaderQos} {p : PresentationQos}
    {rd : DiscoveredReaderData} (h : readerDiscoveredData (ε := ε) xtypes qos p = .ok rd) :
    rd.reliability.kind ≠ 0 ∧ rd.unicastLocatorList = [] ∧ rd.multicastLocatorList = [] ∧
      rd.unknownParams = [] := by
  obtain ⟨_, -, h⟩ := Outcome.bind_eq_ok.mp h
  obtain ⟨_, -, h⟩ := Outcome.bind_eq_ok.mp h
  cases h
  exact ⟨reliabilityWire_kind_ne _, rfl, rfl, rfl⟩

/-- An announced writer is discovered as announced, if it is in reach. -/
theorem writerData_of_encode {ann : WriterAnnouncement} (hc : cfg.writerCodec.RoundTrips)
    (h : encodeWriterData xtypes cfg.writerCodec ann = .ok b) :
    ∃ out, ann.wire (ε := CodecError) xtypes = .ok out ∧ cfg.writerData b =
      if cfg.Reaches ann.guid.guidPrefix then some {
        guid := ann.guid
        topicName := ann.topicName
        typeName := ann.typeName
        qos := out
        partitionNames := ann.partitionNames.map (fun n => (span n).bytes)
        unicastLocators := (cfg.resolveEffectiveLocators ann.guid.guidPrefix [] []).1
        multicastLocators := (cfg.resolveEffectiveLocators ann.guid.guidPrefix [] []).2
        typeObject := if xtypes then ann.typeInfoCdr else []
        rawParameterList := b }
      else none := by
  obtain ⟨out, hw, hs⟩ := Outcome.bind_eq_ok.mp h
  have hdec := decodeEndpointT_of_emitPlCdr hc hs
  refine ⟨out, hw, ?_⟩
  obtain ⟨wd, hwd, ho⟩ := Outcome.bind_eq_ok.mp hw
  obtain ⟨hrel, huc, hmc⟩ := writerDiscoveredData_eq_ok hwd
  cases ho
  simp only [SedpConfig.writerData, hdec, Option.bind_some, seedReliability_of_ne hrel,
    guidFromBytes_guidBytes, huc, hmc, typeInfoBlob_typeInfoParams,
    partitionNamesOwned_partitionWire (find_typeInfoParams _ _), SedpConfig.Reaches]

/-- An announced reader is discovered as announced, if it is in reach. -/
theorem readerData_of_encode {ann : ReaderAnnouncement} (hc : cfg.readerCodec.RoundTrips)
    (h : encodeReaderData xtypes cfg.readerCodec ann = .ok b) :
    ∃ out, ann.wire (ε := CodecError) xtypes = .ok out ∧ cfg.readerData b =
      if cfg.Reaches ann.guid.guidPrefix then some {
        guid := ann.guid
        topicName := ann.topicName
        typeName := ann.typeName
        qos := out
        partitionNames := ann.partitionNames.map (fun n => (span n).bytes)
        unicastLocators := (cfg.resolveEffectiveLocators ann.guid.guidPrefix [] []).1
        multicastLocators := (cfg.resolveEffectiveLocators ann.guid.guidPrefix [] []).2
        rawParameterList := b }
      else none := by
  obtain ⟨out, hw, hs⟩ := Outcome.bind_eq_ok.mp h
  have hdec := decodeEndpointT_of_emitPlCdr hc hs
  refine ⟨out, hw, ?_⟩
  obtain ⟨rd, hrd, ho⟩ := Outcome.bind_eq_ok.mp hw
  obtain ⟨hrel, huc, hmc, hun⟩ := readerDiscoveredData_eq_ok hrd
  have hnone : ([] : List RawParam).find? (fun rp => rp.pid == PID_PARTITION_LEGACY) = none := rfl
  cases ho
  simp only [SedpConfig.readerData, hdec, Option.bind_some, seedReliability_of_ne hrel,
    guidFromBytes_guidBytes, huc, hmc, hun, partitionNamesOwned_partitionWire hnone,
    SedpConfig.Reaches]

/-! ### The golden announcements of the wire tests -/

/-- The GUIDs of the tests. -/
def testGuid (gp kind : UInt8) : Guid :=
  ⟨⟨List.replicate 12 gp, rfl⟩, ⟨⟨[0, 0, kind], rfl⟩, kind⟩⟩

/-- `HelloWorldTopic`. -/
def helloTopic : List UInt8 := [
  0x48, 0x65, 0x6c, 0x6c, 0x6f, 0x57, 0x6f, 0x72, 0x6c, 0x64, 0x54, 0x6f, 0x70, 0x69, 0x63]

/-- `HelloWorld`. -/
def helloType : List UInt8 := [
  0x48, 0x65, 0x6c, 0x6c, 0x6f, 0x57, 0x6f, 0x72, 0x6c, 0x64]

/-- What the default writer of the tests is encoded to. -/
def helloWriterBytes : List UInt8 := [
  0x00, 0x03, 0x00, 0x00, 0x5a, 0x00, 0x10, 0x00, 0xa1, 0xa1, 0xa1, 0xa1, 0xa1, 0xa1, 0xa1, 0xa1,
  0xa1, 0xa1, 0xa1, 0xa1, 0x00, 0x00, 0x02, 0x02, 0x05, 0x00, 0x14, 0x00, 0x10, 0x00, 0x00, 0x00,
  0x48, 0x65, 0x6c, 0x6c, 0x6f, 0x57, 0x6f, 0x72, 0x6c, 0x64, 0x54, 0x6f, 0x70, 0x69, 0x63, 0x00,
  0x07, 0x00, 0x10, 0x00, 0x0b, 0x00, 0x00, 0x00, 0x48, 0x65, 0x6c, 0x6c, 0x6f, 0x57, 0x6f, 0x72,
  0x6c, 0x64, 0x00, 0x00, 0x1a, 0x00, 0x0c, 0x00, 0x02, 0x00, 0x00, 0x00, 0x00, 0x00, 0x00, 0x00,
  0x00, 0x00, 0x00, 0x00, 0x1d, 0x00, 0x04, 0x00, 0x00, 0x00, 0x00, 0x00, 0x1f, 0x00, 0x04, 0x00,
  0x00, 0x00, 0x00, 0x00, 0x25, 0x00, 0x04, 0x00, 0x00, 0x00, 0x00, 0x00, 0x40, 0x00, 0x08, 0x00,
  0x00, 0x00, 0x00, 0x00, 0x01, 0x00, 0x00, 0x00, 0x73, 0x00, 0x08, 0x00, 0x01, 0x00, 0x00, 0x00,
  0x02, 0x00, 0x00, 0x00, 0x01, 0x00, 0x00, 0x00]

/-- The default reader of the tests, of the same topic. -/
def helloReaderBytes : List UInt8 := [
  0x00, 0x03, 0x00, 0x00, 0x5a, 0x00, 0x10, 0x00, 0xc3, 0xc3, 0xc3, 0xc3, 0xc3, 0xc3, 0xc3, 0xc3,
  0xc3, 0xc3, 0xc3, 0xc3, 0x00, 0x00, 0x07, 0x07, 0x05, 0x00, 0x14, 0x00, 0x10, 0x00, 0x00, 0x00,
  0x48, 0x65, 0x6c, 0x6c, 0x6f, 0x57, 0x6f, 0x72, 0x6c, 0x64, 0x54, 0x6f, 0x70, 0x69, 0x63, 0x00,
  0x07, 0x00, 0x10, 0x00, 0x0b, 0x00, 0x00, 0x00, 0x48, 0x65, 0x6c, 0x6c, 0x6f, 0x57, 0x6f, 0x72,
  0x6c, 0x64, 0x00, 0x00, 0x1a, 0x00, 0x0c, 0x00, 0x01, 0x00, 0x00, 0x00, 0x00, 0x00, 0x00, 0x00,
  0x00, 0x00, 0x00, 0x00, 0x1d, 0x00, 0x04, 0x00, 0x00, 0x00, 0x00, 0x00, 0x1f, 0x00, 0x04, 0x00,
  0x00, 0x00, 0x00, 0x00, 0x73, 0x00, 0x08, 0x00, 0x01, 0x00, 0x00, 0x00, 0x02, 0x00, 0x00, 0x00,
  0x01, 0x00, 0x00, 0x00]

def helloWriterWire : DiscoveredWriterData where
  writerGuid := guidBytes (testGuid 0xa1 0x02)
  topicName := helloTopic
  typeName := helloType
  reliability := { kind := 2 }
  durabilityKind := 0
  ownershipKind := 0
  destinationOrder := 0
  history := ⟨0, 1⟩
  dataRepresentation := [2]

def helloReaderWire : DiscoveredReaderData where
  readerGuid := guidBytes (testGuid 0xc3 0x07)
  topicName := helloTopic
  typeName := helloType
  reliability := { kind := 1 }
  durabilityKind := 0
  ownershipKind := 0
  dataRepresentation := [2]

/-- A participant that knows the codec on the golden announcements. -/
def helloConfig : SedpConfig where
  writerCodec := .only helloWriterWire helloWriterBytes
  readerCodec := .only helloReaderWire helloReaderBytes
  canReach := fun _ => true
  participantLocs := fun _ => none

theorem helloConfig_roundTrips :
    helloConfig.writerCodec.RoundTrips ∧ helloConfig.readerCodec.RoundTrips :=
  ⟨PlCdr.only_roundTrips (by simp [helloWriterBytes]),
    PlCdr.only_roundTrips (by simp [helloReaderBytes])⟩

/-- What the golden writer is discovered as. -/
def helloWriterData : WriterData where
  guid := testGuid 0xa1 0x02
  topicName := helloTopic
  typeName := helloType
  qos := helloWriterWire
  partitionNames := []
  unicastLocators := []
  multicastLocators := []
  typeObject := []
  rawParameterList := helloWriterBytes

def helloReaderData : ReaderData where
  guid := testGuid 0xc3 0x07
  topicName := helloTopic
  typeName := helloType
  qos := helloReaderWire
  partitionNames := []
  unicastLocators := []
  multicastLocators := []
  rawParameterList := helloReaderBytes

theorem helloConfig_writerData : helloConfig.writerData helloWriterBytes = some helloWriterData := by
  have hdec : decodeEndpointT helloConfig.writerCodec helloWriterBytes = some helloWriterWire :=
    decodeEndpointT_of_emitPlCdr helloConfig_roundTrips.1 rfl
  rw [SedpConfig.writerData, hdec]
  rfl

theorem helloConfig_readerData : helloConfig.readerData helloReaderBytes = some helloReaderData := by
  have hdec : decodeEndpointT helloConfig.readerCodec helloReaderBytes = some helloReaderWire :=
    decodeEndpointT_of_emitPlCdr helloConfig_roundTrips.2 rfl
  rw [SedpConfig.readerData, hdec]
  rfl

def helloWriterQos : DataWriterQos where
  reliability := .reliable

def helloReaderQos (order : DestinationOrderKind) : DataReaderQos where
  reliability := .bestEffort
  destinationOrder := order

end Zzdds.Discovery
