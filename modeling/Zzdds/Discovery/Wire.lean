import Zzdds.Lib.Checked
import Zzdds.Rtps.Types
import Mathlib.Data.List.TakeWhile

/-! # What discovery puts on the wire

The QoS policies that discovery reads, the built-in topic types of `rtps_discovery.idl`, and the
adapter of `qos_adapter.zig` from the one to the other.  A policy that holds its default is left
off the wire.  An ordinal is a `u32` on the wire; `xtypes` is the build option of that name.

A computation that can stop the program at a failed check is an `Outcome`: here the conversion of
a duration whose nanoseconds are a second or more, which no fraction holds. -/

namespace Zzdds.Discovery

open Zzdds.Lib Zzdds.Rtps

/-! ### Durations -/

def NS_PER_S : ℕ := 1000000000

/-- A DDS duration. -/
structure Duration where
  sec : Int32 := 0
  nanosec : UInt32 := 0
deriving DecidableEq, Repr

namespace Duration

def infinite : Duration := ⟨0x7fffffff, 0xffffffff⟩

def isInfinite (d : Duration) : Bool := d == infinite

/-- Never set, or set to infinity. -/
def unset (d : Duration) : Bool := d == ⟨0, 0⟩ || d.isInfinite

end Duration

def rtpsInfinite : RtpsDuration := ⟨0x7fffffff, 0xffffffff⟩

/-- `RtpsDuration.fromDuration`, to the nearest fraction. -/
def fromDuration {ε : Type} (d : Duration) : Outcome ε RtpsDuration :=
  if d.isInfinite then .ok rtpsInfinite
  else
    let frac := (d.nanosec.toNat * 2 ^ 32 + NS_PER_S / 2) / NS_PER_S
    if frac < 2 ^ 32 then .ok ⟨d.sec, UInt32.ofNat frac⟩ else .trap

/-- `RtpsDuration.toDuration`, to the nearest nanosecond; the seconds saturate. -/
def toDuration (rd : RtpsDuration) : Duration :=
  if rd = rtpsInfinite then Duration.infinite
  else
    let ns := (rd.fraction.toNat * NS_PER_S + 2 ^ 31) / 2 ^ 32
    if ns = NS_PER_S then
      if rd.seconds = 0x7fffffff then ⟨rd.seconds, UInt32.ofNat (NS_PER_S - 1)⟩
      else ⟨rd.seconds + 1, 0⟩
    else ⟨rd.seconds, UInt32.ofNat ns⟩

/-! ### QoS policies -/

inductive ReliabilityKind where
  | bestEffort | reliable
deriving DecidableEq, Repr

inductive DurabilityKind where
  | volatile | transientLocal | transient | persistent
deriving DecidableEq, Repr

inductive LivelinessKind where
  | automatic | manualByParticipant | manualByTopic
deriving DecidableEq, Repr

inductive OwnershipKind where
  | shared | exclusive
deriving DecidableEq, Repr

inductive DestinationOrderKind where
  | byReceptionTimestamp | bySourceTimestamp
deriving DecidableEq, Repr

inductive HistoryQosKind where
  | keepLast | keepAll
deriving DecidableEq, Repr

inductive AccessScopeKind where
  | instanceScope | topic | group
deriving DecidableEq, Repr

def DurabilityKind.ordinal : DurabilityKind → UInt32
  | volatile => 0
  | transientLocal => 1
  | transient => 2
  | persistent => 3

def LivelinessKind.ordinal : LivelinessKind → UInt32
  | automatic => 0
  | manualByParticipant => 1
  | manualByTopic => 2

def OwnershipKind.ordinal : OwnershipKind → UInt32
  | shared => 0
  | exclusive => 1

def DestinationOrderKind.ordinal : DestinationOrderKind → UInt32
  | byReceptionTimestamp => 0
  | bySourceTimestamp => 1

def AccessScopeKind.ordinal : AccessScopeKind → UInt32
  | instanceScope => 0
  | topic => 1
  | group => 2

structure PresentationQos where
  accessScope : AccessScopeKind := .instanceScope
  coherentAccess : Bool := false
  orderedAccess : Bool := false
deriving DecidableEq, Repr

/-- The policies that writers and readers share. -/
structure EndpointQos where
  reliability : ReliabilityKind
  durability : DurabilityKind := .volatile
  userData : List UInt8 := []
  deadline : Duration := {}
  livelinessKind : LivelinessKind := .automatic
  livelinessLease : Duration := {}
  ownership : OwnershipKind := .shared
  destinationOrder : DestinationOrderKind := .byReceptionTimestamp
  dataRepresentation : List Int16 := []
deriving DecidableEq, Repr

structure DataWriterQos extends EndpointQos where
  ownershipStrength : Int32 := 0
  historyKind : HistoryQosKind := .keepLast
  historyDepth : Int32 := 0
  lifespan : Duration := {}
deriving DecidableEq, Repr

structure DataReaderQos extends EndpointQos
deriving DecidableEq, Repr

/-! ### The built-in topic types -/

/-- A string that ends at its first NUL. -/
structure CString where
  bytes : List UInt8
  noNul : (0 : UInt8) ∉ bytes
deriving DecidableEq, Repr

/-- What a NUL-terminated copy of the bytes is read back as. -/
def span (bs : List UInt8) : CString where
  bytes := bs.takeWhile (· != 0)
  noNul := fun h => by simpa using List.mem_takeWhile_imp h

@[simp] theorem span_bytes (s : CString) : span s.bytes = s := by
  cases s with
  | mk bytes noNul =>
    have h : bytes.takeWhile (· != 0) = bytes := by
      rw [List.takeWhile_eq_self_iff]
      intro b hb
      exact bne_iff_ne.mpr (fun e => noNul (e ▸ hb))
    simp [span, h]

/-- A parameter that the decoder does not know. -/
structure RawParam where
  pid : UInt16
  bytes : List UInt8
deriving DecidableEq, Repr

structure ReliabilityWire where
  kind : UInt32
  maxBlockingTime : RtpsDuration := ⟨0, 0⟩
deriving DecidableEq, Repr

structure PresentationWire where
  accessScope : UInt32
  coherentAccess : Bool
  orderedAccess : Bool
deriving DecidableEq, Repr

structure LivelinessWire where
  kind : UInt32
  leaseDuration : RtpsDuration
deriving DecidableEq, Repr

structure HistoryWire where
  kind : UInt32
  depth : Int32
deriving DecidableEq, Repr

structure DiscoveredWriterData where
  writerGuid : Bytes 16 := Bytes.zeroes 16
  groupGuid : Option (Bytes 16) := none
  topicName : List UInt8 := []
  typeName : List UInt8 := []
  unicastLocatorList : List Locator := []
  multicastLocatorList : List Locator := []
  userData : Option (List UInt8) := none
  reliability : ReliabilityWire
  durabilityKind : UInt32
  presentation : Option PresentationWire := none
  deadline : Option RtpsDuration := none
  liveliness : Option LivelinessWire := none
  ownershipKind : UInt32
  ownershipStrength : Option Int32 := none
  destinationOrder : UInt32
  history : HistoryWire
  lifespan : Option RtpsDuration := none
  dataRepresentation : List Int16
  partitionNames : Option (List CString) := none
  unknownParams : List RawParam := []
deriving DecidableEq, Repr

structure DiscoveredReaderData where
  readerGuid : Bytes 16 := Bytes.zeroes 16
  topicName : List UInt8 := []
  typeName : List UInt8 := []
  unicastLocatorList : List Locator := []
  multicastLocatorList : List Locator := []
  userData : Option (List UInt8) := none
  reliability : ReliabilityWire
  durabilityKind : UInt32
  ownershipKind : UInt32
  destinationOrder : Option UInt32 := none
  presentation : Option PresentationWire := none
  dataRepresentation : List Int16
  deadline : Option RtpsDuration := none
  liveliness : Option LivelinessWire := none
  partitionNames : Option (List CString) := none
  unknownParams : List RawParam := []
deriving DecidableEq, Repr

/-! ### The adapter -/

/-- The one representation announced: `2` (XCDR2) or `0` (XCDR1). -/
def reprI16 (ids : List Int16) : Int16 :=
  if ids.isEmpty then 2 else if ids.contains 2 then 2 else 0

def octetSeq (bytes : List UInt8) : Option (List UInt8) :=
  if bytes.isEmpty then none else some bytes

def reprSeq (xcdr2 : Bool) : List Int16 := if xcdr2 then [2] else [0]

def reliabilityWire (kind : ReliabilityKind) : ReliabilityWire where
  kind := if kind = .reliable then 2 else 1

def presentationWire (p : PresentationQos) : Option PresentationWire :=
  if p.accessScope.ordinal == 0 && !p.coherentAccess && !p.orderedAccess then none
  else some ⟨p.accessScope.ordinal, p.coherentAccess, p.orderedAccess⟩

/-- A duration left off the wire when it is not set. -/
def durationWire {ε : Type} (d : Duration) : Outcome ε (Option RtpsDuration) :=
  if d.unset then .ok none else (fromDuration d).map some

def livelinessWire {ε : Type} (kindOrd : UInt32) (lease : Duration) :
    Outcome ε (Option LivelinessWire) :=
  -- no lease is an infinite one
  let lease := if lease = ⟨0, 0⟩ then Duration.infinite else lease
  if kindOrd = 0 ∧ lease.isInfinite then .ok none
  else (fromDuration lease).map (fun d => some ⟨kindOrd, d⟩)

/-- KEEP_LAST keeps at least one. -/
def historyWire (kind : HistoryQosKind) (depth : Int32) : HistoryWire where
  kind := if kind = .keepAll then 1 else 0
  depth := if kind = .keepLast ∧ depth < 1 then 1 else depth

def writerDiscoveredData {ε : Type} (xtypes : Bool) (qos : DataWriterQos)
    (presentation : PresentationQos) : Outcome ε DiscoveredWriterData :=
  (durationWire qos.deadline).bind fun deadline =>
  (livelinessWire qos.livelinessKind.ordinal qos.livelinessLease).bind fun liveliness =>
  (durationWire qos.lifespan).bind fun lifespan =>
  .ok {
    reliability := reliabilityWire qos.reliability
    durabilityKind := qos.durability.ordinal
    userData := octetSeq qos.userData
    presentation := presentationWire presentation
    deadline := deadline
    liveliness := liveliness
    ownershipKind := qos.ownership.ordinal
    ownershipStrength := if qos.ownership = .exclusive then some qos.ownershipStrength else none
    destinationOrder := qos.destinationOrder.ordinal
    history := historyWire qos.historyKind qos.historyDepth
    lifespan := lifespan
    dataRepresentation := reprSeq (xtypes && reprI16 qos.dataRepresentation == 2) }

/-- The destination order is for the match with a writer only: an announcement leaves it out. -/
def readerDiscoveredData {ε : Type} (xtypes : Bool) (qos : DataReaderQos)
    (presentation : PresentationQos) : Outcome ε DiscoveredReaderData :=
  (durationWire qos.deadline).bind fun deadline =>
  (livelinessWire qos.livelinessKind.ordinal qos.livelinessLease).bind fun liveliness =>
  .ok {
    reliability := reliabilityWire qos.reliability
    durabilityKind := qos.durability.ordinal
    ownershipKind := qos.ownership.ordinal
    destinationOrder := some qos.destinationOrder.ordinal
    userData := octetSeq qos.userData
    presentation := presentationWire presentation
    deadline := deadline
    liveliness := liveliness
    dataRepresentation := reprSeq (!xtypes || reprI16 qos.dataRepresentation == 2) }

theorem reliabilityWire_kind_ne (kind : ReliabilityKind) : (reliabilityWire kind).kind ≠ 0 := by
  cases kind <;> decide

end Zzdds.Discovery
