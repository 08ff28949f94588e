import Zzdds.Lib.Table
import Zzdds.Dcps.Receive

/-! # Samples and the memory they live in

What `reader.zig` queues for the application: `SampleInfo`, `PendingChange` with its reference count
(`entity_quiesce.zig`), and the memory both live in.  A payload buffer and a heap-allocated
`PendingChange` are each known by their address, which is never used again; what is given back is
remembered, once for each time, so that a double free shows. -/

namespace Zzdds.Dcps

open Zzdds.Lib Zzdds.Rtps

/-! ### Handles and time -/

/-- `DDS.InstanceHandle_t`, an `i32`; `0` is the nil handle. -/
abbrev HandleT := ℤ

/-- FNV-1a, kept to a nonzero positive `i32`. -/
def fnvHandle (bytes : List UInt8) : HandleT :=
  let h : UInt32 := bytes.foldl (fun h b => (h ^^^ b.toUInt32) * 16777619) 2166136261
  let v := h &&& 0x7fffffff
  if v = 0 then 1 else v.toNat

def keyHashToHandle (keyHash : KeyHash) : HandleT := fnvHandle keyHash.val

def guidToHandle (guid : Guid) : HandleT :=
  fnvHandle (guid.guidPrefix.val ++ guid.entityId.entityKey.val ++ [guid.entityId.entityKind])

/-- `DDS.Time_t`. -/
structure Time where
  sec : ℤ
  nanosec : ℕ
deriving DecidableEq, Repr

def Time.toNs (t : Time) : ℤ := t.sec * 1000000000 + t.nanosec

/-- The nearest API time; beyond its largest second it saturates. -/
def toTime (ts : RtpsTimestamp) : Time :=
  let ns := (ts.fraction.toNat * 1000000000 + 0x80000000) / 0x100000000
  let sec := if ns = 1000000000 then ts.seconds.toNat + 1 else ts.seconds.toNat
  if 0x7fffffff < sec then ⟨0x7fffffff, 999999999⟩
  else ⟨sec, if ns = 1000000000 then 0 else ns⟩

/-! ### Sample information -/

inductive SampleStateKind where
  | read | notRead
deriving DecidableEq, Repr

inductive ViewStateKind where
  | new | notNew
deriving DecidableEq, Repr

inductive InstanceStateKind where
  | alive | notAliveDisposed | notAliveNoWriters
deriving DecidableEq, Repr

def SampleStateKind.bit : SampleStateKind → UInt32
  | read => 1
  | notRead => 2

def ViewStateKind.bit : ViewStateKind → UInt32
  | new => 1
  | notNew => 2

def InstanceStateKind.bit : InstanceStateKind → UInt32
  | alive => 1
  | notAliveDisposed => 2
  | notAliveNoWriters => 4

/-- DDS sample metadata, stamped when the sample is queued; the ranks when it is returned. -/
structure SampleInfo where
  sampleState : SampleStateKind := .notRead
  viewState : ViewStateKind
  instanceState : InstanceStateKind
  sourceTimestamp : Time := ⟨0, 0⟩
  instanceHandle : HandleT
  publicationHandle : HandleT := 0
  validData : Bool
  disposedGenerationCount : ℤ := 0
  noWritersGenerationCount : ℤ := 0
  sampleRank : ℤ := 0
  generationRank : ℤ := 0
  absoluteGenerationRank : ℤ := 0
deriving DecidableEq, Repr

def SampleInfo.generations (i : SampleInfo) : ℤ :=
  i.disposedGenerationCount + i.noWritersGenerationCount

/-! ### Reference counts -/

/-- The packed word of `EntityQuiesce`: whether teardown has begun, and the count, `1` of which is
the owner's own. -/
structure EntityQuiesce where
  tearingDown : Bool := false
  count : ℕ := 1
deriving DecidableEq, Repr

namespace EntityQuiesce

def acquire (q : EntityQuiesce) : Option EntityQuiesce :=
  if q.tearingDown || q.count = 0 then none else some { q with count := q.count + 1 }

/-- The weaker form, which teardown does not refuse. -/
def acquireIfAlive (q : EntityQuiesce) : Option EntityQuiesce :=
  if q.count = 0 then none else some { q with count := q.count + 1 }

/-- Drop a reference, and say whether it was the last. -/
def release (q : EntityQuiesce) : EntityQuiesce × Bool :=
  ({ q with count := q.count - 1 }, q.count = 1)

def close (q : EntityQuiesce) : EntityQuiesce := { q with tearingDown := true }

end EntityQuiesce

/-! ### Queued samples -/

/-- A sample of the queue.  `data` is the address of its payload.  `sample`, which is not in the
source, says which change of which writer it was made of; a synthetic sample is of none. -/
structure PendingChange where
  data : ℕ
  info : SampleInfo
  groupSeqNum : Option ℤ := none
  expiryNs : Option ℤ := none
  keyHash : KeyHash := Bytes.zeroes 16
  quiesce : EntityQuiesce := {}
  sample : Option (Guid × ℤ) := none
deriving DecidableEq, Repr

def PendingChange.expired (pc : PendingChange) (now : ℤ) : Bool :=
  pc.expiryNs.any fun exp => exp ≤ now

/-- The state masks and the instance a read or take is restricted to, with its query; the query
reads the payload. -/
structure RawFilter where
  sampleStates : UInt32
  viewStates : UInt32
  instanceStates : UInt32
  maybeIh : Option HandleT := none
  query : Option (List UInt8 → Bool) := none

def matchesSample (pc : PendingChange) (f : RawFilter) : Bool :=
  pc.info.sampleState.bit &&& f.sampleStates ≠ 0 && pc.info.viewState.bit &&& f.viewStates ≠ 0 &&
    pc.info.instanceState.bit &&& f.instanceStates ≠ 0 &&
    f.maybeIh.all fun ih => pc.info.instanceHandle = ih

/-! ### Memory -/

/-- Payload buffers and `PendingChange`s by address, and the addresses given back. -/
structure Heap where
  payloads : List (List UInt8) := []
  structs : List PendingChange := []
  freedPayloads : List ℕ := []
  freedStructs : List ℕ := []
deriving DecidableEq, Repr

namespace Heap

/-- Copy octets into a new buffer. -/
def dupe (h : Heap) (octets : List UInt8) : ℕ × Heap :=
  (h.payloads.length, { h with payloads := h.payloads ++ [octets] })

def free (h : Heap) (p : ℕ) : Heap := { h with freedPayloads := h.freedPayloads ++ [p] }

def create (h : Heap) (pc : PendingChange) : ℕ × Heap :=
  (h.structs.length, { h with structs := h.structs ++ [pc] })

def destroy (h : Heap) (a : ℕ) : Heap := { h with freedStructs := h.freedStructs ++ [a] }

def get (h : Heap) (a : ℕ) : Option PendingChange := h.structs[a]?

def payload (h : Heap) (p : ℕ) : List UInt8 := h.payloads[p]?.getD []

def modify (h : Heap) (a : ℕ) (f : PendingChange → PendingChange) : Heap :=
  { h with structs := h.structs.modify a f }

/-- Give back a sample that left the queue: its payload, then itself. -/
def reallyFree (h : Heap) (a : ℕ) : Heap :=
  match h.get a with
  | none => h
  | some pc => (h.free pc.data).destroy a

/-- Drop a reference to a sample; the last one gives it back. -/
def release (h : Heap) (a : ℕ) : Heap :=
  match h.get a with
  | none => h
  | some pc =>
      let h' := h.modify a fun pc => { pc with quiesce := pc.quiesce.release.1 }
      if pc.quiesce.release.2 then h'.reallyFree a else h'

/-- Take a reference to a sample that is not being torn down. -/
def acquire (h : Heap) (a : ℕ) : Option Heap :=
  (h.get a).bind fun pc => pc.quiesce.acquire.map fun q =>
    h.modify a fun pc => { pc with quiesce := q }

/-- Retire a sample: no new reference, and the queue's own is dropped. -/
def beginTeardown (h : Heap) (a : ℕ) : Heap :=
  (h.modify a fun pc => { pc with quiesce := pc.quiesce.close }).release a

end Heap

end Zzdds.Dcps
