import Zzdds.Dcps.DataReader

/-! # Reading and taking

The ways `reader.zig` hands samples of the queue to the application.  A copy-mode read clones the
payload; a copy-mode take gives the payload itself away and destroys the `PendingChange`.  A read
loan takes a reference to each sample and leaves it queued; a take loan takes the samples out of the
queue, and with them the queue's own reference.  Every one of them first retires what has expired.

Allocations that fail are parameters: the number of clones or pins made before the one that fails,
and whether the result can be made at all. -/

namespace Zzdds.Dcps

open Zzdds.Lib Zzdds.Rtps

/-- A sample the application owns: its payload is its own to free. -/
structure TakenSample where
  data : ℕ
  info : SampleInfo
  keyHash : KeyHash := Bytes.zeroes 16
deriving DecidableEq, Repr

/-! ### Ranks -/

/-- `std.math.lossyCast(i32, x)`. -/
def lossyCastI32 (x : ℤ) : ℤ := max (-2147483648) (min x 2147483647)

/-- The ranks of the samples of one result, from the samples of the same instance after each. -/
def finalizeGenerationRanks (seen : Table HandleT InstanceEntry) :
    List SampleInfo → List SampleInfo
  | [] => []
  | i :: later =>
      let same := later.filter fun j => j.instanceHandle = i.instanceHandle
      let newest := (same.map SampleInfo.generations).foldl max i.generations
      let live := (seen.lookup i.instanceHandle).elim i.generations fun e =>
        e.disposedGenerationCount + e.noWritersGenerationCount
      { i with
        sampleRank := same.length
        generationRank := lossyCastI32 (newest - i.generations)
        absoluteGenerationRank := lossyCastI32 (live - i.generations) } ::
        finalizeGenerationRanks seen later

namespace DataReader

variable (r : DataReader)

/-! ### Choosing samples -/

def expiredAt (now : ℤ) (a : ℕ) : Bool := (r.heap.get a).any (·.expired now)

/-- Retire every sample that has expired. -/
def purgeExpired (now : ℤ) : DataReader :=
  { r with
    pending := r.pending.filter fun a => !r.expiredAt now a
    heap := (r.pending.filter (r.expiredAt now)).foldl Heap.beginTeardown r.heap }

/-- Whether a sample passes the masks and the query. -/
def selects (f : RawFilter) (a : ℕ) : Bool :=
  (r.heap.get a).any fun pc =>
    matchesSample pc f && f.query.all fun q => q (r.heap.payload pc.data)

/-- The samples of one instance, or of all, a filter passes. -/
def ofInstance (f : RawFilter) (ih : Option HandleT) : RawFilter := { f with maybeIh := ih }

/-- The smallest instance after `prev`, or of all where that is nil, with a sample that passes. -/
def nextInstance (prev : HandleT) (f : RawFilter) : Option HandleT :=
  (((r.pending.filter (r.selects (ofInstance f none))).filterMap r.handleAt).filter fun ih =>
    prev = 0 || prev < ih).min?

/-- `max_samples` as a count: a negative one is no limit. -/
def limit (maxSamples : ℤ) : ℕ := if maxSamples < 0 then 2 ^ 64 - 1 else maxSamples.toNat

/-- The first `n` addresses that pass, and the others. -/
def splitMatching (p : ℕ → Bool) : List ℕ → ℕ → List ℕ × List ℕ
  | [], _ => ([], [])
  | l, 0 => ([], l)
  | a :: l, n + 1 =>
      if p a then
        let rest := splitMatching p l n
        (a :: rest.1, rest.2)
      else
        let rest := splitMatching p l (n + 1)
        (rest.1, a :: rest.2)

/-- Every sample passes. -/
def anyFilter : RawFilter where
  sampleStates := 0xffff
  viewStates := 0xffff
  instanceStates := 0xffff

/-! ### Copies -/

/-- The samples the application gets of structs that are destroyed: the payload goes with it. -/
def takenSamples (as : List ℕ) : List TakenSample :=
  let pcs := as.filterMap r.heap.get
  List.zipWith (fun pc info => { data := pc.data, info := info, keyHash := pc.keyHash }) pcs
    (finalizeGenerationRanks r.seenInstances (pcs.map (·.info)))

/-- Take samples out of the queue for good. -/
def takeAway (taken kept : List ℕ) : DataReader × List TakenSample :=
  ({ r with pending := kept, heap := taken.foldl Heap.destroy r.heap }, r.takenSamples taken)

/-- Dequeue one sample, within the window of ordered access. -/
def takeRawLoop (now : ℤ) : DataReader → List ℕ → DataReader × List TakenSample
  | r, [] => ({ r with pending := [] }, [])
  | r, a :: rest =>
      if r.orderedAccessWatermark = some 0 then ({ r with pending := a :: rest }, [])
      else
        let r := { r with orderedAccessWatermark := r.orderedAccessWatermark.map (· - 1) }
        if r.expiredAt now a then takeRawLoop now { r with heap := r.heap.beginTeardown a } rest
        else
          let (r, taken) := r.takeAway [a] rest
          (r, taken.map fun s => { s with keyHash := Bytes.zeroes 16 })

def takeRaw (now : ℤ) : DataReader × List TakenSample := takeRawLoop now r r.pending

/-- Dequeue one sample of the next instance. -/
def takeNextInstanceRaw (now : ℤ) (prev : HandleT) : DataReader × List TakenSample :=
  let r := r.purgeExpired now
  match r.nextInstance prev anyFilter with
  | none => (r, [])
  | some ih =>
      let split := splitMatching (fun a => r.handleAt a = some ih) r.pending 1
      let (r, taken) := r.takeAway split.1 split.2
      (r, taken.map fun s => { s with keyHash := Bytes.zeroes 16 })

/-- Take the samples a filter passes; nothing, where the result cannot be made. -/
def takeFiltered (now : ℤ) (f : RawFilter) (maxSamples : ℤ) (reserved : Bool) :
    DataReader × List TakenSample :=
  let r := r.purgeExpired now
  let split := splitMatching (r.selects f) r.pending (limit maxSamples)
  if reserved then r.takeAway split.1 split.2 else (r, [])

def takeNextInstanceFiltered (now : ℤ) (prev : HandleT) (f : RawFilter) (maxSamples : ℤ)
    (reserved : Bool) : DataReader × List TakenSample :=
  let r := r.purgeExpired now
  match r.nextInstance prev f with
  | none => (r, [])
  | some ih =>
      let split := splitMatching (r.selects (ofInstance f ih)) r.pending
        (limit maxSamples)
      if reserved then r.takeAway split.1 split.2 else (r, [])

/-- Clone a sample's payload for the application, and mark the sample read. -/
def cloneSample (a : ℕ) : DataReader × Option TakenSample :=
  match r.heap.get a with
  | none => (r, none)
  | some pc =>
      let (copy, r) := r.dupe (r.heap.payload pc.data)
      ({ r with
          heap := r.heap.modify a fun pc => { pc with info.sampleState := .read } },
        some ⟨copy, pc.info, pc.keyHash⟩)

/-- Clone samples in order. -/
def cloneSamples : DataReader → List ℕ → DataReader × List TakenSample
  | r, [] => (r, [])
  | r, a :: as =>
      let (r, sample) := r.cloneSample a
      let (r, samples) := cloneSamples r as
      (r, sample.toList ++ samples)

/-- The ranks of a result put into its samples. -/
def rankTaken (samples : List TakenSample) : List TakenSample :=
  List.zipWith (fun s info => { s with info := info }) samples
    (finalizeGenerationRanks r.seenInstances (samples.map (·.info)))

/-- Read the samples a filter passes, `clones` of them at most before an allocation fails; says
whether none did. -/
def readRaw (now : ℤ) (f : RawFilter) (maxSamples : ℤ) (clones : ℕ) :
    DataReader × List TakenSample × Bool :=
  let r := r.purgeExpired now
  let chosen := (splitMatching (r.selects f) r.pending (limit maxSamples)).1
  let (r, samples) := r.cloneSamples (chosen.take clones)
  (r, r.rankTaken samples, chosen.length ≤ clones)

def readNextInstanceFiltered (now : ℤ) (prev : HandleT) (f : RawFilter) (maxSamples : ℤ)
    (clones : ℕ) : DataReader × List TakenSample × Bool :=
  let r := r.purgeExpired now
  match r.nextInstance prev f with
  | none => (r, [], true)
  | some ih =>
      let chosen := (splitMatching (r.selects (ofInstance f ih)) r.pending (limit maxSamples)).1
      let (r, samples) := r.cloneSamples (chosen.take clones)
      (r, r.rankTaken samples, chosen.length ≤ clones)

/-- Read one sample of the next instance. -/
def readNextInstanceRaw (now : ℤ) (prev : HandleT) (clones : ℕ) :
    DataReader × List TakenSample × Bool :=
  let (r, samples, made) := r.readNextInstanceFiltered now prev anyFilter 1 clones
  (r, samples.map fun s => { s with info.sampleState := .read, keyHash := Bytes.zeroes 16 }, made)

/-! ### Loans -/

/-- Put the ranks of a loaned result into the samples themselves. -/
def rankPinned (as : List ℕ) : DataReader :=
  let infos := finalizeGenerationRanks r.seenInstances
    ((as.filterMap r.heap.get).map (·.info))
  { r with
    heap := (as.zip infos).foldl
      (fun h p => h.modify p.1 fun pc => { pc with info := p.2 }) r.heap }

/-- Whether a sample passes a filter and is not being torn down. -/
def pinnable (f : RawFilter) (a : ℕ) : Bool := r.selects f a && (r.heap.acquire a).isSome

/-- Take a reference to each sample in order and mark it read. -/
def pinSamples : DataReader → List ℕ → DataReader × List ℕ
  | r, [] => (r, [])
  | r, a :: as =>
      match r.heap.acquire a with
      | none => pinSamples r as
      | some h =>
          let (r, pins) := pinSamples
            { r with heap := h.modify a fun pc => { pc with info.sampleState := .read } } as
          (r, a :: pins)

/-- Count a result among the outstanding loans. -/
def lend (as : List ℕ) : DataReader :=
  { r.rankPinned as with outstandingLoans := r.outstandingLoans + as.length }

/-- Pin the samples a filter passes, `pins` of them at most before an allocation fails. -/
def pinSamplesForLoan (now : ℤ) (f : RawFilter) (maxSamples : ℤ) (pins : ℕ) :
    DataReader × List ℕ :=
  let r := r.purgeExpired now
  let chosen := (splitMatching (r.pinnable f) r.pending (limit maxSamples)).1
  let (r, as) := r.pinSamples (chosen.take pins)
  (r.lend as, as)

def pinNextInstanceForLoan (now : ℤ) (prev : HandleT) (f : RawFilter) (maxSamples : ℤ) (pins : ℕ) :
    DataReader × List ℕ :=
  let r := r.purgeExpired now
  match r.nextInstance prev f with
  | none => (r, [])
  | some ih =>
      let chosen := (splitMatching (r.pinnable (ofInstance f ih)) r.pending (limit maxSamples)).1
      let (r, as) := r.pinSamples (chosen.take pins)
      (r.lend as, as)

/-- Take the samples a filter passes out of the queue; its reference becomes the loan's. -/
def takeSamplesForLoan (now : ℤ) (f : RawFilter) (maxSamples : ℤ) (reserved : Bool) :
    DataReader × List ℕ :=
  let r := r.purgeExpired now
  let split := splitMatching (r.selects f) r.pending (limit maxSamples)
  if reserved then ({ r with pending := split.2 }.lend split.1, split.1) else (r, [])

def takeNextInstanceForLoan (now : ℤ) (prev : HandleT) (f : RawFilter) (maxSamples : ℤ)
    (reserved : Bool) : DataReader × List ℕ :=
  let r := r.purgeExpired now
  match r.nextInstance prev f with
  | none => (r, [])
  | some ih =>
      let split := splitMatching (r.selects (ofInstance f ih)) r.pending
        (limit maxSamples)
      if reserved then ({ r with pending := split.2 }.lend split.1, split.1) else (r, [])

/-- Release one reference of a loan. -/
def releasePin (a : ℕ) : DataReader := { r with heap := r.heap.release a }

/-- The end of a loan's return. -/
def settleLoan (n : ℕ) : DataReader := { r with outstandingLoans := r.outstandingLoans - n }

end DataReader

end Zzdds.Dcps
