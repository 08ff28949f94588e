import Zzdds.Dcps.Access

/-! # Runs of a data reader

One `DataReaderImpl` with its protocol reader on one side and its application, of any number of
threads, on the other.  A step is one critical section of the reader's lock or one step a thread
makes outside it: a loan is made under the lock, registered in `loan_table` after it, and returned
one reference at a time.  What a thread holds between two steps is part of the state. -/

namespace Zzdds.Dcps

open Zzdds.Lib Zzdds.Rtps

/-! ### Calls -/

/-- The takes that give the payload away. -/
inductive TakeCall where
  | takeRaw (now : ℤ)
  | takeNextInstanceRaw (now : ℤ) (prev : HandleT)
  | takeFiltered (now : ℤ) (f : RawFilter) (maxSamples : ℤ) (reserved : Bool)
  | takeNextInstanceFiltered (now : ℤ) (prev : HandleT) (f : RawFilter) (maxSamples : ℤ)
      (reserved : Bool)

def TakeCall.run (r : DataReader) : TakeCall → DataReader × List TakenSample
  | takeRaw now => r.takeRaw now
  | takeNextInstanceRaw now prev => r.takeNextInstanceRaw now prev
  | takeFiltered now f maxSamples reserved => r.takeFiltered now f maxSamples reserved
  | takeNextInstanceFiltered now prev f maxSamples reserved =>
      r.takeNextInstanceFiltered now prev f maxSamples reserved

/-- The reads that clone the payload. -/
inductive ReadCall where
  | readRaw (now : ℤ) (f : RawFilter) (maxSamples : ℤ) (clones : ℕ)
  | readNextInstanceRaw (now : ℤ) (prev : HandleT) (clones : ℕ)
  | readNextInstanceFiltered (now : ℤ) (prev : HandleT) (f : RawFilter) (maxSamples : ℤ)
      (clones : ℕ)

def ReadCall.run (r : DataReader) : ReadCall → DataReader × List TakenSample × Bool
  | readRaw now f maxSamples clones => r.readRaw now f maxSamples clones
  | readNextInstanceRaw now prev clones => r.readNextInstanceRaw now prev clones
  | readNextInstanceFiltered now prev f maxSamples clones =>
      r.readNextInstanceFiltered now prev f maxSamples clones

/-- The calls that make a loan. -/
inductive LoanCall where
  | pinSamplesForLoan (now : ℤ) (f : RawFilter) (maxSamples : ℤ) (pins : ℕ)
  | pinNextInstanceForLoan (now : ℤ) (prev : HandleT) (f : RawFilter) (maxSamples : ℤ) (pins : ℕ)
  | takeSamplesForLoan (now : ℤ) (f : RawFilter) (maxSamples : ℤ) (reserved : Bool)
  | takeNextInstanceForLoan (now : ℤ) (prev : HandleT) (f : RawFilter) (maxSamples : ℤ)
      (reserved : Bool)

def LoanCall.run (r : DataReader) : LoanCall → DataReader × List ℕ
  | pinSamplesForLoan now f maxSamples pins => r.pinSamplesForLoan now f maxSamples pins
  | pinNextInstanceForLoan now prev f maxSamples pins =>
      r.pinNextInstanceForLoan now prev f maxSamples pins
  | takeSamplesForLoan now f maxSamples reserved => r.takeSamplesForLoan now f maxSamples reserved
  | takeNextInstanceForLoan now prev f maxSamples reserved =>
      r.takeNextInstanceForLoan now prev f maxSamples reserved

/-! ### Ordered access -/

namespace DataReader

/-- The order of ordered access: by instance first, in instance scope; then by group sequence
number, those without one last. -/
def pendingLe (r : DataReader) (byInstance : Bool) (a b : ℕ) : Bool :=
  let gsn (a : ℕ) : ℤ := ((r.heap.get a).bind (·.groupSeqNum)).getD (2 ^ 63 - 1)
  let ih (a : ℕ) : ℤ := (r.handleAt a).getD 0
  if byInstance && ih a ≠ ih b then ih a < ih b else gsn a ≤ gsn b

/-- `begin_access` with ordered access: the queue is sorted and its length is the window. -/
def beginOrdered (r : DataReader) : DataReader :=
  let sorted := r.pending.insertionSort fun a b =>
    r.pendingLe (r.presentation.accessScope = .instancePresentation) a b
  { r with pending := sorted, orderedAccessWatermark := some sorted.length }

def endOrdered (r : DataReader) : DataReader := { r with orderedAccessWatermark := none }

end DataReader

/-! ### The machine -/

/-- `building` are the loans made and not yet registered, `loanTable` the registered ones by
descriptor array, and `returning` those being returned: their size, and the references still to
release.  `copies` are the payloads the application owns, by result; `leaked` those of a read that
failed half way, which nobody frees.  `handed`, which is not in the source, is every payload a take
gave away. -/
structure ReaderMachine where
  reader : DataReader
  matched : List Guid := []
  building : List (List ℕ) := []
  loanTable : Table ℕ (List ℕ) := ∅
  nextKey : ℕ := 0
  returning : List (ℕ × List ℕ) := []
  copies : List (List ℕ) := []
  leaked : List ℕ := []
  handed : List ℕ := []

inductive ReaderAction where
  | matching (now : ℤ) (info : MatchedWriterInfo)
  | unmatching (now : Time) (guid : Guid)
  | data (now : ℤ) (change : CacheChange)
  | eoc (now : ℤ) (change : CacheChange)
  | promote (idx : ℕ)
  | discard (idx : ℕ)
  | beginOrdered
  | endOrdered
  | take (call : TakeCall) (built : Bool)
  | read (call : ReadCall) (built : Bool)
  | lend (call : LoanCall) (sliced : Bool)
  | register (i : ℕ) (made : Bool)
  | returnLoan (key : ℕ)
  | releasePin (i : ℕ)
  | settle (i : ℕ)
  | freeCopy (i : ℕ)

namespace ReaderMachine

variable (s : ReaderMachine)

/-- The references of loans: registered or not, and of those being returned the ones left. -/
def loaned : List ℕ :=
  s.building.flatten ++ s.loanTable.values.flatten ++ s.returning.flatMap (·.2)

/-- The samples in loans whose return has not ended. -/
def unreturned : ℕ :=
  (s.building.map List.length).sum + (s.loanTable.values.map List.length).sum +
    (s.returning.map (·.1)).sum

/-- A result the application owns, or, where it cannot be made, gives back at once. -/
def giveOut (reader : DataReader) (payloads : List ℕ) (built : Bool) : ReaderMachine :=
  if built then { s with reader := reader, copies := s.copies ++ [payloads] }
  else { s with reader := payloads.foldl DataReader.freePayload reader }

/-- One step; none where the action does not apply. -/
def step (s : ReaderMachine) : ReaderAction → Option ReaderMachine
  | .matching now info =>
      some { s with
        reader := s.reader.onWriterMatchingCb now info (info.guid ∉ s.matched)
        matched := s.matched.insert info.guid }
  | .unmatching now guid =>
      if guid ∈ s.matched then
        some { s with
          reader := s.reader.onWriterUnmatchingCb now guid
          matched := s.matched.filter (· ≠ guid) }
      else none
  | .data now change =>
      if change.writerGuid ∈ s.matched then
        some { s with reader := s.reader.onDataCb now change }
      else none
  | .eoc now change =>
      if change.writerGuid ∈ s.matched then some { s with reader := s.reader.onEocCb now change }
      else none
  | .promote idx => some { s with reader := s.reader.promoteCommittedSetLocked idx }
  | .discard idx => some { s with reader := s.reader.discardCommittedSetLocked idx }
  | .beginOrdered => some { s with reader := s.reader.beginOrdered }
  | .endOrdered => some { s with reader := s.reader.endOrdered }
  | .take call built =>
      let (reader, samples) := call.run s.reader
      let payloads := samples.map (·.data)
      some ({ s with handed := s.handed ++ payloads }.giveOut reader payloads built)
  | .read call built =>
      let (reader, samples, made) := call.run s.reader
      let payloads := samples.map (·.data)
      if made then some (s.giveOut reader payloads built)
      else some { s with reader := reader, leaked := s.leaked ++ payloads }
  | .lend call sliced =>
      let (reader, as) := call.run s.reader
      some { s with reader := reader, building := if sliced then s.building ++ [as] else s.building }
  | .register i made =>
      s.building[i]?.map fun as =>
        if made then
          { s with
            building := s.building.eraseIdx i
            loanTable := s.loanTable.insert s.nextKey as
            nextKey := s.nextKey + 1 }
        else
          { s with
            building := s.building.eraseIdx i
            returning := s.returning ++ [(as.length, as)] }
  | .returnLoan key =>
      (s.loanTable.lookup key).map fun as =>
        { s with
          loanTable := s.loanTable.erase key
          returning := s.returning ++ [(as.length, as)] }
  | .releasePin i =>
      match s.returning[i]? with
      | some (n, a :: as) =>
          some { s with
            reader := s.reader.releasePin a
            returning := s.returning.set i (n, as) }
      | _ => none
  | .settle i =>
      match s.returning[i]? with
      | some (n, []) =>
          some { s with
            reader := s.reader.settleLoan n
            returning := s.returning.eraseIdx i }
      | _ => none
  | .freeCopy i =>
      s.copies[i]?.map fun payloads =>
        { s with
          reader := payloads.foldl DataReader.freePayload s.reader
          copies := s.copies.eraseIdx i }

/-- Perform actions in order. -/
inductive Run (s₀ : ReaderMachine) : List ReaderAction → ReaderMachine → Prop
  | nil : Run s₀ [] s₀
  | snoc {acts : List ReaderAction} {a : ReaderAction} {s s' : ReaderMachine}
      (h : Run s₀ acts s) (hs : s.step a = some s') : Run s₀ (acts ++ [a]) s'

end ReaderMachine

/-- A reader as it is created. -/
def DataReader.init (qos : DataReaderQos) (presentation : PresentationQos)
    (cftFilter : Option (List UInt8 → Bool)) : DataReader where
  qos := qos
  presentation := presentation
  cftFilter := cftFilter

/-- A reader nothing has happened to. -/
def ReaderMachine.init (qos : DataReaderQos) (presentation : PresentationQos)
    (cftFilter : Option (List UInt8 → Bool)) : ReaderMachine where
  reader := DataReader.init qos presentation cftFilter

end Zzdds.Dcps
