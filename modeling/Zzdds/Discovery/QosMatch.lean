import Zzdds.Discovery.Wire

/-! # QoS compatibility

`qos_match.zig`: a writer offers its policies, a reader requests its own, and a check returns the
first policy on which the two do not agree.  `checkDiscovered` compares what an announcement
carries; `checkPartition` compares the partitions of the publisher and the subscriber, whose names
can hold wildcards. -/

namespace Zzdds.Discovery

open Zzdds.Lib Zzdds.Rtps

/-- The policies on which a check can fail. -/
inductive IncompatiblePolicy where
  | durability | presentation | deadline | ownership | liveliness | partitionPolicy | reliability
  | destinationOrder | dataRepresentation
deriving DecidableEq, Repr

inductive MatchResult where
  | compatible
  | incompatible (policy : IncompatiblePolicy)
deriving DecidableEq, Repr

/-- The first of two checks that fails. -/
def MatchResult.andThen : MatchResult → MatchResult → MatchResult
  | compatible, next => next
  | incompatible p, _ => incompatible p

/-- One comparison of a check. -/
def requirePolicy (policy : IncompatiblePolicy) (ok : Bool) : MatchResult :=
  if ok then .compatible else .incompatible policy

/-! ### Discovered endpoints -/

/-- In nanoseconds; `none` is infinite. -/
def rtpsDurNs (d : RtpsDuration) : Option ℤ :=
  if d = rtpsInfinite then none
  else
    let dd := toDuration d
    some (dd.sec.toInt * NS_PER_S + dd.nanosec.toNat)

/-- An absent duration is infinite. -/
def optDurNs (od : Option RtpsDuration) : Option ℤ := od.bind rtpsDurNs

def livKind (l : Option LivelinessWire) : UInt32 := (l.map (·.kind)).getD 0

def livLeaseNs (l : Option LivelinessWire) : Option ℤ := l.bind (fun v => rtpsDurNs v.leaseDuration)

/-- No representation is XCDR1. -/
def firstRepr (seq : List Int16) : Int16 := seq.headD 0

def presScope (p : Option PresentationWire) : UInt32 := (p.map (·.accessScope)).getD 0

def presCoherent (p : Option PresentationWire) : Bool := p.any (·.coherentAccess)

def presOrdered (p : Option PresentationWire) : Bool := p.any (·.orderedAccess)

/-- An offered period is at most the requested one. -/
def durOffered (off req : Option ℤ) : Bool :=
  match req with
  | none => true
  | some rn => off.any (fun n => decide (n ≤ rn))

/-- The checks before that of the destination order. -/
def checkFirst (w : DiscoveredWriterData) (r : DiscoveredReaderData) : MatchResult :=
  (requirePolicy .durability (decide (r.durabilityKind ≤ w.durabilityKind))).andThen <|
  (requirePolicy .ownership (w.ownershipKind == r.ownershipKind)).andThen <|
  (requirePolicy .liveliness (decide (livKind r.liveliness ≤ livKind w.liveliness))).andThen <|
  (requirePolicy .liveliness (durOffered (livLeaseNs w.liveliness) (livLeaseNs r.liveliness))).andThen <|
  requirePolicy .reliability (decide (r.reliability.kind ≤ w.reliability.kind))

/-- A reader that does not say requests the weakest order. -/
def checkDestinationOrder (w : DiscoveredWriterData) (r : DiscoveredReaderData) : MatchResult :=
  requirePolicy .destinationOrder (decide (r.destinationOrder.getD 0 ≤ w.destinationOrder))

/-- The checks after that of the destination order. -/
def checkLast (w : DiscoveredWriterData) (r : DiscoveredReaderData) : MatchResult :=
  (requirePolicy .deadline (durOffered (optDurNs w.deadline) (optDurNs r.deadline))).andThen <|
  (requirePolicy .dataRepresentation
    (firstRepr w.dataRepresentation == firstRepr r.dataRepresentation)).andThen <|
  (requirePolicy .presentation (decide (presScope r.presentation ≤ presScope w.presentation))).andThen <|
  (requirePolicy .presentation (!presCoherent r.presentation || presCoherent w.presentation)).andThen <|
  requirePolicy .presentation (!presOrdered r.presentation || presOrdered w.presentation)

def checkDiscovered (w : DiscoveredWriterData) (r : DiscoveredReaderData) : MatchResult :=
  ((checkFirst w r).andThen (checkDestinationOrder w r)).andThen (checkLast w r)

/-! ### Partitions -/

def WILDCARD_ANY : UInt8 := 42

def WILDCARD_ONE : UInt8 := 63

/-- Where the matching of a name against a pattern stands; `star` is where the last `*` was met in
the pattern, and in the name. -/
structure FnmatchState (pattern : List UInt8) where
  pi : ℕ := 0
  ni : ℕ := 0
  star : Option (ℕ × ℕ) := none
  star_lt : ∀ s ∈ star, s.1 < pi ∧ s.1 < pattern.length ∧ s.2 ≤ ni := by simp

/-- The loop of `fnmatch`: a mismatch goes back to the last `*`, which then takes one byte more. -/
def fnmatchLoop (pattern name : List UInt8) (s : FnmatchState pattern) : ℕ × Bool :=
  match hn : name[s.ni]? with
  | none => (s.pi, true)
  | some c =>
      match hp : pattern[s.pi]?.filter (fun p => p == WILDCARD_ONE || p == c) with
      | some _ => fnmatchLoop pattern name ⟨s.pi + 1, s.ni + 1, s.star, fun t ht => by
          have := s.star_lt t ht
          omega⟩
      | none =>
          if hs : pattern[s.pi]? = some WILDCARD_ANY then
            fnmatchLoop pattern name ⟨s.pi + 1, s.ni, some (s.pi, s.ni), fun t ht => by
              have := (List.getElem?_eq_some_iff.mp hs).1
              cases ht
              omega⟩
          else
            match hstar : s.star with
            | some (starPi, starNi) =>
                fnmatchLoop pattern name ⟨starPi + 1, starNi + 1, some (starPi, starNi + 1),
                  fun t ht => by
                    have := s.star_lt _ hstar
                    cases ht
                    omega⟩
            | none => (s.pi, false)
termination_by
  ((match s.star with
    | some t => name.length - t.2
    | none => name.length + 1),
    (match s.star with
    | some t => pattern.length - t.1
    | none => 0), name.length - s.ni)
decreasing_by
  · have := (List.getElem?_eq_some_iff.mp hn).1
    apply Prod.Lex.right
    apply Prod.Lex.right
    omega
  · have hlt := (List.getElem?_eq_some_iff.mp hn).1
    have hlp := (List.getElem?_eq_some_iff.mp hs).1
    cases hstar : s.star with
    | none =>
      apply Prod.Lex.left
      simp only
      omega
    | some t =>
      have := s.star_lt t hstar
      rcases Nat.lt_or_eq_of_le this.2.2 with h | h
      · apply Prod.Lex.left
        simp only
        omega
      · simp only [h]
        apply Prod.Lex.right
        apply Prod.Lex.left
        omega
  · have hlt := (List.getElem?_eq_some_iff.mp hn).1
    have := s.star_lt _ hstar
    simp only [hstar]
    apply Prod.Lex.left
    simp only at this
    omega

/-- `name` matches `pattern`, in which `*` stands for any bytes and `?` for any one byte. -/
def fnmatch (pattern name : List UInt8) : Bool :=
  match fnmatchLoop pattern name {} with
  | (pi, true) => (pattern.drop pi).all (· == WILDCARD_ANY)
  | (_, false) => false

/-- Either name can hold the wildcards. -/
def partitionNamesMatch (a b : List UInt8) : Bool := fnmatch a b || fnmatch b a

/-- No partition is the one of the empty name. -/
def partitionsOrDefault (names : List (List UInt8)) : List (List UInt8) :=
  if names.isEmpty then [[]] else names

def checkPartition (offered requested : List (List UInt8)) : MatchResult :=
  requirePolicy .partitionPolicy <| (partitionsOrDefault offered).any fun pn =>
    (partitionsOrDefault requested).any (partitionNamesMatch pn)

end Zzdds.Discovery
