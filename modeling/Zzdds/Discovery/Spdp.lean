import Zzdds.Lib.Run
import Zzdds.Lib.Table
import Zzdds.Lib.Threads
import Zzdds.Rtps.Types

/-! # The participants SPDP knows

`SpdpEndpoints` of `spdp.zig`: announcements, BYEs, liveness probes and lease checks, as threads that
share the table `known`.  A thread that adds to the table or removes from it keeps `lifecycle_mu`
until it has reported that, to SEDP and to DCPS; what it still has to report is in its frame
`notify`.

Locators, the timers and what is sent are left out, so a payload is what is decoded of it besides.
The clock is read anew at every step that reads it, and every allocation can fail. -/

namespace Zzdds.Discovery

open Zzdds.Lib Zzdds.Rtps

def MIN_PLAUSIBLE_INTERVAL_NS : ℤ := 50000000

def MAX_PROBE_TRIGGER_NS : ℤ := 5000000000

def NS_PER_MS : ℤ := 1000000

/-! ### Known participants -/

structure ParticipantData where
  guid : Guid
  domainId : ℕ
  leaseDurationMs : ℕ
deriving DecidableEq, Repr

structure KnownParticipant where
  data : ParticipantData
  expiresNs : ℤ := 0
  lastSeenNs : ℤ := 0
  observedIntervalNs : ℤ := 0
  probeActive : Bool := false
  lastWriterSn : ℤ := SEQUENCENUMBER_UNKNOWN
  sedpSeen : Bool := false
deriving DecidableEq, Repr

namespace KnownParticipant

/-- When silence starts a liveness probe. -/
def probeDueNs (kp : KnownParticipant) : Option ℤ :=
  if kp.probeActive || kp.lastSeenNs ≤ 0 then none
  else some (kp.lastSeenNs + if 0 < kp.observedIntervalNs then
    min (3 * kp.observedIntervalNs) MAX_PROBE_TRIGGER_NS else MAX_PROBE_TRIGGER_NS)

def expired (kp : KnownParticipant) (now : ℤ) : Bool := kp.expiresNs ≤ now

def probeDue (kp : KnownParticipant) (now : ℤ) : Bool :=
  !kp.expired now && kp.probeDueNs.any (· ≤ now)

/-- An announcement was received, or a probe answered. -/
def renewLease (kp : KnownParticipant) (now : ℤ) : KnownParticipant :=
  { kp with expiresNs := now + kp.data.leaseDurationMs * NS_PER_MS, lastSeenNs := now }

/-- A probe has begun. -/
def probed (kp : KnownParticipant) : KnownParticipant := { kp with probeActive := true }

/-- What an announcement keeps of the entry it replaces. -/
def reannounced (old kp : KnownParticipant) (now sn : ℤ) : KnownParticipant :=
  let interval := now - old.lastSeenNs
  let kp := { kp with observedIntervalNs := old.observedIntervalNs, sedpSeen := old.sedpSeen }
  if sn ≠ SEQUENCENUMBER_UNKNOWN ∧ sn = old.lastWriterSn then
    { kp with lastSeenNs := old.lastSeenNs }
  else if 0 < old.lastSeenNs ∧ old.lastSeenNs < now then
    -- too soon to be anything but another copy of the same announcement
    if interval < MIN_PLAUSIBLE_INTERVAL_NS then { kp with lastSeenNs := old.lastSeenNs }
    else { kp with
      observedIntervalNs := if old.observedIntervalNs = 0 then interval
        else (old.observedIntervalNs + interval).tdiv 2 }
  else kp

end KnownParticipant

/-- What is decoded of an announcement; its sender's own word for its GUID is not used. -/
structure SPDPdiscoveredParticipantData where
  domainId : Option ℕ := none
  leaseDurationMs : Option ℕ := none
deriving DecidableEq, Repr

def ENTITYID_PARTICIPANT : EntityId := ⟨⟨[0x00, 0x00, 0x01], rfl⟩, 0xc1⟩

/-- `decodeSpdpParticipant`, for a receiver of domain `domainId`. -/
def decodeSpdpParticipant (p : GuidPrefix) (domainId : ℕ) (data : SPDPdiscoveredParticipantData) :
    KnownParticipant where
  data :=
    { guid := ⟨p, ENTITYID_PARTICIPANT⟩
      domainId := data.domainId.getD domainId
      leaseDurationMs := data.leaseDurationMs.getD 10000 }

/-! ### The endpoints -/

/-- Who is told of participants. -/
inductive Listener where
  | dcps | sedp
deriving DecidableEq, Repr

/-- `on_participant_discovered` or `on_participant_lost`. -/
structure Report where
  listener : Listener
  discovered : Bool
  guidPrefix : GuidPrefix
deriving DecidableEq, Repr

structure SpdpEndpoints where
  /-- Of its own writer, once there is one. -/
  ownPrefix : Option GuidPrefix
  domainId : ℕ
  /-- Whose callbacks are set. -/
  listening : Listener → Bool
  known : Table GuidPrefix KnownParticipant := ∅
  /-- A thread keeps `lifecycle_mu`. -/
  lifecycleLocked : Bool := false
  /-- And `mu`. -/
  locked : Bool := false
  reports : List Report := []
  probes : List (GuidPrefix × ℤ) := []

inductive SpdpFrame where
  /-- An announcement; none is one that cannot be decoded. -/
  | processSpdpPayload (p : GuidPrefix) (sn : ℤ) (data : Option SPDPdiscoveredParticipantData)
  | enter (p : GuidPrefix) (sn : ℤ) (kp : KnownParticipant) (now : ℤ)
  /-- Called for a BYE. -/
  | removePeer (p : GuidPrefix)
  | onProbeResult (p : GuidPrefix) (alive : Bool)
  | markSedpSeen (p : GuidPrefix)
  | checkLeases
  | evict (now : ℤ)
  /-- With `lifecycle_mu`, and with `mu` or without: make reports, then begin probes. -/
  | notify (reports : List Report) (probes : List (GuidPrefix × ℤ)) (mu : Bool)
  | beginProbe (p : GuidPrefix) (deadlineNs : ℤ)

/-- What a step finds: the time, and which allocations succeed. -/
structure Surroundings where
  now : ℤ := 0
  getOrPut : Bool := true
  toRemove : GuidPrefix → Bool := fun _ => true
  toProbe : GuidPrefix → Bool := fun _ => true
  evictGuids : GuidPrefix → Bool := fun _ => true

namespace SpdpEndpoints

variable (s : SpdpEndpoints)

def report (ls : List Listener) (discovered : Bool) (p : GuidPrefix) : List Report :=
  (ls.filter s.listening).map (⟨·, discovered, p⟩)

/-- `notifyLostLocked`. -/
def notifyLost (g : Guid) : List Report := s.report [.sedp, .dcps] false g.guidPrefix

def notifyDiscovered (data : ParticipantData) : List Report :=
  s.report [.dcps, .sedp] true data.guid.guidPrefix

/-- The participants whose lease has expired, of which the list could take in. -/
def toRemove (e : Surroundings) : List GuidPrefix :=
  s.known.keys.filter fun p => (s.known.lookup p).any (·.expired e.now) && e.toRemove p

def toProbe (e : Surroundings) : List GuidPrefix :=
  s.known.keys.filter fun p => (s.known.lookup p).any (·.probeDue e.now) && e.toProbe p

/-- The participants removed, of which the list of those to report could take in. -/
def evictGuids (e : Surroundings) : List Guid :=
  ((s.toRemove e).filter e.evictGuids).filterMap fun p => (s.known.lookup p).map (·.data.guid)

/-- Remove a participant, and report it. -/
def drop (p : GuidPrefix) (kp : KnownParticipant) : SpdpEndpoints × List SpdpFrame :=
  ({ s with known := s.known.erase p, lifecycleLocked := true },
    [.notify (s.notifyLost kp.data.guid) [] false])

/-- Run a frame; none while it waits for a lock. -/
def run (e : Surroundings) : SpdpFrame → Option (SpdpEndpoints × List SpdpFrame)
  | .processSpdpPayload p sn data =>
      if s.locked then none
      else if s.ownPrefix = some p then some (s, [])
      else
        match data with
        | none => some (s, [])
        | some data =>
            let kp := decodeSpdpParticipant p s.domainId data
            if kp.data.domainId ≠ s.domainId then some (s, [])
            else some (s, [.enter p sn { kp.renewLease e.now with lastWriterSn := sn } e.now])
  | .enter p sn kp now =>
      if s.lifecycleLocked || s.locked then none
      else
        match s.known.lookup p with
        | some old =>
            some ({ s with known := s.known.insert p (old.reannounced kp now sn) },
              if old.probeActive then [.beginProbe p 0] else [])
        | none =>
            if !e.getOrPut then some (s, [])
            else some ({ s with known := s.known.insert p kp, lifecycleLocked := true, locked := true },
              [.notify (s.notifyDiscovered kp.data) [] true])
  | .removePeer p =>
      if s.lifecycleLocked || s.locked then none
      else
        match s.known.lookup p with
        | none => some (s, [])
        | some kp => some (s.drop p kp)
  | .onProbeResult p true =>
      if s.locked then none
      else
        some ({ s with known := s.known.update p fun kp => if kp.probeActive then
          { kp.renewLease e.now with probeActive := false } else kp }, [])
  | .onProbeResult p false =>
      if s.lifecycleLocked || s.locked then none
      else
        match s.known.lookup p with
        | none => some (s, [])
        | some kp => if kp.probeActive then some (s.drop p kp) else some (s, [])
  | .markSedpSeen p =>
      if s.locked then none
      else some ({ s with known := s.known.update p fun kp => { kp with sedpSeen := true } }, [])
  | .checkLeases => some (s, [.evict e.now])
  | .evict now =>
      let e := { e with now := now }
      if s.lifecycleLocked || s.locked then none
      else
        let known := (s.toProbe e).foldl (fun t p => t.update p KnownParticipant.probed) s.known
        some ({ s with known := (s.toRemove e).foldl (fun t p => t.erase p) known
                       lifecycleLocked := true },
          [.notify ((s.evictGuids e).flatMap s.notifyLost)
            ((s.toProbe e).map (·, now + 1000000000)) false])
  | .notify (r :: rs) ps mu => some ({ s with reports := s.reports ++ [r] }, [.notify rs ps mu])
  | .notify [] (pb :: ps) mu => some ({ s with probes := s.probes ++ [pb] }, [.notify [] ps mu])
  | .notify [] [] mu =>
      some ({ s with lifecycleLocked := false, locked := if mu then false else s.locked }, [])
  | .beginProbe p d => some ({ s with probes := s.probes ++ [(p, d)] }, [])

end SpdpEndpoints

/-! ### The machine -/

/-- Something calls an operation, or a thread takes its turn. -/
inductive SpdpAction where
  | processSpdpPayload (p : GuidPrefix) (sn : ℤ) (data : Option SPDPdiscoveredParticipantData)
  | removePeer (p : GuidPrefix)
  | onProbeResult (p : GuidPrefix) (alive : Bool)
  | markSedpSeen (p : GuidPrefix)
  | checkLeases
  | turn (i : ℕ) (e : Surroundings)

def SpdpAction.call : SpdpAction → Option SpdpFrame
  | processSpdpPayload p sn data => some (.processSpdpPayload p sn data)
  | removePeer p => some (.removePeer p)
  | onProbeResult p alive => some (.onProbeResult p alive)
  | markSedpSeen p => some (.markSedpSeen p)
  | checkLeases => some .checkLeases
  | turn _ _ => none

abbrev SpdpMachine := Threads SpdpEndpoints SpdpFrame

namespace SpdpMachine

def init (ownPrefix : Option GuidPrefix) (domainId : ℕ) (listening : Listener → Bool) :
    SpdpMachine :=
  ⟨{ ownPrefix := ownPrefix, domainId := domainId, listening := listening }, []⟩

def step (m : SpdpMachine) : SpdpAction → Option SpdpMachine
  | .turn i e => m.turn (fun s => s.run e) i
  | x => x.call.map fun f => m.spawn m.shared [f]

end SpdpMachine

/-! ### Reports and the table -/

/-- What a listener was told of a participant. -/
def heard (l : Listener) (p : GuidPrefix) (rs : List Report) : List Bool :=
  (rs.filter fun r => r.listener == l && r.guidPrefix == p).map (·.discovered)

/-- Discovered and lost by turns, first discovered. -/
def Alternates (bs : List Bool) : Prop := bs.head? ≠ some false ∧ bs.IsChain (· ≠ ·)

theorem Alternates.of_append {bs bs' : List Bool} (h : Alternates (bs ++ bs')) :
    Alternates bs := by
  obtain ⟨hhead, hchain⟩ := h
  refine ⟨?_, hchain.left_of_append⟩
  cases bs with
  | nil => exact fun h => by cases h
  | cons b bs => exact hhead

theorem Alternates.discovered {bs : List Bool} (h : Alternates bs) (hlast : bs.getLast? ≠ some true) :
    Alternates (bs ++ [true]) := by
  refine ⟨?_, List.isChain_append.mpr ⟨h.2, List.isChain_singleton _, ?_⟩⟩
  · cases bs with
    | nil => exact fun h => by cases h
    | cons b bs => exact h.1
  · rintro b hb b' hb' rfl
    cases Option.mem_some.mp hb'
    exact hlast hb

theorem Alternates.lost {bs : List Bool} (h : Alternates bs) (hlast : bs.getLast? = some true) :
    Alternates (bs ++ [false]) := by
  refine ⟨?_, List.isChain_append.mpr ⟨h.2, List.isChain_singleton _, ?_⟩⟩
  · cases bs with
    | nil => cases hlast
    | cons b bs => exact h.1
  · rintro b hb b' hb' rfl
    cases Option.mem_some.mp hb'
    rw [Option.mem_def, hlast] at hb
    cases hb

@[simp] theorem heard_append (l : Listener) (p : GuidPrefix) (rs rs' : List Report) :
    heard l p (rs ++ rs') = heard l p rs ++ heard l p rs' := by
  rw [heard, List.filter_append, List.map_append]
  rfl

variable {s s' : SpdpEndpoints} {rs : List Report} {p : GuidPrefix}

theorem heard_notifyLost (l : Listener) (p : GuidPrefix) (g : Guid) :
    heard l p (s.notifyLost g) = if g.guidPrefix = p ∧ s.listening l then [false] else [] := by
  unfold SpdpEndpoints.notifyLost SpdpEndpoints.report heard
  by_cases hp : g.guidPrefix = p <;> cases l <;> cases hd : s.listening .dcps <;>
    cases hs : s.listening .sedp <;> simp [hp, hd, hs]

theorem heard_notifyDiscovered (l : Listener) (p : GuidPrefix) (data : ParticipantData) :
    heard l p (s.notifyDiscovered data) =
      if data.guid.guidPrefix = p ∧ s.listening l then [true] else [] := by
  unfold SpdpEndpoints.notifyDiscovered SpdpEndpoints.report heard
  by_cases hp : data.guid.guidPrefix = p <;> cases l <;> cases hd : s.listening .dcps <;>
    cases hs : s.listening .sedp <;> simp [hp, hd, hs]

/-- The reports are of what is in the table. -/
structure SpdpEndpoints.Agrees (s : SpdpEndpoints) (rs : List Report)
    (known : Table GuidPrefix KnownParticipant) : Prop where
  alternates : ∀ l p, Alternates (heard l p rs)
  last : ∀ l p, s.listening l → ((heard l p rs).getLast? = some true ↔ p ∈ known)

namespace SpdpEndpoints.Agrees

variable {known known' : Table GuidPrefix KnownParticipant} (h : s.Agrees rs known)
include h

/-- Of the table only the keys matter. -/
theorem congr (hk : ∀ p, p ∈ known' ↔ p ∈ known) : s.Agrees rs known' where
  alternates := h.alternates
  last l p hl := (h.last l p hl).trans (hk p).symm

theorem discover {kp : KnownParticipant} (hp : p ∉ known) (hkp : kp.data.guid.guidPrefix = p) :
    s.Agrees (rs ++ s.notifyDiscovered kp.data) (known.insert p kp) where
  alternates := by
    intro l q
    rw [heard_append, heard_notifyDiscovered, hkp]
    split
    next hq =>
      obtain ⟨rfl, hl⟩ := hq
      exact (h.alternates l p).discovered fun hlast => hp ((h.last l p hl).mp hlast)
    next => rw [List.append_nil]; exact h.alternates l q
  last := by
    intro l q hl
    rw [heard_append, heard_notifyDiscovered, hkp, AList.mem_insert]
    split
    next hq => simp [hq.1]
    next hq =>
      have hne : q ≠ p := fun e => hq ⟨e.symm, hl⟩
      rw [List.append_nil, h.last l q hl]
      simp [hne]

theorem drop {g : Guid} (hp : g.guidPrefix ∈ known) :
    s.Agrees (rs ++ s.notifyLost g) (known.erase g.guidPrefix) where
  alternates := by
    intro l q
    rw [heard_append, heard_notifyLost]
    split
    next hq =>
      obtain ⟨rfl, hl⟩ := hq
      exact (h.alternates l _).lost ((h.last l _ hl).mpr hp)
    next => rw [List.append_nil]; exact h.alternates l q
  last := by
    intro l q hl
    rw [heard_append, heard_notifyLost, AList.mem_erase]
    split
    next hq => simp [hq.1]
    next hq =>
      have hne : q ≠ g.guidPrefix := fun e => hq ⟨e.symm, hl⟩
      rw [List.append_nil, h.last l q hl]
      simp [hne]

omit h in
/-- Several participants are removed, and then all of them reported. -/
theorem dropAll : ∀ (gs : List Guid) {rs : List Report} {known : Table GuidPrefix KnownParticipant},
    s.Agrees rs known → (gs.map (·.guidPrefix)).Nodup → (∀ g ∈ gs, g.guidPrefix ∈ known) →
    s.Agrees (rs ++ gs.flatMap s.notifyLost)
      ((gs.map (·.guidPrefix)).foldl (fun t p => t.erase p) known)
  | [], rs, known, h, _, _ => by simpa using h
  | g :: gs, rs, known, h, hnodup, hmem => by
      obtain ⟨hg, hnodup⟩ := List.nodup_cons.mp hnodup
      have hrest : ∀ g' ∈ gs, g'.guidPrefix ∈ known.erase g.guidPrefix := by
        intro g' hg'
        refine AList.mem_erase.mpr ⟨fun e => hg ?_, hmem g' (List.mem_cons_of_mem _ hg')⟩
        exact List.mem_map.mpr ⟨g', hg', e⟩
      have ih := dropAll gs (h.drop (hmem g List.mem_cons_self)) hnodup hrest
      rwa [List.append_assoc] at ih

end SpdpEndpoints.Agrees

/-! ### Steps -/

/-- Every participant is under its own prefix. -/
def Keyed (known : Table GuidPrefix KnownParticipant) : Prop :=
  ∀ p kp, known.lookup p = some kp → kp.data.guid.guidPrefix = p

namespace Keyed

variable {known : Table GuidPrefix KnownParticipant} (h : Keyed known)
include h

theorem insert {kp : KnownParticipant} (hkp : kp.data.guid.guidPrefix = p) :
    Keyed (known.insert p kp) := by
  intro q kq hq
  rw [Table.lookup_insert_eq] at hq
  split at hq
  next e =>
    cases hq
    exact hkp.trans e.symm
  next => exact h q kq hq

theorem erase (p : GuidPrefix) : Keyed (known.erase p) := by
  intro q kq hq
  rw [Table.lookup_erase_eq] at hq
  split at hq
  next => cases hq
  next => exact h q kq hq

theorem update (p : GuidPrefix) {f : KnownParticipant → KnownParticipant}
    (hf : ∀ kp, (f kp).data = kp.data) : Keyed (known.update p f) := by
  intro q kq hq
  rw [Table.lookup_update_eq] at hq
  split at hq
  next e =>
    obtain ⟨kp, hkp, rfl⟩ := Option.map_eq_some_iff.mp hq
    rw [hf]
    exact (h p kp hkp).trans e.symm
  next => exact h q kq hq

end Keyed

theorem mem_update {known : Table GuidPrefix KnownParticipant} {q : GuidPrefix}
    (f : KnownParticipant → KnownParticipant) : q ∈ known.update p f ↔ q ∈ known := by
  unfold Table.update
  split
  next => exact Iff.rfl
  next kp hkp =>
    have hp : p ∈ known := AList.lookup_isSome.mp (by rw [hkp]; rfl)
    rw [AList.mem_insert]
    constructor
    · rintro (rfl | hq)
      · exact hp
      · exact hq
    · exact Or.inr

/-- Probes that begin leave the participants as they are, but for a mark. -/
theorem foldl_probe : ∀ (ps : List GuidPrefix) {known : Table GuidPrefix KnownParticipant},
    Keyed known →
    let known' := ps.foldl (fun t p => t.update p KnownParticipant.probed) known
    Keyed known' ∧ ∀ q, q ∈ known' ↔ q ∈ known
  | [], _, h => ⟨h, fun _ => Iff.rfl⟩
  | p :: ps, known, h => by
      obtain ⟨hk, hmem⟩ := foldl_probe ps (h.update p (f := KnownParticipant.probed) fun kp => rfl)
      exact ⟨hk, fun q => (hmem q).trans (mem_update _)⟩

theorem Keyed.foldl_erase : ∀ (ps : List GuidPrefix) {known : Table GuidPrefix KnownParticipant},
    Keyed known → Keyed (ps.foldl (fun t p => t.erase p) known)
  | [], _, h => h
  | p :: ps, _, h => Keyed.foldl_erase ps (h.erase p)

namespace SpdpEndpoints

/-- While the list takes all of them in, those removed are reported. -/
theorem evictGuids_prefixes (h : Keyed s.known) {e : Surroundings}
    (he : ∀ p ∈ s.toRemove e, e.evictGuids p) :
    (s.evictGuids e).map (·.guidPrefix) = s.toRemove e := by
  have hmem : ∀ p ∈ s.toRemove e, ∃ kp, s.known.lookup p = some kp := by
    intro p hp
    have hany := (Bool.and_eq_true_iff.mp (List.mem_filter.mp hp).2).1
    obtain ⟨kp, hkp, -⟩ := (Option.any_eq_true _ _).mp hany
    exact ⟨kp, hkp⟩
  unfold evictGuids
  rw [List.filter_eq_self.mpr he]
  generalize s.toRemove e = ps at hmem
  induction ps with
  | nil => rfl
  | cons p ps ih =>
    obtain ⟨kp, hkp⟩ := hmem p List.mem_cons_self
    rw [List.filterMap_cons, hkp, Option.map_some, List.map_cons,
      ih fun q hq => hmem q (List.mem_cons_of_mem _ hq), h p kp hkp]

end SpdpEndpoints

/-- The reports that the thread with `lifecycle_mu` still makes. -/
def SpdpFrame.notifying : SpdpFrame → Multiset (List Report)
  | notify rs _ _ => {rs}
  | _ => 0

/-- An announcement is processed under its sender's prefix. -/
def SpdpFrame.Keyed : SpdpFrame → Prop
  | enter p _ kp _ => kp.data.guid.guidPrefix = p
  | _ => True

/-- With the reports under way, those made are of what is in the table. -/
def SpdpEndpoints.Reported (s : SpdpEndpoints) (notifying : Multiset (List Report)) : Prop :=
  ∃ rs, notifying = (if s.lifecycleLocked then {rs} else 0) ∧
    (s.lifecycleLocked = false → rs = []) ∧ s.Agrees (s.reports ++ rs) s.known

namespace SpdpEndpoints

variable {ns : Multiset (List Report)}

theorem Reported.unlocked (h : s.Reported ns) (hl : s.lifecycleLocked = false) :
    ns = 0 ∧ s.Agrees s.reports s.known := by
  obtain ⟨rs, hn, hrs, hag⟩ := h
  rw [hl] at hn
  rw [hrs hl, List.append_nil] at hag
  exact ⟨hn, hag⟩

theorem Reported.notifying (h : s.Reported ({rs} + ns)) :
    s.lifecycleLocked = true ∧ ns = 0 ∧ s.Agrees (s.reports ++ rs) s.known := by
  obtain ⟨rs', hn, -, hag⟩ := h
  cases hl : s.lifecycleLocked with
  | false =>
    rw [hl, Multiset.singleton_add] at hn
    exact absurd hn (Multiset.cons_ne_zero)
  | true =>
    rw [hl, if_pos rfl, Multiset.singleton_add, eq_comm, Multiset.singleton_eq_cons_iff] at hn
    obtain ⟨rfl, hzero⟩ := hn
    exact ⟨rfl, hzero, hag⟩

/-- A step that neither reports nor changes who is in the table. -/
theorem Reported.still (h : s.Reported ns) (hs : s'.listening = s.listening)
    (hl : s'.lifecycleLocked = s.lifecycleLocked) (hr : s'.reports = s.reports)
    (hk : ∀ p, p ∈ s'.known ↔ p ∈ s.known) : s'.Reported ns := by
  obtain ⟨rs, hn, hrs, hag⟩ := h
  have hag' := hag.congr hk
  rw [Reported, hl, hr]
  exact ⟨rs, hn, hrs, ⟨hag'.alternates, fun l p hlis => hag'.last l p (hs ▸ hlis)⟩⟩

/-- A step that takes the lock, for changes that it goes on to report. -/
theorem Reported.begin (h : s.Reported ns) (hfree : s.lifecycleLocked = false)
    (hl : s'.lifecycleLocked = true) (hr : s'.reports = s.reports)
    (hag : s.Agrees s.reports s.known → s'.Agrees (s.reports ++ rs) s'.known) :
    s'.Reported ({rs} + ns) := by
  obtain ⟨rfl, hag₀⟩ := h.unlocked hfree
  rw [Reported, hl, hr]
  exact ⟨rs, rfl, (by intro h; cases h), hag hag₀⟩

/-- The listener lists are as they were. -/
theorem Agrees.listening {known : Table GuidPrefix KnownParticipant} (h : s.Agrees rs known)
    (hs : s'.listening = s.listening) : s'.Agrees rs known :=
  ⟨h.alternates, fun l p hl => h.last l p (hs ▸ hl)⟩

/-- What a step keeps. -/
structure Sound (s : SpdpEndpoints) (frames : Multiset SpdpFrame) : Prop where
  keyed : Keyed s.known
  entering : ∀ f ∈ frames, f.Keyed
  reported : s.Reported (frames.bind SpdpFrame.notifying)

variable {e : Surroundings} {f : SpdpFrame} {new : List SpdpFrame} {rest : Multiset SpdpFrame}

/-- A step whose frames report nothing. -/
theorem Sound.still (h : s.Sound (f ::ₘ rest)) (hf : f.notifying = 0)
    (hnew : ∀ g ∈ new, g.notifying = 0 ∧ g.Keyed) (hk : Keyed s'.known)
    (hs : s'.listening = s.listening) (hl : s'.lifecycleLocked = s.lifecycleLocked)
    (hr : s'.reports = s.reports) (hmem : ∀ p, p ∈ s'.known ↔ p ∈ s.known) :
    s'.Sound (↑new + rest) where
  keyed := hk
  entering := by
    intro g hg
    rcases Multiset.mem_add.mp hg with hg | hg
    · exact (hnew g hg).2
    · exact h.entering g (Multiset.mem_cons_of_mem hg)
  reported := by
    have hbind : (↑new : Multiset SpdpFrame).bind SpdpFrame.notifying = 0 :=
      (Multiset.bind_congr fun g hg => (hnew g hg).1).trans (Multiset.bind_zero _)
    have hrep := h.reported
    rw [Multiset.cons_bind, hf, zero_add] at hrep
    rw [Multiset.add_bind, hbind, zero_add]
    exact hrep.still hs hl hr hmem

/-- A step that takes the lock. -/
theorem Sound.begin {ps : List (GuidPrefix × ℤ)} {mu : Bool} (h : s.Sound (f ::ₘ rest))
    (hf : f.notifying = 0) (hk : Keyed s'.known) (hfree : s.lifecycleLocked = false)
    (hl : s'.lifecycleLocked = true) (hr : s'.reports = s.reports)
    (hag : s.Agrees s.reports s.known → s'.Agrees (s.reports ++ rs) s'.known) :
    s'.Sound (↑[SpdpFrame.notify rs ps mu] + rest) where
  keyed := hk
  entering := by
    intro g hg
    rcases Multiset.mem_add.mp hg with hg | hg
    · cases List.mem_singleton.mp hg
      trivial
    · exact h.entering g (Multiset.mem_cons_of_mem hg)
  reported := by
    have hrep := h.reported
    rw [Multiset.cons_bind, hf, zero_add] at hrep
    rw [Multiset.add_bind, Multiset.coe_singleton, Multiset.singleton_bind]
    exact hrep.begin hfree hl hr hag

/-- A step of the thread that reports. -/
theorem Sound.notify {ps : List (GuidPrefix × ℤ)} {mu : Bool}
    (h : s.Sound (.notify rs ps mu ::ₘ rest)) (hk : s'.known = s.known)
    (hnew : ∀ g ∈ new, g.Keyed)
    (hrep : s.lifecycleLocked = true → s.Agrees (s.reports ++ rs) s.known →
      s'.Reported ((↑new : Multiset SpdpFrame).bind SpdpFrame.notifying)) :
    s'.Sound (↑new + rest) where
  keyed := hk ▸ h.keyed
  entering := by
    intro g hg
    rcases Multiset.mem_add.mp hg with hg | hg
    · exact hnew g hg
    · exact h.entering g (Multiset.mem_cons_of_mem hg)
  reported := by
    have hrep' := h.reported
    rw [Multiset.cons_bind] at hrep'
    obtain ⟨hlock, hzero, hag⟩ := Reported.notifying hrep'
    rw [Multiset.add_bind, hzero, add_zero]
    exact hrep hlock hag

/-- Callbacks stay as they were set. -/
theorem run_listening (hrun : s.run e f = some (s', new)) : s'.listening = s.listening := by
  unfold run at hrun
  dsimp only at hrun
  repeat' split at hrun
  all_goals cases hrun
  all_goals rfl

/-- All evicted participants fit in the list of those to report. -/
def Meets (s : SpdpEndpoints) (e : Surroundings) : SpdpFrame → Prop
  | .evict now => let e := { e with now := now }; ∀ p ∈ s.toRemove e, e.evictGuids p
  | _ => True

/-- A participant is removed, if it is known. -/
theorem Sound.drop (h : s.Sound (f ::ₘ rest)) (hf : f.notifying = 0)
    (hfree : s.lifecycleLocked = false) {kp : KnownParticipant} (hkp : s.known.lookup p = some kp) :
    (s.drop p kp).1.Sound (↑(s.drop p kp).2 + rest) := by
  have hp : kp.data.guid.guidPrefix = p := h.keyed p kp hkp
  refine h.begin hf (h.keyed.erase p) hfree rfl rfl fun hag => ?_
  have hmem : kp.data.guid.guidPrefix ∈ s.known :=
    AList.lookup_isSome.mp (by rw [hp, hkp]; rfl)
  exact hp ▸ (hag.drop hmem).listening rfl

theorem Sound.run (h : s.Sound (f ::ₘ rest)) (hok : s.Meets e f)
    (hrun : s.run e f = some (s', new)) : s'.Sound (↑new + rest) := by
  have none_new : ∀ g ∈ ([] : List SpdpFrame), g.notifying = 0 ∧ g.Keyed := by
    intro g hg
    cases hg
  cases f with
  | processSpdpPayload p sn data =>
    simp only [SpdpEndpoints.run] at hrun
    split at hrun
    · cases hrun
    split at hrun
    · cases hrun
      exact h.still rfl none_new h.keyed rfl rfl rfl fun _ => Iff.rfl
    split at hrun
    · cases hrun
      exact h.still rfl none_new h.keyed rfl rfl rfl fun _ => Iff.rfl
    split at hrun
    · cases hrun
      exact h.still rfl none_new h.keyed rfl rfl rfl fun _ => Iff.rfl
    · cases hrun
      refine h.still rfl ?_ h.keyed rfl rfl rfl fun _ => Iff.rfl
      intro g hg
      cases List.mem_singleton.mp hg
      exact ⟨rfl, rfl⟩
  | enter p sn kp now =>
    have hkp : kp.data.guid.guidPrefix = p := h.entering _ (Multiset.mem_cons_self _ _)
    simp only [SpdpEndpoints.run] at hrun
    split at hrun
    · cases hrun
    next hfree =>
    obtain ⟨hfree, -⟩ := Bool.or_eq_false_iff.mp (Bool.eq_false_iff.mpr hfree)
    split at hrun
    next old hold =>
      cases hrun
      have hdata : (old.reannounced kp now sn).data = kp.data := by
        unfold KnownParticipant.reannounced
        dsimp only
        split_ifs <;> rfl
      refine h.still rfl ?_ (h.keyed.insert (hdata ▸ hkp)) rfl rfl rfl fun q => ?_
      · intro g hg
        split at hg
        · cases List.mem_singleton.mp hg
          exact ⟨rfl, trivial⟩
        · cases hg
      · have hp : p ∈ s.known := AList.lookup_isSome.mp (by rw [hold]; rfl)
        rw [AList.mem_insert]
        exact ⟨fun hq => hq.elim (fun e => e ▸ hp) id, Or.inr⟩
    next hnone =>
      split at hrun
      · cases hrun
        exact h.still rfl none_new h.keyed rfl rfl rfl fun _ => Iff.rfl
      · cases hrun
        refine h.begin rfl (h.keyed.insert hkp) hfree rfl rfl fun hag => ?_
        exact (hag.discover (AList.lookup_eq_none.mp hnone) hkp).listening rfl
  | removePeer p =>
    simp only [SpdpEndpoints.run] at hrun
    split at hrun
    · cases hrun
    next hfree =>
    obtain ⟨hfree, -⟩ := Bool.or_eq_false_iff.mp (Bool.eq_false_iff.mpr hfree)
    split at hrun
    · cases hrun
      exact h.still rfl none_new h.keyed rfl rfl rfl fun _ => Iff.rfl
    next kp hkp =>
      cases hrun
      exact h.drop rfl hfree hkp
  | onProbeResult p alive =>
    cases alive with
    | true =>
      simp only [SpdpEndpoints.run] at hrun
      split at hrun
      · cases hrun
      · cases hrun
        refine h.still rfl none_new (h.keyed.update p fun kp => ?_) rfl rfl rfl fun q => mem_update _
        split <;> rfl
    | false =>
      simp only [SpdpEndpoints.run] at hrun
      split at hrun
      · cases hrun
      next hfree =>
      obtain ⟨hfree, -⟩ := Bool.or_eq_false_iff.mp (Bool.eq_false_iff.mpr hfree)
      split at hrun
      · cases hrun
        exact h.still rfl none_new h.keyed rfl rfl rfl fun _ => Iff.rfl
      next kp hkp =>
        split at hrun
        · cases hrun
          exact h.drop rfl hfree hkp
        · cases hrun
          exact h.still rfl none_new h.keyed rfl rfl rfl fun _ => Iff.rfl
  | markSedpSeen p =>
    simp only [SpdpEndpoints.run] at hrun
    split at hrun
    · cases hrun
    · cases hrun
      exact h.still rfl none_new (h.keyed.update p fun _ => rfl) rfl rfl rfl fun q => mem_update _
  | checkLeases =>
    cases hrun
    refine h.still rfl ?_ h.keyed rfl rfl rfl fun _ => Iff.rfl
    intro g hg
    cases List.mem_singleton.mp hg
    exact ⟨rfl, trivial⟩
  | evict now =>
    simp only [SpdpEndpoints.run] at hrun
    split at hrun
    · cases hrun
    next hfree =>
    obtain ⟨hfree, -⟩ := Bool.or_eq_false_iff.mp (Bool.eq_false_iff.mpr hfree)
    cases hrun
    obtain ⟨hkeyed, hmem⟩ := foldl_probe (s.toProbe { e with now := now }) h.keyed
    refine h.begin rfl (hkeyed.foldl_erase _) hfree rfl rfl fun hag => ?_
    have hgs := s.evictGuids_prefixes h.keyed hok
    have hnodup : (s.toRemove { e with now := now }).Nodup := s.known.keys_nodup.filter _
    have hall := (hag.congr hmem).dropAll (s.evictGuids { e with now := now }) (hgs ▸ hnodup) ?_
    · rw [hgs] at hall
      exact hall.listening rfl
    · intro g hg
      have hin := List.mem_map_of_mem (f := fun g => g.guidPrefix) hg
      rw [hgs] at hin
      exact (hmem _).mpr (List.mem_filter.mp hin).1
  | notify rs ps mu =>
    cases rs with
    | cons r rs =>
      cases hrun
      refine h.notify rfl ?_ fun hlock hag => ⟨rs, ?_, ?_, ?_⟩
      · intro g hg
        cases List.mem_singleton.mp hg
        trivial
      · rw [if_pos hlock]
        rfl
      · intro hl
        rw [hlock] at hl
        cases hl
      · rw [List.append_assoc]
        exact hag.listening rfl
    | nil =>
      cases ps with
      | cons pb ps =>
        cases hrun
        refine h.notify rfl ?_ fun hlock hag => ⟨[], ?_, fun _ => rfl, hag.listening rfl⟩
        · intro g hg
          cases List.mem_singleton.mp hg
          trivial
        · rw [if_pos hlock]
          rfl
      | nil =>
        cases hrun
        refine h.notify rfl (fun g hg => (none_new g hg).2) fun _ hag => ⟨[], rfl, fun _ => rfl, ?_⟩
        exact hag.listening rfl
  | beginProbe p d =>
    cases hrun
    exact h.still rfl none_new h.keyed rfl rfl rfl fun _ => Iff.rfl

end SpdpEndpoints

/-! ### Runs -/

namespace SpdpMachine

variable {own : Option GuidPrefix} {domainId : ℕ} {listening : Listener → Bool}

/-- No report of an evicted participant is left out for want of memory. -/
def Meets (m : SpdpMachine) : SpdpAction → Prop
  | .turn i e => ∀ f, m.next i = some f → m.shared.Meets e f
  | _ => True

theorem init_sound : (init own domainId listening).shared.Sound (init own domainId listening).frames where
  keyed := by
    intro p kp h
    cases h
  entering := by
    intro f hf
    exact absurd hf (Multiset.notMem_zero f)
  reported := by
    refine ⟨[], rfl, fun _ => rfl, fun l p => ⟨?_, List.isChain_nil⟩, fun l p _ => ?_⟩
    · intro h
      cases h
    · exact ⟨(by intro h; cases h), (by intro h; cases h)⟩

theorem step_sound {m m' : SpdpMachine} {x : SpdpAction} (h : m.shared.Sound m.frames)
    (hok : m.Meets x) (hs : m.step x = some m') : m'.shared.Sound m'.frames := by
  have hcall : ∀ f, x.call = some f → f.notifying = 0 ∧ f.Keyed := by
    intro f hf
    cases x <;> cases hf <;> exact ⟨rfl, trivial⟩
  rcases x.call.eq_none_or_eq_some with hx | ⟨f, hx⟩
  · cases x with
    | turn i e =>
      obtain ⟨f, new, rest, hnext, hframes, hrun, hframes'⟩ := Threads.turn_frames (show m.turn (fun s => s.run e) i = some m' from hs)
      rw [hframes] at h
      rw [hframes']
      exact h.run (hok f hnext) hrun
    | _ => cases hx
  · have hm : m' = m.spawn m.shared [f] := by
      cases x <;> cases hx <;> exact (Option.some.inj hs).symm
    obtain ⟨hf, hkeyed⟩ := hcall f hx
    rw [hm, Threads.spawn_shared, Threads.spawn_frames]
    refine ⟨h.keyed, ?_, ?_⟩
    · intro g hg
      rcases Multiset.mem_add.mp hg with hg | hg
      · cases List.mem_singleton.mp hg
        exact hkeyed
      · exact h.entering g hg
    · rw [Multiset.add_bind, Multiset.coe_singleton, Multiset.singleton_bind, hf, zero_add]
      exact h.reported

theorem step_listening {m m' : SpdpMachine} {x : SpdpAction} (hs : m.step x = some m') :
    m'.shared.listening = m.shared.listening := by
  rcases x.call.eq_none_or_eq_some with hx | ⟨f, hx⟩
  · cases x with
    | turn i e =>
      obtain ⟨f, new, rest, -, -, hrun, -⟩ := Threads.turn_frames (show m.turn (fun s => s.run e) i = some m' from hs)
      exact SpdpEndpoints.run_listening hrun
    | _ => cases hx
  · cases x <;> cases hx <;> cases hs <;> rfl

variable {as : List SpdpAction} {m : SpdpMachine}

/-- Each participant is reported discovered and lost by turns, and whenever no thread has
`lifecycle_mu`, the participants last reported discovered are those in the table. -/
theorem reports_alternate (h : Run step Meets (init own domainId listening) as m) :
    (∀ l p, Alternates (heard l p m.shared.reports)) ∧
      (m.shared.lifecycleLocked = false → ∀ l, listening l → ∀ p,
        (heard l p m.shared.reports).getLast? = some true ↔ p ∈ m.shared.known) := by
  have hsound := h.inv init_sound fun _ _ _ => step_sound
  have hlis : m.shared.listening = listening :=
    Run.inv (I := fun m => m.shared.listening = listening) h rfl
      fun _ _ _ h _ hs => (step_listening hs).trans h
  obtain ⟨rs, -, hrs, hag⟩ := hsound.reported
  refine ⟨fun l p => ?_, fun hl l hlistens p => ?_⟩
  · have halt := hag.alternates l p
    rw [heard_append] at halt
    exact halt.of_append
  · rw [hrs hl, List.append_nil] at hag
    exact hag.last l p (by rw [hlis]; exact hlistens)

instance (s : SpdpEndpoints) (e : Surroundings) : ∀ f, Decidable (s.Meets e f)
  | .evict now => inferInstanceAs (Decidable (∀ p ∈ s.toRemove { e with now := now }, e.evictGuids p))
  | .processSpdpPayload _ _ _ => isTrue trivial
  | .enter _ _ _ _ => isTrue trivial
  | .removePeer _ => isTrue trivial
  | .onProbeResult _ _ => isTrue trivial
  | .markSedpSeen _ => isTrue trivial
  | .checkLeases => isTrue trivial
  | .notify _ _ _ => isTrue trivial
  | .beginProbe _ _ => isTrue trivial

instance (m : SpdpMachine) : ∀ x : SpdpAction, Decidable (m.Meets x)
  | .turn i e =>
      match h : m.next i with
      | none => isTrue fun f hf => by rw [h] at hf; cases hf
      | some f => decidable_of_iff (m.shared.Meets e f)
          ⟨fun hm g hg => by rw [h] at hg; cases hg; exact hm, fun hm => hm f h⟩
  | .processSpdpPayload _ _ _ => isTrue trivial
  | .removePeer _ => isTrue trivial
  | .onProbeResult _ _ => isTrue trivial
  | .markSedpSeen _ => isTrue trivial
  | .checkLeases => isTrue trivial

/-- The sender of the announcements below. -/
def peer : GuidPrefix := ⟨[1, 2, 3, 4, 5, 6, 7, 8, 9, 10, 11, 12], rfl⟩

/-- A participant is discovered, its lease expires, and it is discovered again; the check of leases
takes so many turns. -/
def rediscovery (turns : ℕ) (evictGuids : GuidPrefix → Bool) : List SpdpAction :=
  let announcement (i : ℕ) : List SpdpAction :=
    .processSpdpPayload peer 1 (some {}) :: List.replicate 5 (.turn i { now := 1 })
  announcement 0 ++ (.checkLeases ::
    List.replicate turns (.turn 1 { now := 10000000001, evictGuids := evictGuids })) ++ announcement 2

theorem reports_alternate_rediscovery :
    ∃ m, Run step Meets (init none 0 fun _ => true) (rediscovery 5 fun _ => true) m ∧
      heard .dcps peer m.shared.reports = [true, false, true] ∧
        (∀ l p, Alternates (heard l p m.shared.reports)) ∧
        (m.shared.lifecycleLocked = false → ∀ l, true → ∀ p,
          (heard l p m.shared.reports).getLast? = some true ↔ p ∈ m.shared.known) := by
  obtain ⟨m, hrun, hheard⟩ := exists_run_of_exec step Meets (init none 0 fun _ => true)
    (rediscovery 5 fun _ => true)
    (p := fun m => heard .dcps peer m.shared.reports = [true, false, true]) (by decide +kernel)
  exact ⟨m, hrun, hheard, reports_alternate hrun⟩

/-- The list of those to report cannot grow: the loss is not reported, and the participant is
discovered twice in a row. -/
theorem loss_not_reported :
    ∃ m, Run step (fun _ _ => True) (init none 0 fun _ => true) (rediscovery 3 fun _ => false) m ∧
      m.shared.lifecycleLocked = false ∧ ¬ Alternates (heard .dcps peer m.shared.reports) := by
  obtain ⟨m, hrun, hfree, hheard⟩ := exists_run_of_exec step (fun _ _ => True)
    (init none 0 fun _ => true) (rediscovery 3 fun _ => false)
    (p := fun m => m.shared.lifecycleLocked = false ∧
      heard .dcps peer m.shared.reports = [true, true]) (by decide +kernel)
  refine ⟨m, hrun, hfree, fun halt => ?_⟩
  rw [hheard] at halt
  exact absurd halt.2 (by decide)

end SpdpMachine

end Zzdds.Discovery
