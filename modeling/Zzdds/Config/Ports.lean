import Zzdds.Lib.Trapping

/-! # Ports of a participant

The port formula of the configuration.  It is computed in 16-bit arithmetic, and stops the program
where a product, a sum or a conversion does not fit. -/

namespace Zzdds.Config

open Lib Trapping

/-- The configuration that the unicast ports are computed from. -/
structure UdpConfig where
  portBase : UInt16 := 7400
  domainGain : UInt16 := 250
  participantGain : UInt16 := 2
  metaUnicastOffset : UInt16 := 10
  dataUnicastOffset : UInt16 := 11
  participantId : Option ℕ := none
  metaUnicastPort : Option UInt16 := none
  dataUnicastPort : Option UInt16 := none
deriving DecidableEq, Repr

/-- The values a `u16` has. -/
abbrev u16 : ℕ := 2 ^ 16

section Formula

variable (udp : UdpConfig) (domainId participantId : ℕ)

def rtpsPort (offset : UInt16) : Option ℕ := do
  let domain ← narrow u16 domainId
  let domains ← mul u16 udp.domainGain.toNat domain
  let port ← add u16 udp.portBase.toNat domains
  let participant ← narrow u16 participantId
  let participants ← mul u16 udp.participantGain.toNat participant
  let port ← add u16 port participants
  add u16 port offset.toNat

/-- A port that the configuration gives takes the place of the computed one. -/
def portOr (port : Option UInt16) (computed : Option ℕ) : Option ℕ :=
  match port with
  | some port => some port.toNat
  | none => computed

def metatrafficUnicastPort : Option ℕ :=
  portOr udp.metaUnicastPort (rtpsPort udp domainId participantId udp.metaUnicastOffset)

def defaultUnicastPort : Option ℕ :=
  portOr udp.dataUnicastPort (rtpsPort udp domainId participantId udp.dataUnicastOffset)

/-- The formula in exact numbers. -/
def exactPort (offset : UInt16) : ℕ :=
  udp.portBase.toNat + udp.domainGain.toNat * domainId +
    udp.participantGain.toNat * participantId + offset.toNat

end Formula

variable {udp : UdpConfig} {domainId participantId port : ℕ} {offset : UInt16}

/-- The formula is computed exactly, or not at all. -/
theorem rtpsPort_eq_some : rtpsPort udp domainId participantId offset = some port ↔
    domainId < 2 ^ 16 ∧ participantId < 2 ^ 16 ∧
      port = exactPort udp domainId participantId offset ∧ port < 2 ^ 16 := by
  unfold rtpsPort exactPort
  constructor
  · intro h
    obtain ⟨domain, hdomain, h⟩ := Option.bind_eq_some_iff.mp h
    obtain ⟨domains, hdomains, h⟩ := Option.bind_eq_some_iff.mp h
    obtain ⟨base, hbase, h⟩ := Option.bind_eq_some_iff.mp h
    obtain ⟨participant, hparticipant, h⟩ := Option.bind_eq_some_iff.mp h
    obtain ⟨participants, hparticipants, h⟩ := Option.bind_eq_some_iff.mp h
    obtain ⟨sum, hsum, h⟩ := Option.bind_eq_some_iff.mp h
    obtain ⟨hdomain, rfl⟩ := narrow_eq_some.mp hdomain
    obtain ⟨hparticipant, rfl⟩ := narrow_eq_some.mp hparticipant
    obtain ⟨-, rfl⟩ := mul_eq_some.mp hdomains
    obtain ⟨-, rfl⟩ := mul_eq_some.mp hparticipants
    obtain ⟨-, rfl⟩ := add_eq_some.mp hbase
    obtain ⟨-, rfl⟩ := add_eq_some.mp hsum
    obtain ⟨hport, rfl⟩ := add_eq_some.mp h
    exact ⟨hdomain, hparticipant, rfl, hport⟩
  · rintro ⟨hdomain, hparticipant, rfl, hport⟩
    have hu16 : u16 = 65536 := rfl
    rw [narrow_of_lt hdomain, narrow_of_lt hparticipant]
    simp only [Option.bind_eq_bind, Option.bind_some]
    rw [mul_of_lt (by omega), Option.bind_some, add_of_lt (by omega), Option.bind_some,
      mul_of_lt (by omega), Option.bind_some, add_of_lt (by omega), Option.bind_some,
      add_of_lt hport]

/-- No unicast port is given outright. -/
structure UdpConfig.Computed (udp : UdpConfig) : Prop where
  metaUnicastPort : udp.metaUnicastPort = none
  dataUnicastPort : udp.dataUnicastPort = none

theorem UdpConfig.Computed.metatrafficUnicastPort_eq (h : udp.Computed) :
    Config.metatrafficUnicastPort udp domainId participantId =
      rtpsPort udp domainId participantId udp.metaUnicastOffset := by
  rw [Config.metatrafficUnicastPort, h.metaUnicastPort, portOr]

theorem UdpConfig.Computed.defaultUnicastPort_eq (h : udp.Computed) :
    Config.defaultUnicastPort udp domainId participantId =
      rtpsPort udp domainId participantId udp.dataUnicastOffset := by
  rw [Config.defaultUnicastPort, h.dataUnicastPort, portOr]

end Zzdds.Config
