import Zzdds.Lib.Bytes

/-! # Identifiers, sequence numbers and time

The scalar types of the RTPS layer: `guid.zig`, `sequence_number.zig` and the wire types of
`util/time.zig`.  A sequence number (`SequenceNumber`, an `i64` in the source, whose valid
values start at `1`) is an integer here, and `OnWire` says which of them the wire form
`toWire`/`fromWire` carries.  Counts of
HEARTBEAT and ACKNACK submessages are `i32`, and stay `Int32`. -/

namespace Zzdds.Rtps

open Zzdds.Lib

/-! ### GUIDs -/

/-- 12-byte participant-scoped GUID prefix. -/
abbrev GuidPrefix := Bytes 12

def GuidPrefix.unknown : GuidPrefix := Bytes.zeroes 12

/-- 4-byte entity identifier: 3-byte key and 1-byte kind. -/
structure EntityId where
  entityKey : Bytes 3
  entityKind : UInt8
deriving DecidableEq, Repr

def EntityId.unknown : EntityId := ⟨Bytes.zeroes 3, 0⟩

/-- Full 16-byte RTPS GUID. -/
structure Guid where
  guidPrefix : GuidPrefix
  entityId : EntityId
deriving DecidableEq, Repr

/-- MD5 of the serialized key fields; all zeroes for keyless types. -/
abbrev KeyHash := Bytes 16

/-! ### Sequence numbers -/

def SEQUENCENUMBER_UNKNOWN : ℤ := -1

/-- On-wire form: two 32-bit words. -/
structure SequenceNumberWire where
  high : Int32
  low : UInt32
deriving DecidableEq, Repr

/-- Pack a logical sequence number into wire form. -/
def toWire (sn : ℤ) : SequenceNumberWire :=
  if sn = SEQUENCENUMBER_UNKNOWN then ⟨-1, 0⟩
  else ⟨Int32.ofInt (sn / 2 ^ 32), UInt32.ofNat (sn % 2 ^ 32).toNat⟩

/-- Unpack wire form to a logical sequence number. -/
def fromWire (w : SequenceNumberWire) : ℤ :=
  if w.high = -1 ∧ w.low = 0 then SEQUENCENUMBER_UNKNOWN
  else w.high.toInt * 2 ^ 32 + w.low.toNat

/-- The sequence numbers that survive the wire: every non-negative `i64`, and the sentinel
for "unknown". -/
def OnWire (sn : ℤ) : Prop := (0 ≤ sn ∧ sn < 2 ^ 63) ∨ sn = SEQUENCENUMBER_UNKNOWN

instance (sn : ℤ) : Decidable (OnWire sn) := inferInstanceAs (Decidable (_ ∨ _))

theorem fromWire_toWire {sn : ℤ} (h : OnWire sn) : fromWire (toWire sn) = sn := by
  rcases h with ⟨h0, h1⟩ | rfl
  · have hne : sn ≠ SEQUENCENUMBER_UNKNOWN := by
      unfold SEQUENCENUMBER_UNKNOWN
      omega
    have hhi : (Int32.ofInt (sn / 2 ^ 32)).toInt = sn / 2 ^ 32 := by
      rw [Int32.toInt_ofInt]
      apply Int.bmod_eq_of_le <;> norm_num [Int32.size] <;> omega
    have hlo : (UInt32.ofNat (sn % 2 ^ 32).toNat).toNat = (sn % 2 ^ 32).toNat := by
      rw [UInt32.toNat_ofNat']
      apply Nat.mod_eq_of_lt
      omega
    have hhigh : Int32.ofInt (sn / 2 ^ 32) ≠ -1 := by
      intro e
      rw [e] at hhi
      have : (-1 : Int32).toInt = -1 := by decide
      omega
    rw [toWire, if_neg hne, fromWire, if_neg (fun e => hhigh e.1), hhi, hlo]
    omega
  · decide

/-! ### Time -/

/-- RTPS timestamp: `fraction` counts units of `2⁻³²` seconds. -/
structure RtpsTimestamp where
  seconds : UInt32
  fraction : UInt32
deriving DecidableEq, Repr

/-- RTPS duration: `fraction` counts units of `2⁻³²` seconds. -/
structure RtpsDuration where
  seconds : Int32
  fraction : UInt32
deriving DecidableEq, Repr

/-! ### Locators -/

/-- A transport endpoint, as `transport/interface.zig` has it. -/
inductive Locator where
  | invalid
  | udpV4 (addr : Bytes 4) (port : UInt16)
  | udpV6 (addr : Bytes 16) (port : UInt16)
  | shmem (hostId : UInt64) (channelId : UInt32)
  | shmemZc (hostId : UInt64) (writerEntity : Bytes 4)
  | tcpV4 (addr : Bytes 4) (port : UInt16)
  | tcpV6 (addr : Bytes 16) (port : UInt16)
  | custom (kind : Int32) (port : UInt32) (address : Bytes 16)
deriving DecidableEq, Repr

end Zzdds.Rtps
