import Mathlib.Algebra.Order.Floor.Div
import Zzdds.Config.Ports
import Zzdds.Transport.UdpTransport

/-! # Ids of participants

A transport without a given participant id takes the first one whose two unicast ports it can bind,
from a range computed beforehand.  The range is computed in 32-bit arithmetic and the ports in
16-bit arithmetic; they agree unless the ports of id 0 are too high and none of them is too low.
Then the range is just 0, and computing its port stops the program. -/

namespace Zzdds.Transport

open Lib Trapping Config

structure IdRange where
  min : ℕ
  max : ℕ
deriving DecidableEq, Repr

/-- The least id whose lower port is not below 1024. -/
def minPid (pg base dMin : ℕ) : Option ℕ := do
  let lowest ← add u32 base dMin
  if 1024 ≤ lowest then pure 0
  else
    let missing ← sub (← sub 1024 base) dMin
    div (← sub (← add u32 missing pg) 1) pg

/-- The greatest id whose higher port is not above 65535, or 0. -/
def maxPid (pg base dMax : ℕ) : Option ℕ := do
  let highest ← add u32 base dMax
  if 65535 < highest then pure 0
  else div (← sub (← sub 65535 base) dMax) pg

def participantIdRange (cfg : Config.UdpConfig) (domainId : ℕ) : Option IdRange := do
  let pg := cfg.participantGain.toNat
  let dMax := max cfg.metaUnicastOffset.toNat cfg.dataUnicastOffset.toNat
  let dMin := min cfg.metaUnicastOffset.toNat cfg.dataUnicastOffset.toNat
  let domains ← mul u32 cfg.domainGain.toNat domainId
  let base ← add u32 cfg.portBase.toNat domains
  let min ← minPid pg base dMin
  let max ← maxPid pg base dMax
  pure ⟨min, max⟩

inductive AssignError
  | participantIdExhausted
deriving DecidableEq, Repr

/-- A participant id, and the sockets bound to its ports. -/
structure Assignment where
  participantId : ℕ
  reservedMetaFd : Option Fd := none
  reservedDataFd : Option Fd := none
deriving DecidableEq, Repr

/-! ### Taking an id

The state of the system, `ε`, decides which ports can be bound. -/

section Assign

variable {ε : Type} (tryBindPort : ℕ → ε → Option Fd × ε) (socketClose : Fd → ε → ε)
  (cfg : Config.UdpConfig) (domainId : ℕ)

/-- Try an id: `none` if a port cannot be bound. -/
def tryId (pid : ℕ) (e : ε) : Option (Option Assignment × ε) := do
  let metaPort ← metatrafficUnicastPort cfg domainId pid
  match tryBindPort metaPort e with
  | (none, e) => pure (none, e)
  | (some metaFd, e) =>
    let dataPort ← defaultUnicastPort cfg domainId pid
    if dataPort ≠ metaPort then
      match tryBindPort dataPort e with
      | (none, e) => pure (none, socketClose metaFd e)
      | (some dataFd, e) => pure (some ⟨pid, some metaFd, some dataFd⟩, e)
    else pure (some ⟨pid, some metaFd, none⟩, e)

/-- Try the ids from `pid` to `last`. -/
def assignFrom (last pid : ℕ) (e : ε) : Option (Except AssignError Assignment × ε) :=
  if pid ≤ last then
    match tryId tryBindPort socketClose cfg domainId pid e with
    | none => none
    | some (some assignment, e) => some (.ok assignment, e)
    | some (none, e) => if pid + 1 < u32 then assignFrom last (pid + 1) e else none
  else some (.error .participantIdExhausted, e)
termination_by last + 1 - pid

def autoAssignParticipantId (e : ε) : Option (Except AssignError Assignment × ε) :=
  match cfg.participantId with
  | some fixed => some (.ok { participantId := fixed }, e)
  | none => do
    let range ← participantIdRange cfg domainId
    if range.max < range.min then pure (.error .participantIdExhausted, e)
    else assignFrom tryBindPort socketClose cfg domainId range.max range.min e

end Assign

/-! ### The range -/

section Range

variable (cfg : Config.UdpConfig) (domainId : ℕ)

/-- Both unicast ports of the id, computed exactly, are unprivileged ports. -/
def InPlace (pid : ℕ) : Prop :=
  ∀ offset ∈ [cfg.metaUnicastOffset, cfg.dataUnicastOffset],
    exactPort cfg domainId pid offset ∈ Set.Icc 1024 65535

/-- A port of id 0 is too high, and none is too low. -/
def Misjudged : Prop :=
  (∃ offset ∈ [cfg.metaUnicastOffset, cfg.dataUnicastOffset],
    65535 < exactPort cfg domainId 0 offset) ∧
  ∀ offset ∈ [cfg.metaUnicastOffset, cfg.dataUnicastOffset],
    1024 ≤ exactPort cfg domainId 0 offset

/-- The range has the ids in place and no others, and their ports are computed. -/
structure IdRange.Exact (range : IdRange) : Prop where
  mem_iff : ∀ pid, pid ∈ Set.Icc range.min range.max ↔ InPlace cfg domainId pid
  empty_iff : range.max < range.min ↔ ¬ ∃ pid, InPlace cfg domainId pid
  metaPort : ∀ pid ∈ Set.Icc range.min range.max, metatrafficUnicastPort cfg domainId pid =
    some (exactPort cfg domainId pid cfg.metaUnicastOffset)
  dataPort : ∀ pid ∈ Set.Icc range.min range.max, defaultUnicastPort cfg domainId pid =
    some (exactPort cfg domainId pid cfg.dataUnicastOffset)

/-- The range is computed without a trap and is exact, and taking an id never traps. -/
structure ExactIds : Prop where
  range : ∃ range, participantIdRange cfg domainId = some range ∧ range.Exact cfg domainId
  assigned : ∀ {ε : Type} (tryBindPort : ℕ → ε → Option Fd × ε) (socketClose : Fd → ε → ε) (e : ε),
    (autoAssignParticipantId tryBindPort socketClose cfg domainId e).isSome

end Range

variable {cfg : Config.UdpConfig} {domainId pid : ℕ}

theorem inPlace_iff : InPlace cfg domainId pid ↔
    1024 ≤ cfg.portBase.toNat + cfg.domainGain.toNat * domainId +
      min cfg.metaUnicastOffset.toNat cfg.dataUnicastOffset.toNat +
        cfg.participantGain.toNat * pid ∧
    cfg.portBase.toNat + cfg.domainGain.toNat * domainId +
      max cfg.metaUnicastOffset.toNat cfg.dataUnicastOffset.toNat +
        cfg.participantGain.toNat * pid ≤ 65535 := by
  simp only [InPlace, exactPort, List.forall_mem_cons, List.not_mem_nil, IsEmpty.forall_iff,
    implies_true, and_true, Set.mem_Icc]
  omega

theorem misjudged_iff : Misjudged cfg domainId ↔
    65535 < cfg.portBase.toNat + cfg.domainGain.toNat * domainId +
      max cfg.metaUnicastOffset.toNat cfg.dataUnicastOffset.toNat ∧
    1024 ≤ cfg.portBase.toNat + cfg.domainGain.toNat * domainId +
      min cfg.metaUnicastOffset.toNat cfg.dataUnicastOffset.toNat := by
  simp only [Misjudged, exactPort, List.forall_mem_cons, List.exists_mem_cons_iff, List.not_mem_nil,
    IsEmpty.forall_iff, implies_true, and_true, false_and, exists_false, or_false, Nat.mul_zero]
  omega

section Bounds

variable {pg base d : ℕ}

theorem minPid_eq (hpg : 0 < pg) (hlt : pg < 2 ^ 16) (hbase : base + d < u32) : minPid pg base d =
    some (if 1024 ≤ base + d then 0 else (1024 - base - d) ⌈/⌉ pg) := by
  have hu32 : u32 = 4294967296 := rfl
  unfold minPid
  simp only [Option.bind_eq_bind, Option.pure_def]
  rw [add_of_lt hbase, Option.bind_some]
  split_ifs with h
  · rfl
  · rw [sub_of_le (by omega), Option.bind_some, sub_of_le (by omega), Option.bind_some,
      add_of_lt (by omega), Option.bind_some, sub_of_le (by omega), Option.bind_some,
      div_of_pos hpg, Nat.ceilDiv_eq_add_pred_div]

theorem maxPid_eq (hpg : 0 < pg) (hbase : base + d < u32) : maxPid pg base d =
    some (if 65535 < base + d then 0 else (65535 - base - d) / pg) := by
  unfold maxPid
  simp only [Option.bind_eq_bind, Option.pure_def]
  rw [add_of_lt hbase, Option.bind_some]
  split_ifs with h
  · rfl
  · rw [sub_of_le (by omega), Option.bind_some, sub_of_le (by omega), Option.bind_some,
      div_of_pos hpg]

/-- The bounds are those of the ids in place, unless they are misjudged. -/
theorem mem_bounds_iff {dMin dMax pid : ℕ} (hpg : 0 < pg)
    (h : ¬ (65535 < base + dMax ∧ 1024 ≤ base + dMin)) (hle : dMin ≤ dMax) :
    ((if 1024 ≤ base + dMin then 0 else (1024 - base - dMin) ⌈/⌉ pg) ≤ pid ∧
      pid ≤ if 65535 < base + dMax then 0 else (65535 - base - dMax) / pg) ↔
    1024 ≤ base + dMin + pg * pid ∧ base + dMax + pg * pid ≤ 65535 := by
  have hlow : (if 1024 ≤ base + dMin then 0 else (1024 - base - dMin) ⌈/⌉ pg) ≤ pid ↔
      1024 ≤ base + dMin + pg * pid := by
    split_ifs with hlow
    · exact ⟨fun _ => by omega, fun _ => Nat.zero_le _⟩
    · rw [ceilDiv_le_iff_le_mul hpg]
      omega
  rw [hlow]
  refine and_congr_right fun hport => ?_
  split_ifs with hhigh
  · -- The lower port of id 0 is too low, and of the others the higher one is too high.
    constructor
    · intro hpid
      rw [Nat.le_zero.mp hpid] at hport
      omega
    · intro hpid
      omega
  · rw [Nat.le_div_iff_mul_le hpg, Nat.mul_comm]
    omega

end Bounds

section Computed

variable {base dMin dMax : ℕ} (hbase : base = cfg.portBase.toNat + cfg.domainGain.toNat * domainId)
  (hmin : dMin = min cfg.metaUnicastOffset.toNat cfg.dataUnicastOffset.toNat)
  (hmax : dMax = max cfg.metaUnicastOffset.toNat cfg.dataUnicastOffset.toNat)

include hbase hmin hmax

/-- The range is computed without a trap. -/
theorem participantIdRange_eq (hgain : 0 < cfg.participantGain.toNat) (hdomain : domainId ≤ 232) :
    participantIdRange cfg domainId = some {
      min := if 1024 ≤ base + dMin then 0 else (1024 - base - dMin) ⌈/⌉ cfg.participantGain.toNat
      max := if 65535 < base + dMax then 0
        else (65535 - base - dMax) / cfg.participantGain.toNat } := by
  have hdomains : cfg.domainGain.toNat * domainId ≤ 65535 * 232 :=
    Nat.mul_le_mul (Nat.le_of_lt_succ cfg.domainGain.toNat_lt) hdomain
  have hportBase := cfg.portBase.toNat_lt
  have hmeta := cfg.metaUnicastOffset.toNat_lt
  have hdata := cfg.dataUnicastOffset.toNat_lt
  have hu32 : u32 = 4294967296 := rfl
  unfold participantIdRange
  simp only [Option.bind_eq_bind, Option.pure_def]
  rw [mul_of_lt (by omega), Option.bind_some, add_of_lt (by omega), Option.bind_some, ← hmin,
    ← hmax, ← hbase, minPid_eq hgain cfg.participantGain.toNat_lt (by omega), Option.bind_some,
    maxPid_eq hgain (by omega), Option.bind_some]

end Computed

/-- Unless it is misjudged, the range has the ids in place. -/
theorem mem_range_iff (hgain : 0 < cfg.participantGain.toNat) (hdomain : domainId ≤ 232)
    (h : ¬ Misjudged cfg domainId) : ∃ range, participantIdRange cfg domainId = some range ∧
      ∀ pid, pid ∈ Set.Icc range.min range.max ↔ InPlace cfg domainId pid := by
  refine ⟨_, participantIdRange_eq rfl rfl rfl hgain hdomain, fun pid => ?_⟩
  rw [misjudged_iff] at h
  rw [inPlace_iff]
  exact mem_bounds_iff hgain h (min_le_max)

/-- The ports of an id in place are computed. -/
theorem InPlace.rtpsPort_eq (h : InPlace cfg domainId pid) (hgain : 0 < cfg.participantGain.toNat)
    (hdomain : domainId ≤ 232) {offset : UInt16}
    (hoffset : offset ∈ [cfg.metaUnicastOffset, cfg.dataUnicastOffset]) :
    rtpsPort cfg domainId pid offset = some (exactPort cfg domainId pid offset) := by
  have hport := (h offset hoffset).2
  have hpid : pid ≤ cfg.participantGain.toNat * pid := Nat.le_mul_of_pos_left pid hgain
  refine rtpsPort_eq_some.mpr ⟨by omega, ?_, rfl, by omega⟩
  rw [exactPort] at hport
  omega

theorem IdRange.exact_of_mem_iff {range : IdRange} (hcfg : cfg.Computed)
    (hgain : 0 < cfg.participantGain.toNat) (hdomain : domainId ≤ 232)
    (h : ∀ pid, pid ∈ Set.Icc range.min range.max ↔ InPlace cfg domainId pid) :
    range.Exact cfg domainId where
  mem_iff := h
  empty_iff := by
    simp only [← h, Set.mem_Icc, not_exists]
    exact ⟨fun hlt pid => by omega, fun hnone => not_le.mp fun hle => hnone _ ⟨le_rfl, hle⟩⟩
  metaPort pid hpid := by
    rw [hcfg.metatrafficUnicastPort_eq]
    exact ((h pid).mp hpid).rtpsPort_eq hgain hdomain List.mem_cons_self
  dataPort pid hpid := by
    rw [hcfg.defaultUnicastPort_eq]
    exact ((h pid).mp hpid).rtpsPort_eq hgain hdomain (List.mem_cons_of_mem _ List.mem_cons_self)

/-! ### Taking an id -/

section Assign

variable {ε : Type} {tryBindPort : ℕ → ε → Option Fd × ε} {socketClose : Fd → ε → ε} {e : ε}

/-- An id whose ports are computed is tried without a trap. -/
theorem tryId_isSome {metaPort dataPort : ℕ}
    (hmeta : metatrafficUnicastPort cfg domainId pid = some metaPort)
    (hdata : defaultUnicastPort cfg domainId pid = some dataPort) :
    (tryId tryBindPort socketClose cfg domainId pid e).isSome := by
  unfold tryId
  rw [hmeta, Option.bind_eq_bind, Option.bind_some]
  split
  · rfl
  · rw [hdata, Option.bind_some]
    split_ifs
    · split <;> rfl
    · rfl

/-- If no id is tried with a trap, none is taken with one. -/
theorem assignFrom_isSome {last : ℕ} (hlast : last + 1 < u32)
    (h : ∀ pid' ∈ Set.Icc pid last, ∀ e,
      (tryId tryBindPort socketClose cfg domainId pid' e).isSome) :
    (assignFrom tryBindPort socketClose cfg domainId last pid e).isSome := by
  induction pid, e using assignFrom.induct tryBindPort socketClose cfg domainId last with
  | case1 pid e hle hnone =>
    have htry := h pid ⟨le_rfl, hle⟩ e
    rw [hnone] at htry
    cases htry
  | case2 pid e hle assignment e' hsome =>
    rw [assignFrom, if_pos hle, hsome]
    rfl
  | case3 pid e hle e' hsome hlt ih =>
    rw [assignFrom, if_pos hle, hsome]
    dsimp only
    rw [if_pos hlt]
    exact ih fun pid' hpid' => h pid' ⟨Nat.le_of_succ_le hpid'.1, hpid'.2⟩
  | case4 pid e hle e' hsome hlt => omega
  | case5 pid e hle =>
    rw [assignFrom, if_neg hle]
    rfl

/-- With an exact range no id is taken with a trap. -/
theorem IdRange.Exact.autoAssign_isSome {range : IdRange} (hexact : range.Exact cfg domainId)
    (hrange : participantIdRange cfg domainId = some range)
    (hgain : 0 < cfg.participantGain.toNat) :
    (autoAssignParticipantId tryBindPort socketClose cfg domainId e).isSome := by
  unfold autoAssignParticipantId
  split
  · rfl
  · rw [hrange, Option.bind_eq_bind, Option.bind_some]
    split_ifs with hempty
    · rfl
    · have hmem : range.max ∈ Set.Icc range.min range.max := ⟨not_lt.mp hempty, le_rfl⟩
      have hport := ((hexact.mem_iff range.max).mp hmem _ List.mem_cons_self).2
      have hmax : range.max ≤ cfg.participantGain.toNat * range.max :=
        Nat.le_mul_of_pos_left _ hgain
      have hu32 : u32 = 4294967296 := rfl
      rw [exactPort] at hport
      exact assignFrom_isSome (by omega) fun pid hpid e =>
        tryId_isSome (hexact.metaPort pid hpid) (hexact.dataPort pid hpid)

end Assign

/-- The range of ids is exact, and no id is taken with a trap, if and only if the range is not
misjudged. -/
theorem exactIds_iff (hcfg : cfg.Computed) (hgain : 0 < cfg.participantGain.toNat)
    (hdomain : domainId ≤ 232) : ExactIds cfg domainId ↔ ¬ Misjudged cfg domainId := by
  constructor
  · rintro ⟨⟨range, hrange, hexact⟩, -⟩ hmisjudged
    obtain ⟨hhigh, hlow⟩ := misjudged_iff.mp hmisjudged
    rw [participantIdRange_eq rfl rfl rfl hgain hdomain, if_pos hhigh, if_pos hlow] at hrange
    obtain ⟨⟨offset, hoffset, hport⟩, -⟩ := hmisjudged
    cases hrange
    exact absurd ((hexact.mem_iff 0).mp ⟨le_rfl, le_rfl⟩ offset hoffset).2 (not_le.mpr hport)
  · intro h
    obtain ⟨range, hrange, hmem⟩ := mem_range_iff hgain hdomain h
    have hexact := IdRange.exact_of_mem_iff hcfg hgain hdomain hmem
    exact ⟨⟨range, hrange, hexact⟩, fun _ _ _ => hexact.autoAssign_isSome hrange hgain⟩

theorem exactIds_default : ExactIds {} 0 := by
  have hports : ∀ offset ∈ [(10 : UInt16), 11], exactPort {} 0 0 offset ≤ 65535 := by
    simp only [List.forall_mem_cons, List.not_mem_nil, false_implies, implies_true, and_true]
    exact ⟨by decide, by decide⟩
  refine (exactIds_iff ⟨rfl, rfl⟩ (by decide) (by decide)).mpr ?_
  rintro ⟨⟨offset, hoffset, hlt⟩, -⟩
  exact absurd (hports offset hoffset) (not_le.mpr hlt)

/-- A port base of 65535 leaves only id 0, whose port is computed with a trap. -/
theorem not_exactIds_highBase : ¬ ∀ (cfg : Config.UdpConfig) (domainId : ℕ), cfg.Computed →
    0 < cfg.participantGain.toNat → domainId ≤ 232 → ExactIds cfg domainId := by
  intro h
  let cfg : Config.UdpConfig := { portBase := 65535 }
  have hrange : participantIdRange cfg 0 = some ⟨0, 0⟩ := by decide
  have htrap : tryId (fun _ (e : Unit) => (none, e)) (fun _ e => e) cfg 0 0 () = none := by decide
  have hassigned := (h cfg 0 ⟨rfl, rfl⟩ (by decide) (by decide)).assigned
    (fun _ (e : Unit) => (none, e)) (fun _ e => e) ()
  rw [autoAssignParticipantId, show cfg.participantId = none from rfl] at hassigned
  dsimp only at hassigned
  rw [hrange, Option.bind_eq_bind, Option.bind_some, if_neg (by decide), assignFrom,
    if_pos (Nat.le_refl 0), htrap] at hassigned
  cases hassigned

end Zzdds.Transport
