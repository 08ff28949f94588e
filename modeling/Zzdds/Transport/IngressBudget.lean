import Zzdds.Lib.Run
import Zzdds.Lib.Trapping
import Mathlib.Algebra.BigOperators.Fin

/-! # The ingress budget

`IngressBudget` of `ingress_budget.zig`: room for received data, by records and by bytes, in
aggregate and for each peer, and the streams that wait for it.  Each operation is one critical
section; none is where the program stops at an overflow. -/

namespace Zzdds.Transport

open Lib Trapping

/-! ### The budget -/

abbrev bucketCount : ℕ := 32

structure Bucket where
  records : ℕ := 0
  bytes : ℕ := 0
deriving DecidableEq, Repr

structure Admission where
  bucket : Fin bucketCount
  len : ℕ
deriving DecidableEq, Repr

/-- A `RoomWaiter` in the queue. -/
structure RoomWaiter where
  waiter : ℕ
  key : ℕ
  len : ℕ
deriving DecidableEq, Repr

structure IngressBudget where
  recordLimit : ℕ
  byteLimit : ℕ
  records : ℕ := 0
  bytes : ℕ := 0
  buckets : Fin bucketCount → Bucket := fun _ => {}
  active : ℕ := 0
  waiters : List RoomWaiter := []

def bucketOf (key : ℕ) : Fin bucketCount := ⟨key % bucketCount, Nat.mod_lt _ (by decide)⟩

namespace IngressBudget

variable (g : IngressBudget)

/-- At most the limit, so that it does not overflow. -/
def maxPeerRecords : ℕ := g.recordLimit / 4 * 3 + g.recordLimit % 4 * 3 / 4

def maxPeerBytes : ℕ := g.byteLimit / 4 * 3 + g.byteLimit % 4 * 3 / 4

def fitsLocked (b : Fin bucketCount) (len : ℕ) : Option Bool :=
  if g.recordLimit ≤ g.records then some false else
  (add usize g.bytes len).bind fun bytes =>
  if g.byteLimit < bytes then some false else
  (add u32 (g.buckets b).records 1).bind fun peerRecords =>
  if g.maxPeerRecords < peerRecords then some false else
  (add usize (g.buckets b).bytes len).bind fun peerBytes =>
  if g.maxPeerBytes < peerBytes then some false else
  (add u32 g.records 1).bind fun records =>
  (mul u32 records 2).bind fun twice =>
  (if twice ≤ g.recordLimit then (mul usize bytes 2).map (decide <| · ≤ g.byteLimit)
    else some false).bind fun half =>
  if half then some true else
  (add usize g.active (if (g.buckets b).records = 0 then 1 else 0)).bind fun peers =>
  (mul usize peerRecords peers).bind fun share =>
  if share ≤ g.recordLimit then (mul usize peerBytes peers).map (decide <| · ≤ g.byteLimit)
    else some false

def admitData (key len : ℕ) : Option (IngressBudget × Option Admission) :=
  let b := bucketOf key
  (g.fitsLocked b len).bind fun fits =>
    if !fits then some (g, none)
    else
      (if (g.buckets b).records = 0 then add u32 g.active 1 else some g.active).bind fun active =>
      (add u32 (g.buckets b).records 1).bind fun peerRecords =>
      (add usize (g.buckets b).bytes len).bind fun peerBytes =>
      (add u32 g.records 1).bind fun records =>
      (add usize g.bytes len).map fun bytes =>
        ({ g with
            records := records
            bytes := bytes
            buckets := Function.update g.buckets b ⟨peerRecords, peerBytes⟩
            active := active }, some ⟨b, len⟩)

/-- The queue after its waiters that fit were run, and these. -/
def runWaitersLocked : List RoomWaiter → Option (List RoomWaiter × List RoomWaiter)
  | [] => some ([], [])
  | w :: ws => (g.fitsLocked (bucketOf w.key) w.len).bind fun fits =>
      (runWaitersLocked ws).map fun (queued, ran) =>
        if fits then (queued, w :: ran) else (w :: queued, ran)

def runWaiters : Option (IngressBudget × List RoomWaiter) :=
  (g.runWaitersLocked g.waiters).map fun (queued, ran) => ({ g with waiters := queued }, ran)

def release (a : Admission) : Option (IngressBudget × List RoomWaiter) :=
  (sub (g.buckets a.bucket).records 1).bind fun peerRecords =>
  (sub (g.buckets a.bucket).bytes a.len).bind fun peerBytes =>
  (if peerRecords = 0 then sub g.active 1 else some g.active).bind fun active =>
  (sub g.records 1).bind fun records =>
  (sub g.bytes a.len).bind fun bytes =>
    runWaiters { g with
      records := records
      bytes := bytes
      buckets := Function.update g.buckets a.bucket ⟨peerRecords, peerBytes⟩
      active := active }

/-- A queued waiter is not queued again; what it waits for is its latest data. -/
def enqueue (w : RoomWaiter) : List RoomWaiter :=
  if g.waiters.any (·.waiter = w.waiter) then
    g.waiters.map fun v => if v.waiter = w.waiter then w else v
  else w :: g.waiters

def notifyRoom (w : RoomWaiter) : Option (IngressBudget × List RoomWaiter) :=
  runWaiters { g with waiters := g.enqueue w }

def cancelRoom (waiter : ℕ) : IngressBudget :=
  { g with waiters := g.waiters.eraseP (·.waiter = waiter) }

/-! ### What the test decides -/

/-- The peers the bounds are divided among. -/
def peers (b : Fin bucketCount) : ℕ := g.active + if (g.buckets b).records = 0 then 1 else 0

/-- Data has room. -/
def Fits (b : Fin bucketCount) (len : ℕ) : Prop :=
  g.records < g.recordLimit ∧ g.bytes + len ≤ g.byteLimit ∧
  (g.buckets b).records < g.maxPeerRecords ∧ (g.buckets b).bytes + len ≤ g.maxPeerBytes ∧
  ((g.records + 1) * 2 ≤ g.recordLimit ∧ (g.bytes + len) * 2 ≤ g.byteLimit ∨
    ((g.buckets b).records + 1) * g.peers b ≤ g.recordLimit ∧
      ((g.buckets b).bytes + len) * g.peers b ≤ g.byteLimit)

instance (b : Fin bucketCount) (len : ℕ) : Decidable (g.Fits b len) := by
  unfold Fits
  infer_instance

/-- Nothing the test computes overflows. -/
def Computes (b : Fin bucketCount) (len : ℕ) : Prop :=
  g.records < g.recordLimit → g.bytes + len < usize ∧
    (g.bytes + len ≤ g.byteLimit → (g.buckets b).records < g.maxPeerRecords →
      (g.buckets b).bytes + len ≤ g.maxPeerBytes →
      (g.records + 1) * 2 < u32 ∧
      ((g.records + 1) * 2 ≤ g.recordLimit → (g.bytes + len) * 2 < usize) ∧
      (¬ ((g.records + 1) * 2 ≤ g.recordLimit ∧ (g.bytes + len) * 2 ≤ g.byteLimit) →
        ((g.buckets b).records + 1) * g.peers b ≤ g.recordLimit →
        ((g.buckets b).bytes + len) * g.peers b < usize))

instance (b : Fin bucketCount) (len : ℕ) : Decidable (g.Computes b len) := by
  unfold Computes
  infer_instance

/-- The counters are of their widths. -/
structure Narrow (g : IngressBudget) : Prop where
  recordLimit : g.recordLimit < 2 ^ 32
  byteLimit : g.byteLimit ≤ 2 ^ 63
  records : g.records ≤ g.recordLimit
  bytes : g.bytes ≤ g.byteLimit
  peerRecords : ∀ b, (g.buckets b).records ≤ g.records
  peerBytes : ∀ b, (g.buckets b).bytes ≤ g.bytes
  active : g.active ≤ bucketCount

theorem maxPeerRecords_eq : g.maxPeerRecords = g.recordLimit * 3 / 4 := by
  unfold maxPeerRecords
  omega

theorem maxPeerBytes_eq : g.maxPeerBytes = g.byteLimit * 3 / 4 := by
  unfold maxPeerBytes
  omega

variable {g}

/-- The test stops where something it computes overflows, and else tells whether there is room. -/
theorem fitsLocked_eq (hg : g.Narrow) (b : Fin bucketCount) (len : ℕ) :
    g.fitsLocked b len = if g.Computes b len then some (decide (g.Fits b len)) else none := by
  have hlimit := hg.recordLimit
  have hpeer := hg.peerRecords b
  have hbucket := hg.peerBytes b
  have hactive := hg.active
  have hbyteLimit := hg.byteLimit
  have hpeers : g.peers b ≤ bucketCount + 1 := by
    unfold peers
    split_ifs <;> omega
  have refused (hc : g.Computes b len) (hf : ¬ g.Fits b len) :
      some false = if g.Computes b len then some (decide (g.Fits b len)) else none := by
    rw [if_pos hc, decide_eq_false hf]
  have allowed (hc : g.Computes b len) (hf : g.Fits b len) :
      some true = if g.Computes b len then some (decide (g.Fits b len)) else none := by
    rw [if_pos hc, decide_eq_true hf]
  unfold fitsLocked
  by_cases hrecords : g.recordLimit ≤ g.records
  · rw [if_pos hrecords]
    exact refused (fun hlt => absurd hlt (Nat.not_lt.mpr hrecords))
      fun h => absurd h.1 (Nat.not_lt.mpr hrecords)
  rw [if_neg hrecords]
  have hroom := Nat.lt_of_not_le hrecords
  by_cases hsum : g.bytes + len < usize
  swap
  · rw [add_eq_none.mpr (Nat.le_of_not_lt hsum), Option.bind_none,
      if_neg fun h : g.Computes b len => hsum (h hroom).1]
  rw [add_of_lt hsum, Option.bind_some]
  by_cases hbytes : g.bytes + len ≤ g.byteLimit
  swap
  · rw [if_pos (Nat.lt_of_not_le hbytes)]
    exact refused (fun _ => ⟨hsum, fun h => absurd h hbytes⟩) fun h => hbytes h.2.1
  rw [if_neg (Nat.not_lt.mpr hbytes), add_of_lt (by unfold u32; omega), Option.bind_some]
  by_cases hmaxRecords : (g.buckets b).records < g.maxPeerRecords
  swap
  · rw [if_pos (by omega)]
    exact refused (fun _ => ⟨hsum, fun _ h => absurd h hmaxRecords⟩) fun h => hmaxRecords h.2.2.1
  rw [if_neg (by omega), add_of_lt (by unfold usize; omega), Option.bind_some]
  by_cases hmaxBytes : (g.buckets b).bytes + len ≤ g.maxPeerBytes
  swap
  · rw [if_pos (by omega)]
    exact refused (fun _ => ⟨hsum, fun _ _ h => absurd h hmaxBytes⟩) fun h => hmaxBytes h.2.2.2.1
  rw [if_neg (Nat.not_lt.mpr hmaxBytes), add_of_lt (by unfold u32; omega), Option.bind_some]
  by_cases htwice : (g.records + 1) * 2 < u32
  swap
  · rw [mul, if_neg htwice, Option.bind_none,
      if_neg fun h : g.Computes b len => htwice ((h hroom).2 hbytes hmaxRecords hmaxBytes).1]
  rw [mul_of_lt htwice, Option.bind_some]
  have past (hnot : ¬ ((g.records + 1) * 2 ≤ g.recordLimit ∧ (g.bytes + len) * 2 ≤ g.byteLimit))
      (hdouble : (g.records + 1) * 2 ≤ g.recordLimit → (g.bytes + len) * 2 < usize) :
      ((add usize g.active (if (g.buckets b).records = 0 then 1 else 0)).bind fun peers =>
        (mul usize ((g.buckets b).records + 1) peers).bind fun share =>
        if share ≤ g.recordLimit then
          (mul usize ((g.buckets b).bytes + len) peers).map (decide <| · ≤ g.byteLimit)
        else some false) =
      if g.Computes b len then some (decide (g.Fits b len)) else none := by
    have hsmall : (g.peers b) < usize := hpeers.trans_lt (by decide)
    have hmul : ((g.buckets b).records + 1) * g.peers b < usize :=
      (Nat.mul_le_mul (show _ ≤ 2 ^ 32 by omega) hpeers).trans_lt (by decide)
    rw [add_of_lt hsmall, Option.bind_some, ← peers, mul_of_lt hmul, Option.bind_some]
    by_cases hshare : ((g.buckets b).records + 1) * g.peers b ≤ g.recordLimit
    swap
    · rw [if_neg hshare]
      exact refused (fun _ => ⟨hsum, fun _ _ _ => ⟨htwice, hdouble, fun _ h => absurd h hshare⟩⟩)
        fun h => h.2.2.2.2.elim hnot fun h => hshare h.1
    rw [if_pos hshare]
    by_cases hproduct : ((g.buckets b).bytes + len) * g.peers b < usize
    swap
    · rw [mul, if_neg hproduct, Option.map_none, if_neg fun h : g.Computes b len =>
        hproduct (((h hroom).2 hbytes hmaxRecords hmaxBytes).2.2 hnot hshare)]
    have hcomputes : g.Computes b len :=
      fun _ => ⟨hsum, fun _ _ _ => ⟨htwice, hdouble, fun _ _ => hproduct⟩⟩
    rw [mul_of_lt hproduct, Option.map_some]
    by_cases hin : ((g.buckets b).bytes + len) * g.peers b ≤ g.byteLimit
    · rw [decide_eq_true hin]
      exact allowed hcomputes ⟨hroom, hbytes, hmaxRecords, hmaxBytes, .inr ⟨hshare, hin⟩⟩
    · rw [decide_eq_false hin]
      exact refused hcomputes fun h => h.2.2.2.2.elim hnot fun h => hin h.2
  by_cases hhalf : (g.records + 1) * 2 ≤ g.recordLimit
  swap
  · rw [if_neg hhalf, Option.bind_some, if_neg Bool.false_ne_true]
    exact past (fun h => hhalf h.1) fun h => absurd h hhalf
  rw [if_pos hhalf]
  by_cases hdouble : (g.bytes + len) * 2 < usize
  swap
  · rw [mul, if_neg hdouble, Option.map_none, Option.bind_none, if_neg fun h : g.Computes b len =>
      hdouble (((h hroom).2 hbytes hmaxRecords hmaxBytes).2.1 hhalf)]
  rw [mul_of_lt hdouble, Option.map_some, Option.bind_some]
  by_cases hin : (g.bytes + len) * 2 ≤ g.byteLimit
  · rw [if_pos (decide_eq_true hin)]
    exact allowed (fun _ => ⟨hsum, fun _ _ _ => ⟨htwice, fun _ => hdouble,
      fun hnot _ => absurd ⟨hhalf, hin⟩ hnot⟩⟩)
      ⟨hroom, hbytes, hmaxRecords, hmaxBytes, .inl ⟨hhalf, hin⟩⟩
  · rw [if_neg fun h => hin (of_decide_eq_true h)]
    exact past (fun h => hin h.2) fun _ => hdouble

/-- The test of every waiter of a queue computes. -/
def ComputeAll (g : IngressBudget) (ws : List RoomWaiter) : Prop :=
  ∀ w ∈ ws, g.Computes (bucketOf w.key) w.len

instance (ws : List RoomWaiter) : Decidable (g.ComputeAll ws) := by
  unfold ComputeAll
  infer_instance

/-- The data of a waiter has room. -/
abbrev Room (g : IngressBudget) (w : RoomWaiter) : Prop := g.Fits (bucketOf w.key) w.len

theorem runWaitersLocked_eq (hg : g.Narrow) (ws : List RoomWaiter) :
    g.runWaitersLocked ws = if g.ComputeAll ws then
      some (ws.filter (fun w => ¬ g.Room w), ws.filter (fun w => g.Room w)) else none := by
  induction ws with
  | nil => exact (if_pos fun _ hw => absurd hw List.not_mem_nil).symm
  | cons w ws ih =>
    rw [runWaitersLocked, fitsLocked_eq hg, ih]
    by_cases hw : g.Computes (bucketOf w.key) w.len
    swap
    · rw [if_neg hw, if_neg fun h : g.ComputeAll (w :: ws) => hw (h w List.mem_cons_self),
        Option.bind_none]
    rw [if_pos hw, Option.bind_some]
    by_cases hws : g.ComputeAll ws
    swap
    · rw [if_neg hws, if_neg fun h : g.ComputeAll (w :: ws) => hws
        fun v hv => h v (List.mem_cons_of_mem w hv), Option.map_none]
    rw [if_pos hws, if_pos (show g.ComputeAll (w :: ws) from List.forall_mem_cons.mpr ⟨hw, hws⟩),
      Option.map_some]
    by_cases hroom : g.Room w
    · rw [decide_eq_true hroom, List.filter_cons, List.filter_cons,
        if_pos (show decide (g.Room w) = true from decide_eq_true hroom),
        if_neg (show ¬ decide (¬ g.Room w) = true from fun h => (of_decide_eq_true h) hroom)]
      rfl
    · rw [decide_eq_false hroom, List.filter_cons, List.filter_cons,
        if_neg (show ¬ decide (g.Room w) = true from fun h => hroom (of_decide_eq_true h)),
        if_pos (decide_eq_true hroom)]
      rfl

/-- The budget after `a` took its room. -/
def take (g : IngressBudget) (a : Admission) : IngressBudget :=
  { g with
    records := g.records + 1
    bytes := g.bytes + a.len
    buckets := Function.update g.buckets a.bucket
      ⟨(g.buckets a.bucket).records + 1, (g.buckets a.bucket).bytes + a.len⟩
    active := g.peers a.bucket }

/-- The budget after `a` gave its room back. -/
def giveBack (g : IngressBudget) (a : Admission) : IngressBudget :=
  { g with
    records := g.records - 1
    bytes := g.bytes - a.len
    buckets := Function.update g.buckets a.bucket
      ⟨(g.buckets a.bucket).records - 1, (g.buckets a.bucket).bytes - a.len⟩
    active := if (g.buckets a.bucket).records - 1 = 0 then g.active - 1 else g.active }

theorem admitData_eq (hg : g.Narrow) (key len : ℕ) :
    g.admitData key len = if g.Computes (bucketOf key) len then
      some (if g.Fits (bucketOf key) len then (g.take ⟨bucketOf key, len⟩, some ⟨bucketOf key, len⟩)
        else (g, none)) else none := by
  unfold admitData
  dsimp only
  rw [fitsLocked_eq hg]
  by_cases hc : g.Computes (bucketOf key) len
  swap
  · rw [if_neg hc, if_neg hc, Option.bind_none]
  rw [if_pos hc, if_pos hc, Option.bind_some]
  by_cases hf : g.Fits (bucketOf key) len
  swap
  · rw [decide_eq_false hf, if_neg hf]
    rfl
  have hlimit := hg.recordLimit
  have hbytes := hg.byteLimit
  have hpeer := hg.peerRecords (bucketOf key)
  have hbucket := hg.peerBytes (bucketOf key)
  have hactive := hg.active
  obtain ⟨hrecords, hlen, -⟩ := id hf
  have hpeers : (if (g.buckets (bucketOf key)).records = 0 then add u32 g.active 1
      else some g.active) = some (g.peers (bucketOf key)) := by
    unfold peers
    split_ifs
    · exact add_of_lt ((Nat.succ_le_succ hactive).trans_lt (by decide))
    · rfl
  rw [decide_eq_true hf, if_pos hf, Bool.not_true, if_neg Bool.false_ne_true, hpeers,
    Option.bind_some, add_of_lt (by unfold u32; omega), Option.bind_some,
    add_of_lt (by unfold usize; omega), Option.bind_some, add_of_lt (by unfold u32; omega),
    Option.bind_some,
    add_of_lt (by unfold usize; omega), Option.map_some]
  rfl

/-! ### Its counters -/

theorem sum_update (f : Fin bucketCount → ℕ) (b : Fin bucketCount) (x : ℕ) :
    ∑ i, Function.update f b x i + f b = ∑ i, f i + x := by
  rw [Finset.sum_update_of_mem (Finset.mem_univ b), Finset.sdiff_singleton_eq_erase,
    ← Finset.add_sum_erase _ f (Finset.mem_univ b)]
  omega

/-- The counters are what the outstanding admissions come to. -/
structure Counted (g : IngressBudget) (as : List Admission) : Prop where
  peerRecords : ∀ b, (g.buckets b).records = as.countP (·.bucket = b)
  peerBytes : ∀ b, (g.buckets b).bytes = ((as.filter (·.bucket = b)).map (·.len)).sum
  records : g.records = ∑ b, (g.buckets b).records
  bytes : g.bytes = ∑ b, (g.buckets b).bytes
  active : g.active = ∑ b, if (g.buckets b).records = 0 then 0 else 1

namespace Counted

variable {as as' : List Admission} {g' : IngressBudget} {b : Fin bucketCount} {a : Admission}

theorem bytes_eq_zero (h : g.Counted as) (hb : (g.buckets b).records = 0) :
    (g.buckets b).bytes = 0 := by
  rw [h.peerRecords b, List.countP_eq_length_filter, List.length_eq_zero_iff] at hb
  rw [h.peerBytes b, hb]
  rfl

/-- One bucket changes, and the aggregate by as much. -/
theorem update (h : g.Counted as) {x : Bucket}
    (hbuckets : g'.buckets = Function.update g.buckets b x)
    (hcount : x.records = as'.countP (·.bucket = b))
    (hsum : x.bytes = ((as'.filter (·.bucket = b)).map (·.len)).sum)
    (hother : ∀ b', b' ≠ b → as'.filter (·.bucket = b') = as.filter (·.bucket = b'))
    (hrecords : g'.records + (g.buckets b).records = g.records + x.records)
    (hbytes : g'.bytes + (g.buckets b).bytes = g.bytes + x.bytes)
    (hactive : g'.active + (if (g.buckets b).records = 0 then 0 else 1) =
      g.active + if x.records = 0 then 0 else 1) : g'.Counted as' := by
  have hsums (f : Bucket → ℕ) :
      ∑ i, f (g'.buckets i) + f (g.buckets b) = ∑ i, f (g.buckets i) + f x := by
    have hcomp : (fun i => f (g'.buckets i)) =
        Function.update (fun i => f (g.buckets i)) b (f x) := by
      funext i
      rw [hbuckets]
      exact Function.apply_update (fun _ => f) g.buckets b x i
    rw [hcomp]
    exact sum_update (fun i => f (g.buckets i)) b (f x)
  have hsumRecords := hsums (·.records)
  have hsumBytes := hsums (·.bytes)
  have hsumActive := hsums fun y => if y.records = 0 then 0 else 1
  have hr := h.records
  have hy := h.bytes
  have ha := h.active
  refine ⟨fun b' => ?_, fun b' => ?_, by omega, by omega, by omega⟩
  · rw [hbuckets]
    by_cases hb' : b' = b
    · rw [hb', Function.update_self, hcount]
    · rw [Function.update_of_ne hb', h.peerRecords b', List.countP_eq_length_filter,
        List.countP_eq_length_filter, hother b' hb']
  · rw [hbuckets]
    by_cases hb' : b' = b
    · rw [hb', Function.update_self, hsum]
    · rw [Function.update_of_ne hb', h.peerBytes b', hother b' hb']

theorem take (h : g.Counted as) (a : Admission) : (g.take a).Counted (as ++ [a]) := by
  have hself : [a].filter (·.bucket = a.bucket) = [a] :=
    List.filter_cons_of_pos (decide_eq_true rfl)
  refine h.update (b := a.bucket) rfl ?_ ?_ (fun b' hb' => ?_) ?_ ?_ ?_
  · rw [h.peerRecords, List.countP_append, List.countP_singleton, if_pos (decide_eq_true rfl)]
  · rw [h.peerBytes, List.filter_append, List.map_append, List.sum_append, hself]
    rfl
  · rw [List.filter_append, List.filter_cons_of_neg (by simpa using hb'.symm)]
    exact List.append_nil _
  · unfold IngressBudget.take
    dsimp only
    omega
  · unfold IngressBudget.take
    dsimp only
    omega
  · unfold IngressBudget.take peers
    dsimp only
    rw [if_neg (Nat.succ_ne_zero _)]
    split_ifs <;> omega

theorem one_le (h : g.Counted as) (ha : a ∈ as) : 1 ≤ (g.buckets a.bucket).records := by
  rw [h.peerRecords]
  exact List.countP_pos_iff.mpr ⟨a, ha, decide_eq_true rfl⟩

theorem len_le (h : g.Counted as) (ha : a ∈ as) : a.len ≤ (g.buckets a.bucket).bytes := by
  rw [h.peerBytes]
  exact List.single_le_sum (fun _ _ => Nat.zero_le _) _
    (List.mem_map_of_mem (List.mem_filter.mpr ⟨ha, decide_eq_true rfl⟩))

theorem peerRecords_le (h : g.Counted as) (b : Fin bucketCount) :
    (g.buckets b).records ≤ g.records := by
  rw [h.records]
  exact Finset.single_le_sum (f := fun b => (g.buckets b).records) (fun _ _ => Nat.zero_le _)
    (Finset.mem_univ b)

theorem peerBytes_le (h : g.Counted as) (b : Fin bucketCount) :
    (g.buckets b).bytes ≤ g.bytes := by
  rw [h.bytes]
  exact Finset.single_le_sum (f := fun b => (g.buckets b).bytes) (fun _ _ => Nat.zero_le _)
    (Finset.mem_univ b)

theorem active_pos (h : g.Counted as) (hb : (g.buckets b).records ≠ 0) : 1 ≤ g.active := by
  rw [h.active]
  refine le_trans (if_neg hb).ge (Finset.single_le_sum
    (f := fun b => if (g.buckets b).records = 0 then 0 else 1) (fun _ _ => Nat.zero_le _)
    (Finset.mem_univ b))

theorem active_le (h : g.Counted as) : g.active ≤ bucketCount := by
  rw [h.active]
  refine (Finset.sum_le_card_nsmul _ _ 1 fun b _ => ?_).trans (by decide)
  split_ifs <;> omega

theorem giveBack (h : g.Counted as) (ha : a ∈ as) : (g.giveBack a).Counted (as.erase a) := by
  have hone := h.one_le ha
  have hlen := h.len_le ha
  have hrecords := h.peerRecords_le a.bucket
  have hbytes := h.peerBytes_le a.bucket
  have hactive := h.active_pos (b := a.bucket) (by omega)
  have hfilter (b' : Fin bucketCount) :
      (as.erase a).filter (·.bucket = b') = (as.filter (·.bucket = b')).erase a :=
    List.erase_filter.symm
  have hmem : a ∈ as.filter (·.bucket = a.bucket) :=
    List.mem_filter.mpr ⟨ha, decide_eq_true rfl⟩
  refine h.update (b := a.bucket) rfl ?_ ?_ (fun b' hb' => ?_) ?_ ?_ ?_
  · rw [h.peerRecords, List.countP_eq_length_filter, List.countP_eq_length_filter, hfilter,
      List.length_erase_of_mem hmem]
  · rw [h.peerBytes, hfilter]
    have hperm := ((List.perm_cons_erase hmem).map (·.len)).sum_eq
    rw [List.map_cons, List.sum_cons] at hperm
    dsimp only
    omega
  · rw [hfilter, List.erase_of_not_mem]
    exact fun h => hb' (of_decide_eq_true (List.mem_filter.mp h).2).symm
  · unfold IngressBudget.giveBack
    dsimp only
    omega
  · unfold IngressBudget.giveBack
    dsimp only
    omega
  · unfold IngressBudget.giveBack
    dsimp only
    split_ifs <;> omega

end Counted

/-- Neither bound is exceeded, in aggregate or by a peer. -/
structure Bounded (g : IngressBudget) : Prop where
  recordLimit : g.recordLimit < 2 ^ 32
  byteLimit : g.byteLimit ≤ 2 ^ 63
  records : g.records ≤ g.recordLimit
  bytes : g.bytes ≤ g.byteLimit
  peerRecords : ∀ b, (g.buckets b).records ≤ g.maxPeerRecords
  peerBytes : ∀ b, (g.buckets b).bytes ≤ g.maxPeerBytes

theorem Counted.setWaiters {as : List Admission} (h : g.Counted as) (ws : List RoomWaiter) :
    Counted { g with waiters := ws } as :=
  ⟨h.peerRecords, h.peerBytes, h.records, h.bytes, h.active⟩

theorem Bounded.setWaiters (h : g.Bounded) (ws : List RoomWaiter) :
    Bounded { g with waiters := ws } :=
  ⟨h.recordLimit, h.byteLimit, h.records, h.bytes, h.peerRecords, h.peerBytes⟩

section Operations

variable {as : List Admission} {a : Admission} {b : Fin bucketCount} {len : ℕ}

theorem narrow (hg : g.Bounded) (h : g.Counted as) : g.Narrow where
  recordLimit := hg.recordLimit
  byteLimit := hg.byteLimit
  records := hg.records
  bytes := hg.bytes
  peerRecords := h.peerRecords_le
  peerBytes := h.peerBytes_le
  active := h.active_le

theorem Bounded.take (hg : g.Bounded) (hfits : g.Fits a.bucket a.len) : (g.take a).Bounded := by
  obtain ⟨hrecords, hbytes, hpeerRecords, hpeerBytes, -⟩ := hfits
  refine ⟨hg.recordLimit, hg.byteLimit, hrecords, hbytes, ?_, ?_⟩
  · exact (Function.forall_update_iff g.buckets (p := fun _ x => x.records ≤ g.maxPeerRecords)).mpr
      ⟨hpeerRecords, fun b _ => hg.peerRecords b⟩
  · exact (Function.forall_update_iff g.buckets (p := fun _ x => x.bytes ≤ g.maxPeerBytes)).mpr
      ⟨hpeerBytes, fun b _ => hg.peerBytes b⟩

theorem Bounded.giveBack (hg : g.Bounded) (a : Admission) : (g.giveBack a).Bounded := by
  refine ⟨hg.recordLimit, hg.byteLimit, (Nat.sub_le _ _).trans hg.records,
    (Nat.sub_le _ _).trans hg.bytes, ?_, ?_⟩
  · exact (Function.forall_update_iff g.buckets (p := fun _ x => x.records ≤ g.maxPeerRecords)).mpr
      ⟨(Nat.sub_le _ _).trans (hg.peerRecords _), fun b _ => hg.peerRecords b⟩
  · exact (Function.forall_update_iff g.buckets (p := fun _ x => x.bytes ≤ g.maxPeerBytes)).mpr
      ⟨(Nat.sub_le _ _).trans (hg.peerBytes _), fun b _ => hg.peerBytes b⟩

/-- An admission makes no room. -/
theorem Fits.of_take (h : (g.take a).Fits b len) : g.Fits b len := by
  have hbucket : (g.buckets b).records ≤ ((g.take a).buckets b).records ∧
      (g.buckets b).bytes ≤ ((g.take a).buckets b).bytes ∧ g.peers b ≤ (g.take a).peers b := by
    by_cases hb : b = a.bucket
    · have heq : (g.take a).buckets b =
          ⟨(g.buckets b).records + 1, (g.buckets b).bytes + a.len⟩ := by
        rw [hb]
        exact Function.update_self _ _ _
      unfold peers
      rw [heq]
      refine ⟨Nat.le_succ _, Nat.le_add_right _ _, ?_⟩
      rw [hb]
      exact Nat.le_add_right (g.peers a.bucket) _
    · have heq : (g.take a).buckets b = g.buckets b := Function.update_of_ne hb _ _
      unfold peers
      rw [heq]
      exact ⟨le_rfl, le_rfl, Nat.add_le_add_right (Nat.le_add_right g.active _) _⟩
  obtain ⟨hr, hy, hpeers⟩ := hbucket
  obtain ⟨hrecords, hbytes, hpeerRecords, hpeerBytes, hshare⟩ := h
  have hrecords' : (g.records + 1) < g.recordLimit := hrecords
  have hbytes' : g.bytes + a.len + len ≤ g.byteLimit := hbytes
  refine ⟨by omega, by omega, hr.trans_lt hpeerRecords,
    (Nat.add_le_add_right hy len).trans hpeerBytes, hshare.imp (fun h => ?_) fun h => ?_⟩
  · obtain ⟨h₁, h₂⟩ := h
    have h₁' : (g.records + 1 + 1) * 2 ≤ g.recordLimit := h₁
    have h₂' : (g.bytes + a.len + len) * 2 ≤ g.byteLimit := h₂
    exact ⟨by omega, by omega⟩
  · exact ⟨(Nat.mul_le_mul (Nat.succ_le_succ hr) hpeers).trans h.1,
      (Nat.mul_le_mul (Nat.add_le_add_right hy len) hpeers).trans h.2⟩

theorem runWaiters_eq (hg : g.Narrow) : g.runWaiters = if g.ComputeAll g.waiters then
    some ({ g with waiters := g.waiters.filter fun w => ¬ g.Room w },
      g.waiters.filter fun w => g.Room w) else none := by
  rw [runWaiters, runWaitersLocked_eq hg]
  split_ifs <;> rfl

theorem release_eq (h : g.Counted as) (ha : a ∈ as) :
    g.release a = (g.giveBack a).runWaiters := by
  have hone := h.one_le ha
  have hlen := h.len_le ha
  have hrecords := h.peerRecords_le a.bucket
  have hbytes := h.peerBytes_le a.bucket
  have hactive := h.active_pos (b := a.bucket) (by omega)
  have hsub : (if (g.buckets a.bucket).records - 1 = 0 then sub g.active 1 else some g.active) =
      some (if (g.buckets a.bucket).records - 1 = 0 then g.active - 1 else g.active) := by
    split_ifs
    · exact sub_of_le hactive
    · rfl
  rw [release, sub_of_le hone, Option.bind_some, sub_of_le hlen, Option.bind_some, hsub,
    Option.bind_some, sub_of_le (by omega), Option.bind_some, sub_of_le (by omega),
    Option.bind_some]
  rfl

end Operations

end IngressBudget

/-! ### Its users -/

inductive RoomEvent where
  | notified (waiter : ℕ)
  | cancelled (waiter : ℕ)
  | ran (waiter : ℕ)
deriving DecidableEq, Repr

/-- A waiter is owed its run from a `notifyRoom` to its run or its `cancelRoom`. -/
def RoomEvent.owes (i : ℕ) (owed : Bool) : RoomEvent → Bool
  | .notified j => owed || decide (j = i)
  | .cancelled j | .ran j => owed && decide (j ≠ i)

def owed (i : ℕ) (log : List RoomEvent) : Bool := log.foldl (RoomEvent.owes i) false

/-- No waiter runs that is not owed it. -/
def RunsOwed (log : List RoomEvent) : Prop :=
  ∀ l₁ i l₂, log = l₁ ++ .ran i :: l₂ → owed i l₁ = true

theorem owed_concat (i : ℕ) (log : List RoomEvent) (e : RoomEvent) :
    owed i (log ++ [e]) = e.owes i (owed i log) :=
  List.foldl_concat _ _ _ _

theorem RunsOwed.concat {log : List RoomEvent} (h : RunsOwed log) {e : RoomEvent}
    (he : ∀ i, e = .ran i → owed i log = true) : RunsOwed (log ++ [e]) := by
  intro l₁ i l₂ hl
  rcases List.eq_nil_or_concat l₂ with rfl | ⟨l, e', rfl⟩
  · obtain ⟨rfl, hlast⟩ := List.append_inj' hl rfl
    exact he i (List.cons.inj hlast).1
  · rw [List.concat_eq_append, ← List.cons_append, ← List.append_assoc] at hl
    exact h l₁ i l (List.append_inj' hl rfl).1

/-- Waiters that are each owed a run are run. -/
theorem RunsOwed.runs {log : List RoomEvent} (h : RunsOwed log) {is : List ℕ} (hnodup : is.Nodup)
    (howed : ∀ i ∈ is, owed i log = true) : RunsOwed (log ++ is.map .ran) ∧
      ∀ i, owed i (log ++ is.map .ran) = (owed i log && decide (i ∉ is)) := by
  induction is generalizing log with
  | nil =>
    refine ⟨(List.append_nil log).symm ▸ h, fun i => ?_⟩
    rw [List.map_nil, List.append_nil, decide_eq_true List.not_mem_nil, Bool.and_true]
  | cons j is ih =>
    obtain ⟨hj, hnodup⟩ := List.nodup_cons.mp hnodup
    have hone := h.concat (e := .ran j) fun i hi => by
      cases hi
      exact howed j List.mem_cons_self
    have hrest := ih hone hnodup fun i hi => by
      rw [owed_concat, RoomEvent.owes, howed i (List.mem_cons_of_mem j hi), Bool.true_and]
      exact decide_eq_true fun heq => hj (heq ▸ hi)
    rw [List.map_cons, List.append_cons]
    refine ⟨hrest.1, fun i => (hrest.2 i).trans ?_⟩
    rw [owed_concat, RoomEvent.owes, Bool.and_assoc, ← Bool.decide_and]
    exact congrArg (_ && ·) (decide_eq_decide.mpr (by rw [List.mem_cons, not_or, ne_comm]))

/-- A budget with its outstanding admissions, the waiters its last operation ran and what happened
to its waiters. -/
structure BudgetUsers where
  budget : IngressBudget
  admissions : List Admission := []
  ran : List RoomWaiter := []
  log : List RoomEvent := []

inductive BudgetAction where
  | admitData (key len : ℕ)
  | release (a : Admission)
  | notifyRoom (w : RoomWaiter)
  | cancelRoom (waiter : ℕ)

namespace BudgetUsers

variable (s : BudgetUsers)

def ranBy (log : List RoomEvent) (ran : List RoomWaiter) : List RoomEvent :=
  log ++ (ran.map (·.waiter)).map .ran

/-- An admission is released once. -/
def step : BudgetAction → Option BudgetUsers
  | .admitData key len => (s.budget.admitData key len).map fun (budget, a) =>
      { s with budget := budget, admissions := s.admissions ++ a.toList, ran := [] }
  | .release a =>
    if a ∈ s.admissions then (s.budget.release a).map fun (budget, ran) =>
      { budget := budget
        admissions := s.admissions.erase a
        ran := ran
        log := ranBy s.log ran }
    else none
  | .notifyRoom w => (s.budget.notifyRoom w).map fun (budget, ran) =>
      { s with budget := budget, ran := ran, log := ranBy (s.log ++ [.notified w.waiter]) ran }
  | .cancelRoom i => some
      { s with budget := s.budget.cancelRoom i, ran := [], log := s.log ++ [.cancelled i] }

/-! ### What every operation keeps -/

structure Sound (s : BudgetUsers) : Prop where
  bounded : s.budget.Bounded
  counted : s.budget.Counted s.admissions
  nodup : (s.budget.waiters.map (·.waiter)).Nodup
  waiting : ∀ w ∈ s.budget.waiters, ¬ s.budget.Room w
  ran : ∀ w ∈ s.ran, s.budget.Room w
  owed : ∀ i, owed i s.log = true ↔ i ∈ s.budget.waiters.map (·.waiter)
  runs : RunsOwed s.log

section Keep

variable {s : BudgetUsers} {g g' : IngressBudget} {as : List Admission} {ran : List RoomWaiter}
  {log : List RoomEvent}

theorem Sound.narrow (h : s.Sound) : s.budget.Narrow := IngressBudget.narrow h.bounded h.counted

/-- The waiters that fit are run at the end of an operation. -/
theorem runWaiters_sound (hbounded : g.Bounded) (hcounted : g.Counted as)
    (hnodup : (g.waiters.map (·.waiter)).Nodup)
    (howed : ∀ i, Transport.owed i log = true ↔ i ∈ g.waiters.map (·.waiter))
    (hruns : RunsOwed log) (hs : g.runWaiters = some (g', ran)) :
    Sound ⟨g', as, ran, ranBy log ran⟩ := by
  rw [IngressBudget.runWaiters_eq (IngressBudget.narrow hbounded hcounted)] at hs
  split_ifs at hs
  cases hs
  have hsub : ((g.waiters.filter fun w => g.Room w).map (·.waiter)).Nodup :=
    hnodup.sublist (List.filter_sublist.map _)
  obtain ⟨hruns', howed'⟩ := hruns.runs hsub fun i hi =>
    (howed i).mpr (List.Sublist.subset (List.filter_sublist.map _) hi)
  refine ⟨hbounded.setWaiters _, hcounted.setWaiters _,
    hnodup.sublist (List.filter_sublist.map _),
    fun w hw => of_decide_eq_true (List.mem_filter.mp hw).2,
    fun w hw => of_decide_eq_true (List.mem_filter.mp hw).2, fun i => ?_, hruns'⟩
  rw [ranBy, howed', Bool.and_eq_true, howed, decide_eq_true_eq]
  constructor
  · rintro ⟨hi, hnot⟩
    obtain ⟨w, hw, rfl⟩ := List.mem_map.mp hi
    refine List.mem_map_of_mem (List.mem_filter.mpr ⟨hw, decide_eq_true fun hroom => hnot ?_⟩)
    exact List.mem_map_of_mem (List.mem_filter.mpr ⟨hw, decide_eq_true hroom⟩)
  · intro hi
    obtain ⟨w, hw, rfl⟩ := List.mem_map.mp hi
    obtain ⟨hw, hroom⟩ := List.mem_filter.mp hw
    refine ⟨List.mem_map_of_mem hw, fun hran => ?_⟩
    obtain ⟨v, hv, hvw⟩ := List.mem_map.mp hran
    obtain ⟨hv, hfits⟩ := List.mem_filter.mp hv
    rw [List.inj_on_of_nodup_map hnodup hv hw hvw] at hfits
    exact of_decide_eq_true hroom (of_decide_eq_true hfits)

theorem map_enqueue (hnodup : (g.waiters.map (·.waiter)).Nodup) (w : RoomWaiter) :
    ((g.enqueue w).map (·.waiter)).Nodup ∧
      ∀ i, i ∈ (g.enqueue w).map (·.waiter) ↔ i ∈ g.waiters.map (·.waiter) ∨ w.waiter = i := by
  unfold IngressBudget.enqueue
  split_ifs with hany
  · have hmap : (g.waiters.map fun v => if v.waiter = w.waiter then w else v).map (·.waiter) =
        g.waiters.map (·.waiter) := by
      rw [List.map_map]
      refine List.map_congr_left fun v _ => ?_
      by_cases hv : v.waiter = w.waiter
      · exact (congrArg RoomWaiter.waiter (if_pos hv)).trans hv.symm
      · exact congrArg RoomWaiter.waiter (if_neg hv)
    obtain ⟨v, hv, heq⟩ := List.any_eq_true.mp hany
    rw [hmap]
    refine ⟨hnodup, fun i => (or_iff_left_of_imp ?_).symm⟩
    rintro rfl
    exact of_decide_eq_true heq ▸ List.mem_map_of_mem hv
  · rw [List.map_cons]
    refine ⟨List.nodup_cons.mpr ⟨fun hmem => hany ?_, hnodup⟩, fun i => ?_⟩
    · obtain ⟨v, hv, heq⟩ := List.mem_map.mp hmem
      exact List.any_eq_true.mpr ⟨v, hv, decide_eq_true heq⟩
    · rw [List.mem_cons, or_comm, eq_comm]

/-- A queue as it is, or without some of its waiters. -/
theorem Sound.setWaiters (h : s.Sound) {ws : List RoomWaiter} (hsub : ws.Sublist s.budget.waiters)
    (howed : ∀ i, Transport.owed i log = true ↔ i ∈ ws.map (·.waiter)) (hruns : RunsOwed log) :
    Sound ⟨{ s.budget with waiters := ws }, s.admissions, [], log⟩ where
  bounded := h.bounded.setWaiters ws
  counted := h.counted.setWaiters ws
  nodup := h.nodup.sublist (hsub.map _)
  waiting w hw := h.waiting w (hsub.subset hw)
  ran _ hw := nomatch hw
  owed := howed
  runs := hruns

theorem step_sound (h : s.Sound) {a : BudgetAction} {s' : BudgetUsers} (hs : s.step a = some s') :
    s'.Sound := by
  cases a with
  | admitData key len =>
    obtain ⟨⟨g', got⟩, hgot, rfl⟩ := Option.map_eq_some_iff.mp hs
    rw [IngressBudget.admitData_eq h.narrow] at hgot
    split_ifs at hgot with hcomputes hfits
    · cases hgot
      exact ⟨h.bounded.take hfits, h.counted.take _, h.nodup,
        fun w hw hroom => h.waiting w hw hroom.of_take, fun _ hw => (nomatch hw), h.owed, h.runs⟩
    · cases hgot
      have hsame := h.setWaiters (.refl _) h.owed h.runs
      rw [← List.append_nil s.admissions] at hsame
      exact hsame
  | release a =>
    rw [step.eq_def] at hs
    dsimp only at hs
    split_ifs at hs with ha
    obtain ⟨⟨g', ran⟩, hrelease, rfl⟩ := Option.map_eq_some_iff.mp hs
    rw [IngressBudget.release_eq h.counted ha] at hrelease
    exact runWaiters_sound (h.bounded.giveBack a) (h.counted.giveBack ha) h.nodup h.owed h.runs
      hrelease
  | notifyRoom w =>
    obtain ⟨⟨g', ran⟩, hnotify, rfl⟩ := Option.map_eq_some_iff.mp hs
    obtain ⟨hnodup, hmem⟩ := map_enqueue h.nodup w
    refine runWaiters_sound (h.bounded.setWaiters _) (h.counted.setWaiters _) hnodup
      (fun i => ?_) (h.runs.concat fun _ hi => nomatch hi) hnotify
    rw [owed_concat, RoomEvent.owes, Bool.or_eq_true, h.owed, decide_eq_true_eq]
    exact (hmem i).symm
  | cancelRoom i =>
    cases hs
    have hmap : (s.budget.waiters.eraseP (·.waiter = i)).map (·.waiter) =
        (s.budget.waiters.map (·.waiter)).erase i := by
      rw [List.erase_eq_eraseP', List.eraseP_map]
      congr 2
    refine h.setWaiters List.eraseP_sublist (fun j => ?_) (h.runs.concat fun _ hi => nomatch hi)
    rw [owed_concat, RoomEvent.owes, Bool.and_eq_true, h.owed, decide_eq_true_eq, hmap,
      h.nodup.mem_erase_iff, ne_comm, and_comm]

theorem init_sound {recordLimit byteLimit : ℕ} (hrecord : recordLimit < 2 ^ 32)
    (hbyte : byteLimit ≤ 2 ^ 63) : Sound { budget := { recordLimit, byteLimit } } where
  bounded := ⟨hrecord, hbyte, Nat.zero_le _, Nat.zero_le _, fun _ => Nat.zero_le _,
    fun _ => Nat.zero_le _⟩
  counted := ⟨fun _ => rfl, fun _ => rfl, Finset.sum_const_zero.symm, Finset.sum_const_zero.symm,
    Finset.sum_const_zero.symm⟩
  nodup := List.nodup_nil
  waiting _ hw := nomatch hw
  ran _ hw := nomatch hw
  owed _ := iff_of_false Bool.false_ne_true List.not_mem_nil
  runs l₁ _ _ hl := by
    cases l₁ <;> cases hl

end Keep

/-! ### Who is refused -/

/-- Why a peer with nothing queued may be refused: the aggregate bound, the most one peer may hold
or a fair share of either bound. -/
def Exceeds (g : IngressBudget) (len : ℕ) : Prop :=
  g.recordLimit < g.records + 1 ∨ g.byteLimit < g.bytes + len ∨ g.maxPeerBytes < len ∨
    g.recordLimit / (g.active + 1) < 1 ∨ g.byteLimit / (g.active + 1) < len

/-- The operation returns, and refuses no peer with nothing queued without such a reason. -/
def Fair (s : BudgetUsers) : BudgetAction → Prop
  | .admitData key len => ∃ g got, s.budget.admitData key len = some (g, got) ∧
      (got = none → (s.budget.buckets (bucketOf key)).records = 0 → Exceeds s.budget len)
  | .release a => a ∈ s.admissions → (s.budget.release a).isSome
  | .notifyRoom w => (s.budget.notifyRoom w).isSome
  | .cancelRoom _ => True

/-- Every test of the operation computes, and a budget of one record is asked only for what exceeds
three quarters of its bytes. -/
def Meets (s : BudgetUsers) : BudgetAction → Prop
  | .admitData key len => s.budget.Computes (bucketOf key) len ∧
      (s.budget.recordLimit = 1 → s.budget.maxPeerBytes < len)
  | .release a => a ∈ s.admissions → (s.budget.giveBack a).ComputeAll s.budget.waiters
  | .notifyRoom w => s.budget.ComputeAll (s.budget.enqueue w)
  | .cancelRoom _ => True

section Refusals

variable {s : BudgetUsers}

theorem Sound.exceeds_of_not_fits (h : s.Sound) {b : Fin bucketCount} {len : ℕ}
    (hlimit : s.budget.recordLimit = 1 → s.budget.maxPeerBytes < len)
    (hempty : (s.budget.buckets b).records = 0) (hfits : ¬ s.budget.Fits b len) :
    Exceeds s.budget len := by
  have hbytes := h.counted.bytes_eq_zero hempty
  have hpeers : s.budget.peers b = s.budget.active + 1 := by
    rw [IngressBudget.peers, if_pos hempty]
  have hmax := s.budget.maxPeerRecords_eq
  by_contra hnot
  simp only [Exceeds, not_or, not_lt] at hnot
  obtain ⟨hrecords, hsum, hpeerBytes, hshare, hshareBytes⟩ := hnot
  refine hfits ⟨hrecords, hsum, ?_, ?_, .inr ⟨?_, ?_⟩⟩
  · rw [hempty, hmax]
    have hone : s.budget.recordLimit ≠ 1 := fun heq => absurd (hlimit heq) (by omega)
    omega
  · rw [hbytes, Nat.zero_add]
    exact hpeerBytes
  · rw [hempty, hpeers, Nat.zero_add]
    exact (Nat.le_div_iff_mul_le (Nat.succ_pos _)).mp hshare
  · rw [hbytes, hpeers, Nat.zero_add]
    exact (Nat.le_div_iff_mul_le (Nat.succ_pos _)).mp hshareBytes

/-- With room for one record, what is not too large is refused though nothing is queued. -/
theorem Sound.refused_of_one (h : s.Sound) {b : Fin bucketCount} {len : ℕ}
    (hlimit : s.budget.recordLimit = 1) (hlen : len ≤ s.budget.maxPeerBytes) :
    ¬ s.budget.Fits b len ∧ (s.budget.buckets b).records = 0 ∧ ¬ Exceeds s.budget len := by
  have hmax : s.budget.maxPeerRecords = 0 := by
    rw [s.budget.maxPeerRecords_eq, hlimit]
  have hzero (b : Fin bucketCount) : (s.budget.buckets b).records = 0 :=
    Nat.le_zero.mp ((h.bounded.peerRecords b).trans hmax.le)
  have hrecords : s.budget.records = 0 := by
    rw [h.counted.records]
    exact Finset.sum_eq_zero fun b _ => hzero b
  have hbytes : s.budget.bytes = 0 := by
    rw [h.counted.bytes]
    exact Finset.sum_eq_zero fun b _ => h.counted.bytes_eq_zero (hzero b)
  have hactive : s.budget.active = 0 := by
    rw [h.counted.active]
    exact Finset.sum_eq_zero fun b _ => if_pos (hzero b)
  have hmaxBytes := s.budget.maxPeerBytes_eq
  refine ⟨fun hfits => ?_, hzero b, ?_⟩
  · have := hfits.2.2.1
    omega
  · rw [Exceeds, hrecords, hbytes, hactive, hlimit]
    omega

theorem Sound.meets_iff (h : s.Sound) (a : BudgetAction) : s.Meets a ↔ s.Fair a := by
  cases a with
  | admitData key len =>
    rw [Meets.eq_def, Fair.eq_def]
    dsimp only
    rw [IngressBudget.admitData_eq h.narrow]
    constructor
    · rintro ⟨hcomputes, hlimit⟩
      rw [if_pos hcomputes]
      by_cases hfits : s.budget.Fits (bucketOf key) len
      · rw [if_pos hfits]
        exact ⟨_, _, rfl, fun hnone => nomatch hnone⟩
      · rw [if_neg hfits]
        exact ⟨_, _, rfl, fun _ hempty => h.exceeds_of_not_fits hlimit hempty hfits⟩
    · rintro ⟨g, got, hgot, hrefused⟩
      split_ifs at hgot with hcomputes hfits
      · refine ⟨hcomputes, fun hlimit => ?_⟩
        by_contra hlen
        exact (h.refused_of_one hlimit (Nat.le_of_not_lt hlen)).1 hfits
      · cases hgot
        refine ⟨hcomputes, fun hlimit => ?_⟩
        by_contra hlen
        obtain ⟨-, hempty, hnot⟩ := h.refused_of_one hlimit (Nat.le_of_not_lt hlen)
        exact hnot (hrefused rfl hempty)
  | release a =>
    refine forall_congr' fun ha => ?_
    rw [IngressBudget.release_eq h.counted ha, IngressBudget.runWaiters_eq
      (IngressBudget.narrow (h.bounded.giveBack a) (h.counted.giveBack ha))]
    split_ifs with hcompute
    · exact iff_of_true hcompute rfl
    · exact iff_of_false hcompute Bool.false_ne_true
  | notifyRoom w =>
    rw [Meets.eq_def, Fair.eq_def]
    dsimp only
    rw [IngressBudget.notifyRoom, IngressBudget.runWaiters_eq
      (IngressBudget.narrow (h.bounded.setWaiters _) (h.counted.setWaiters _))]
    split_ifs with hcompute
    · exact iff_of_true hcompute rfl
    · exact iff_of_false hcompute Bool.false_ne_true
  | cancelRoom i => exact Iff.rfl

end Refusals

section Run

variable {recordLimit byteLimit : ℕ} {as : List BudgetAction} {s s' : BudgetUsers}

theorem step_limits {a : BudgetAction} (h : s.Sound) (hs : s.step a = some s') :
    s'.budget.recordLimit = s.budget.recordLimit ∧ s'.budget.byteLimit = s.budget.byteLimit := by
  have hrun {g g' : IngressBudget} {ran : List RoomWaiter} (hs : g.runWaiters = some (g', ran)) :
      g'.recordLimit = g.recordLimit ∧ g'.byteLimit = g.byteLimit := by
    obtain ⟨_, -, heq⟩ := Option.map_eq_some_iff.mp hs
    cases heq
    exact ⟨rfl, rfl⟩
  cases a with
  | admitData key len =>
    obtain ⟨⟨g', got⟩, hgot, rfl⟩ := Option.map_eq_some_iff.mp hs
    rw [IngressBudget.admitData_eq h.narrow] at hgot
    split_ifs at hgot
    · cases hgot
      exact ⟨rfl, rfl⟩
    · cases hgot
      exact ⟨rfl, rfl⟩
  | release a =>
    rw [step.eq_def] at hs
    dsimp only at hs
    split_ifs at hs with ha
    obtain ⟨⟨g', ran⟩, hrelease, rfl⟩ := Option.map_eq_some_iff.mp hs
    rw [IngressBudget.release_eq h.counted ha] at hrelease
    have hlimits := hrun hrelease
    exact hlimits
  | notifyRoom w =>
    obtain ⟨⟨g', ran⟩, hnotify, rfl⟩ := Option.map_eq_some_iff.mp hs
    have hlimits := hrun hnotify
    exact hlimits
  | cancelRoom i =>
    cases hs
    exact ⟨rfl, rfl⟩

/-- **The budget is kept, and no waiter with room is left waiting.** Each operation is fair if and
only if it meets its condition. -/
theorem kept_and_fair (hrecord : recordLimit < 2 ^ 32) (hbyte : byteLimit ≤ 2 ^ 63)
    (h : Run step (fun _ _ => True) { budget := { recordLimit, byteLimit } } as s) :
    s.budget.recordLimit = recordLimit ∧ s.budget.byteLimit = byteLimit ∧
    s.budget.Bounded ∧ s.budget.Counted s.admissions ∧
    s.budget.active = (Finset.univ.filter fun b => (s.budget.buckets b).records ≠ 0).card ∧
    (∀ w ∈ s.budget.waiters, ¬ s.budget.Room w) ∧ (∀ w ∈ s.ran, s.budget.Room w) ∧
    RunsOwed s.log ∧
    ∀ a, s.Meets a ↔ s.Fair a := by
  obtain ⟨hsound, hlimits⟩ := h.inv
    (I := fun s => s.Sound ∧ s.budget.recordLimit = recordLimit ∧ s.budget.byteLimit = byteLimit)
    ⟨init_sound hrecord hbyte, rfl, rfl⟩ fun s a s' ⟨hsound, hr, hb⟩ _ hs =>
      have ⟨hr', hb'⟩ := step_limits hsound hs
      ⟨step_sound hsound hs, hr'.trans hr, hb'.trans hb⟩
  refine ⟨hlimits.1, hlimits.2, hsound.bounded, hsound.counted, ?_, hsound.waiting, hsound.ran,
    hsound.runs, hsound.meets_iff⟩
  rw [hsound.counted.active, Finset.card_filter]
  exact Finset.sum_congr rfl fun b _ => (ite_not _ _ _).symm

/-- A waiter runs when its own peer gives room back. -/
def ownRelease : List BudgetAction :=
  [.admitData 1 1, .admitData 1 1, .admitData 2 1, .admitData 2 1, .notifyRoom ⟨0, 1, 1⟩,
    .release ⟨2, 1⟩, .release ⟨1, 1⟩]

theorem kept_and_fair_ownRelease : ∃ s,
    Run step (fun _ _ => True) { budget := { recordLimit := 4, byteLimit := 1000 } } ownRelease s ∧
    s.ran = [⟨0, 1, 1⟩] ∧ s.budget.records = 2 ∧ s.budget.Room ⟨0, 1, 1⟩ := by
  obtain ⟨s, hrun, hran, hrecords⟩ := exists_run_of_exec step (fun _ _ => True)
    { budget := { recordLimit := 4, byteLimit := 1000 } } ownRelease
    (p := fun s => s.ran = [⟨0, 1, 1⟩] ∧ s.budget.records = 2) ⟨_, rfl, rfl, rfl⟩
  obtain ⟨-, -, -, -, -, -, hroom, -⟩ := kept_and_fair (by decide) (by decide) hrun
  exact ⟨s, hrun, hran, hrecords, hroom _ (hran ▸ List.mem_cons_self)⟩

/-- A budget of one record refuses a peer with nothing queued. -/
theorem not_fair_one :
    ¬ Fair { budget := { recordLimit := 1, byteLimit := 1000 } } (.admitData 1 10) := by
  intro hfair
  have hmeets := ((init_sound (by decide) (by decide)).meets_iff _).mpr hfair
  exact absurd (hmeets.2 rfl) (by decide)

end Run

end BudgetUsers

end Zzdds.Transport
