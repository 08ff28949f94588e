import Zzdds.Lib.Trapping
import Zzdds.Rtps.HeldBytes
import Zzdds.Rtps.Reader.FragmentBytes

/-! # The arithmetic of fragments

The functions a DATA_FRAG reaches, once more with every addition, subtraction, multiplication,
division, bit and slice access checked as the source's types check it (`initChecked`,
`receiveFragChecked`, `handleDataFragChecked`, `putFragChecked`).  They return what the model's
unchecked functions return (`…_eq`), so that no other check ever stops the program than the two
the model has: the sum of the two declared sizes beyond 32 bits, and fragment number zero.
`fragment_checks_pass_iff` says exactly when neither does. -/

namespace Zzdds.Rtps

open Zzdds.Lib

/-- The fields have the widths of the source's types. -/
structure DataFragSubmessage.InRange (df : DataFragSubmessage) : Prop where
  start : df.fragmentStartingNum < 2 ^ 32
  count : df.fragmentsInSubmessage < 2 ^ 16
  fragmentSize : df.fragmentSize < 2 ^ 16
  dataSize : df.dataSize < 2 ^ 32

/-- The sizes have the widths of the source's types. -/
structure ReassemblyEntry.InRange (e : ReassemblyEntry) : Prop where
  fragmentSize : e.fragmentSize < 2 ^ 16
  dataSize : e.dataSize < 2 ^ 32

/-! ### Fragments of a sample -/

section count
variable {dataSize fragmentSize idx : ℕ}

theorem fragCount_le (h : 0 < fragmentSize) : fragCount dataSize fragmentSize ≤ dataSize := by
  have hmul : dataSize ≤ dataSize * fragmentSize := Nat.le_mul_of_pos_right dataSize h
  rw [fragCount, ← Nat.lt_succ_iff, Nat.div_lt_iff_lt_mul h, Nat.succ_mul]
  omega

/-- A fragment begins within the sample. -/
theorem mul_lt_of_lt_fragCount (h : 0 < fragmentSize) (hi : idx < fragCount dataSize fragmentSize) :
    idx * fragmentSize < dataSize := by
  have hle : (idx + 1) * fragmentSize ≤ dataSize + fragmentSize - 1 :=
    (Nat.le_div_iff_mul_le h).mp hi
  rw [Nat.succ_mul] at hle
  omega

end count

namespace ReassemblyEntry

/-- `(data_size + fragment_size - 1) / fragment_size`, in `u32`. -/
def totalFragsChecked (dataSize fragmentSize : ℕ) : Option ℕ := do
  let sum ← Trapping.add Trapping.u32 dataSize fragmentSize
  let last ← Trapping.sub sum 1
  Trapping.div last fragmentSize

theorem totalFragsChecked_eq {dataSize fragmentSize : ℕ} (h : 0 < fragmentSize) :
    totalFragsChecked dataSize fragmentSize =
      if 2 ^ 32 ≤ dataSize + fragmentSize then none else some (fragCount dataSize fragmentSize) := by
  unfold totalFragsChecked
  split
  next hle => rw [Trapping.add_eq_none.mpr hle]; rfl
  next hlt =>
    rw [Trapping.add_of_lt (not_le.mp hlt)]
    simp only [Option.bind_eq_bind, Option.bind_some]
    rw [Trapping.sub_of_le (by omega)]
    exact Trapping.div_of_pos h

section Checked

variable {df : DataFragSubmessage} {totalFrags : ℕ}

theorem fragmentSize_pos_of (h : ¬(df.fragmentSize = 0 ∨ df.dataSize = 0)) : 0 < df.fragmentSize :=
  Nat.pos_of_ne_zero fun hzero => h (.inl hzero)

theorem length_fresh (fresh : ℕ → UInt8) (df : DataFragSubmessage) :
    ((List.range df.dataSize).map fresh).length = df.dataSize := by
  rw [List.length_map, List.length_range]

theorem length_replicate_of (h : ¬(df.fragmentSize = 0 ∨ df.dataSize = 0))
    (ht : totalFragsChecked df.dataSize df.fragmentSize = some totalFrags) :
    (List.replicate totalFrags false).length = fragCount df.dataSize df.fragmentSize := by
  rw [totalFragsChecked_eq (fragmentSize_pos_of h)] at ht
  split at ht
  · cases ht
  · cases ht
    exact List.length_replicate

end Checked

/-- `init` with its arithmetic checked. -/
def initChecked (fresh : ℕ → UInt8) (df : DataFragSubmessage) (sourceTimestamp : RtpsTimestamp) :
    Option (Option ReassemblyEntry) :=
  if h : df.fragmentSize = 0 ∨ df.dataSize = 0 then some none
  else
    match ht : totalFragsChecked df.dataSize df.fragmentSize with
    | none => none
    | some totalFrags => some (some {
        data := (List.range df.dataSize).map fresh
        dataSize := df.dataSize
        fragmentSize := df.fragmentSize
        received := List.replicate totalFrags false
        sourceTimestamp := sourceTimestamp
        keyHash := keyHashFromInlineQos df.inlineQos
        fragmentSize_pos := fragmentSize_pos_of h
        length_data := length_fresh fresh df
        length_received := length_replicate_of h ht })

theorem initChecked_eq (fresh : ℕ → UInt8) (df : DataFragSubmessage) (ts : RtpsTimestamp) :
    initChecked fresh df ts = init fresh df ts := by
  unfold initChecked init
  split
  · rfl
  next h =>
    have ht := @totalFragsChecked_eq df.dataSize df.fragmentSize (by omega)
    split at ht
    next hle =>
      rw [if_pos hle]
      split
      · rfl
      next heq => rw [ht] at heq; cases heq
    next hlt =>
      rw [if_neg hlt]
      split
      next heq => rw [ht] at heq; cases heq
      next total heq =>
        rw [ht] at heq
        cases heq
        rfl

/-- The loop of `receiveFrag` with its arithmetic and accesses checked. -/
def receiveLoopChecked (fragmentStartingNum : ℕ) (payload : List UInt8) :
    ℕ → ℕ → ReassemblyEntry → Option ReassemblyEntry
  | 0, _, e => some e
  | k + 1, i, e => do
      let before ← Trapping.sub fragmentStartingNum 1
      let idx ← Trapping.add Trapping.u32 before i
      if e.totalFrags ≤ idx then return e
      else
        let next ← Trapping.add Trapping.u32 i 1
        let isSet ← e.received[idx]?
        if isSet then receiveLoopChecked fragmentStartingNum payload k next e
        else
          let dataOffset ← Trapping.mul Trapping.usize idx e.fragmentSize
          let srcOffset ← Trapping.mul Trapping.usize i e.fragmentSize
          let left ← Trapping.sub e.dataSize dataOffset
          let fragLen := min e.fragmentSize left
          let srcEnd ← Trapping.add Trapping.usize srcOffset fragLen
          if srcEnd ≤ payload.length then
            Trapping.slice dataOffset fragLen e.data.length
            Trapping.slice srcOffset fragLen payload.length
          receiveLoopChecked fragmentStartingNum payload k next (e.takeFrag idx i payload)

def receiveFragChecked (e : ReassemblyEntry) (fragmentStartingNum fragmentsInSubmessage : ℕ)
    (payload : List UInt8) : Option ReassemblyEntry :=
  receiveLoopChecked fragmentStartingNum payload fragmentsInSubmessage 0 e

def acceptChecked (e : ReassemblyEntry) (df : DataFragSubmessage) : Option ReassemblyEntry :=
  (e.captureInlineQos df).receiveFragChecked df.fragmentStartingNum df.fragmentsInSubmessage
    df.serializedPayload

theorem totalFrags_le (e : ReassemblyEntry) : e.totalFrags ≤ e.dataSize :=
  fragCount_le e.fragmentSize_pos

/-- One fragment: no check stops the program. -/
theorem receiveLoopChecked_succ {start k i : ℕ} {payload : List UInt8} {e : ReassemblyEntry}
    (he : e.InRange) (hs : 1 ≤ start) (hsum : start - 1 + i < 2 ^ 32) (hi : i < 2 ^ 16) :
    receiveLoopChecked start payload (k + 1) i e =
      if e.totalFrags ≤ start - 1 + i then some e
      else if e.isSet (start - 1 + i) then receiveLoopChecked start payload k (i + 1) e
      else receiveLoopChecked start payload k (i + 1) (e.takeFrag (start - 1 + i) i payload) := by
  have hmod : (1 : ℕ) < Trapping.u32 := by decide
  rw [receiveLoopChecked]
  simp only [Option.bind_eq_bind, Option.pure_def]
  rw [Trapping.sub_of_le hs, Option.bind_some, Trapping.add_of_lt hsum, Option.bind_some]
  split
  · rfl
  next hlt =>
    have hidx : start - 1 + i < e.totalFrags := not_le.mp hlt
    have hrecv : e.received[start - 1 + i]? = some (e.isSet (start - 1 + i)) := by
      have hlen : start - 1 + i < e.received.length := by
        rw [e.length_received]
        exact hidx
      rw [isSet, List.getD_eq_getElem?_getD, List.getElem?_eq_getElem hlen]
      rfl
    rw [Trapping.add_of_lt (show i + 1 < 2 ^ 32 by omega), Option.bind_some, hrecv, Option.bind_some]
    split
    · rfl
    · have hoff : (start - 1 + i) * e.fragmentSize < e.dataSize :=
        mul_lt_of_lt_fragCount e.fragmentSize_pos hidx
      have hds := he.dataSize
      have hfs := he.fragmentSize
      have hsrc : i * e.fragmentSize < 2 ^ 32 :=
        calc i * e.fragmentSize ≤ 2 ^ 16 * e.fragmentSize := Nat.mul_le_mul_right _ hi.le
          _ < 2 ^ 16 * 2 ^ 16 := Nat.mul_lt_mul_of_pos_left hfs (by decide)
          _ = 2 ^ 32 := by norm_num
      rw [Trapping.mul_of_lt (show _ < 2 ^ 64 by omega), Option.bind_some,
        Trapping.mul_of_lt (show _ < 2 ^ 64 by omega), Option.bind_some,
        Trapping.sub_of_le hoff.le, Option.bind_some,
        Trapping.add_of_lt (show _ < 2 ^ 64 by omega), Option.bind_some]
      split
      next hfit =>
        rw [Trapping.slice_of_le (by rw [e.length_data]; omega), Trapping.slice_of_le hfit]
        rfl
      · rfl

/-- The checks leave the loop as it is. -/
theorem receiveLoopChecked_eq {start : ℕ} {payload : List UInt8} (hs : start < 2 ^ 32) :
    ∀ (k i : ℕ) (e : ReassemblyEntry), e.InRange → i + k < 2 ^ 16 →
      start - 1 + i < 2 ^ 32 →
        receiveLoopChecked start payload k i e = receiveLoop start payload k i e
  | 0, _, _, _, _, _ => rfl
  | k + 1, i, e, he, hk, hsum => by
      by_cases hz : start = 0
      · rw [receiveLoop, if_pos hz, receiveLoopChecked, hz]
        rfl
      · rw [receiveLoopChecked_succ he (by omega) hsum (by omega), receiveLoop, if_neg hz]
        simp only
        split
        · rfl
        next hlt =>
          -- the next number is at most the count of fragments
          have hnext : start - 1 + (i + 1) < 2 ^ 32 := by
            have := e.totalFrags_le
            have := he.dataSize
            omega
          split
          · exact receiveLoopChecked_eq hs k (i + 1) e he (by omega) hnext
          · exact receiveLoopChecked_eq hs k (i + 1) (e.takeFrag (start - 1 + i) i payload)
              ⟨he.fragmentSize, he.dataSize⟩ (by omega) hnext

theorem receiveFragChecked_eq {e : ReassemblyEntry} {start count : ℕ} {payload : List UInt8}
    (he : e.InRange) (hs : start < 2 ^ 32) (hc : count < 2 ^ 16) :
    e.receiveFragChecked start count payload = e.receiveFrag start count payload :=
  receiveLoopChecked_eq hs count 0 e he (by omega) (by omega)

theorem acceptChecked_eq {e : ReassemblyEntry} {df : DataFragSubmessage} (he : e.InRange)
    (hdf : df.InRange) : e.acceptChecked df = e.accept df := by
  obtain ⟨-, -, h₃, h₄⟩ := captureInlineQos_layout e df
  exact receiveFragChecked_eq ⟨h₄ ▸ he.fragmentSize, h₃ ▸ he.dataSize⟩ hdf.start hdf.count

/-- Fragment number zero is what stops the loop. -/
theorem receiveFrag_eq_none_iff {e : ReassemblyEntry} {start count : ℕ} {payload : List UInt8} :
    e.receiveFrag start count payload = none ↔ start = 0 ∧ 0 < count := by
  have hloop : ∀ (k i : ℕ) (e : ReassemblyEntry), 1 ≤ start →
      receiveLoop start payload k i e ≠ none := by
    intro k
    induction k with
    | zero => exact fun i e _ h => nomatch h
    | succ k ih =>
      intro i e hs h
      rw [receiveLoop, if_neg (by omega)] at h
      simp only at h
      split at h
      · cases h
      · split at h
        · exact ih (i + 1) e hs h
        · exact ih (i + 1) _ hs h
  constructor
  · intro h
    cases count with
    | zero => cases h
    | succ k =>
      refine ⟨?_, Nat.succ_pos k⟩
      by_contra hz
      exact hloop (k + 1) 0 e (by omega) h
  · rintro ⟨rfl, hc⟩
    cases count with
    | zero => exact absurd hc (lt_irrefl 0)
    | succ k => rfl

theorem accept_eq_none_iff {e : ReassemblyEntry} {df : DataFragSubmessage} :
    e.accept df = none ↔ df.fragmentStartingNum = 0 ∧ 0 < df.fragmentsInSubmessage :=
  receiveFrag_eq_none_iff

theorem init_eq_none_iff (fresh : ℕ → UInt8) (df : DataFragSubmessage) (ts : RtpsTimestamp) :
    init fresh df ts = none ↔
      df.fragmentSize ≠ 0 ∧ df.dataSize ≠ 0 ∧ 2 ^ 32 ≤ df.dataSize + df.fragmentSize := by
  unfold init
  split
  next h =>
    refine ⟨fun h' => (by cases h'), fun h' => ?_⟩
    omega
  next h =>
    rw [not_or] at h
    split
    next hle => exact ⟨fun _ => ⟨h.1, h.2, hle⟩, fun _ => rfl⟩
    next hlt => exact ⟨fun h' => (by cases h'), fun h' => absurd h'.2.2 hlt⟩

theorem init_eq_some_none_iff {fresh : ℕ → UInt8} {df : DataFragSubmessage} {ts : RtpsTimestamp} :
    init fresh df ts = some none ↔ df.fragmentSize = 0 ∨ df.dataSize = 0 := by
  unfold init
  split
  next h => exact ⟨fun _ => h, fun _ => rfl⟩
  next h => split <;> exact ⟨fun h' => (by cases h'), fun h' => absurd h' h⟩

theorem of_init_eq_some {fresh : ℕ → UInt8} {df : DataFragSubmessage} {ts : RtpsTimestamp}
    {e : ReassemblyEntry} (h : init fresh df ts = some (some e)) :
    (df.fragmentSize ≠ 0 → df.dataSize ≠ 0 → df.dataSize + df.fragmentSize < 2 ^ 32) ∧
      df.fragmentSize ≠ 0 ∧ df.dataSize ≠ 0 := by
  refine ⟨fun h₁ h₂ => ?_, not_or.mp fun h₀ => ?_⟩
  · by_contra hle
    have hnone := (init_eq_none_iff fresh df ts).mpr ⟨h₁, h₂, not_lt.mp hle⟩
    rw [hnone] at h
    cases h
  · rw [init_eq_some_none_iff.mpr h₀] at h
    cases h

theorem inRange_init {fresh : ℕ → UInt8} {df : DataFragSubmessage} {ts : RtpsTimestamp}
    {e : ReassemblyEntry} (hdf : df.InRange) (h : init fresh df ts = some (some e)) :
    e.InRange := by
  obtain ⟨h₁, h₂⟩ := init_layout h
  exact ⟨h₂ ▸ hdf.fragmentSize, h₁ ▸ hdf.dataSize⟩

end ReassemblyEntry

/-! ### The reader -/

/-- `fragEntryLocked` with its arithmetic checked. -/
def fragEntryChecked (core : ReaderCore) (wp : WriterProxy) (fresh : ℕ → UInt8)
    (sourceTimestamp : RtpsTimestamp) (df : DataFragSubmessage) :
    Option (Option ReassemblyEntry) :=
  if wp.received.contains df.writerSn then some none
  else if !core.reliable && decide (df.writerSn ≤ wp.received.max) then some none
  else
    (ReassemblyEntry.initChecked fresh df sourceTimestamp).map
      (fun e => e.map (fun new => (wp.getReassembly df.writerSn).getD new))

/-- `handleDataFragLocked` with its arithmetic checked. -/
def handleDataFragCheckedLocked (core : ReaderCore) (wp : WriterProxy) (fresh : ℕ → UInt8)
    (sourceTimestamp : RtpsTimestamp) (df : DataFragSubmessage) :
    Option (ReaderCore × WriterProxy) := do
  match ← fragEntryChecked core wp fresh sourceTimestamp df with
  | none => return (core, wp)
  | some e =>
      let entry ← e.acceptChecked df
      if !entry.isComplete then return (core, wp.putReassembly df.writerSn entry)
      else
        let (core, wp) := deliverChangeLocked core (wp.putReassembly df.writerSn entry)
          (assembledChange wp.guid df.writerSn entry)
        return (core, wp.removeReassembly df.writerSn)

def StatefulReader.handleDataFragChecked (r : StatefulReader) (writer : Guid) (fresh : ℕ → UInt8)
    (sourceTimestamp : RtpsTimestamp) (df : DataFragSubmessage) : Option StatefulReader :=
  r.onProxy writer
    (fun core wp => handleDataFragCheckedLocked core wp fresh sourceTimestamp df)

/-- The fragment is not dropped before its reassembly is looked up. -/
def takesFrag (core : ReaderCore) (wp : WriterProxy) (sn : ℤ) : Prop :=
  sn ∉ wp.received ∧ (core.reliable = false → wp.received.max < sn)

/-- What the fragment's number and the sizes it declares have to satisfy. -/
def DataFragSubmessage.NumberFits (df : DataFragSubmessage) : Prop :=
  df.fragmentStartingNum = 0 → df.fragmentsInSubmessage = 0

def DataFragSubmessage.SizesFit (df : DataFragSubmessage) : Prop :=
  df.fragmentSize ≠ 0 → df.dataSize ≠ 0 → df.dataSize + df.fragmentSize < 2 ^ 32

/-- A new reassembly of the sample has fragments. -/
def DataFragSubmessage.HasFragments (df : DataFragSubmessage) : Prop :=
  df.fragmentSize ≠ 0 ∧ df.dataSize ≠ 0

section reader
variable {core : ReaderCore} {wp : WriterProxy} {fresh : ℕ → UInt8} {ts : RtpsTimestamp}
  {df : DataFragSubmessage}

theorem fragEntryLocked_of_takes (h : takesFrag core wp df.writerSn) :
    fragEntryLocked core wp fresh ts df = (ReassemblyEntry.init fresh df ts).map
      (fun e => e.map (fun new => (wp.getReassembly df.writerSn).getD new)) := by
  have h₁ : ¬ wp.received.contains df.writerSn = true := h.1
  have h₂ : ¬ (!core.reliable && decide (df.writerSn ≤ wp.received.max)) = true := by
    rw [Bool.and_eq_true, Bool.not_eq_true', decide_eq_true_eq]
    rintro ⟨hr, hle⟩
    exact absurd (h.2 hr) (not_lt.mpr hle)
  rw [fragEntryLocked, if_neg h₁, if_neg h₂]

theorem fragEntryLocked_of_not_takes (h : ¬ takesFrag core wp df.writerSn) :
    fragEntryLocked core wp fresh ts df = some none := by
  unfold fragEntryLocked
  split
  · rfl
  next h₁ =>
    split
    · rfl
    next h₂ =>
      refine absurd ⟨h₁, fun hr => ?_⟩ h
      rw [Bool.and_eq_true, Bool.not_eq_true', decide_eq_true_eq, not_and] at h₂
      exact not_le.mp (h₂ hr)

/-- The entry a fragment is added to has sizes of 32 and 16 bits. -/
theorem inRange_fragEntryLocked {e : ReassemblyEntry} (hwp : wp.AllEntries ReassemblyEntry.InRange)
    (hdf : df.InRange) (h : fragEntryLocked core wp fresh ts df = some (some e)) : e.InRange := by
  by_cases ht : takesFrag core wp df.writerSn
  · rw [fragEntryLocked_of_takes ht] at h
    simp only [Option.map_eq_some_iff] at h
    obtain ⟨e?, hinit, e₀, rfl, he⟩ := h
    cases hget : wp.getReassembly df.writerSn with
    | none =>
      rw [hget] at he
      cases he
      exact ReassemblyEntry.inRange_init hdf hinit
    | some e₁ =>
      rw [hget] at he
      cases he
      obtain ⟨q, hq, rfl⟩ := WriterProxy.getReassembly_mem hget
      exact hwp q hq
  · rw [fragEntryLocked_of_not_takes ht] at h
    cases h

theorem handleDataFragCheckedLocked_eq (hwp : wp.AllEntries ReassemblyEntry.InRange)
    (hdf : df.InRange) :
    handleDataFragCheckedLocked core wp fresh ts df = handleDataFragLocked core wp fresh ts df := by
  have hentry : fragEntryChecked core wp fresh ts df = fragEntryLocked core wp fresh ts df := by
    unfold fragEntryChecked fragEntryLocked
    rw [ReassemblyEntry.initChecked_eq]
  unfold handleDataFragCheckedLocked handleDataFragLocked
  rw [hentry]
  cases he : fragEntryLocked core wp fresh ts df with
  | none => rfl
  | some e? =>
    cases e? with
    | none => rfl
    | some e =>
      simp only [Option.bind_eq_bind, Option.bind_some]
      rw [ReassemblyEntry.acceptChecked_eq (inRange_fragEntryLocked hwp hdf he) hdf]

theorem handleDataFragLocked_ne_none_iff (core : ReaderCore) (wp : WriterProxy)
    (fresh : ℕ → UInt8) (ts : RtpsTimestamp) (df : DataFragSubmessage) :
    handleDataFragLocked core wp fresh ts df ≠ none ↔
      (takesFrag core wp df.writerSn → df.HasFragments → df.SizesFit ∧ df.NumberFits) := by
  unfold handleDataFragLocked
  by_cases ht : takesFrag core wp df.writerSn
  · rw [fragEntryLocked_of_takes ht]
    cases hinit : ReassemblyEntry.init fresh df ts with
    | none =>
      obtain ⟨h₁, h₂, hle⟩ := (ReassemblyEntry.init_eq_none_iff _ _ _).mp hinit
      refine ⟨fun h => absurd rfl h, fun h => ?_⟩
      exact absurd ((h ht ⟨h₁, h₂⟩).1 h₁ h₂) (not_lt.mpr hle)
    | some e? =>
      cases e? with
      | none =>
        have h₀ := ReassemblyEntry.init_eq_some_none_iff.mp hinit
        refine ⟨fun _ _ hf => ?_, fun _ h => nomatch h⟩
        exact absurd h₀ (not_or.mpr hf)
      | some new =>
        obtain ⟨hsizes, hfrags⟩ := ReassemblyEntry.of_init_eq_some hinit
        simp only [Option.map_some, Option.bind_eq_bind, Option.bind_some]
        cases hacc : ((wp.getReassembly df.writerSn).getD new).accept df with
        | none =>
          obtain ⟨h₁, h₂⟩ := ReassemblyEntry.accept_eq_none_iff.mp hacc
          refine ⟨fun h => absurd rfl h, fun h => ?_⟩
          exact absurd ((h ht hfrags).2 h₁) h₂.ne'
        | some entry =>
          refine ⟨fun _ _ _ => ⟨hsizes, fun h₁ => ?_⟩, fun _ h => ?_⟩
          · by_contra h₂
            have hnone := ReassemblyEntry.accept_eq_none_iff
              (e := (wp.getReassembly df.writerSn).getD new).mpr ⟨h₁, Nat.pos_of_ne_zero h₂⟩
            rw [hnone] at hacc
            cases hacc
          · simp only [Option.bind_some] at h
            split at h <;> cases h
  · rw [fragEntryLocked_of_not_takes ht]
    exact ⟨fun _ h => absurd h ht, fun _ h => nomatch h⟩

end reader

/-! ### The cache for unmatched writers -/

/-- Take `n` off a count of bytes. -/
def releaseBytes (bytes : ℤ) (n : ℕ) : Option ℤ := if (n : ℤ) ≤ bytes then some (bytes - n) else none

/-- Add `n` to a count of bytes. -/
def addBytes (bytes : ℤ) (n : ℕ) : Option ℤ :=
  if bytes + n < (Trapping.usize : ℤ) then some (bytes + n) else none

theorem releaseBytes_of_le {bytes : ℤ} {n : ℕ} (h : (n : ℤ) ≤ bytes) :
    releaseBytes bytes n = some (bytes - n) := if_pos h

theorem addBytes_of_lt {bytes : ℤ} {n : ℕ} (h : bytes + n < 2 ^ 64) :
    addBytes bytes n = some (bytes + n) := if_pos h

/-- A count that covers the sizes covers them one by one. -/
theorem foldlM_releaseBytes : ∀ {sizes : List ℕ} {bytes : ℤ}, (sizes.sum : ℤ) ≤ bytes →
    sizes.foldlM releaseBytes bytes = some (bytes - (sizes.sum : ℕ))
  | [], bytes, _ => by simp
  | n :: sizes, bytes, h => by
      rw [List.sum_cons, Nat.cast_add] at h
      rw [List.foldlM_cons, releaseBytes_of_le (by omega)]
      simp only [Option.bind_eq_bind, Option.bind_some]
      rw [foldlM_releaseBytes (by omega), List.sum_cons, Nat.cast_add]
      congr 1
      omega

/-- Limits under which the counts stay in range, as those of the participant's cache do. -/
structure Limits.Sane (limits : Limits) : Prop where
  bytes : 2 * limits.maxBytes < 2 ^ 64
  samples : 0 < limits.maxSamplesPerWriter
  partials : 0 < limits.maxPartialsPerWriter

/-- `UNMATCHED_LIMITS`: the limits of the participant's cache. -/
def UNMATCHED_LIMITS : Limits where
  maxBytes := 16 * 1024 * 1024
  maxWriters := 256
  maxSamplesPerWriter := 64
  maxPartialsPerWriter := 8

namespace UnmatchedCache

/-- `expireLocked`, with each size taken off the count in turn.  A writer left with nothing
releases nothing. -/
def expireChecked (c : UnmatchedCache) (nowNs : ℤ) : Option UnmatchedCache := do
  let bytes ← (c.writers.flatMap (·.expiredSizes nowNs)).foldlM releaseBytes c.bytes
  return removeWriters { c with writers := c.writers.map (·.expire nowNs), bytes := bytes }
    HeldWriter.isEmpty

def reserveChecked (c : UnmatchedCache) (n : ℕ) (nowNs : ℤ) : Option (UnmatchedCache × Bool) := do
  let sum ← addBytes c.bytes n
  if sum ≤ c.limits.maxBytes then return (c, true)
  else
    let c ← c.expireChecked nowNs
    let sum ← addBytes c.bytes n
    return (c, decide (sum ≤ c.limits.maxBytes))

def writerChecked (c : UnmatchedCache) (writer : Guid) (nowNs : ℤ) :
    Option (UnmatchedCache × Option HeldWriter) :=
  match c.getPtr writer with
  | some w => some (c, some w)
  | none => do
      let c ← if c.limits.maxWriters ≤ c.writers.length then c.expireChecked nowNs else some c
      if c.limits.maxWriters ≤ c.writers.length then return (c, none)
      else
        let w : HeldWriter := { guid := writer }
        return ({ c with writers := c.writers ++ [w] }, some w)

def appendSampleChecked (c : UnmatchedCache) (w : HeldWriter) (s : HeldSample) :
    Option UnmatchedCache :=
  if c.limits.maxSamplesPerWriter ≤ w.samples.length then
    match w.samples with
    | [] => none
    | evicted :: rest => do
        let bytes ← releaseBytes c.bytes evicted.change.data.length
        let bytes ← addBytes bytes s.change.data.length
        return store { c with bytes := bytes } { w with samples := rest ++ [s] }
  else do
    let bytes ← addBytes c.bytes s.change.data.length
    return store { c with bytes := bytes } { w with samples := w.samples ++ [s] }

def receiveFragChecked (c : UnmatchedCache) (w : HeldWriter) (idx : ℕ)
    (df : DataFragSubmessage) : Option UnmatchedCache :=
  match w.partials[idx]? with
  | none => none
  | some p => do
      let entry ← p.entry.acceptChecked df
      if entry.isComplete then
        let bytes ← releaseBytes c.bytes entry.dataSize
        appendSampleChecked { c with bytes := bytes }
          { w with partials := w.partials.eraseIdx idx }
          (reassembled w.guid { p with entry := entry })
      else
        return c.store { w with partials := w.partials.set idx { p with entry := entry } }

def evictPartialChecked (c : UnmatchedCache) (w : HeldWriter) :
    Option (UnmatchedCache × List HeldPartial) :=
  if c.limits.maxPartialsPerWriter ≤ w.partials.length then
    match w.partials with
    | [] => none
    | evicted :: rest => do
        let bytes ← releaseBytes c.bytes evicted.entry.dataSize
        return ({ c with bytes := bytes }, rest)
  else some (c, w.partials)

def startPartialChecked (c : UnmatchedCache) (fresh : ℕ → UInt8) (w : HeldWriter)
    (target : EntityId) (df : DataFragSubmessage) (sourceTimestamp : RtpsTimestamp)
    (expiresNs : ℤ) : Option UnmatchedCache := do
  let (c, kept) ← c.evictPartialChecked w
  match ← ReassemblyEntry.initChecked fresh df sourceTimestamp with
  | none => return c.store { w with partials := kept }
  | some entry =>
      let bytes ← addBytes c.bytes df.dataSize
      receiveFragChecked { c with bytes := bytes }
        { w with partials := kept ++ [⟨df.writerSn, target, expiresNs, entry⟩] } kept.length df

/-- `putFrag` with its arithmetic and accesses checked. -/
def putFragChecked (c : UnmatchedCache) (fresh : ℕ → UInt8) (writer : Guid) (target : EntityId)
    (df : DataFragSubmessage) (sourceTimestamp : RtpsTimestamp) (nowNs ttlNs : ℤ) :
    Option UnmatchedCache :=
  if (c.getPtr writer).any (·.hasSample df.writerSn target) then some c
  else
    match (c.getPtr writer).bind (fun w => (w.partialIdx df.writerSn target).map (w, ·)) with
    | some (w, idx) => c.receiveFragChecked w idx df
    | none =>
        if c.limits.maxBytes < df.dataSize then some c
        else do
          let (c, fits) ← c.reserveChecked df.dataSize nowNs
          if !fits then return c
          else
            match ← c.writerChecked writer nowNs with
            | (c, none) => return c
            | (c, some w) => do
                let c ← c.startPartialChecked fresh w target df sourceTimestamp (nowNs + ttlNs)
                return c.dropIfEmptyLocked writer

section checks
variable {c c' : UnmatchedCache} {w : HeldWriter} {writer : Guid} {target : EntityId}
  {fresh : ℕ → UInt8} {df : DataFragSubmessage} {ts : RtpsTimestamp} {nowNs ttlNs : ℤ}

theorem sum_expiredSizes (nowNs : ℤ) : ∀ ws : List HeldWriter,
    (((ws.flatMap (·.expiredSizes nowNs)).sum : ℕ) : ℤ) =
      (ws.map (fun w => w.byteCount - (w.expire nowNs).byteCount)).sum
  | [] => rfl
  | w :: ws => by
      have ih := sum_expiredSizes nowNs ws
      have hw := w.byteCount_expire nowNs
      rw [List.flatMap_cons, List.sum_append, Nat.cast_add, List.map_cons, List.sum_cons, ← ih]
      omega

theorem expireChecked_eq (h : c.Accounted) (nowNs : ℤ) :
    c.expireChecked nowNs = some (c.expireLocked nowNs) := by
  have hsum := sum_expiredSizes nowNs c.writers
  have hleft := sum_byteCount_expire nowNs c.writers
  have hnonneg : 0 ≤ ((c.writers.map (·.expire nowNs)).map HeldWriter.byteCount).sum := by
    refine List.sum_nonneg fun n hn => ?_
    obtain ⟨w, -, rfl⟩ := List.mem_map.mp hn
    exact w.byteCount_nonneg
  have hb : c.bytes = (c.writers.map HeldWriter.byteCount).sum := h.bytes
  unfold expireChecked expireLocked
  rw [foldlM_releaseBytes (by omega), hsum]
  rfl

theorem reserveChecked_eq {n : ℕ} (h : c.Accounted) (hl : c.limits.Sane)
    (hn : n ≤ c.limits.maxBytes) (nowNs : ℤ) :
    c.reserveChecked n nowNs = some (c.reserveLocked n nowNs) := by
  have hsum : ∀ c' : UnmatchedCache, c'.bytes ≤ c.limits.maxBytes → c'.bytes + n < 2 ^ 64 := by
    intro c' hc'
    have := hl.bytes
    omega
  unfold reserveChecked reserveLocked
  rw [addBytes_of_lt (hsum c h.fits)]
  simp only [Option.bind_eq_bind, Option.bind_some]
  split
  · rfl
  · rw [expireChecked_eq h, Option.bind_some,
      addBytes_of_lt (hsum _ (accounted_expireLocked h nowNs).fits)]
    rfl

theorem writerChecked_eq (h : c.Accounted) (writer : Guid) (nowNs : ℤ) :
    c.writerChecked writer nowNs = some (c.writerLocked writer nowNs) := by
  unfold writerChecked writerLocked
  cases c.getPtr writer with
  | some w => rfl
  | none =>
    rw [expireChecked_eq h]
    by_cases hfull : c.limits.maxWriters ≤ c.writers.length
    · simp only [if_pos hfull, Option.bind_eq_bind, Option.bind_some]
      split <;> rfl
    · simp only [if_neg hfull, Option.bind_eq_bind, Option.bind_some]
      rfl

theorem appendSampleChecked_eq {s : HeldSample} (h : c.Holding w) (hl : c.limits.Sane)
    (hfits : c.bytes + s.change.data.length ≤ c.limits.maxBytes) :
    c.appendSampleChecked w s = c.appendSampleLocked w s := by
  have hmax := hl.bytes
  unfold appendSampleChecked appendSampleLocked
  simp only
  split
  · cases hs : w.samples with
    | nil => rfl
    | cons evicted rest =>
      have hle := (HeldWriter.le_byteCount_of_sample hs).trans h.byteCount_le
      simp only [releaseBytes_of_le hle, Option.bind_eq_bind, Option.bind_some]
      rw [addBytes_of_lt (by omega), Option.bind_some]
      have hb : c.bytes - evicted.change.data.length + s.change.data.length =
          c.bytes + s.change.data.length - evicted.change.data.length := by omega
      rw [hb]
      rfl
  · rw [addBytes_of_lt (by omega)]
    rfl

theorem receiveFragChecked_eq {idx : ℕ} (h : c.Holding w) (hl : c.limits.Sane)
    (hfits : c.bytes ≤ c.limits.maxBytes) (hw : w.AllEntries ReassemblyEntry.InRange)
    (hdf : df.InRange) : c.receiveFragChecked w idx df = c.receiveFragLocked w idx df := by
  unfold receiveFragChecked receiveFragLocked
  cases hp : w.partials[idx]? with
  | none => rfl
  | some p =>
    simp only
    rw [ReassemblyEntry.acceptChecked_eq (hw p (List.mem_of_getElem? hp)) hdf]
    cases hacc : p.entry.accept df with
    | none => rfl
    | some entry =>
      simp only [Option.bind_eq_bind, Option.bind_some]
      split
      · have hsize := (ReassemblyEntry.accept_layout hacc).1
        have herase := HeldWriter.partialBytes_eraseIdx hp
        have hhold : Holding { c with bytes := c.bytes - entry.dataSize }
            { w with partials := w.partials.eraseIdx idx } := by
          refine h.change rfl ?_
          unfold HeldWriter.byteCount
          dsimp only
          omega
        have hle : (entry.dataSize : ℤ) ≤ c.bytes := by
          have h₁ := hhold.byteCount_le
          have h₂ := HeldWriter.byteCount_nonneg
            { w with partials := w.partials.eraseIdx idx }
          dsimp only at h₁
          omega
        have hlen : (reassembled w.guid { p with entry := entry }).change.data.length =
            entry.dataSize := entry.length_data
        rw [releaseBytes_of_le hle, Option.bind_some]
        exact appendSampleChecked_eq hhold hl (by rw [hlen]; dsimp only; omega)
      · rfl

theorem evictPartialChecked_eq (h : c.Holding w) :
    c.evictPartialChecked w = c.evictPartial w := by
  unfold evictPartialChecked evictPartial
  split
  · cases hp : w.partials with
    | nil => rfl
    | cons evicted rest =>
      have hle : (evicted.entry.dataSize : ℤ) ≤ c.bytes := by
        refine le_trans ?_ h.byteCount_le
        have h₁ := HeldWriter.sampleBytes_nonneg w.samples
        have h₂ := HeldWriter.partialBytes_nonneg rest
        rw [HeldWriter.byteCount, hp, List.map_cons, List.sum_cons]
        omega
      simp only [releaseBytes_of_le hle]
      rfl
  · rfl

theorem startPartialChecked_eq {expiresNs : ℤ} (h : c.Holding w) (hl : c.limits.Sane)
    (hfits : c.bytes + df.dataSize ≤ c.limits.maxBytes)
    (hw : w.AllEntries ReassemblyEntry.InRange) (hdf : df.InRange) :
    c.startPartialChecked fresh w target df ts expiresNs =
      c.startPartial fresh w target df ts expiresNs := by
  unfold startPartialChecked startPartial
  rw [evictPartialChecked_eq h, ReassemblyEntry.initChecked_eq]
  cases hkept : c.evictPartial w with
  | none => rfl
  | some out =>
    obtain ⟨c₁, kept⟩ := out
    obtain ⟨hhold, hlim, hle, hsub⟩ := evictPartial_spec h hkept
    cases hinit : ReassemblyEntry.init fresh df ts with
    | none => rfl
    | some e? =>
      cases e? with
      | none => rfl
      | some entry =>
        have hmax := hl.bytes
        have hsize := (ReassemblyEntry.init_layout hinit).1
        simp only [Option.bind_eq_bind, Option.bind_some]
        rw [addBytes_of_lt (by omega), Option.bind_some]
        have hnew : Holding { c₁ with bytes := c₁.bytes + df.dataSize }
            { w with partials := kept ++ [⟨df.writerSn, target, expiresNs, entry⟩] } :=
          hhold.addPartial hsize
        refine receiveFragChecked_eq hnew (by rw [hlim]; exact hl) (by dsimp only; rw [hlim]; omega)
          (fun p hp => ?_) hdf
        rcases List.mem_append.mp hp with hp | hp
        · exact hw p (hsub p hp)
        · cases List.mem_singleton.mp hp
          exact ReassemblyEntry.inRange_init hdf hinit

/-- No check stops the cache but those the model has. -/
theorem putFragChecked_eq (h : c.Accounted) (hl : c.limits.Sane)
    (hentries : c.AllEntries ReassemblyEntry.InRange) (hdf : df.InRange) :
    c.putFragChecked fresh writer target df ts nowNs ttlNs =
      c.putFrag fresh writer target df ts nowNs ttlNs := by
  unfold putFragChecked putFrag
  split
  · rfl
  cases hidx : (c.getPtr writer).bind
      (fun w => (w.partialIdx df.writerSn target).map (w, ·)) with
  | some found =>
    obtain ⟨w', hw', hidx⟩ := Option.bind_eq_some_iff.mp hidx
    obtain ⟨i, -, rfl⟩ := Option.map_eq_some_iff.mp hidx
    exact receiveFragChecked_eq (h.holding (List.mem_of_find?_eq_some hw')) hl h.fits
      (hentries.getPtr hw') hdf
  | none =>
    simp only
    split
    · rfl
    next hn =>
      rw [reserveChecked_eq h hl (not_lt.mp hn)]
      simp only [Option.bind_eq_bind, Option.bind_some]
      have hres := hentries.reserveLocked df.dataSize nowNs
      cases hr : c.reserveLocked df.dataSize nowNs with
      | mk c₁ fits =>
        rw [hr] at hres
        obtain ⟨hacc, hlim, hroom⟩ := reserveLocked_spec h hr
        cases fits with
        | false => rfl
        | true =>
          have hroom := hroom rfl
          simp only [Bool.not_true, Bool.false_eq_true, if_false]
          rw [writerChecked_eq hacc]
          have hwl := hres.writerLocked writer nowNs
          cases hw : c₁.writerLocked writer nowNs with
          | mk c₂ w? =>
            rw [hw] at hwl
            obtain ⟨hacc₂, hlim₂, hle, hmem⟩ := writerLocked_spec hacc hw
            cases w? with
            | none => rfl
            | some w =>
              simp only [Option.bind_some]
              rw [startPartialChecked_eq (hacc₂.holding (hmem w rfl))
                (by rw [hlim₂, hlim]; exact hl) (by rw [hlim₂, hlim]; omega) (hwl.2 w rfl) hdf]

theorem appendSampleLocked_ne_none {s : HeldSample} (h : 0 < c.limits.maxSamplesPerWriter) :
    c.appendSampleLocked w s ≠ none := by
  unfold appendSampleLocked
  simp only
  split
  next hfull =>
    cases hs : w.samples with
    | nil =>
      rw [hs] at hfull
      exact absurd (h.trans_le hfull) (lt_irrefl 0)
    | cons evicted rest => exact fun h' => nomatch h'
  · exact fun h' => nomatch h'

theorem receiveFragLocked_ne_none_iff {idx : ℕ} {p : HeldPartial}
    (h : 0 < c.limits.maxSamplesPerWriter) (hp : w.partials[idx]? = some p)
    (df : DataFragSubmessage) :
    c.receiveFragLocked w idx df ≠ none ↔ df.NumberFits := by
  unfold receiveFragLocked
  simp only [hp]
  cases hacc : p.entry.accept df with
  | none =>
    obtain ⟨h₁, h₂⟩ := ReassemblyEntry.accept_eq_none_iff.mp hacc
    exact ⟨fun h' => absurd rfl h', fun h' => absurd (h' h₁) h₂.ne'⟩
  | some entry =>
    refine ⟨fun _ h₁ => ?_, fun _ => ?_⟩
    · by_contra h₂
      have hnone := (ReassemblyEntry.accept_eq_none_iff (e := p.entry)).mpr
        ⟨h₁, Nat.pos_of_ne_zero h₂⟩
      rw [hnone] at hacc
      cases hacc
    · simp only [Option.bind_eq_bind, Option.bind_some]
      split
      · exact appendSampleLocked_ne_none h
      · exact fun h' => nomatch h'

theorem evictPartial_ne_none (h : 0 < c.limits.maxPartialsPerWriter) :
    c.evictPartial w ≠ none := by
  unfold evictPartial
  split
  next hfull =>
    cases hp : w.partials with
    | nil =>
      rw [hp] at hfull
      exact absurd (h.trans_le hfull) (lt_irrefl 0)
    | cons evicted rest => exact fun h' => nomatch h'
  · exact fun h' => nomatch h'

theorem startPartial_ne_none_iff (fresh : ℕ → UInt8) (target : EntityId)
    (df : DataFragSubmessage) (ts : RtpsTimestamp) (expiresNs : ℤ) (h : c.Holding w)
    (hl : c.limits.Sane) :
    c.startPartial fresh w target df ts expiresNs ≠ none ↔
      (df.HasFragments → df.SizesFit ∧ df.NumberFits) := by
  unfold startPartial
  cases hkept : c.evictPartial w with
  | none => exact absurd hkept (evictPartial_ne_none hl.partials)
  | some out =>
    obtain ⟨c₁, kept⟩ := out
    obtain ⟨-, hlim, -⟩ := evictPartial_spec h hkept
    simp only [Option.bind_eq_bind, Option.bind_some]
    cases hinit : ReassemblyEntry.init fresh df ts with
    | none =>
      obtain ⟨h₁, h₂, hle⟩ := (ReassemblyEntry.init_eq_none_iff _ _ _).mp hinit
      refine ⟨fun h' => absurd rfl h', fun h' => ?_⟩
      exact absurd ((h' ⟨h₁, h₂⟩).1 h₁ h₂) (not_lt.mpr hle)
    | some e? =>
      cases e? with
      | none =>
        have h₀ := ReassemblyEntry.init_eq_some_none_iff.mp hinit
        exact ⟨fun _ hf => absurd h₀ (not_or.mpr hf), fun _ h' => (nomatch h')⟩
      | some entry =>
        obtain ⟨hsizes, hfrags⟩ := ReassemblyEntry.of_init_eq_some hinit
        have hp : (kept ++ [(⟨df.writerSn, target, expiresNs, entry⟩ : HeldPartial)])[kept.length]? =
            some ⟨df.writerSn, target, expiresNs, entry⟩ := by
          rw [List.getElem?_append_right le_rfl, Nat.sub_self]
          rfl
        have hiff := receiveFragLocked_ne_none_iff
          (c := { c₁ with bytes := c₁.bytes + df.dataSize })
          (w := { w with partials := kept ++ [⟨df.writerSn, target, expiresNs, entry⟩] })
          (by rw [hlim]; exact hl.samples) hp df
        exact ⟨fun h' _ => ⟨hsizes, hiff.mp h'⟩, fun h' => hiff.mpr (h' hfrags).2⟩

end checks

/-- A sample with the number is held for the target. -/
def holdsSample (c : UnmatchedCache) (writer : Guid) (target : EntityId) (sn : ℤ) : Bool :=
  (c.getPtr writer).any (·.hasSample sn target)

/-- A reassembly of the sample is in progress for the target. -/
def inProgress (c : UnmatchedCache) (writer : Guid) (target : EntityId) (sn : ℤ) : Bool :=
  (c.getPtr writer).any (fun w => (w.partialIdx sn target).isSome)

/-- The limits let a sample of `n` bytes of the writer in. -/
def HasRoom (c : UnmatchedCache) (writer : Guid) (n : ℕ) (nowNs : ℤ) : Prop :=
  n ≤ c.limits.maxBytes ∧ (c.reserveLocked n nowNs).2 = true ∧
    ((c.reserveLocked n nowNs).1.writerLocked writer nowNs).2.isSome = true

/-- Exactly when a fragment for the cache passes its checks. -/
theorem putFrag_ne_none_iff {c : UnmatchedCache} {writer : Guid} {target : EntityId}
    {fresh : ℕ → UInt8} {df : DataFragSubmessage} {ts : RtpsTimestamp} {nowNs ttlNs : ℤ}
    (h : c.Accounted) (hl : c.limits.Sane) :
    c.putFrag fresh writer target df ts nowNs ttlNs ≠ none ↔
      (c.holdsSample writer target df.writerSn = false →
        (c.inProgress writer target df.writerSn = true → df.NumberFits) ∧
        (c.inProgress writer target df.writerSn = false → c.HasRoom writer df.dataSize nowNs →
          df.HasFragments → df.SizesFit ∧ df.NumberFits)) := by
  unfold putFrag
  split
  next hsample =>
    refine ⟨fun _ h' => ?_, fun _ h' => nomatch h'⟩
    have hs : c.holdsSample writer target df.writerSn = true := hsample
    rw [hs] at h'
    cases h'
  next hsample =>
    have hsample : c.holdsSample writer target df.writerSn = false := Bool.eq_false_iff.mpr hsample
    cases hidx : (c.getPtr writer).bind
        (fun w => (w.partialIdx df.writerSn target).map (w, ·)) with
    | some found =>
      obtain ⟨w, hw, hidx⟩ := Option.bind_eq_some_iff.mp hidx
      obtain ⟨i, hi, rfl⟩ := Option.map_eq_some_iff.mp hidx
      have hin : c.inProgress writer target df.writerSn = true := by
        rw [inProgress, hw, Option.any_some, hi]
        rfl
      obtain ⟨hlt, -⟩ := List.findIdx?_eq_some_iff_getElem.mp hi
      have hiff := receiveFragLocked_ne_none_iff (w := w) hl.samples
        (List.getElem?_eq_getElem hlt) df
      refine hiff.trans ⟨fun hn _ => ⟨fun _ => hn, fun h' => ?_⟩, fun h' => (h' hsample).1 hin⟩
      rw [hin] at h'
      cases h'
    | none =>
      have hin : c.inProgress writer target df.writerSn = false := by
        rw [inProgress]
        cases hw : c.getPtr writer with
        | none => rfl
        | some w =>
          rw [hw, Option.bind_some] at hidx
          rw [Option.any_some, Option.map_eq_none_iff.mp hidx]
          rfl
      -- nothing in progress: the limits decide whether a reassembly is started
      have hgoal : ∀ {o : Option UnmatchedCache}, (o ≠ none ↔
          (c.HasRoom writer df.dataSize nowNs → df.HasFragments →
            df.SizesFit ∧ df.NumberFits)) → (o ≠ none ↔
          (c.holdsSample writer target df.writerSn = false →
            (c.inProgress writer target df.writerSn = true → df.NumberFits) ∧
            (c.inProgress writer target df.writerSn = false →
              c.HasRoom writer df.dataSize nowNs → df.HasFragments →
                df.SizesFit ∧ df.NumberFits))) := by
        intro o ho
        refine ho.trans ⟨fun h' _ => ⟨fun ht => ?_, fun _ => h'⟩, fun h' => (h' hsample).2 hin⟩
        rw [hin] at ht
        cases ht
      simp only
      split
      next hbig => exact hgoal ⟨fun _ hr => absurd hr.1 (not_le.mpr hbig), fun _ h' => nomatch h'⟩
      next hn =>
        cases hr : c.reserveLocked df.dataSize nowNs with
        | mk c₁ fits =>
          obtain ⟨hacc, hlim, -⟩ := reserveLocked_spec h hr
          cases fits with
          | false =>
            refine hgoal ⟨fun _ hroom => ?_, fun _ h' => nomatch h'⟩
            have := hroom.2.1
            rw [hr] at this
            cases this
          | true =>
            cases hw : c₁.writerLocked writer nowNs with
            | mk c₂ w? =>
              obtain ⟨hacc₂, hlim₂, -, hmem⟩ := writerLocked_spec hacc hw
              cases w? with
              | none =>
                simp only [hw]
                refine hgoal ⟨fun _ hroom => ?_, fun _ h' => nomatch h'⟩
                have := hroom.2.2
                rw [hr, hw] at this
                cases this
              | some w =>
                have hroom : c.HasRoom writer df.dataSize nowNs := by
                  refine ⟨not_lt.mp hn, ?_, ?_⟩
                  · rw [hr]
                  · rw [hr, hw]
                    rfl
                have hiff := startPartial_ne_none_iff fresh target df ts (nowNs + ttlNs)
                  (hacc₂.holding (hmem w rfl)) (by rw [hlim₂, hlim]; exact hl)
                refine hgoal ?_
                simp only [hw]
                refine Iff.trans ?_ (hiff.trans ⟨fun h' _ => h', fun h' => h' hroom⟩)
                cases c₂.startPartial fresh w target df ts (nowNs + ttlNs) with
                | none => rfl
                | some c₃ => exact ⟨fun _ h' => (nomatch h'), fun _ h' => (nomatch h')⟩

end UnmatchedCache

end Zzdds.Rtps
