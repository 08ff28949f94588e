import Zzdds.Rtps.Message.ParserSafe
import Zzdds.Rtps.Message.Builder

/-! # Reading back what was written

`Reads n p bs rest v`: from offset `n`, the parser `p` reads the octets `bs` as `v` and stops
in front of `rest`.  `Reads.bind` composes such facts along a parser, so the lemma for each
submessage is the list of its fields.  Inline QoS is the one place where the offset matters,
since the parser aligns it: `reads_inlineQos` asks for an offset that is a multiple of four. -/

namespace Zzdds.Rtps

open Zzdds.Lib Reader

variable {α β : Type}

/-- From offset `n`, `p` reads `bs` as `v` and stops in front of `rest`. -/
def Reads (n : ℕ) (p : Parse α) (bs rest : List UInt8) (v : α) : Prop :=
  ∀ before : List UInt8, before.length = n →
    p ⟨before ++ (bs ++ rest), n, true⟩ =
      .ok (v, ⟨before ++ (bs ++ rest), n + bs.length, true⟩)

namespace Reads

variable {n : ℕ} {bs bs' rest : List UInt8}

theorem pure (v : α) : Reads n (Pure.pure v : Parse α) [] rest v := fun _ _ => rfl

theorem bind {p : Parse α} {f : α → Parse β} {v : α} {w : β} (hp : Reads n p bs (bs' ++ rest) v)
    (hf : Reads (n + bs.length) (f v) bs' rest w) : Reads n (p >>= f) (bs ++ bs') rest w := by
  intro before hb
  have h1 := hp before hb
  have h2 := hf (before ++ bs) (by simp [hb])
  simp only [List.append_assoc] at h1 h2 ⊢
  rw [Checked.bind_of_ok h1, h2]
  simp [Nat.add_assoc]

theorem map {p : Parse α} {v : α} (g : α → β) (hp : Reads n p bs rest v) :
    Reads n (p >>= fun a => Pure.pure (g a)) bs rest (g v) := by
  intro before hb
  rw [Checked.bind_of_ok (hp before hb), Checked.pure_apply]

end Reads

variable {n : ℕ} {rest : List UInt8}

/-! ### Fields -/

theorem reads_take {k : ℕ} (b : Bytes k) : Reads n (Reader.take k) b.val rest (true, b) := by
  intro before hb
  rw [Reader.take, if_neg (by simp [hb]), dif_neg (by simp [hb])]
  simp only [Outcome.ok.injEq, Prod.mk.injEq, true_and]
  refine ⟨?_, by simp⟩
  ext1
  simp [← hb]

theorem reads_readBytes (bs : List UInt8) : Reads n (readBytes bs.length) bs rest bs :=
  (reads_take (⟨bs, rfl⟩ : Bytes bs.length)).map (fun b => b.2.val)

/-- Reading `k` octets of a number that fits them. -/
theorem reads_leBytes {k v : ℕ} (g : ℕ → β) (hv : v < 256 ^ k) :
    Reads n (Reader.take k >>= fun b => pure (g (readInt b.1 b.2.val))) (leBytes k v) rest
      (g v) := by
  have h : Reads n _ _ rest _ := (reads_take (⟨leBytes k v, leBytes_length k v⟩ : Bytes k)).map
    (fun b => g (readInt b.1 b.2.val))
  rwa [readInt_leBytes, Nat.mod_eq_of_lt hv] at h

theorem reads_readU16 {v : ℕ} (hv : v < 2 ^ 16) : Reads n readU16 (leBytes 2 v) rest v :=
  reads_leBytes id hv

theorem reads_readU32 {v : ℕ} (hv : v < 2 ^ 32) : Reads n readU32 (leBytes 4 v) rest v :=
  reads_leBytes id hv

theorem reads_readI32 (v : Int32) :
    Reads n readI32 (leBytes 4 v.toUInt32.toNat) rest v := by
  have h : Reads n readI32 _ rest _ :=
    (reads_readU32 (UInt32.toNat_lt v.toUInt32)).map (fun v => (⟨UInt32.ofNat v⟩ : Int32))
  rwa [UInt32.ofNat_toNat] at h

theorem reads_readEntityId (id : EntityId) :
    Reads n readEntityId (id.entityKey.val ++ [id.entityKind]) rest id := by
  have h : Reads n readEntityId _ rest _ :=
    (reads_take (⟨id.entityKey.val ++ [id.entityKind], by simp⟩ : Bytes 4)).map
      (fun b => (⟨⟨b.2.val.take 3, by simp⟩, b.2.val.getD 3 0⟩ : EntityId))
  have e : (⟨⟨(id.entityKey.val ++ [id.entityKind]).take 3, by simp⟩,
      (id.entityKey.val ++ [id.entityKind]).getD 3 0⟩ : EntityId) = id := by
    cases id with
    | mk key kind =>
        have hk := key.len
        simp only [EntityId.mk.injEq]
        refine ⟨?_, ?_⟩
        · ext1
          exact List.take_left' hk
        · rw [List.getD_eq_getElem?_getD, List.getElem?_append_right (by omega), hk]
          rfl
  rwa [e] at h

/-- The octets of a sequence number. -/
def snBytes (sn : ℤ) : List UInt8 :=
  leBytes 4 (toWire sn).high.toUInt32.toNat ++ leBytes 4 (toWire sn).low.toNat

@[simp] theorem snBytes_length (sn : ℤ) : (snBytes sn).length = 8 := by simp [snBytes]

theorem reads_readSequenceNumber {sn : ℤ} (h : OnWire sn) :
    Reads n readSequenceNumber (snBytes sn) rest sn := by
  have hr : Reads n readSequenceNumber (snBytes sn) rest
      (fromWire ⟨(toWire sn).high, UInt32.ofNat (toWire sn).low.toNat⟩) :=
    (reads_readI32 _).bind ((reads_readU32 (UInt32.toNat_lt _)).map
      (fun low => fromWire ⟨(toWire sn).high, UInt32.ofNat low⟩))
  rwa [UInt32.ofNat_toNat, fromWire_toWire h] at hr

theorem reads_readGuidPrefix (gp : GuidPrefix) : Reads n readGuidPrefix gp.val rest gp :=
  (reads_take gp).map (fun b => b.2)

theorem reads_readTimestamp (ts : RtpsTimestamp) :
    Reads n readTimestamp (leBytes 4 ts.seconds.toNat ++ leBytes 4 ts.fraction.toNat) rest ts := by
  have h : Reads n readTimestamp _ rest _ := (reads_readU32 (UInt32.toNat_lt ts.seconds)).bind
    ((reads_readU32 (UInt32.toNat_lt ts.fraction)).map
      (fun f => (⟨UInt32.ofNat ts.seconds.toNat, UInt32.ofNat f⟩ : RtpsTimestamp)))
  rwa [UInt32.ofNat_toNat, UInt32.ofNat_toNat] at h

/-- The octets of bitmap words. -/
def wordBytes (ws : List UInt32) : List UInt8 := ws.flatMap (fun w => leBytes 4 w.toNat)

theorem wordBytes_length : ∀ ws : List UInt32, (wordBytes ws).length = 4 * ws.length
  | [] => rfl
  | w :: ws => by
      have ih := wordBytes_length ws
      simp only [wordBytes, List.flatMap_cons, List.length_append, leBytes_length,
        List.length_cons] at ih ⊢
      omega

theorem reads_readWords : ∀ (ws : List UInt32) (n : ℕ),
    Reads n (readWords ws.length) (wordBytes ws) rest ws
  | [], n => Reads.pure []
  | w :: ws, n => by
      have h : Reads n (readWords (w :: ws).length) _ rest _ :=
        (reads_readU32 (UInt32.toNat_lt w)).bind
          ((reads_readWords ws _).map (fun ws => UInt32.ofNat w.toNat :: ws))
      rwa [UInt32.ofNat_toNat] at h

/-- The octets of a number set behind its base. -/
def setBytes (numBits : ℕ) (m : Bitmap) : List UInt8 :=
  leBytes 4 numBits ++ wordBytes (m.words.take (numWords numBits))

theorem setBytes_length {numBits : ℕ} (h : numBits ≤ 256) (m : Bitmap) :
    (setBytes numBits m).length = 4 + numWords numBits * 4 := by
  have := m.len
  simp only [setBytes, List.length_append, leBytes_length, wordBytes_length, List.length_take,
    numWords]
  omega

/-- The part the two number sets share: bit count, its bound and the words. -/
theorem reads_setBytes {numBits : ℕ} (h : numBits ≤ 256) (m : Bitmap) (g : ℕ → Bitmap → β) :
    Reads n (readU32 >>= fun numBits => if 256 < numBits then Checked.throw .malformedSubmessage
      else readWords (numWords numBits) >>= fun ws => pure (g numBits (Bitmap.ofWords ws)))
      (setBytes numBits m) rest (g numBits (BuilderCall.wireBitmap m numBits)) := by
  refine (reads_readU32 (by omega)).bind ?_
  rw [if_neg (by omega)]
  have hlen : (m.words.take (numWords numBits)).length = numWords numBits := by
    simp only [List.length_take, m.len, numWords]
    omega
  have hw : Reads (n + (leBytes 4 numBits).length) _ _ rest _ :=
    reads_readWords (m.words.take (numWords numBits)) _
  rw [hlen] at hw
  exact hw.map (fun ws => g numBits (Bitmap.ofWords ws))

theorem reads_parseSequenceNumberSet {s : SequenceNumberSet} (hb : OnWire s.base)
    (h : s.numBits ≤ 256) :
    Reads n parseSequenceNumberSet (snBytes s.base ++ setBytes s.numBits s.bitmap) rest
      { s with bitmap := BuilderCall.wireBitmap s.bitmap s.numBits } :=
  (reads_readSequenceNumber hb).bind
    (reads_setBytes h s.bitmap (fun numBits m => SequenceNumberSet.mk s.base numBits m))

theorem reads_parseFragmentNumberSet {s : FragmentNumberSet} (hb : s.base < 2 ^ 32)
    (h : s.numBits ≤ 256) :
    Reads n parseFragmentNumberSet (leBytes 4 s.base ++ setBytes s.numBits s.bitmap) rest
      { s with bitmap := BuilderCall.wireBitmap s.bitmap s.numBits } :=
  (reads_readU32 hb).bind
    (reads_setBytes h s.bitmap (fun numBits m => FragmentNumberSet.mk s.base numBits m))

/-! ### Inline QoS -/

/-- An inline QoS parameter as the parser expects it: not the sentinel, announced with its
own length, and a whole number of four-octet words. -/
structure EntryOk (e : ParameterId × ℕ × Writes) : Prop where
  notSentinel : e.1 ≠ ParameterId.sentinel
  announced : e.2.1 = e.2.2.flatten.length
  aligned : e.2.1 % 4 = 0
  short : e.2.1 < 2 ^ 16

/-- The octets of a parameter. -/
def entryBytes (e : ParameterId × ℕ × Writes) : List UInt8 :=
  leBytes 2 e.1.toNat ++ (leBytes 2 e.2.1 ++ e.2.2.flatten)

/-- The octets that end a parameter list. -/
def sentinelBytes : List UInt8 := leBytes 2 ParameterId.sentinel.toNat ++ leBytes 2 0

theorem reads_align4 (h : n % 4 = 0) : Reads n align4 [] rest () := by
  intro before hb
  simp [align4, alignUp4, h]

theorem reads_parseInlineQosLoop (cap : ℕ) :
    ∀ (es : List (ParameterId × ℕ × Writes)) (params : List InlineQosParam) (fuel n : ℕ),
      (∀ e ∈ es, EntryOk e) → params.length + es.length ≤ cap → es.length < fuel → n % 4 = 0 →
      Reads n (parseInlineQosLoop cap fuel params) (es.flatMap entryBytes ++ sentinelBytes) rest
        ⟨params ++ es.map (fun e => ⟨e.1, e.2.2.flatten⟩)⟩
  | [], params, fuel, n, _, _, hf, _ => by
      obtain ⟨f, rfl⟩ : ∃ f, fuel = f + 1 := ⟨fuel - 1, by simp at hf; omega⟩
      have h : Reads n (parseInlineQosLoop cap (f + 1) params)
          (leBytes 2 ParameterId.sentinel.toNat ++ (leBytes 2 0 ++ [])) rest ⟨params⟩ :=
        (reads_readU16 (by decide)).bind ((reads_readU16 (by decide)).bind
          (by rw [if_pos (by decide)]; exact Reads.pure _))
      simpa [sentinelBytes] using h
  | e :: es, params, fuel, n, hes, hcap, hf, hn => by
      obtain ⟨f, rfl⟩ : ∃ f, fuel = f + 1 := ⟨fuel - 1, by simp at hf; omega⟩
      have he := hes e (by simp)
      have hal := he.aligned
      have hlen := he.announced
      simp only [List.length_cons] at hcap hf
      have ih := reads_parseInlineQosLoop cap es (params ++ [⟨e.1, e.2.2.flatten⟩]) f
        (n + 4 + e.2.1) (fun e' h => hes e' (by simp [h])) (by simp; omega) (by omega) (by omega)
      have hloop : Reads (n + 4 + e.2.1)
          (do align4; parseInlineQosLoop cap f (if params.length < cap then
            params ++ [⟨UInt16.ofNat e.1.toNat, e.2.2.flatten⟩] else params))
          ([] ++ (es.flatMap entryBytes ++ sentinelBytes)) rest
          ⟨params ++ [⟨e.1, e.2.2.flatten⟩] ++ es.map (fun e => ⟨e.1, e.2.2.flatten⟩)⟩ := by
        refine (reads_align4 (by omega)).bind ?_
        rw [if_pos (by omega), UInt16.ofNat_toNat]
        exact ih
      have hvalue : Reads (n + 2 + 2) (readBytes e.2.1) e.2.2.flatten
          ([] ++ (es.flatMap entryBytes ++ sentinelBytes) ++ rest) e.2.2.flatten := by
        rw [hlen]
        exact reads_readBytes _
      have h : Reads n (parseInlineQosLoop cap (f + 1) params)
          (leBytes 2 e.1.toNat ++ (leBytes 2 e.2.1 ++ (e.2.2.flatten ++
            ([] ++ (es.flatMap entryBytes ++ sentinelBytes))))) rest
          ⟨params ++ [⟨e.1, e.2.2.flatten⟩] ++ es.map (fun e => ⟨e.1, e.2.2.flatten⟩)⟩ := by
        refine (reads_readU16 (UInt16.toNat_lt _)).bind ((reads_readU16 he.short).bind ?_)
        rw [if_neg (by rw [UInt16.ofNat_toNat]; exact he.notSentinel)]
        simp only [leBytes_length]
        refine hvalue.bind ?_
        rw [← hlen]
        exact hloop
      simpa [entryBytes] using h

theorem reads_parseInlineQos {cap : ℕ} {es : List (ParameterId × ℕ × Writes)}
    (hes : ∀ e ∈ es, EntryOk e) (hcap : es.length ≤ cap) (hn : n % 4 = 0) :
    Reads n (parseInlineQos cap) (es.flatMap entryBytes ++ sentinelBytes) rest
      ⟨es.map (fun e => ⟨e.1, e.2.2.flatten⟩)⟩ := by
  intro before hb
  have hlen : es.length ≤ (es.flatMap entryBytes).length := by
    clear hes hcap
    induction es with
    | nil => simp
    | cons e es ih =>
        simp only [List.length_cons, List.flatMap_cons, List.length_append, entryBytes,
          leBytes_length]
        omega
  exact reads_parseInlineQosLoop cap es []
    ((before ++ (es.flatMap entryBytes ++ sentinelBytes ++ rest)).length + 1) n hes
    (by simpa using hcap) (by simp only [List.length_append]; omega) hn before hb

namespace QosParams

theorem length_entry {γ : Type} (pid : ParameterId) (len : ℕ) (value : Option γ)
    (enc : γ → Writes) : (entry pid len value enc).length = if value.isSome then 1 else 0 := by
  cases value <;> rfl

theorem entryOk_of_mem {γ : Type} {pid : ParameterId} {len : ℕ} {value : Option γ}
    {enc : γ → Writes} (hp : pid ≠ ParameterId.sentinel) (hl : len % 4 = 0) (hs : len < 2 ^ 16)
    (henc : ∀ v, len = (enc v).flatten.length) : ∀ e ∈ entry pid len value enc, EntryOk e := by
  intro e he
  cases value with
  | none => cases he
  | some v =>
      obtain rfl := List.mem_singleton.mp he
      exact ⟨hp, henc v, hl, hs⟩

@[simp] theorem flatten_writeSequenceNumber (sn : ℤ) :
    (writeSequenceNumber sn).flatten = snBytes sn := by
  simp [writeSequenceNumber, writeI32Le, writeU32Le, snBytes]

/-- Every parameter the builder writes is one the parser reads back. -/
theorem entries_ok (q : QosParams) : ∀ e ∈ q.entries, EntryOk e := by
  intro e he
  simp only [entries, List.mem_append] at he
  rcases he with (((((h | h) | h) | h) | h) | h) | h
  · exact entryOk_of_mem (by decide) (by decide) (by decide) (by simp [writeBytes]) e h
  · exact entryOk_of_mem (by decide) (by decide) (by decide) (by simp [writeU8]) e h
  · exact entryOk_of_mem (by decide) (by decide) (by decide) (by simp) e h
  · exact entryOk_of_mem (by decide) (by decide) (by decide) (by simp) e h
  · exact entryOk_of_mem (by decide) (by decide) (by decide) (by simp) e h
  · exact entryOk_of_mem (by decide) (by decide) (by decide) (by simp [writeBytes]) e h
  · exact entryOk_of_mem (by decide) (by decide) (by decide)
      (by simp [writeI32Le, writeU32Le]) e h

theorem length_entries_le (q : QosParams) : q.entries.length ≤ 7 := by
  simp only [entries, List.length_append, length_entry]
  split_ifs <;> simp

theorem entries_eq_nil (q : QosParams) (h : q.hasIqos = false) : q.entries = [] := by
  simp only [hasIqos, Bool.or_eq_false_iff, Option.isSome_eq_false_iff,
    Option.isNone_iff_eq_none] at h
  simp [entries, entry, h]

theorem flatten_writeInlineQos (q : QosParams) :
    q.writeInlineQos.flatten =
      if q.hasIqos then q.entries.flatMap entryBytes ++ sentinelBytes else [] := by
  have hes : (q.entries.flatMap
      (fun e => writeU16Le e.1.toNat ++ writeU16Le e.2.1 ++ e.2.2)).flatten =
        q.entries.flatMap entryBytes := by
    rw [List.flatMap, List.flatten_flatten, List.map_map, List.flatMap]
    congr 2
  rw [writeInlineQos, List.flatten_append, hes]
  cases h : q.hasIqos with
  | true => simp [writeU16Le, sentinelBytes]
  | false =>
      have := q.entries_eq_nil h
      simp [this]

theorem length_flatMap_entry {γ : Type} {pid : ParameterId} {len : ℕ} {value : Option γ}
    {enc : γ → Writes} (henc : ∀ v, (enc v).flatten.length = len) :
    ((entry pid len value enc).flatMap entryBytes).length =
      if value.isSome then len + 4 else 0 := by
  cases value with
  | none => rfl
  | some v =>
      simp only [entry, Option.map_some, Option.toList_some, List.flatMap_cons,
        List.flatMap_nil, List.append_nil, entryBytes, List.length_append, leBytes_length, henc,
        Option.isSome_some, if_true]
      omega

/-- The announced length of the parameters is their length. -/
theorem length_writeInlineQos (q : QosParams) : q.writeInlineQos.flatten.length = q.len := by
  have hs : sentinelBytes.length = 4 := rfl
  have hes : (q.entries.flatMap entryBytes).length + (if q.hasIqos then 4 else 0) = q.len := by
    simp only [entries, List.flatMap_append, List.length_append]
    rw [length_flatMap_entry (by simp [writeBytes]), length_flatMap_entry (by simp [writeU8]),
      length_flatMap_entry (by simp), length_flatMap_entry (by simp),
      length_flatMap_entry (by simp), length_flatMap_entry (by simp [writeBytes]),
      length_flatMap_entry (by simp [writeI32Le, writeU32Le])]
    rfl
  rw [flatten_writeInlineQos, ← hes]
  cases h : q.hasIqos with
  | true => simp [hs]
  | false =>
      have := q.entries_eq_nil h
      simp [this]

theorem reads_inlineQosIf (q : QosParams) {cap : ℕ} (hcap : 7 ≤ cap) (hn : n % 4 = 0) :
    Reads n (inlineQosIf q.hasIqos cap) q.writeInlineQos.flatten rest q.inlineQos := by
  rw [flatten_writeInlineQos, inlineQos, inlineQosIf]
  cases q.hasIqos with
  | true => exact (reads_parseInlineQos q.entries_ok (q.length_entries_le.trans hcap) hn).map some
  | false => exact Reads.pure none

end QosParams

end Zzdds.Rtps
