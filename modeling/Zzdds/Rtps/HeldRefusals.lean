import Zzdds.Rtps.HeldLimits

/-! # What a refusal displaces

The cache with the memory it takes.  `put` refuses before it drops anything: a sample evicted leaves
its place to the new one.  `putFrag` evicts the earliest-started reassembly before it knows whether
the fragment will be held, and takes a reassembly out of its list before the sample it became has a
place.  `Displaces` says when one of these loses something that had time left. -/

namespace Zzdds.Rtps

open Lib

/-! ### What a DATA_FRAG marks -/

namespace ReassemblyEntry

variable {e e' : ReassemblyEntry} {df : DataFragSubmessage} {idx : ℕ}

theorem isSet_receiveLoop {start : ℕ} {payload : List UInt8} :
    ∀ (k i : ℕ) (e e' : ReassemblyEntry), receiveLoop start payload k i e = some e' →
      (e'.isSet idx = true ↔ e.isSet idx = true ∨
        idx < e.totalFrags ∧ start - 1 + i ≤ idx ∧ idx < start - 1 + i + k)
  | 0, i, e, e', h => by
      cases h
      exact (or_iff_left (by omega)).symm
  | k + 1, i, e, e', h => by
      rw [receiveLoop] at h
      split at h
      · cases h
      · dsimp only at h
        split at h
        next hle =>
          cases h
          exact (or_iff_left (by omega)).symm
        next hlt =>
          split at h
          next hset =>
            rw [isSet_receiveLoop k (i + 1) e e' h]
            by_cases he : idx = start - 1 + i
            · subst he
              simp [hset]
            · exact or_congr_right (by omega)
          next =>
            have hidx : start - 1 + i < e.totalFrags := not_le.1 hlt
            rw [isSet_receiveLoop k (i + 1) _ e' h, isSet_takeFrag hidx, Bool.or_eq_true,
              decide_eq_true_iff]
            have htotal : (e.takeFrag (start - 1 + i) i payload).totalFrags = e.totalFrags := rfl
            rw [htotal, or_comm (a := idx = _), or_assoc]
            exact or_congr_right (by omega)

/-- A DATA_FRAG marks the fragments it carries, as far as the sample has them. -/
theorem isSet_accept (h : e.accept df = some e') :
    e'.isSet idx = true ↔ e.isSet idx = true ∨ idx < e.totalFrags ∧
      df.fragmentStartingNum - 1 ≤ idx ∧
        idx < df.fragmentStartingNum - 1 + df.fragmentsInSubmessage := by
  obtain ⟨-, h₂, h₃, h₄⟩ := captureInlineQos_layout e df
  have hloop : e'.isSet idx = true ↔ _ := isSet_receiveLoop _ _ _ _ h
  rw [Nat.add_zero] at hloop
  unfold isSet totalFrags at hloop ⊢
  rwa [h₂, h₃, h₄] at hloop

theorem isComplete_iff : e.isComplete = true ↔ ∀ idx < e.totalFrags, e.isSet idx = true := by
  refine ⟨fun h idx hi => isSet_of_isComplete h hi, fun h => beq_iff_eq.2 ?_⟩
  have hl : e.received.length = e.totalFrags := e.length_received
  rw [← hl]
  refine List.count_eq_length.2 fun b hb => ?_
  obtain ⟨idx, hi, rfl⟩ := List.getElem_of_mem hb
  have hset := h idx (hl ▸ hi)
  rw [isSet, List.getD_eq_getElem?_getD, List.getElem?_eq_getElem hi, Option.getD_some] at hset
  exact hset.symm

/-- `df` carries every fragment the entry lacks. -/
def CompletedBy (e : ReassemblyEntry) (df : DataFragSubmessage) : Prop :=
  ∀ idx < e.totalFrags, e.isSet idx = false → df.fragmentStartingNum - 1 ≤ idx ∧
    idx < df.fragmentStartingNum - 1 + df.fragmentsInSubmessage

instance (e : ReassemblyEntry) (df : DataFragSubmessage) : Decidable (e.CompletedBy df) := by
  unfold CompletedBy
  infer_instance

theorem isComplete_accept_iff (h : e.accept df = some e') :
    e'.isComplete = true ↔ e.CompletedBy df := by
  obtain ⟨h₁, h₂⟩ := accept_layout h
  have htotal : e'.totalFrags = e.totalFrags := by
    rw [totalFrags, totalFrags, h₁, h₂]
  rw [isComplete_iff, htotal]
  refine forall₂_congr fun idx hi => ?_
  rw [isSet_accept h]
  cases e.isSet idx <;> simp [hi]

/-- A new entry lacks every fragment. -/
theorem isSet_init {fresh : ℕ → UInt8} {ts : RtpsTimestamp}
    (h : init fresh df ts = some (some e)) : e.isSet idx = false := by
  unfold init at h
  split at h
  · cases h
  · split at h
    · cases h
    · cases h
      simp [isSet, List.getD_eq_getElem?_getD, List.getElem?_replicate]
      split <;> rfl

end ReassemblyEntry

/-! ### The cache with its memory -/

/-- What the allocator answers the cache: for a writer's entry, for the payload or the reassembly,
and for a place in a list of reassemblies or of samples in which none is free. -/
structure CacheMemory where
  writer : Bool
  payload : Bool
  partials : Bool
  samples : Bool

def CacheMemory.ample : CacheMemory := ⟨true, true, true, true⟩

namespace UnmatchedCache

variable (mem : CacheMemory)

def tryWriter (c : UnmatchedCache) (writer : Guid) (nowNs : ℤ) :
    UnmatchedCache × Option HeldWriter :=
  match c.getPtr writer with
  | some w => (c, some w)
  | none =>
      let c := if c.limits.maxWriters ≤ c.writers.length then c.expireLocked nowNs else c
      if c.limits.maxWriters ≤ c.writers.length then (c, none)
      else if mem.writer then
        let w : HeldWriter := { guid := writer }
        ({ c with writers := c.writers ++ [w] }, some w)
      else (c, none)

/-- A sample evicted leaves its place in the list; otherwise one has to be found. -/
def tryAppendSample (c : UnmatchedCache) (w : HeldWriter) (s : HeldSample) :
    Option UnmatchedCache :=
  let added := { c with bytes := c.bytes + s.change.data.length }
  if c.limits.maxSamplesPerWriter ≤ w.samples.length then
    match w.samples with
    | [] => none
    | evicted :: rest =>
        some ({ added with bytes := added.bytes - evicted.change.data.length }.store
          { w with samples := rest ++ [s] })
  else if mem.samples then some (added.store { w with samples := w.samples ++ [s] })
  else some (c.store w)

def tryPut (c : UnmatchedCache) (writer : Guid) (target : EntityId) (change : CacheChange)
    (hasKeyHash : Bool) (nowNs ttlNs : ℤ) : Option UnmatchedCache :=
  if c.limits.maxBytes < change.data.length then some c
  else if (c.getPtr writer).any (·.hasSample change.sequenceNumber target) then some c
  else
    match c.reserveLocked change.data.length nowNs with
    | (c, false) => some c
    | (c, true) =>
        match c.tryWriter mem writer nowNs with
        | (c, none) => some c
        | (c, some w) =>
            if mem.payload then do
              let held := if hasKeyHash then change else { change with keyHash := Bytes.zeroes 16 }
              let c ← c.tryAppendSample mem w ⟨held, hasKeyHash, target, nowNs + ttlNs⟩
              return c.dropIfEmptyLocked writer
            else some (c.dropIfEmptyLocked writer)

/-- A complete reassembly is out of its list before its sample has a place. -/
def tryReceiveFrag (c : UnmatchedCache) (w : HeldWriter) (idx : ℕ) (df : DataFragSubmessage) :
    Option UnmatchedCache :=
  match w.partials[idx]? with
  | none => none
  | some p => do
      let entry ← p.entry.accept df
      if entry.isComplete then
        let c := { c with bytes := c.bytes - entry.dataSize }
        c.tryAppendSample mem { w with partials := w.partials.eraseIdx idx }
          (reassembled w.guid { p with entry := entry })
      else
        return c.store { w with partials := w.partials.set idx { p with entry := entry } }

/-- A reassembly evicted leaves its place to the new one, if there is a new one. -/
def tryStartPartial (c : UnmatchedCache) (fresh : ℕ → UInt8) (w : HeldWriter) (target : EntityId)
    (df : DataFragSubmessage) (sourceTimestamp : RtpsTimestamp) (expiresNs : ℤ) :
    Option UnmatchedCache := do
  let (c', kept) ← c.evictPartial w
  match ← ReassemblyEntry.init fresh df sourceTimestamp with
  | none => return c'.store { w with partials := kept }
  | some entry =>
      if mem.payload ∧ (c.limits.maxPartialsPerWriter ≤ w.partials.length ∨ mem.partials) then
        let c' := { c' with bytes := c'.bytes + df.dataSize }
        c'.tryReceiveFrag mem
          { w with partials := kept ++ [⟨df.writerSn, target, expiresNs, entry⟩] } kept.length df
      else return c'.store { w with partials := kept }

def tryPutFrag (c : UnmatchedCache) (fresh : ℕ → UInt8) (writer : Guid) (target : EntityId)
    (df : DataFragSubmessage) (sourceTimestamp : RtpsTimestamp) (nowNs ttlNs : ℤ) :
    Option UnmatchedCache :=
  if (c.getPtr writer).any (·.hasSample df.writerSn target) then some c
  else
    match (c.getPtr writer).bind (fun w => (w.partialIdx df.writerSn target).map (w, ·)) with
    | some (w, idx) => c.tryReceiveFrag mem w idx df
    | none =>
        if c.limits.maxBytes < df.dataSize then some c
        else
          match c.reserveLocked df.dataSize nowNs with
          | (c, false) => some c
          | (c, true) =>
              match c.tryWriter mem writer nowNs with
              | (c, none) => some c
              | (c, some w) => do
                  let c ← c.tryStartPartial mem fresh w target df sourceTimestamp (nowNs + ttlNs)
                  return c.dropIfEmptyLocked writer

def tryStep (c : UnmatchedCache) : CacheOp → Option UnmatchedCache
  | .put writer target change hasKeyHash nowNs ttlNs =>
      c.tryPut mem writer target change hasKeyHash nowNs ttlNs
  | .putFrag fresh writer target df sourceTimestamp nowNs ttlNs =>
      c.tryPutFrag mem fresh writer target df sourceTimestamp nowNs ttlNs
  | op => c.step op

/-! ### With ample memory it is the cache

The two sides then differ in nothing but the names of their matches. -/

theorem tryWriter_ample (c : UnmatchedCache) : c.tryWriter .ample = c.writerLocked := by
  funext writer nowNs
  unfold tryWriter writerLocked
  simp only [CacheMemory.ample, if_true]
  all_goals rfl

theorem tryAppendSample_ample (c : UnmatchedCache) :
    c.tryAppendSample .ample = c.appendSampleLocked := by
  funext w s
  unfold tryAppendSample appendSampleLocked
  simp only [CacheMemory.ample, if_true]
  all_goals rfl

theorem tryPut_ample (c : UnmatchedCache) : c.tryPut .ample = c.put := by
  funext writer target change hasKeyHash nowNs ttlNs
  unfold tryPut put
  simp only [tryWriter_ample, tryAppendSample_ample]
  all_goals rfl

theorem tryReceiveFrag_ample (c : UnmatchedCache) :
    c.tryReceiveFrag .ample = c.receiveFragLocked := by
  funext w idx df
  unfold tryReceiveFrag receiveFragLocked
  simp only [tryAppendSample_ample]
  all_goals rfl

theorem tryStartPartial_ample (c : UnmatchedCache) :
    c.tryStartPartial .ample = c.startPartial := by
  funext fresh w target df ts expiresNs
  unfold tryStartPartial startPartial
  simp only [tryReceiveFrag_ample]
  simp only [CacheMemory.ample, or_true, and_self, if_true]
  all_goals rfl

theorem tryStep_ample (c : UnmatchedCache) : c.tryStep .ample = c.step := by
  funext op
  cases op with
  | put =>
    unfold tryStep step
    dsimp only
    rw [tryPut_ample]
  | putFrag fresh writer target df ts nowNs ttlNs =>
    unfold tryStep step tryPutFrag putFrag
    simp only [tryWriter_ample, tryReceiveFrag_ample, tryStartPartial_ample]
    all_goals rfl
  | dropWriter | dropPrefix | expire | collect => rfl

/-! ### What is held from a writer -/

variable {mem} {c c' : UnmatchedCache} {w : HeldWriter} {g writer : Guid} {nowNs : ℤ}

/-- What is held from a writer, which may be nothing. -/
def heldFrom (c : UnmatchedCache) (g : Guid) : HeldWriter := (c.getPtr g).getD { guid := g }

/-- The writers are told apart, and so are the reassemblies of each. -/
structure Keyed (c : UnmatchedCache) : Prop where
  nodup : (c.writers.map (·.guid)).Nodup
  partials : ∀ w ∈ c.writers, (w.partials.map HeldPartial.key).Nodup

theorem keyed_init (limits : Limits) : (init limits).Keyed :=
  ⟨List.nodup_nil, fun _ hw => nomatch hw⟩

theorem guid_of_getPtr (h : c.getPtr g = some w) : w.guid = g := by
  simpa using List.find?_some h

theorem heldFrom_of_getPtr (h : c.getPtr g = some w) : c.heldFrom g = w := by
  rw [heldFrom, h, Option.getD_some]

theorem Keyed.removeWriters (h : c.Keyed) (p : HeldWriter → Bool) : (c.removeWriters p).Keyed where
  nodup := h.nodup.sublist (List.filter_sublist.map _)
  partials := fun w hw => h.partials w (List.mem_of_mem_filter hw)

/-- Only writers with nothing are dropped, so what is held stays. -/
theorem heldFrom_removeWriters {p : HeldWriter → Bool} (hn : (c.writers.map (·.guid)).Nodup)
    (hp : ∀ w ∈ c.writers, p w = true → w.isEmpty = true) (g : Guid) :
    (c.removeWriters p).heldFrom g = c.heldFrom g := by
  cases hget : (c.removeWriters p).getPtr g with
  | some w =>
    have hmem := List.mem_of_mem_filter (List.mem_of_find?_eq_some hget)
    have hget' := getPtr_of_mem hn hmem
    rw [guid_of_getPtr hget] at hget'
    rw [heldFrom_of_getPtr hget, heldFrom_of_getPtr hget']
  | none =>
    rw [heldFrom, hget, Option.getD_none, heldFrom]
    cases hget' : c.getPtr g with
    | none => rfl
    | some w =>
      have hmem := List.mem_of_find?_eq_some hget'
      have hpw : p w = true := by
        by_contra hpw
        have hkept : w ∈ (c.removeWriters p).writers :=
          List.mem_filter.2 ⟨hmem, by simpa using hpw⟩
        have hne := List.find?_eq_none.1 hget w hkept
        exact hne (by simpa using guid_of_getPtr hget')
      have hempty := hp w hmem hpw
      obtain ⟨guid, samples, partials⟩ := w
      rw [HeldWriter.isEmpty, Bool.and_eq_true, List.isEmpty_iff, List.isEmpty_iff] at hempty
      obtain ⟨rfl, rfl⟩ := hempty
      rw [Option.getD_some, ← guid_of_getPtr hget']

theorem heldFrom_dropIfEmptyLocked (h : c.Keyed) (writer g : Guid) :
    (c.dropIfEmptyLocked writer).heldFrom g = c.heldFrom g :=
  heldFrom_removeWriters h.nodup (fun _ _ hw => (Bool.and_eq_true _ _ ▸ hw).2) g

theorem Keyed.expireLocked (h : c.Keyed) (nowNs : ℤ) : (c.expireLocked nowNs).Keyed := by
  refine Keyed.removeWriters ⟨?_, fun w hw => ?_⟩ _
  · rw [List.map_map]
    exact h.nodup
  · obtain ⟨w₀, hw₀, rfl⟩ := List.mem_map.1 hw
    exact (h.partials w₀ hw₀).sublist (List.filter_sublist.map _)

theorem heldFrom_expireLocked (h : c.Keyed) (nowNs : ℤ) (g : Guid) :
    (c.expireLocked nowNs).heldFrom g = (c.heldFrom g).expire nowNs := by
  have hn : ((c.writers.map (·.expire nowNs)).map (·.guid)).Nodup := by
    rw [List.map_map]
    exact h.nodup
  unfold UnmatchedCache.expireLocked
  rw [heldFrom_removeWriters hn fun _ _ hw => hw]
  have hget : (c.writers.map (·.expire nowNs)).find? (fun w => w.guid == g) =
      (c.getPtr g).map (·.expire nowNs) := by
    rw [List.find?_map]
    rfl
  rw [heldFrom, getPtr, hget, heldFrom]
  cases c.getPtr g <;> rfl

theorem getPtr_store (c : UnmatchedCache) (w : HeldWriter) (g : Guid) :
    (c.store w).getPtr g = (c.getPtr g).map (fun w' => if w'.guid = w.guid then w else w') := by
  unfold getPtr store
  rw [List.find?_map]
  refine congrArg _ (congrArg (List.find? · c.writers) (funext fun w' => ?_))
  by_cases he : w'.guid = w.guid <;> simp [he]

theorem heldFrom_store (hw : (c.getPtr w.guid).isSome) (g : Guid) :
    (c.store w).heldFrom g = if g = w.guid then w else c.heldFrom g := by
  rw [heldFrom, getPtr_store, heldFrom]
  split
  next he =>
    subst he
    obtain ⟨w₀, hw₀⟩ := Option.isSome_iff_exists.1 hw
    rw [hw₀, Option.map_some, if_pos (guid_of_getPtr hw₀), Option.getD_some]
  next hne =>
    cases hget : c.getPtr g with
    | none => rfl
    | some w₀ =>
      rw [Option.map_some, if_neg fun he => hne ((guid_of_getPtr hget).symm.trans he)]

theorem Keyed.store (h : c.Keyed) (hw : (w.partials.map HeldPartial.key).Nodup) (bytes : ℤ) :
    (UnmatchedCache.store { c with bytes := bytes } w).Keyed where
  nodup := by
    rw [guid_store]
    exact h.nodup
  partials := by
    intro w' hw'
    obtain ⟨w₀, hw₀, rfl⟩ := List.mem_map.1 hw'
    split
    · exact hw
    · exact h.partials w₀ hw₀

/-! ### What each step can do -/

/-- Making room drops nothing, or what has run out. -/
def Trimmed (nowNs : ℤ) (c c' : UnmatchedCache) : Prop :=
  c'.limits = c.limits ∧
    ((∀ g, c'.heldFrom g = c.heldFrom g) ∨ ∀ g, c'.heldFrom g = (c.heldFrom g).expire nowNs)

theorem Trimmed.refl (nowNs : ℤ) (c : UnmatchedCache) : Trimmed nowNs c c :=
  ⟨rfl, .inl fun _ => rfl⟩

theorem reserveLocked_trimmed (h : c.Keyed) (n : ℕ) (nowNs : ℤ) :
    (c.reserveLocked n nowNs).1.Keyed ∧ Trimmed nowNs c (c.reserveLocked n nowNs).1 := by
  unfold reserveLocked
  split
  · exact ⟨h, .refl nowNs c⟩
  · exact ⟨h.expireLocked nowNs, rfl, .inr (heldFrom_expireLocked h nowNs)⟩

theorem tryWriter_of_getPtr (h : c.getPtr writer = some w) :
    c.tryWriter mem writer nowNs = (c, some w) := by
  rw [tryWriter, h]

/-- Where the writer has an entry nothing changes; otherwise it may get an empty one. -/
theorem tryWriter_spec {w? : Option HeldWriter} (h : c.Keyed)
    (hw : c.tryWriter mem writer nowNs = (c', w?)) :
    c'.Keyed ∧ Trimmed nowNs c c' ∧ ∀ w ∈ w?, c'.getPtr writer = some w ∧
      (c.getPtr writer = some w ∨ w = { guid := writer }) := by
  cases hget : c.getPtr writer with
  | some w₀ =>
    rw [tryWriter_of_getPtr hget] at hw
    cases hw
    refine ⟨h, .refl nowNs c, fun w hm => ?_⟩
    cases hm
    exact ⟨hget, .inl rfl⟩
  | none =>
    rw [tryWriter, hget] at hw
    dsimp only at hw
    have hc : ∃ c₁, c₁ = (if c.limits.maxWriters ≤ c.writers.length then c.expireLocked nowNs
        else c) ∧ c₁.Keyed ∧ Trimmed nowNs c c₁ ∧ c₁.getPtr writer = none := by
      refine ⟨_, rfl, ?_⟩
      split
      · refine ⟨h.expireLocked nowNs, ⟨rfl, .inr (heldFrom_expireLocked h nowNs)⟩, ?_⟩
        refine List.find?_eq_none.2 fun w hw => ?_
        obtain ⟨w₀, hw₀, rfl⟩ := List.mem_map.1 (List.mem_of_mem_filter hw)
        exact List.find?_eq_none.1 hget w₀ hw₀
      · exact ⟨h, .refl nowNs c, hget⟩
    obtain ⟨c₁, hc₁, hkeyed, htrim, hnone⟩ := hc
    rw [← hc₁] at hw
    split at hw
    · cases hw
      exact ⟨hkeyed, htrim, fun w hm => nomatch hm⟩
    · split at hw
      · cases hw
        have hout : ∀ w ∈ c₁.writers, w.guid ≠ writer := fun w hm he =>
          List.find?_eq_none.1 hnone w hm (by simpa using he)
        have hnew : ∀ g, UnmatchedCache.getPtr { c₁ with writers := c₁.writers ++
            [{ guid := writer }] } g = (c₁.getPtr g).or
              (if writer = g then some { guid := writer } else none) := by
          intro g
          unfold getPtr
          rw [List.find?_append, List.find?_singleton]
          simp
        refine ⟨⟨?_, fun w hm => ?_⟩, ⟨htrim.1, ?_⟩, fun w hm => ?_⟩
        · rw [List.map_append, List.nodup_append]
          refine ⟨hkeyed.nodup, List.nodup_singleton _, fun x hx y hy => ?_⟩
          obtain ⟨w, hm, rfl⟩ := List.mem_map.1 hx
          rw [List.mem_singleton.1 hy]
          exact hout w hm
        · rcases List.mem_append.1 hm with hm | hm
          · exact hkeyed.partials w hm
          · rw [List.mem_singleton.1 hm]
            exact List.nodup_nil
        · have hsame : ∀ g, UnmatchedCache.heldFrom { c₁ with writers := c₁.writers ++
              [{ guid := writer }] } g = c₁.heldFrom g := by
            intro g
            rw [heldFrom, hnew, heldFrom]
            cases c₁.getPtr g with
            | some w => rfl
            | none =>
              rw [Option.none_or]
              split
              next he => rw [he]; rfl
              next => rfl
          rcases htrim.2 with hh | hh
          · exact .inl fun g => (hsame g).trans (hh g)
          · exact .inr fun g => (hsame g).trans (hh g)
        · cases hm
          refine ⟨?_, .inr rfl⟩
          rw [hnew, hnone, Option.none_or, if_pos rfl]
      · cases hw
        exact ⟨hkeyed, htrim, fun w hm => nomatch hm⟩

/-- `c'` is `c` with another entry for the writer. -/
def Stored (c : UnmatchedCache) (w : HeldWriter) (c' : UnmatchedCache) : Prop :=
  ∃ bytes, c' = UnmatchedCache.store { c with bytes := bytes } w

/-- A sample is appended, or has no place. -/
theorem tryAppendSample_cases {s : HeldSample} (h : c.tryAppendSample mem w s = some c') :
    ((c.limits.maxSamplesPerWriter ≤ w.samples.length ∨ mem.samples = true) ∧
      ∃ samples, Stored c { w with samples := samples ++ [s] } c') ∨
    (w.samples.length < c.limits.maxSamplesPerWriter ∧ mem.samples = false ∧ Stored c w c') := by
  unfold tryAppendSample at h
  dsimp only at h
  split at h
  next hle =>
    split at h
    · cases h
    next evicted rest hrest =>
      cases h
      exact .inl ⟨.inl hle, rest, _, rfl⟩
  next hlt =>
    split at h
    next hmem =>
      cases h
      exact .inl ⟨.inr hmem, w.samples, _, rfl⟩
    next hmem =>
      cases h
      exact .inr ⟨not_le.1 hlt, by simpa using hmem, c.bytes, rfl⟩

end UnmatchedCache

/-- What a DATA_FRAG for reassembly `idx` leaves of the writer's entry: it becomes a sample, or is
lost because the sample has no place, or goes on. -/
inductive HeldWriter.Received (limits : Limits) (mem : CacheMemory) (df : DataFragSubmessage)
    (w : HeldWriter) (idx : ℕ) (p : HeldPartial) : HeldWriter → Prop
  | complete {samples : List HeldSample} {s : HeldSample} (hp : p.entry.CompletedBy df)
      (hroom : limits.maxSamplesPerWriter ≤ w.samples.length ∨ mem.samples = true)
      (hs : s.key = p.key) :
      Received limits mem df w idx p
        { w with samples := samples ++ [s], partials := w.partials.eraseIdx idx }
  | lost (hp : p.entry.CompletedBy df) (hlen : w.samples.length < limits.maxSamplesPerWriter)
      (hmem : mem.samples = false) :
      Received limits mem df w idx p { w with partials := w.partials.eraseIdx idx }
  | goesOn {entry : ReassemblyEntry} (hp : ¬ p.entry.CompletedBy df)
      (hentry : p.entry.accept df = some entry) :
      Received limits mem df w idx p
        { w with partials := w.partials.set idx { p with entry := entry } }

namespace UnmatchedCache

variable {mem : CacheMemory} {c c' : UnmatchedCache} {w : HeldWriter} {g writer : Guid} {nowNs : ℤ}
  {df : DataFragSubmessage} {target : EntityId}

theorem tryReceiveFrag_cases {idx : ℕ} {p : HeldPartial} (hp : w.partials[idx]? = some p)
    (h : c.tryReceiveFrag mem w idx df = some c') :
    ∃ w', w.Received c.limits mem df idx p w' ∧ Stored c w' c' := by
  unfold tryReceiveFrag at h
  rw [hp] at h
  simp only [Option.bind_eq_bind, Option.bind_eq_some_iff] at h
  obtain ⟨entry, hacc, h⟩ := h
  have hcomplete := ReassemblyEntry.isComplete_accept_iff hacc
  split at h
  next hdone =>
    rcases tryAppendSample_cases h with ⟨hroom, samples, hst⟩ | ⟨hlen, hmem, hst⟩
    · exact ⟨_, .complete (hcomplete.1 hdone) hroom rfl, hst⟩
    · exact ⟨_, .lost (hcomplete.1 hdone) hlen hmem, hst⟩
  next hnot =>
    cases h
    exact ⟨_, .goesOn (fun hc => hnot (hcomplete.2 hc)) hacc, c.bytes, rfl⟩

end UnmatchedCache

/-- `df` declares a sample with fragments, and carries one of them. -/
def DataFragSubmessage.Carries (df : DataFragSubmessage) : Prop :=
  df.fragmentSize ≠ 0 ∧ df.dataSize ≠ 0 ∧ 0 < df.fragmentsInSubmessage ∧
    df.fragmentStartingNum - 1 < fragCount df.dataSize df.fragmentSize

/-- `df` carries every fragment of the sample it declares. -/
def DataFragSubmessage.Whole (df : DataFragSubmessage) : Prop :=
  df.fragmentStartingNum - 1 = 0 ∧ fragCount df.dataSize df.fragmentSize ≤ df.fragmentsInSubmessage

namespace HeldWriter

/-- The reassemblies left when a new one is to be started. -/
def kept (limits : Limits) (w : HeldWriter) : List HeldPartial :=
  if limits.maxPartialsPerWriter ≤ w.partials.length then w.partials.tail else w.partials

/-- What a DATA_FRAG of a sample not held leaves of the writer's entry: no reassembly is started, or
one is and receives it. -/
inductive Started (limits : Limits) (mem : CacheMemory) (target : EntityId)
    (df : DataFragSubmessage) (expiresNs : ℤ) (w : HeldWriter) : HeldWriter → Prop
  | refused (h : df.fragmentSize = 0 ∨ df.dataSize = 0 ∨ mem.payload = false ∨
      ¬ (limits.maxPartialsPerWriter ≤ w.partials.length ∨ mem.partials = true)) :
      Started limits mem target df expiresNs w { w with partials := w.kept limits }
  | started {entry : ReassemblyEntry} {w' : HeldWriter} (hdata : df.dataSize ≠ 0)
      (hpayload : mem.payload = true) (hdataSize : entry.dataSize = df.dataSize)
      (hfragmentSize : entry.fragmentSize = df.fragmentSize)
      (hnone : ∀ idx, entry.isSet idx = false)
      (hr : HeldWriter.Received limits mem df
        { w with partials := w.kept limits ++ [⟨df.writerSn, target, expiresNs, entry⟩] }
        (w.kept limits).length ⟨df.writerSn, target, expiresNs, entry⟩ w') :
      Started limits mem target df expiresNs w w'

end HeldWriter

namespace UnmatchedCache

variable {mem : CacheMemory} {c c' : UnmatchedCache} {w : HeldWriter} {g writer : Guid} {nowNs : ℤ}
  {df : DataFragSubmessage} {target : EntityId}

theorem evictPartial_eq {kept : List HeldPartial} (h : c.evictPartial w = some (c', kept)) :
    (∃ bytes, c' = { c with bytes := bytes }) ∧ kept = w.kept c.limits := by
  unfold evictPartial at h
  unfold HeldWriter.kept
  split at h
  next hle =>
    rw [if_pos hle]
    split at h
    · cases h
    next evicted rest hrest =>
      cases h
      rw [hrest]
      exact ⟨⟨_, rfl⟩, rfl⟩
  next hlt =>
    cases h
    rw [if_neg hlt]
    exact ⟨⟨c.bytes, rfl⟩, rfl⟩

theorem tryStartPartial_cases {fresh : ℕ → UInt8} {ts : RtpsTimestamp} {expiresNs : ℤ}
    (h : c.tryStartPartial mem fresh w target df ts expiresNs = some c') :
    ∃ w', w.Started c.limits mem target df expiresNs w' ∧ Stored c w' c' := by
  unfold tryStartPartial at h
  simp only [Option.bind_eq_bind, Option.bind_eq_some_iff] at h
  obtain ⟨⟨c₁, kept⟩, hkept, e?, hinit, h⟩ := h
  obtain ⟨⟨bytes, rfl⟩, rfl⟩ := evictPartial_eq hkept
  cases e? with
  | none =>
    cases h
    refine ⟨_, .refused ?_, bytes, rfl⟩
    unfold ReassemblyEntry.init at hinit
    split at hinit
    next hzero => exact hzero.imp_right .inl
    next => split at hinit <;> cases hinit
  | some entry =>
    dsimp only at h
    split at h
    next hmem =>
      obtain ⟨hdataSize, hfragmentSize⟩ := ReassemblyEntry.init_layout hinit
      obtain ⟨w', hr, hst⟩ := tryReceiveFrag_cases (List.getElem?_concat_length) h
      have hdata : df.dataSize ≠ 0 := by
        intro hzero
        rw [ReassemblyEntry.init, dif_pos (.inr hzero)] at hinit
        cases hinit
      exact ⟨w', .started hdata hmem.1 hdataSize hfragmentSize
        (fun idx => ReassemblyEntry.isSet_init hinit) hr, hst⟩
    next hmem =>
      cases h
      refine ⟨_, .refused ?_, bytes, rfl⟩
      rw [not_and_or, Bool.not_eq_true] at hmem
      exact .inr (.inr hmem)

end UnmatchedCache

/-! ### What is still held -/

namespace HeldWriter

variable {limits : Limits} {mem : CacheMemory} {df : DataFragSubmessage} {target : EntityId}
  {nowNs expiresNs : ℤ} {w w' : HeldWriter} {idx : ℕ} {p : HeldPartial}

/-- Everything with time left is still held.  A reassembly may have received fragments. -/
def Keeps (nowNs : ℤ) (w w' : HeldWriter) : Prop :=
  (∀ s ∈ w.samples, nowNs < s.expiresNs → s ∈ w'.samples) ∧
    ∀ p ∈ w.partials, nowNs < p.expiresNs →
      ∃ p' ∈ w'.partials, p'.key = p.key ∧ p'.expiresNs = p.expiresNs

/-- The sample is held, or a reassembly of it that has received the first fragment `df` carries. -/
def HasFrag (target : EntityId) (df : DataFragSubmessage) (w : HeldWriter) : Prop :=
  w.hasSample df.writerSn target = true ∨ ∃ p ∈ w.partials, p.key = (df.writerSn, target) ∧
    p.entry.isSet (df.fragmentStartingNum - 1) = true

theorem Keeps.refl (nowNs : ℤ) (w : HeldWriter) : w.Keeps nowNs w :=
  ⟨fun _ hs _ => hs, fun p hp _ => ⟨p, hp, rfl, rfl⟩⟩

theorem Keeps.expire (nowNs : ℤ) (w : HeldWriter) : w.Keeps nowNs (w.expire nowNs) := by
  refine ⟨fun s hs ht => ?_, fun p hp ht => ⟨p, ?_, rfl, rfl⟩⟩
  · exact List.mem_filter.2 ⟨hs, decide_eq_true ht⟩
  · exact List.mem_filter.2 ⟨hp, decide_eq_true ht⟩

/-- What has run out is not asked for. -/
theorem expire_keeps_iff : (w.expire nowNs).Keeps nowNs w' ↔ w.Keeps nowNs w' := by
  constructor
  · rintro ⟨hs, hp⟩
    exact ⟨fun s hm ht => hs s (List.mem_filter.2 ⟨hm, decide_eq_true ht⟩) ht,
      fun p hm ht => hp p (List.mem_filter.2 ⟨hm, decide_eq_true ht⟩) ht⟩
  · rintro ⟨hs, hp⟩
    exact ⟨fun s hm ht => hs s (List.mem_of_mem_filter hm) ht,
      fun p hm ht => hp p (List.mem_of_mem_filter hm) ht⟩

/-- A reassembly taken out is missed if it had time left. -/
theorem keeps_eraseIdx_iff (hn : (w.partials.map HeldPartial.key).Nodup)
    (hp : w.partials[idx]? = some p) :
    w.Keeps nowNs { w with partials := w.partials.eraseIdx idx } ↔ ¬ nowNs < p.expiresNs := by
  constructor
  · rintro ⟨-, hkeeps⟩ ht
    obtain ⟨q, hq, hkey, -⟩ := hkeeps p (List.mem_of_getElem? hp) ht
    exact Fit.key_ne_of_mem_eraseIdx hn hp q hq hkey.symm
  · refine fun ht => ⟨fun s hs _ => hs, fun q hq hq' => ⟨q, ?_, rfl, rfl⟩⟩
    obtain ⟨hi, rfl⟩ := List.getElem?_eq_some_iff.1 hp
    obtain ⟨j, hj, rfl⟩ := List.getElem_of_mem hq
    refine List.mem_eraseIdx_iff_getElem.2 ⟨j, hj, ?_, rfl⟩
    rintro rfl
    exact ht hq'

theorem keeps_set {entry : ReassemblyEntry} (hp : w.partials[idx]? = some p) :
    w.Keeps nowNs { w with partials := w.partials.set idx { p with entry := entry } } := by
  refine ⟨fun s hs _ => hs, fun q hq _ => ?_⟩
  obtain ⟨hi, rfl⟩ := List.getElem?_eq_some_iff.1 hp
  obtain ⟨j, hj, rfl⟩ := List.getElem_of_mem hq
  by_cases he : j = idx
  · subst he
    exact ⟨_, List.mem_set hi _, rfl, rfl⟩
  · refine ⟨w.partials[j], List.mem_iff_getElem.2 ⟨j, by rwa [List.length_set], ?_⟩, rfl, rfl⟩
    rw [List.getElem_set_ne (Ne.symm he)]

/-- A sample is not held that neither is held whole nor in parts. -/
theorem not_hasFrag (hs : ∀ s ∈ w.samples, s.key ≠ (df.writerSn, target))
    (hp : ∀ p ∈ w.partials, p.key = (df.writerSn, target) →
      p.entry.isSet (df.fragmentStartingNum - 1) = false) : ¬ w.HasFrag target df := by
  rintro (h | ⟨p, hm, hkey, hset⟩)
  · obtain ⟨s, hm, hkey⟩ := UnmatchedCache.hasSample_iff.1 h
    exact hs s hm hkey
  · rw [hp p hm hkey] at hset
    cases hset

theorem hasFrag_of_sample {samples : List HeldSample} {partials : List HeldPartial} {s : HeldSample}
    (hs : s.key = (df.writerSn, target)) :
    HasFrag target df { w with samples := samples ++ [s], partials := partials } :=
  .inl (UnmatchedCache.hasSample_iff.2
    ⟨s, List.mem_append_right _ (List.mem_singleton.2 rfl), hs⟩)

/-- The reassembly that `df` completes is lost. -/
def LosesComplete (limits : Limits) (mem : CacheMemory) (df : DataFragSubmessage) (nowNs : ℤ)
    (w : HeldWriter) (idx : ℕ) : Prop :=
  w.samples.length < limits.maxSamplesPerWriter ∧ mem.samples = false ∧
    ∃ p ∈ w.partials[idx]?, nowNs < p.expiresNs ∧ p.entry.CompletedBy df

/-- Where a fragment of a reassembly is not held, everything else is, except the reassembly itself
when it loses its place. -/
theorem Received.displaces_iff (hn : (w.partials.map HeldPartial.key).Nodup)
    (hs : ∀ s ∈ w.samples, s.key ≠ (df.writerSn, target)) (hp : w.partials[idx]? = some p)
    (hkey : p.key = (df.writerSn, target)) (h : w.Received limits mem df idx p w') :
    (w'.HasFrag target df ∨ w.Keeps nowNs w') ↔ ¬ w.LosesComplete limits mem df nowNs idx := by
  cases h with
  | complete hdone hroom hsample =>
    refine iff_of_true (.inl (hasFrag_of_sample (hsample.trans hkey))) ?_
    rintro ⟨hlen, hmem, -⟩
    rcases hroom with hle | hmem'
    · exact absurd hlen (not_lt.2 hle)
    · rw [hmem] at hmem'
      cases hmem'
  | lost hdone hlen hmem =>
    have hout : ¬ HasFrag target df { w with partials := w.partials.eraseIdx idx } := by
      refine not_hasFrag hs fun q hq he => ?_
      exact absurd (hkey.trans he.symm) (Fit.key_ne_of_mem_eraseIdx hn hp q hq)
    rw [or_iff_right hout, keeps_eraseIdx_iff hn hp]
    refine not_congr ⟨fun ht => ⟨hlen, hmem, p, hp, ht, hdone⟩, ?_⟩
    rintro ⟨-, -, q, hq, ht, -⟩
    cases hp.symm.trans hq
    exact ht
  | goesOn hnot hentry =>
    refine iff_of_true (.inr (keeps_set hp)) ?_
    rintro ⟨-, -, q, hq, -, hdone⟩
    cases hp.symm.trans hq
    exact hnot hdone

/-- A reassembly started for `df` keeps its first fragment. -/
def TakesFirst (limits : Limits) (mem : CacheMemory) (df : DataFragSubmessage) (w : HeldWriter) :
    Prop :=
  mem.payload = true ∧ df.Carries ∧
    (df.Whole → limits.maxSamplesPerWriter ≤ w.samples.length ∨ mem.samples = true)

/-- The earliest-started reassembly, with time left, makes way for nothing. -/
def LosesEvicted (limits : Limits) (mem : CacheMemory) (df : DataFragSubmessage) (nowNs : ℤ)
    (w : HeldWriter) : Prop :=
  limits.maxPartialsPerWriter ≤ w.partials.length ∧ (∃ p ∈ w.partials.head?, nowNs < p.expiresNs) ∧
    ¬ w.TakesFirst limits mem df

theorem kept_sublist (limits : Limits) (w : HeldWriter) :
    (w.kept limits).Sublist w.partials := by
  unfold kept
  split
  · exact List.tail_sublist _
  · exact List.Sublist.refl _

/-- What making way for one more reassembly loses. -/
theorem keeps_kept_iff {more : List HeldPartial} (hn : (w.partials.map HeldPartial.key).Nodup)
    (hmore : ∀ q ∈ more, ∀ p ∈ w.partials, q.key ≠ p.key) :
    w.Keeps nowNs { w with partials := w.kept limits ++ more } ↔
      ¬ (limits.maxPartialsPerWriter ≤ w.partials.length ∧
        ∃ p ∈ w.partials.head?, nowNs < p.expiresNs) := by
  unfold kept
  split
  next hle =>
    rw [and_iff_right hle]
    cases hw : w.partials with
    | nil =>
      refine iff_of_true ⟨fun s hs _ => hs, fun q hq => ?_⟩ (fun ⟨_, hm, _⟩ => nomatch hm)
      rw [hw] at hq
      cases hq
    | cons p rest =>
      rw [hw, List.map_cons, List.nodup_cons] at hn
      constructor
      · rintro ⟨-, hkeeps⟩ ⟨q, hq, ht⟩
        cases hq
        obtain ⟨q, hq, hkey, -⟩ := hkeeps p (by rw [hw]; exact List.mem_cons_self) ht
        rcases List.mem_append.1 hq with hq | hq
        · exact hn.1 (hkey ▸ List.mem_map_of_mem hq)
        · exact hmore q hq p (by rw [hw]; exact List.mem_cons_self) hkey
      · refine fun hrun => ⟨fun s hs _ => hs, fun q hq ht => ⟨q, ?_, rfl, rfl⟩⟩
        rw [hw] at hq
        rcases List.mem_cons.1 hq with rfl | hq
        · exact absurd ⟨q, rfl, ht⟩ hrun
        · exact List.mem_append_left _ hq
  next hlt =>
    refine iff_of_true ⟨fun s hs _ => hs, fun q hq _ => ?_⟩ (fun h => hlt h.1)
    exact ⟨q, List.mem_append_left _ hq, rfl, rfl⟩

/-- A new reassembly is completed by a submessage with every fragment. -/
theorem completedBy_iff_whole {entry : ReassemblyEntry} (hdata : df.dataSize ≠ 0)
    (hdataSize : entry.dataSize = df.dataSize)
    (hfragmentSize : entry.fragmentSize = df.fragmentSize) (hnone : ∀ idx, entry.isSet idx = false) :
    (entry.CompletedBy df ↔ df.Whole) ∧ (df.Whole → df.Carries) ∧
      entry.totalFrags = fragCount df.dataSize df.fragmentSize ∧ df.fragmentSize ≠ 0 := by
  have htotal : entry.totalFrags = fragCount df.dataSize df.fragmentSize := by
    rw [ReassemblyEntry.totalFrags, hdataSize, hfragmentSize]
  have hsize : 0 < df.fragmentSize := hfragmentSize ▸ entry.fragmentSize_pos
  have hpos : 0 < fragCount df.dataSize df.fragmentSize :=
    Nat.div_pos (by omega) hsize
  refine ⟨?_, fun h => ⟨by omega, hdata, by have := h.2; omega, by rw [h.1]; exact hpos⟩, htotal,
    by omega⟩
  unfold ReassemblyEntry.CompletedBy DataFragSubmessage.Whole
  rw [htotal]
  constructor
  · intro h
    have hfirst := h 0 hpos (hnone 0)
    have hlast := h (fragCount df.dataSize df.fragmentSize - 1) (by omega) (hnone _)
    omega
  · intro h idx hi _
    omega

/-- Where a fragment that starts a reassembly is not held, everything else is, except the
reassembly that made way. -/
theorem Started.displaces_iff (hn : (w.partials.map HeldPartial.key).Nodup)
    (hs : ∀ s ∈ w.samples, s.key ≠ (df.writerSn, target))
    (hp : ∀ p ∈ w.partials, p.key ≠ (df.writerSn, target))
    (h : w.Started limits mem target df expiresNs w') :
    (w'.HasFrag target df ∨ w.Keeps nowNs w') ↔ ¬ w.LosesEvicted limits mem df nowNs := by
  have hkept : ∀ q ∈ w.kept limits, q.key ≠ (df.writerSn, target) := fun q hq =>
    hp q ((kept_sublist limits w).subset hq)
  -- without the fragment, what is left is what making way left
  have hplain : w.Keeps nowNs { w with partials := w.kept limits } ↔
      ¬ (limits.maxPartialsPerWriter ≤ w.partials.length ∧
        ∃ p ∈ w.partials.head?, nowNs < p.expiresNs) := by
    have hk : w.Keeps nowNs { w with partials := w.kept limits ++ [] } ↔ _ :=
      keeps_kept_iff hn (fun q hq => nomatch hq)
    rwa [List.append_nil] at hk
  have hout : ¬ HasFrag target df { w with partials := w.kept limits } :=
    not_hasFrag hs fun q hq he => absurd he (hkept q hq)
  cases h with
  | refused hno =>
    rw [or_iff_right hout, hplain]
    refine not_congr ⟨fun ⟨hle, ht⟩ => ⟨hle, ht, ?_⟩, fun ⟨hle, ht, _⟩ => ⟨hle, ht⟩⟩
    rintro ⟨hpayload, ⟨hf, hd, -⟩, -⟩
    rcases hno with hf' | hd' | hpayload' | hplace
    · exact hf hf'
    · exact hd hd'
    · rw [hpayload] at hpayload'
      cases hpayload'
    · exact hplace (.inl hle)
  | @started entry w' hdata hpayload hdataSize hfragmentSize hnone hr =>
    obtain ⟨hwhole, hcarries, htotal, hsize⟩ :=
      completedBy_iff_whole hdata hdataSize hfragmentSize hnone
    generalize hlen : w.kept limits = rest at hr hkept hplain hout
    cases hr with
    | complete hdone hroom hsample =>
      refine iff_of_true (.inl (hasFrag_of_sample hsample)) ?_
      exact fun hloses => hloses.2.2
        ⟨hpayload, hcarries (hwhole.1 hdone), fun _ => hroom⟩
    | lost hdone hlen hmem =>
      rw [List.eraseIdx_append_of_length_le le_rfl, Nat.sub_self, List.eraseIdx_cons_zero,
        List.append_nil, or_iff_right hout, hplain]
      refine not_congr ⟨fun ⟨hle, ht⟩ => ⟨hle, ht, ?_⟩, fun ⟨hle, ht, _⟩ => ⟨hle, ht⟩⟩
      rintro ⟨-, -, hroom⟩
      rcases hroom (hwhole.1 hdone) with hle | hmem'
      · exact absurd hlen (not_lt.2 hle)
      · rw [hmem] at hmem'
        cases hmem'
    | @goesOn entry' hnot hentry =>
      rw [List.set_append_right _ _ le_rfl, Nat.sub_self, List.set_cons_zero]
      dsimp only
      generalize hq : HeldPartial.mk df.writerSn target expiresNs entry' = q
      have hkey : q.key = (df.writerSn, target) := by
        subst hq
        rfl
      have hnew : ∀ q' ∈ [q], ∀ p' ∈ w.partials, q'.key ≠ p'.key := by
        intro q' hq' p' hp' he
        rw [List.mem_singleton.1 hq'] at he
        exact hp p' hp' (he.symm.trans hkey)
      have hkeeps : w.Keeps nowNs { w with partials := w.kept limits ++ [q] } ↔ _ :=
        keeps_kept_iff hn hnew
      rw [hlen] at hkeeps
      have hset : entry'.isSet (df.fragmentStartingNum - 1) = true ↔ df.Carries := by
        rw [ReassemblyEntry.isSet_accept hentry, hnone, htotal, DataFragSubmessage.Carries,
          and_iff_right hsize, and_iff_right hdata, or_iff_right Bool.false_ne_true]
        omega
      have hfirst : HasFrag target df { w with partials := rest ++ [q] } ↔ df.Carries := by
        rw [← hset]
        constructor
        · intro hfrag
          by_contra hno
          refine not_hasFrag (w := { w with partials := rest ++ [q] }) hs
            (fun q' hq' he => ?_) hfrag
          rcases List.mem_append.1 hq' with hq' | hq'
          · exact absurd he (hkept q' hq')
          · rw [List.mem_singleton.1 hq', ← hq]
            simpa using hno
        · intro hyes
          refine .inr ⟨q, List.mem_append_right _ (List.mem_singleton.2 rfl), hkey, ?_⟩
          rw [← hq]
          exact hyes
      have htakes : w.TakesFirst limits mem df ↔ df.Carries :=
        ⟨fun h => h.2.1, fun h => ⟨hpayload, h, fun hw => absurd (hwhole.2 hw) hnot⟩⟩
      rw [hfirst, hkeeps, LosesEvicted, htakes, ← and_assoc, not_and_not_right,
        imp_iff_not_or, or_comm]

theorem Received.guid_eq (h : w.Received limits mem df idx p w') : w'.guid = w.guid := by
  cases h <;> rfl

theorem Received.nodup (hn : (w.partials.map HeldPartial.key).Nodup)
    (hp : w.partials[idx]? = some p) (h : w.Received limits mem df idx p w') :
    (w'.partials.map HeldPartial.key).Nodup := by
  cases h with
  | complete => exact hn.sublist ((List.eraseIdx_sublist _ _).map _)
  | lost => exact hn.sublist ((List.eraseIdx_sublist _ _).map _)
  | goesOn =>
    dsimp only
    rw [Fit.keys_set _ hp]
    exact hn

theorem Started.guid_eq (h : w.Started limits mem target df expiresNs w') : w'.guid = w.guid := by
  cases h with
  | refused => rfl
  | started _ _ _ _ _ hr => exact hr.guid_eq

theorem Started.nodup (hn : (w.partials.map HeldPartial.key).Nodup)
    (hp : ∀ p ∈ w.partials, p.key ≠ (df.writerSn, target))
    (h : w.Started limits mem target df expiresNs w') :
    (w'.partials.map HeldPartial.key).Nodup := by
  have hkept := hn.sublist ((kept_sublist limits w).map _)
  cases h with
  | refused => exact hkept
  | started _ _ _ _ _ hr =>
    refine hr.nodup (Fit.nodup_append_one hkept fun hm => ?_) List.getElem?_concat_length
    obtain ⟨q, hq, hkey⟩ := List.mem_map.1 hm
    exact hp q ((kept_sublist limits w).subset hq) hkey

end HeldWriter

namespace UnmatchedCache

variable {mem : CacheMemory} {c c₁ c' : UnmatchedCache} {w w' : HeldWriter} {g writer : Guid}
  {nowNs : ℤ} {df : DataFragSubmessage} {target : EntityId}

/-- Everything with time left is still held. -/
def Kept (nowNs : ℤ) (c c' : UnmatchedCache) : Prop :=
  ∀ g, (c.heldFrom g).Keeps nowNs (c'.heldFrom g)

theorem Trimmed.trans {c₂ : UnmatchedCache} (h : Trimmed nowNs c c₁) (h' : Trimmed nowNs c₁ c₂) :
    Trimmed nowNs c c₂ := by
  refine ⟨h'.1.trans h.1, ?_⟩
  rcases h.2 with h | h <;> rcases h'.2 with h' | h'
  · exact .inl fun g => (h' g).trans (h g)
  · exact .inr fun g => (h' g).trans (by rw [h g])
  · exact .inr fun g => (h' g).trans (h g)
  · refine .inr fun g => (h' g).trans ?_
    rw [h g, HeldWriter.expire, HeldWriter.expire]
    simp only [List.filter_filter, Bool.and_self]

theorem Trimmed.kept (h : Trimmed nowNs c c') : Kept nowNs c c' := by
  intro g
  rcases h.2 with h | h
  · rw [h g]
    exact .refl nowNs _
  · rw [h g]
    exact .expire nowNs _

theorem Stored.heldFrom (h : Stored c₁ w' c') (hw : (c₁.getPtr w'.guid).isSome) (g : Guid) :
    c'.heldFrom g = if g = w'.guid then w' else c₁.heldFrom g := by
  obtain ⟨bytes, rfl⟩ := h
  exact heldFrom_store hw g

theorem Stored.keyed (h : Stored c₁ w' c') (hc : c₁.Keyed)
    (hw : (w'.partials.map HeldPartial.key).Nodup) : c'.Keyed := by
  obtain ⟨bytes, rfl⟩ := h
  exact hc.store hw bytes

/-- Storing an entry loses what the entry lost. -/
theorem kept_stored_iff (h : Trimmed nowNs c c₁) (hget : c₁.getPtr writer = some w)
    (hst : Stored c₁ w' c') (hg : w'.guid = w.guid) :
    c'.heldFrom writer = w' ∧ (Kept nowNs c c' ↔ w.Keeps nowNs w') := by
  have hguid : w'.guid = writer := hg.trans (guid_of_getPtr hget)
  have hfrom := hst.heldFrom (by rw [hguid, hget]; rfl)
  rw [hguid] at hfrom
  have hw : w.Keeps nowNs w' ↔ (c.heldFrom writer).Keeps nowNs w' := by
    rw [← heldFrom_of_getPtr hget]
    rcases h.2 with h | h
    · rw [h writer]
    · rw [h writer, HeldWriter.expire_keeps_iff]
  have hwriter : c'.heldFrom writer = w' := by rw [hfrom, if_pos rfl]
  refine ⟨hwriter, fun hk => ?_, fun hk g => ?_⟩
  · have hk := hk writer
    rwa [hwriter, ← hw] at hk
  · rw [hfrom]
    split
    next he =>
      rw [he]
      exact hw.1 hk
    next => exact h.kept g

/-- What is not among the samples of a writer is not there once room was made. -/
theorem Trimmed.sublist (h : Trimmed nowNs c c') (g : Guid) :
    (c'.heldFrom g).samples.Sublist (c.heldFrom g).samples ∧
      (c'.heldFrom g).partials.Sublist (c.heldFrom g).partials := by
  rcases h.2 with h | h
  · rw [h g]
    exact ⟨List.Sublist.refl _, List.Sublist.refl _⟩
  · rw [h g]
    exact ⟨List.filter_sublist, List.filter_sublist⟩

theorem sample_ne_of_not_any {sn : ℤ} (h : ¬ (c.getPtr g).any (·.hasSample sn target) = true) :
    ∀ s ∈ (c.heldFrom g).samples, s.key ≠ (sn, target) := by
  rw [UnmatchedCache.heldFrom]
  cases hget : c.getPtr g with
  | none => exact fun s hs => nomatch hs
  | some w =>
    rw [hget, Option.any_some] at h
    exact fun s hs he => h (hasSample_iff.2 ⟨s, hs, he⟩)

theorem partial_ne_of_bind_eq_none {sn : ℤ}
    (h : (c.getPtr g).bind (fun w => (w.partialIdx sn target).map (w, ·)) = none) :
    ∀ p ∈ (c.heldFrom g).partials, p.key ≠ (sn, target) := by
  rw [UnmatchedCache.heldFrom]
  cases hget : c.getPtr g with
  | none => exact fun p hp => nomatch hp
  | some w =>
    rw [hget, Option.bind_some, Option.map_eq_none_iff] at h
    exact partialIdx_eq_none.1 h

/-! ### The operations -/

/-- What an operation offers is held.  Only `put` and `putFrag` offer anything. -/
def Offered (c : UnmatchedCache) : CacheOp → Prop
  | .put writer target change _ _ _ =>
      (c.heldFrom writer).hasSample change.sequenceNumber target = true
  | .putFrag _ writer target df _ _ _ => (c.heldFrom writer).HasFrag target df
  | _ => True

/-- What had time left at the operation is held after it. -/
def KeptBy (c : UnmatchedCache) (c' : UnmatchedCache) : CacheOp → Prop
  | .put _ _ _ _ nowNs _ => Kept nowNs c c'
  | .putFrag _ _ _ _ _ nowNs _ => Kept nowNs c c'
  | _ => True

/-- A DATA_FRAG loses a reassembly with time left: the one it completes, whose sample has no place,
or the earliest-started one, which makes way for a fragment that is not held. -/
def Displaces (mem : CacheMemory) (c : UnmatchedCache) : CacheOp → Prop
  | .putFrag _ writer target df _ nowNs _ =>
      (c.getPtr writer).any (·.hasSample df.writerSn target) = false ∧
        match (c.getPtr writer).bind (fun w => (w.partialIdx df.writerSn target).map (w, ·)) with
        | some (w, idx) => w.LosesComplete c.limits mem df nowNs idx
        | none =>
            df.dataSize ≤ c.limits.maxBytes ∧ (c.reserveLocked df.dataSize nowNs).2 = true ∧
              ∃ w ∈ (c.reserveLocked df.dataSize nowNs).1.getPtr writer,
                w.LosesEvicted c.limits mem df nowNs
  | _ => False

theorem tryPut_spec {change : CacheChange} {hasKeyHash : Bool} {ttlNs : ℤ} (hc : c.Keyed)
    (hp : c.tryPut mem writer target change hasKeyHash nowNs ttlNs = some c') :
    c'.Keyed ∧ ((c'.heldFrom writer).hasSample change.sequenceNumber target = true ∨
      Kept nowNs c c') := by
  unfold tryPut at hp
  split at hp
  · cases hp
    exact ⟨hc, .inr (Trimmed.refl nowNs c).kept⟩
  split at hp
  · cases hp
    exact ⟨hc, .inr (Trimmed.refl nowNs c).kept⟩
  obtain ⟨hc₁, htrim⟩ := reserveLocked_trimmed hc change.data.length nowNs
  split at hp
  next c₁ heq =>
    rw [heq] at hc₁ htrim
    cases hp
    exact ⟨hc₁, .inr htrim.kept⟩
  next c₁ heq =>
    rw [heq] at hc₁ htrim
    split at hp
    next c₂ heq' =>
      cases hp
      obtain ⟨hc₂, htrim', -⟩ := tryWriter_spec hc₁ heq'
      exact ⟨hc₂, .inr (htrim.trans htrim').kept⟩
    next c₂ w heq' =>
      obtain ⟨hc₂, htrim', hw⟩ := tryWriter_spec hc₁ heq'
      have htrim := htrim.trans htrim'
      obtain ⟨hget, -⟩ := hw w rfl
      have hn := hc₂.partials w (List.mem_of_find?_eq_some hget)
      -- a writer left with nothing is dropped, which changes nothing of what is held
      have hdrop : ∀ c₃ : UnmatchedCache, c₃.Keyed →
          ((c₃.heldFrom writer).hasSample change.sequenceNumber target = true ∨ Kept nowNs c c₃) →
          (c₃.dropIfEmptyLocked writer).Keyed ∧
            (((c₃.dropIfEmptyLocked writer).heldFrom writer).hasSample change.sequenceNumber target
              = true ∨ Kept nowNs c (c₃.dropIfEmptyLocked writer)) := by
        intro c₃ hc₃ h
        refine ⟨hc₃.removeWriters _, ?_⟩
        unfold Kept at h ⊢
        simp only [heldFrom_dropIfEmptyLocked hc₃]
        exact h
      split at hp
      · simp only [Option.bind_eq_bind, Option.bind_eq_some_iff] at hp
        obtain ⟨c₃, ha, hc₃⟩ := hp
        cases hc₃
        rcases tryAppendSample_cases ha with ⟨-, samples, hst⟩ | ⟨-, -, hst⟩
        · obtain ⟨hwriter, -⟩ := kept_stored_iff htrim hget hst rfl
          refine hdrop c₃ (hst.keyed hc₂ hn) (.inl ?_)
          rw [hwriter]
          exact hasSample_iff.2 ⟨_, List.mem_append_right _ (List.mem_singleton.2 rfl),
            key_held change hasKeyHash target _⟩
        · obtain ⟨-, hkept⟩ := kept_stored_iff htrim hget hst rfl
          exact hdrop c₃ (hst.keyed hc₂ hn) (.inr (hkept.2 (.refl nowNs w)))
      · cases hp
        exact hdrop c₂ hc₂ (.inr htrim.kept)

/-- A fragment for which there is no reassembly yet. -/
theorem tryStartPartial_spec {fresh : ℕ → UInt8} {ts : RtpsTimestamp} {expiresNs : ℤ}
    (hc₁ : c₁.Keyed) (htrim : Trimmed nowNs c c₁) (hget : c₁.getPtr writer = some w)
    (hs : ∀ s ∈ (c.heldFrom writer).samples, s.key ≠ (df.writerSn, target))
    (hp : ∀ p ∈ (c.heldFrom writer).partials, p.key ≠ (df.writerSn, target))
    (h : c₁.tryStartPartial mem fresh w target df ts expiresNs = some c') :
    c'.Keyed ∧ (((c'.heldFrom writer).HasFrag target df ∨ Kept nowNs c c') ↔
      ¬ w.LosesEvicted c.limits mem df nowNs) := by
  obtain ⟨w', hstarted, hst⟩ := tryStartPartial_cases h
  rw [htrim.1] at hstarted
  have hn := hc₁.partials w (List.mem_of_find?_eq_some hget)
  have hw := heldFrom_of_getPtr hget
  have hs' : ∀ s ∈ w.samples, s.key ≠ (df.writerSn, target) := fun s hm =>
    hs s ((htrim.sublist writer).1.subset (hw ▸ hm))
  have hp' : ∀ p ∈ w.partials, p.key ≠ (df.writerSn, target) := fun p hm =>
    hp p ((htrim.sublist writer).2.subset (hw ▸ hm))
  obtain ⟨hwriter, hkept⟩ := kept_stored_iff htrim hget hst hstarted.guid_eq
  refine ⟨hst.keyed hc₁ (hstarted.nodup hn hp'), ?_⟩
  rw [hwriter, hkept]
  exact hstarted.displaces_iff hn hs' hp'

theorem tryPutFrag_spec {fresh : ℕ → UInt8} {ts : RtpsTimestamp} {ttlNs : ℤ} (hc : c.Keyed)
    (h : c.tryPutFrag mem fresh writer target df ts nowNs ttlNs = some c') :
    c'.Keyed ∧ (((c'.heldFrom writer).HasFrag target df ∨ Kept nowNs c c') ↔
      ¬ c.Displaces mem (.putFrag fresh writer target df ts nowNs ttlNs)) := by
  unfold tryPutFrag at h
  unfold Displaces
  dsimp only
  have hsame : Kept nowNs c c := (Trimmed.refl nowNs c).kept
  split at h
  next hsample =>
    cases h
    exact ⟨hc, iff_of_true (.inr hsame) fun hd => by rw [hd.1] at hsample; cases hsample⟩
  next hsample =>
    have hs := sample_ne_of_not_any hsample
    rw [Bool.not_eq_true] at hsample
    rw [hsample, and_iff_right rfl]
    split at h
    next w idx hidx =>
      obtain ⟨w₁, hget, hidx⟩ := Option.bind_eq_some_iff.1 hidx
      obtain ⟨i, hi, he⟩ := Option.map_eq_some_iff.1 hidx
      cases he
      have hn := hc.partials w (List.mem_of_find?_eq_some hget)
      rw [heldFrom_of_getPtr hget] at hs
      obtain ⟨hlt, hkey, -⟩ := List.findIdx?_eq_some_iff_getElem.1 hi
      have hp := List.getElem?_eq_getElem hlt
      rw [Bool.and_eq_true, beq_iff_eq, beq_iff_eq] at hkey
      obtain ⟨w', hr, hst⟩ := tryReceiveFrag_cases hp h
      obtain ⟨hwriter, hkept⟩ := kept_stored_iff (.refl nowNs c) hget hst hr.guid_eq
      refine ⟨hst.keyed hc (hr.nodup hn hp), ?_⟩
      rw [hwriter, hkept]
      exact hr.displaces_iff hn hs hp (Prod.ext hkey.1 hkey.2)
    next hnone =>
      have hp := partial_ne_of_bind_eq_none hnone
      split at h
      next hlt =>
        cases h
        exact ⟨hc, iff_of_true (.inr hsame) fun hd => absurd hd.1 (not_le.2 hlt)⟩
      next hle =>
        rw [and_iff_right (not_lt.1 hle)]
        obtain ⟨hc₁, htrim⟩ := reserveLocked_trimmed hc df.dataSize nowNs
        split at h
        next c₁ heq =>
          rw [heq] at hc₁ htrim ⊢
          cases h
          exact ⟨hc₁, iff_of_true (.inr htrim.kept) fun hd => Bool.false_ne_true hd.1⟩
        next c₁ heq =>
          rw [heq] at hc₁ htrim ⊢
          rw [and_iff_right rfl]
          split at h
          next c₂ heq' =>
            cases h
            obtain ⟨hc₂, htrim', -⟩ := tryWriter_spec hc₁ heq'
            refine ⟨hc₂, iff_of_true (.inr (htrim.trans htrim').kept) ?_⟩
            rintro ⟨w, hget, -⟩
            rw [tryWriter_of_getPtr hget] at heq'
            cases heq'
          next c₂ w heq' =>
            obtain ⟨hc₂, htrim', hw⟩ := tryWriter_spec hc₁ heq'
            obtain ⟨hget, hfrom⟩ := hw w rfl
            simp only [Option.bind_eq_bind, Option.bind_eq_some_iff] at h
            obtain ⟨c₃, hstart, hc₃⟩ := h
            cases hc₃
            obtain ⟨hkeyed, hiff⟩ :=
              tryStartPartial_spec hc₂ (htrim.trans htrim') hget hs hp hstart
            refine ⟨hkeyed.removeWriters _, ?_⟩
            unfold Kept at hiff ⊢
            simp only [heldFrom_dropIfEmptyLocked hkeyed]
            rw [hiff]
            refine not_congr ⟨fun hloses => ?_, ?_⟩
            · rcases hfrom with hfrom | rfl
              · exact ⟨w, hfrom, hloses⟩
              · obtain ⟨-, ⟨p, hp, -⟩, -⟩ := hloses
                cases hp
            · rintro ⟨w₁, hget₁, hloses⟩
              rw [tryWriter_of_getPtr hget₁] at heq'
              cases heq'
              exact hloses

/-- A put loses nothing, and a DATA_FRAG only what `Displaces` says. -/
theorem tryStep_spec {op : CacheOp} (hc : c.Keyed) (h : c.tryStep mem op = some c') :
    c'.Keyed ∧ ((¬ c'.Offered op → c.KeptBy c' op) ↔ ¬ c.Displaces mem op) := by
  cases op with
  | put writer target change hasKeyHash nowNs ttlNs =>
    obtain ⟨hc', hput⟩ := tryPut_spec hc h
    exact ⟨hc', iff_of_true (or_iff_not_imp_left.1 hput) id⟩
  | putFrag fresh writer target df ts nowNs ttlNs =>
    obtain ⟨hc', hfrag⟩ := tryPutFrag_spec hc h
    rw [or_iff_not_imp_left] at hfrag
    exact ⟨hc', hfrag⟩
  | dropWriter writer =>
    cases h
    exact ⟨hc.removeWriters _, iff_of_true (fun hno => absurd trivial hno) id⟩
  | dropPrefix sender =>
    cases h
    exact ⟨hc.removeWriters _, iff_of_true (fun hno => absurd trivial hno) id⟩
  | expire nowNs =>
    cases h
    exact ⟨hc.expireLocked nowNs, iff_of_true (fun hno => absurd trivial hno) id⟩
  | collect writer reader =>
    cases h
    exact ⟨hc, iff_of_true (fun hno => absurd trivial hno) id⟩

/-- Whatever memory the cache was given, and whatever it is given now: what an operation refuses
displaces nothing, but for what a DATA_FRAG `Displaces`. -/
theorem refused_displaces_nothing (limits : Limits) (ops : List (CacheMemory × CacheOp))
    (c : UnmatchedCache)
    (hrun : Run (fun c op => c.tryStep op.1 op.2) (fun _ _ => True) (init limits) ops c)
    (mem : CacheMemory) (op : CacheOp) (c' : UnmatchedCache) (h : c.tryStep mem op = some c') :
    (¬ c'.Offered op → c.KeptBy c' op) ↔ ¬ c.Displaces mem op := by
  have hc : c.Keyed := hrun.inv (keyed_init limits) fun _ op _ hc _ hs => (tryStep_spec hc hs).1
  exact (tryStep_spec hc h).2

/-- Fragment 1 of 2 of sample 1, offered at time 0 for 10. -/
def firstFragment : CacheOp :=
  .putFrag (fun _ => 0) ⟨GuidPrefix.unknown, EntityId.unknown⟩ EntityId.unknown
    ⟨0, EntityId.unknown, EntityId.unknown, 1, 1, 1, 1, 2, none, [1]⟩ ⟨0, 0⟩ 0 10

/-- A fragment of sample 2, with the fragment size given, offered at time 0 for 10. -/
def otherFragment (fragmentSize : ℕ) : CacheOp :=
  .putFrag (fun _ => 0) ⟨GuidPrefix.unknown, EntityId.unknown⟩ EntityId.unknown
    ⟨0, EntityId.unknown, EntityId.unknown, 2, 1, 1, fragmentSize, 2, none, [1]⟩ ⟨0, 0⟩ 0 10

/-- With one reassembly held and no place for another: a fragment that is held takes the place. -/
theorem refused_displaces_nothing_held : ∃ c c',
    Run (fun c (op : CacheMemory × CacheOp) => c.tryStep op.1 op.2) (fun _ _ => True)
        (init ⟨8, 1, 1, 1⟩) [(.ample, firstFragment)] c ∧
      c.tryStep .ample (otherFragment 1) = some c' ∧
      ((¬ c'.Offered (otherFragment 1) → c.KeptBy c' (otherFragment 1)) ↔
        ¬ c.Displaces .ample (otherFragment 1)) := by
  obtain ⟨c, hrun, c', hs⟩ := exists_run_of_exec
    (fun c (op : CacheMemory × CacheOp) => c.tryStep op.1 op.2) (fun _ _ => True)
    (init ⟨8, 1, 1, 1⟩) [(.ample, firstFragment)]
    (show ∃ c, _ = some c ∧ ∃ c', c.tryStep .ample (otherFragment 1) = some c' from
      ⟨_, rfl, _, rfl⟩)
  exact ⟨c, c', hrun, hs, refused_displaces_nothing ⟨8, 1, 1, 1⟩ _ c hrun .ample _ c' hs⟩

/-- With one reassembly held and no place for another, a fragment of size 0 takes the place and
is not held. -/
theorem refused_displaces : ∃ c c',
    Run (fun c (op : CacheMemory × CacheOp) => c.tryStep op.1 op.2) (fun _ _ => True)
        (init ⟨8, 1, 1, 1⟩) [(.ample, firstFragment)] c ∧
      c.tryStep .ample (otherFragment 0) = some c' ∧
      ¬ c'.Offered (otherFragment 0) ∧ ¬ c.KeptBy c' (otherFragment 0) := by
  obtain ⟨c, hrun, hc⟩ := exists_run_of_exec
    (fun c (op : CacheMemory × CacheOp) => c.tryStep op.1 op.2) (fun _ _ => True)
    (init ⟨8, 1, 1, 1⟩) [(.ample, firstFragment)] (p := fun c => c.bytes = 2 ∧
      ∃ c', c.tryStep .ample (otherFragment 0) = some c' ∧ c'.writers = [] ∧
        (c.heldFrom ⟨GuidPrefix.unknown, EntityId.unknown⟩).partials.map (·.expiresNs) = [10])
    ⟨_, rfl, rfl, _, rfl, rfl, rfl⟩
  obtain ⟨-, c', hs, hempty, hexpires⟩ := hc
  have hnothing : c'.heldFrom ⟨GuidPrefix.unknown, EntityId.unknown⟩ =
      { guid := ⟨GuidPrefix.unknown, EntityId.unknown⟩ } := by
    rw [heldFrom, getPtr, hempty]
    rfl
  refine ⟨c, c', hrun, hs, ?_, fun hkept => ?_⟩
  · show ¬ HeldWriter.HasFrag _ _ (c'.heldFrom _)
    rw [hnothing]
    exact HeldWriter.not_hasFrag (fun s hm => nomatch hm) (fun p hm => nomatch hm)
  · obtain ⟨p, hp, he⟩ : ∃ p ∈ (c.heldFrom ⟨GuidPrefix.unknown, EntityId.unknown⟩).partials,
        p.expiresNs = 10 :=
      List.mem_map.1 (hexpires ▸ List.mem_singleton.2 rfl)
    have hkept := (hkept ⟨GuidPrefix.unknown, EntityId.unknown⟩).2 p hp (by rw [he]; decide)
    rw [hnothing] at hkept
    obtain ⟨p', hp', -⟩ := hkept
    cases hp'

end UnmatchedCache

end Zzdds.Rtps
