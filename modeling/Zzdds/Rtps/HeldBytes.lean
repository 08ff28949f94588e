import Zzdds.Rtps.UnmatchedCache

/-! # Bytes held for writers not matched yet

The cache counts the bytes of what it holds: each sample, and each partly reassembled sample at
its declared size.  `Accounted` says that the count is right and within the limit.  An operation
first takes a writer's entry out, changes it, and stores it again; in between the cache is
`Holding` that entry: the count is that of the other writers and of the entry as it is now.
`ReceiveSide.run_counted` carries the count through every run of the cache's operations. -/

namespace Zzdds.Rtps

namespace HeldWriter

variable {w : HeldWriter}

theorem sampleBytes_nonneg (samples : List HeldSample) :
    0 ≤ (samples.map (fun s => (s.change.data.length : ℤ))).sum :=
  List.sum_nonneg (by simp)

theorem partialBytes_nonneg (partials : List HeldPartial) :
    0 ≤ (partials.map (fun p => (p.entry.dataSize : ℤ))).sum :=
  List.sum_nonneg (by simp)

theorem byteCount_nonneg (w : HeldWriter) : 0 ≤ w.byteCount :=
  add_nonneg (sampleBytes_nonneg w.samples) (partialBytes_nonneg w.partials)

theorem le_byteCount_of_sample {s : HeldSample} {rest : List HeldSample}
    (h : w.samples = s :: rest) : (s.change.data.length : ℤ) ≤ w.byteCount := by
  have h₁ := sampleBytes_nonneg rest
  have h₂ := partialBytes_nonneg w.partials
  rw [byteCount, h, List.map_cons, List.sum_cons]
  omega

/-- What one partly reassembled sample counts for, and the rest. -/
theorem partialBytes_eraseIdx : ∀ {partials : List HeldPartial} {idx : ℕ} {p : HeldPartial},
    partials[idx]? = some p →
      ((partials.eraseIdx idx).map (fun p => (p.entry.dataSize : ℤ))).sum + p.entry.dataSize =
        (partials.map (fun p => (p.entry.dataSize : ℤ))).sum
  | [], _, _, h => by cases h
  | q :: partials, 0, p, h => by
      cases h
      rw [List.eraseIdx_cons_zero, List.map_cons, List.sum_cons]
      omega
  | q :: partials, idx + 1, p, h => by
      have ih := @partialBytes_eraseIdx partials idx p h
      rw [List.eraseIdx_cons_succ, List.map_cons, List.map_cons, List.sum_cons, List.sum_cons]
      omega

theorem partialBytes_set : ∀ {partials : List HeldPartial} {idx : ℕ} {p q : HeldPartial},
    partials[idx]? = some p → q.entry.dataSize = p.entry.dataSize →
      ((partials.set idx q).map (fun p => (p.entry.dataSize : ℤ))).sum =
        (partials.map (fun p => (p.entry.dataSize : ℤ))).sum
  | [], _, _, _, h, _ => by cases h
  | _ :: _, 0, _, _, h, hq => by
      cases h
      rw [List.set_cons_zero, List.map_cons, List.map_cons, List.sum_cons, List.sum_cons, hq]
  | _ :: partials, idx + 1, p, q, h, hq => by
      have ih := @partialBytes_set partials idx p q h hq
      rw [List.set_cons_succ, List.map_cons, List.map_cons, List.sum_cons, List.sum_cons, ih]

/-- The sizes that expiring the entry releases, in order. -/
def expiredSizes (w : HeldWriter) (nowNs : ℤ) : List ℕ :=
  (w.samples.filter (fun s => !decide (nowNs < s.expiresNs))).map (·.change.data.length) ++
    (w.partials.filter (fun p => !decide (nowNs < p.expiresNs))).map (·.entry.dataSize)

end HeldWriter

/-- A list's sum is that of what a filter keeps and of what it drops. -/
theorem sum_map_filter_add {α : Type} (f : α → ℤ) (p : α → Bool) : ∀ xs : List α,
    ((xs.filter p).map f).sum + ((xs.filter (fun x => !p x)).map f).sum = (xs.map f).sum
  | [] => rfl
  | x :: xs => by
      have ih := sum_map_filter_add f p xs
      cases h : p x <;> simp only [List.filter_cons, h, Bool.not_false, Bool.not_true, if_true,
        Bool.false_eq_true, if_false, List.map_cons, List.sum_cons] <;> omega

theorem HeldWriter.byteCount_expire (w : HeldWriter) (nowNs : ℤ) :
    (w.expire nowNs).byteCount + ((w.expiredSizes nowNs).sum : ℕ) =
      w.byteCount := by
  have hs := sum_map_filter_add (fun s : HeldSample => (s.change.data.length : ℤ))
    (fun s => decide (nowNs < s.expiresNs)) w.samples
  have hp := sum_map_filter_add (fun p : HeldPartial => (p.entry.dataSize : ℤ))
    (fun p => decide (nowNs < p.expiresNs)) w.partials
  have hcast : ((w.expiredSizes nowNs).sum : ℤ) =
      ((w.samples.filter (fun s => !decide (nowNs < s.expiresNs))).map
        (fun s => (s.change.data.length : ℤ))).sum +
      ((w.partials.filter (fun p => !decide (nowNs < p.expiresNs))).map
        (fun p => (p.entry.dataSize : ℤ))).sum := by
    rw [expiredSizes, List.sum_append, Nat.cast_add, Nat.cast_list_sum, Nat.cast_list_sum,
      List.map_map, List.map_map]
    rfl
  rw [hcast, byteCount, byteCount, expire]
  dsimp only
  omega

namespace UnmatchedCache

/-- Bytes of everything held. -/
def heldBytes (c : UnmatchedCache) : ℤ := (c.writers.map HeldWriter.byteCount).sum

/-- Bytes held from the writers other than `writer`. -/
def otherBytes (c : UnmatchedCache) (writer : Guid) : ℤ :=
  ((c.writers.filter (fun w => w.guid != writer)).map HeldWriter.byteCount).sum

/-- The count is right and within the limit. -/
structure Accounted (c : UnmatchedCache) : Prop where
  nodup : (c.writers.map (·.guid)).Nodup
  bytes : c.bytes = c.heldBytes
  fits : c.bytes ≤ c.limits.maxBytes

/-- The count is right once `w` is stored. -/
structure Holding (c : UnmatchedCache) (w : HeldWriter) : Prop where
  nodup : (c.writers.map (·.guid)).Nodup
  mem : w.guid ∈ c.writers.map (·.guid)
  bytes : c.bytes = c.otherBytes w.guid + w.byteCount

variable {c c' : UnmatchedCache} {w : HeldWriter} {writer : Guid}

theorem otherBytes_nonneg (c : UnmatchedCache) (writer : Guid) : 0 ≤ c.otherBytes writer := by
  refine List.sum_nonneg fun n hn => ?_
  obtain ⟨w, -, rfl⟩ := List.mem_map.mp hn
  exact w.byteCount_nonneg

theorem Holding.byteCount_le (h : c.Holding w) : w.byteCount ≤ c.bytes := by
  have := c.otherBytes_nonneg w.guid
  rw [h.bytes]
  omega

/-- With the writers told apart, the writer's own bytes and the others' are all. -/
theorem sum_byteCount_split {w : HeldWriter} : ∀ {ws : List HeldWriter},
    (ws.map (·.guid)).Nodup → w ∈ ws →
      (ws.map HeldWriter.byteCount).sum =
        ((ws.filter (fun w' => w'.guid != w.guid)).map HeldWriter.byteCount).sum + w.byteCount
  | [], _, h => by cases h
  | v :: ws, hn, h => by
      rw [List.map_cons, List.nodup_cons] at hn
      rw [List.map_cons, List.sum_cons]
      rcases List.mem_cons.mp h with rfl | h
      · have hrest : ws.filter (fun w' => w'.guid != w.guid) = ws := by
          refine List.filter_eq_self.mpr fun w' hw' => bne_iff_ne.mpr fun e => ?_
          exact hn.1 (e ▸ List.mem_map_of_mem hw')
        rw [List.filter_cons_of_neg (by simp), hrest]
        omega
      · have hne : v.guid ≠ w.guid := fun e => hn.1 (e ▸ List.mem_map_of_mem h)
        rw [List.filter_cons_of_pos (by simpa using hne), List.map_cons, List.sum_cons,
          sum_byteCount_split hn.2 h]
        omega

theorem Accounted.holding (h : c.Accounted) (hw : w ∈ c.writers) : c.Holding w :=
  ⟨h.nodup, List.mem_map_of_mem hw, h.bytes.trans (sum_byteCount_split h.nodup hw)⟩

theorem guid_store (c : UnmatchedCache) (w : HeldWriter) :
    (c.store w).writers.map (·.guid) = c.writers.map (·.guid) := by
  simp only [store, List.map_map]
  refine List.map_congr_left fun w' _ => ?_
  by_cases e : w'.guid = w.guid <;> simp [e]

theorem otherBytes_store (c : UnmatchedCache) (w : HeldWriter) :
    (c.store w).otherBytes w.guid = c.otherBytes w.guid := by
  have hmap : (c.store w).writers.filter (fun w' => w'.guid != w.guid) =
      c.writers.filter (fun w' => w'.guid != w.guid) := by
    simp only [store, List.filter_map]
    have hpred : (fun w' : HeldWriter => w'.guid != w.guid) ∘
        (fun w' => if w'.guid = w.guid then w else w') = fun w' => w'.guid != w.guid := by
      funext w'
      by_cases e : w'.guid = w.guid <;> simp [e]
    rw [hpred]
    refine (List.map_congr_left fun w' hw' => ?_).trans (List.map_id _)
    obtain ⟨-, hne⟩ := List.mem_filter.mp hw'
    exact if_neg (bne_iff_ne.mp hne)
  rw [otherBytes, otherBytes, hmap]

theorem mem_store (h : w.guid ∈ c.writers.map (·.guid)) : w ∈ (c.store w).writers := by
  obtain ⟨w₀, hw₀, he⟩ := List.mem_map.mp h
  exact List.mem_map.mpr ⟨w₀, hw₀, if_pos he⟩

/-- Storing the entry settles the count. -/
theorem Holding.store (h : c.Holding w) (hfits : c.bytes ≤ c.limits.maxBytes) :
    (c.store w).Accounted where
  nodup := by
    rw [guid_store]
    exact h.nodup
  bytes := by
    have hsplit := @sum_byteCount_split w (c.store w).writers
      (by rw [guid_store]; exact h.nodup) (mem_store h.mem)
    have hother := otherBytes_store c w
    have hb := h.bytes
    unfold heldBytes
    rw [hsplit]
    unfold otherBytes at hother hb
    rw [hother]
    exact hb
  fits := hfits

/-- Changing the entry in hand, and the count with it. -/
theorem Holding.change {w' : HeldWriter} {bytes : ℤ} (h : c.Holding w) (hg : w'.guid = w.guid)
    (hb : bytes - c.bytes = w'.byteCount - w.byteCount) :
    Holding { c with bytes := bytes } w' where
  nodup := h.nodup
  mem := by
    rw [hg]
    exact h.mem
  bytes := by
    have h₁ : c.bytes = c.otherBytes w.guid + w.byteCount := h.bytes
    have h₂ : otherBytes { c with bytes := bytes } w'.guid = c.otherBytes w.guid := by
      rw [hg]
      rfl
    rw [h₂]
    show bytes = _
    omega

/-! ### The operations -/

theorem accounted_removeWriters (h : c.Accounted) (p : HeldWriter → Bool) :
    (c.removeWriters p).Accounted where
  nodup := h.nodup.sublist (List.filter_sublist.map _)
  bytes := by
    have hsum := sum_map_filter_add HeldWriter.byteCount p c.writers
    have hb := h.bytes
    unfold heldBytes at hb ⊢
    unfold removeWriters
    dsimp only
    omega
  fits := by
    have hf := h.fits
    have h0 : 0 ≤ ((c.writers.filter p).map HeldWriter.byteCount).sum := by
      refine List.sum_nonneg fun n hn => ?_
      obtain ⟨w, -, rfl⟩ := List.mem_map.mp hn
      exact w.byteCount_nonneg
    unfold removeWriters
    dsimp only
    omega

theorem sum_byteCount_expire (nowNs : ℤ) : ∀ ws : List HeldWriter,
    (ws.map HeldWriter.byteCount).sum -
      (ws.map (fun w => w.byteCount - (w.expire nowNs).byteCount)).sum =
        ((ws.map (·.expire nowNs)).map HeldWriter.byteCount).sum
  | [] => rfl
  | w :: ws => by
      have ih := sum_byteCount_expire nowNs ws
      simp only [List.map_cons, List.sum_cons]
      omega

theorem byteCount_expire_le (w : HeldWriter) (nowNs : ℤ) :
    (w.expire nowNs).byteCount ≤ w.byteCount := by
  have h := w.byteCount_expire nowNs
  omega

theorem accounted_expireLocked (h : c.Accounted) (nowNs : ℤ) :
    (c.expireLocked nowNs).Accounted := by
  refine accounted_removeWriters ⟨?_, ?_, ?_⟩ HeldWriter.isEmpty
  · have hg : (c.writers.map (·.expire nowNs)).map (·.guid) = c.writers.map (·.guid) := by
      rw [List.map_map]
      rfl
    dsimp only
    rw [hg]
    exact h.nodup
  · have hsum := sum_byteCount_expire nowNs c.writers
    have hb := h.bytes
    unfold heldBytes at hb ⊢
    dsimp only
    rw [← hsum, hb]
  · have h0 : 0 ≤ (c.writers.map (fun w => w.byteCount - (w.expire nowNs).byteCount)).sum := by
      refine List.sum_nonneg fun n hn => ?_
      obtain ⟨w, -, rfl⟩ := List.mem_map.mp hn
      have := byteCount_expire_le w nowNs
      omega
    have hf := h.fits
    dsimp only
    omega

theorem expireLocked_bytes_le (c : UnmatchedCache) (nowNs : ℤ) :
    (c.expireLocked nowNs).bytes ≤ c.bytes := by
  have h₁ : 0 ≤ (c.writers.map (fun w => w.byteCount - (w.expire nowNs).byteCount)).sum := by
    refine List.sum_nonneg fun n hn => ?_
    obtain ⟨w, -, rfl⟩ := List.mem_map.mp hn
    have := byteCount_expire_le w nowNs
    omega
  have h₂ : ∀ ws : List HeldWriter, 0 ≤ (ws.map HeldWriter.byteCount).sum := fun ws => by
    refine List.sum_nonneg fun n hn => ?_
    obtain ⟨w, -, rfl⟩ := List.mem_map.mp hn
    exact w.byteCount_nonneg
  have h₃ := h₂ ((c.writers.map (·.expire nowNs)).filter HeldWriter.isEmpty)
  unfold expireLocked removeWriters
  dsimp only
  omega

theorem reserveLocked_spec {n : ℕ} {nowNs : ℤ} {fits : Bool} (h : c.Accounted)
    (hr : c.reserveLocked n nowNs = (c', fits)) :
    c'.Accounted ∧ c'.limits = c.limits ∧
      (fits = true → c'.bytes + n ≤ c.limits.maxBytes) := by
  unfold reserveLocked at hr
  split at hr
  next hle =>
    cases hr
    exact ⟨h, rfl, fun _ => hle⟩
  · cases hr
    exact ⟨accounted_expireLocked h nowNs, rfl, fun hd => of_decide_eq_true hd⟩

theorem writerLocked_spec {nowNs : ℤ} {w? : Option HeldWriter} (h : c.Accounted)
    (hw : c.writerLocked writer nowNs = (c', w?)) :
    c'.Accounted ∧ c'.limits = c.limits ∧ c'.bytes ≤ c.bytes ∧ ∀ w ∈ w?, w ∈ c'.writers := by
  unfold writerLocked at hw
  split at hw
  next w₀ hget =>
    cases hw
    refine ⟨h, rfl, le_rfl, fun w hm => ?_⟩
    cases hm
    exact List.mem_of_find?_eq_some hget
  next hnone =>
    -- the limit of writers first makes room
    have hroom : ∃ c₁, c₁ = (if c.limits.maxWriters ≤ c.writers.length then c.expireLocked nowNs
        else c) ∧ c₁.Accounted ∧ c₁.limits = c.limits ∧ c₁.bytes ≤ c.bytes ∧
          writer ∉ c₁.writers.map (·.guid) := by
      have hout : writer ∉ c.writers.map (·.guid) := by
        rintro hm
        obtain ⟨w, hw, he⟩ := List.mem_map.mp hm
        have := List.find?_eq_none.mp hnone w hw
        simp [he] at this
      refine ⟨_, rfl, ?_⟩
      split
      · refine ⟨accounted_expireLocked h nowNs, rfl, expireLocked_bytes_le c nowNs, fun hm => ?_⟩
        obtain ⟨w₁, hw₁, rfl⟩ := List.mem_map.mp hm
        obtain ⟨w₀, hw₀, rfl⟩ := List.mem_map.mp (List.mem_of_mem_filter hw₁)
        exact hout (List.mem_map.mpr ⟨w₀, hw₀, rfl⟩)
      · exact ⟨h, rfl, le_rfl, hout⟩
    obtain ⟨c₁, hc₁, hacc, hlim, hle, hout⟩ := hroom
    simp only [← hc₁] at hw
    split at hw
    · cases hw
      exact ⟨hacc, hlim, hle, fun w hm => nomatch hm⟩
    · cases hw
      refine ⟨⟨?_, ?_, hacc.fits⟩, hlim, hle, fun w hm => ?_⟩
      · rw [List.map_append, List.nodup_append]
        refine ⟨hacc.nodup, List.nodup_singleton _, ?_⟩
        rintro g hg g' hg' rfl
        have he : g = writer := List.mem_singleton.mp hg'
        exact hout (he ▸ hg)
      · have hb := hacc.bytes
        unfold heldBytes at hb ⊢
        rw [List.map_append, List.sum_append]
        exact hb.trans (add_zero _).symm
      · cases hm
        exact List.mem_append_right _ (List.mem_singleton.mpr rfl)

theorem appendSampleLocked_spec {s : HeldSample} (h : c.Holding w)
    (hfits : c.bytes + s.change.data.length ≤ c.limits.maxBytes)
    (ha : c.appendSampleLocked w s = some c') : c'.Accounted ∧ c'.limits = c.limits := by
  have hadd : ∀ samples : List HeldSample,
      ((samples ++ [s]).map (fun s => (s.change.data.length : ℤ))).sum =
        (samples.map (fun s => (s.change.data.length : ℤ))).sum + s.change.data.length := by
    intro samples
    rw [List.map_append, List.sum_append, List.map_singleton, List.sum_singleton]
  unfold appendSampleLocked at ha
  dsimp only at ha
  split at ha
  · split at ha
    · cases ha
    next evicted rest hs =>
      cases ha
      have hhold : Holding { c with bytes := c.bytes + s.change.data.length -
          evicted.change.data.length } { w with samples := rest ++ [s] } := by
        refine h.change rfl ?_
        unfold HeldWriter.byteCount
        dsimp only
        rw [hs, hadd rest, List.map_cons, List.sum_cons]
        omega
      exact ⟨hhold.store (by dsimp only; omega), rfl⟩
  · cases ha
    have hhold : Holding { c with bytes := c.bytes + s.change.data.length }
        { w with samples := w.samples ++ [s] } := by
      refine h.change rfl ?_
      unfold HeldWriter.byteCount
      dsimp only
      rw [hadd w.samples]
      omega
    exact ⟨hhold.store hfits, rfl⟩

theorem receiveFragLocked_spec {idx : ℕ} {df : DataFragSubmessage} (h : c.Holding w)
    (hfits : c.bytes ≤ c.limits.maxBytes) (hr : c.receiveFragLocked w idx df = some c') :
    c'.Accounted ∧ c'.limits = c.limits := by
  unfold receiveFragLocked at hr
  split at hr
  · cases hr
  next p hp =>
    simp only [Option.bind_eq_bind, Option.bind_eq_some_iff] at hr
    obtain ⟨entry, hacc, hr⟩ := hr
    have hsize := (ReassemblyEntry.accept_layout hacc).1
    split at hr
    · have hlen : entry.data.length = entry.dataSize := entry.length_data
      have herase := HeldWriter.partialBytes_eraseIdx hp
      have hhold : Holding { c with bytes := c.bytes - entry.dataSize }
          { w with partials := w.partials.eraseIdx idx } := by
        refine h.change rfl ?_
        unfold HeldWriter.byteCount
        dsimp only
        omega
      have hsample : (reassembled w.guid { p with entry := entry }).change.data.length =
          entry.dataSize := hlen
      obtain ⟨hacc, hlim⟩ := appendSampleLocked_spec hhold
        (by rw [hsample]; dsimp only; omega) hr
      exact ⟨hacc, hlim⟩
    · cases hr
      have hset := HeldWriter.partialBytes_set (q := { p with entry := entry }) hp hsize
      have hhold : c.Holding { w with partials := w.partials.set idx { p with entry := entry } } := by
        refine h.change rfl ?_
        unfold HeldWriter.byteCount
        dsimp only
        rw [hset]
        omega
      exact ⟨hhold.store hfits, rfl⟩

theorem evictPartial_spec {kept : List HeldPartial} (h : c.Holding w)
    (he : c.evictPartial w = some (c', kept)) :
    c'.Holding { w with partials := kept } ∧ c'.limits = c.limits ∧ c'.bytes ≤ c.bytes ∧
      ∀ p ∈ kept, p ∈ w.partials := by
  unfold evictPartial at he
  split at he
  · split at he
    · cases he
    next evicted rest hpart =>
      cases he
      refine ⟨h.change rfl ?_, rfl, by dsimp only; omega, fun p hp => ?_⟩
      · unfold HeldWriter.byteCount
        dsimp only
        rw [hpart, List.map_cons, List.sum_cons]
        omega
      · rw [hpart]
        exact List.mem_cons_of_mem evicted hp
  · cases he
    exact ⟨h, rfl, le_rfl, fun _ => id⟩

/-- A partly reassembled sample counts at its declared size. -/
theorem Holding.addPartial {kept : List HeldPartial} {p : HeldPartial} {n : ℕ}
    (h : c.Holding { w with partials := kept }) (hn : p.entry.dataSize = n) :
    Holding { c with bytes := c.bytes + n } { w with partials := kept ++ [p] } := by
  refine h.change rfl ?_
  unfold HeldWriter.byteCount
  dsimp only
  rw [List.map_append, List.sum_append, List.map_singleton, List.sum_singleton, hn]
  omega

theorem startPartial_spec {fresh : ℕ → UInt8} {target : EntityId} {df : DataFragSubmessage}
    {ts : RtpsTimestamp} {expiresNs : ℤ} (h : c.Holding w)
    (hfits : c.bytes + df.dataSize ≤ c.limits.maxBytes)
    (hs : c.startPartial fresh w target df ts expiresNs = some c') :
    c'.Accounted ∧ c'.limits = c.limits := by
  unfold startPartial at hs
  simp only [Option.bind_eq_bind, Option.bind_eq_some_iff] at hs
  obtain ⟨⟨c₁, kept⟩, hkept, e?, hinit, hs⟩ := hs
  obtain ⟨hhold, hlim, hle, -⟩ := evictPartial_spec h hkept
  cases e? with
  | none =>
    cases hs
    refine ⟨hhold.store ?_, hlim⟩
    rw [hlim]
    omega
  | some entry =>
    have hnew := hhold.addPartial (p := ⟨df.writerSn, target, expiresNs, entry⟩)
      (ReassemblyEntry.init_layout hinit).1
    obtain ⟨hacc, hlim'⟩ := receiveFragLocked_spec hnew (by dsimp only; rw [hlim]; omega) hs
    exact ⟨hacc, hlim'.trans hlim⟩

theorem put_spec {target : EntityId} {change : CacheChange} {hasKeyHash : Bool} {nowNs ttlNs : ℤ}
    (h : c.Accounted) (hp : c.put writer target change hasKeyHash nowNs ttlNs = some c') :
    c'.Accounted ∧ c'.limits = c.limits := by
  unfold put at hp
  split at hp
  · cases hp
    exact ⟨h, rfl⟩
  split at hp
  · cases hp
    exact ⟨h, rfl⟩
  split at hp
  next c₁ heq =>
    cases hp
    obtain ⟨hacc, hlim, -⟩ := reserveLocked_spec h heq
    exact ⟨hacc, hlim⟩
  next c₁ heq =>
    obtain ⟨hacc, hlim, hfits⟩ := reserveLocked_spec h heq
    have hfits := hfits rfl
    split at hp
    next c₂ heq' =>
      cases hp
      obtain ⟨hacc', hlim', -⟩ := writerLocked_spec hacc heq'
      exact ⟨hacc', hlim'.trans hlim⟩
    next c₂ w heq' =>
      obtain ⟨hacc', hlim', hle, hmem⟩ := writerLocked_spec hacc heq'
      simp only [Option.bind_eq_bind, Option.bind_eq_some_iff] at hp
      obtain ⟨c₃, ha, hc⟩ := hp
      cases hc
      have hroom : c₂.bytes + change.data.length ≤ c₂.limits.maxBytes := by
        rw [hlim', hlim]
        omega
      obtain ⟨hacc₃, hlim₃⟩ := appendSampleLocked_spec (hacc'.holding (hmem w rfl))
        (by split <;> exact hroom) ha
      exact ⟨accounted_removeWriters hacc₃ _, hlim₃.trans (hlim'.trans hlim)⟩

theorem putFrag_spec {fresh : ℕ → UInt8} {target : EntityId} {df : DataFragSubmessage}
    {ts : RtpsTimestamp} {nowNs ttlNs : ℤ} (h : c.Accounted)
    (hp : c.putFrag fresh writer target df ts nowNs ttlNs = some c') :
    c'.Accounted ∧ c'.limits = c.limits := by
  unfold putFrag at hp
  split at hp
  · cases hp
    exact ⟨h, rfl⟩
  split at hp
  next w idx hidx =>
    obtain ⟨w', hw', hidx⟩ := Option.bind_eq_some_iff.mp hidx
    obtain ⟨i, -, hi⟩ := Option.map_eq_some_iff.mp hidx
    cases hi
    exact receiveFragLocked_spec (h.holding (List.mem_of_find?_eq_some hw')) h.fits hp
  next =>
    split at hp
    · cases hp
      exact ⟨h, rfl⟩
    split at hp
    next c₁ heq =>
      cases hp
      obtain ⟨hacc, hlim, -⟩ := reserveLocked_spec h heq
      exact ⟨hacc, hlim⟩
    next c₁ heq =>
      obtain ⟨hacc, hlim, hfits⟩ := reserveLocked_spec h heq
      have hfits := hfits rfl
      split at hp
      next c₂ heq' =>
        cases hp
        obtain ⟨hacc', hlim', -⟩ := writerLocked_spec hacc heq'
        exact ⟨hacc', hlim'.trans hlim⟩
      next c₂ w heq' =>
        obtain ⟨hacc', hlim', hle, hmem⟩ := writerLocked_spec hacc heq'
        simp only [Option.bind_eq_bind, Option.bind_eq_some_iff] at hp
        obtain ⟨c₃, hs, hc⟩ := hp
        cases hc
        obtain ⟨hacc₃, hlim₃⟩ := startPartial_spec (hacc'.holding (hmem w rfl))
          (by rw [hlim', hlim]; omega) hs
        exact ⟨accounted_removeWriters hacc₃ _, hlim₃.trans (hlim'.trans hlim)⟩

theorem accounted_init (limits : Limits) : (init limits).Accounted :=
  ⟨List.nodup_nil, rfl, Int.natCast_nonneg _⟩

end UnmatchedCache

end Zzdds.Rtps
