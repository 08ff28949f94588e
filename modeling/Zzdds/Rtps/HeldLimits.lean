import Zzdds.Lib.Run
import Zzdds.Rtps.HeldBytes

/-! # What is held for writers not matched yet

The cache is `Settled` when it holds no more writers, samples and partly reassembled samples than
its limits allow, no writer is held with nothing, and every sample is held once: whole or in parts.
The last does not hold throughout.  `putFrag` looks for the sample among the whole ones; `put` does
not look for it among those in parts (`RacesPartial`). -/

namespace Zzdds.Rtps

open Lib

/-- What tells the samples of a writer apart. -/
def HeldSample.key (s : HeldSample) : ℤ × EntityId := (s.change.sequenceNumber, s.target)

def HeldPartial.key (p : HeldPartial) : ℤ × EntityId := (p.sn, p.target)

/-- What is held from a writer is within the limits, and each sample is held once. -/
structure HeldWriter.Fit (limits : Limits) (w : HeldWriter) : Prop where
  samples_le : w.samples.length ≤ limits.maxSamplesPerWriter
  partials_le : w.partials.length ≤ limits.maxPartialsPerWriter
  samples_nodup : (w.samples.map HeldSample.key).Nodup
  partials_nodup : (w.partials.map HeldPartial.key).Nodup
  apart : ∀ s ∈ w.samples, ∀ p ∈ w.partials, s.key ≠ p.key

namespace HeldWriter.Fit

variable {limits : Limits} {w w' : HeldWriter} {samples : List HeldSample}
  {kept : List HeldPartial} {s : HeldSample} {p : HeldPartial}

theorem empty (limits : Limits) (guid : Guid) : Fit limits { guid := guid } where
  samples_le := Nat.zero_le _
  partials_le := Nat.zero_le _
  samples_nodup := List.nodup_nil
  partials_nodup := List.nodup_nil
  apart := fun _ hs => nomatch hs

theorem sublist (h : Fit limits w) (hs : w'.samples.Sublist w.samples)
    (hp : w'.partials.Sublist w.partials) : Fit limits w' where
  samples_le := hs.length_le.trans h.samples_le
  partials_le := hp.length_le.trans h.partials_le
  samples_nodup := h.samples_nodup.sublist (hs.map _)
  partials_nodup := h.partials_nodup.sublist (hp.map _)
  apart := fun s hs' p hp' => h.apart s (hs.subset hs') p (hp.subset hp')

theorem expire (h : Fit limits w) (nowNs : ℤ) : Fit limits (w.expire nowNs) :=
  h.sublist List.filter_sublist List.filter_sublist

theorem nodup_append_one {α β : Type} {key : α → β} {l : List α} {a : α}
    (h : (l.map key).Nodup) (ha : key a ∉ l.map key) : ((l ++ [a]).map key).Nodup := by
  rw [List.map_append, List.nodup_append]
  refine ⟨h, List.nodup_singleton _, fun x hx y hy => ?_⟩
  rintro rfl
  exact ha (List.mem_singleton.1 hy ▸ hx)

/-- A sample that is not held is added where one more has place. -/
theorem addSample (h : Fit limits w) (hsub : samples.Sublist w.samples)
    (hlen : samples.length < limits.maxSamplesPerWriter)
    (hs : ∀ s' ∈ w.samples, s'.key ≠ s.key) (hp : ∀ p ∈ w.partials, s.key ≠ p.key) :
    Fit limits { w with samples := samples ++ [s] } where
  samples_le := by
    rw [List.length_append]
    exact hlen
  partials_le := h.partials_le
  samples_nodup := by
    refine nodup_append_one (h.samples_nodup.sublist (hsub.map _)) fun hm => ?_
    obtain ⟨s', hs', he⟩ := List.mem_map.1 hm
    exact hs s' (hsub.subset hs') he
  partials_nodup := h.partials_nodup
  apart := by
    intro s' hs' p hp'
    rcases List.mem_append.1 hs' with hs' | hs'
    · exact h.apart s' (hsub.subset hs') p hp'
    · rw [List.mem_singleton.1 hs']
      exact hp p hp'

theorem addPartial (h : Fit limits w) (hsub : kept.Sublist w.partials)
    (hlen : kept.length < limits.maxPartialsPerWriter)
    (hs : ∀ s ∈ w.samples, s.key ≠ p.key) (hp : ∀ p' ∈ w.partials, p'.key ≠ p.key) :
    Fit limits { w with partials := kept ++ [p] } where
  samples_le := h.samples_le
  partials_le := by
    rw [List.length_append]
    exact hlen
  samples_nodup := h.samples_nodup
  partials_nodup := by
    refine nodup_append_one (h.partials_nodup.sublist (hsub.map _)) fun hm => ?_
    obtain ⟨p', hp', he⟩ := List.mem_map.1 hm
    exact hp p' (hsub.subset hp') he
  apart := by
    intro s hs' p' hp'
    rcases List.mem_append.1 hp' with hp' | hp'
    · exact h.apart s hs' p' (hsub.subset hp')
    · rw [List.mem_singleton.1 hp']
      exact hs s hs'

/-- A fragment taken changes no key. -/
theorem keys_set {idx : ℕ} (entry : ReassemblyEntry) (hp : w.partials[idx]? = some p) :
    (w.partials.set idx { p with entry := entry }).map HeldPartial.key =
      w.partials.map HeldPartial.key := by
  obtain ⟨hi, rfl⟩ := List.getElem?_eq_some_iff.1 hp
  have hi' : idx < (w.partials.map HeldPartial.key).length := by rwa [List.length_map]
  have hkey : HeldPartial.key { w.partials[idx] with entry := entry } =
      (w.partials.map HeldPartial.key)[idx] := by
    rw [List.getElem_map]
    rfl
  rw [List.map_set, hkey, List.set_getElem_self]

theorem setPartial {idx : ℕ} {entry : ReassemblyEntry} (h : Fit limits w)
    (hp : w.partials[idx]? = some p) :
    Fit limits { w with partials := w.partials.set idx { p with entry := entry } } := by
  refine ⟨h.samples_le, ?_, h.samples_nodup, ?_, fun s hs q hq => ?_⟩
  · rw [List.length_set]
    exact h.partials_le
  · rw [keys_set entry hp]
    exact h.partials_nodup
  · have hq' : HeldPartial.key q ∈ w.partials.map HeldPartial.key := by
      rw [← keys_set entry hp]
      exact List.mem_map_of_mem hq
    obtain ⟨q', hm, he⟩ := List.mem_map.1 hq'
    rw [← he]
    exact h.apart s hs q' hm

/-- What is not taken out has another key. -/
theorem key_ne_of_mem_eraseIdx {idx : ℕ} (hn : (w.partials.map HeldPartial.key).Nodup)
    (hp : w.partials[idx]? = some p) : ∀ q ∈ w.partials.eraseIdx idx, p.key ≠ q.key := by
  intro q hq he
  obtain ⟨hi, rfl⟩ := List.getElem?_eq_some_iff.1 hp
  obtain ⟨j, hj, hne, rfl⟩ := List.mem_eraseIdx_iff_getElem.1 hq
  have hpair := List.pairwise_iff_getElem.1 (List.pairwise_map.1 hn)
  rcases lt_or_gt_of_ne hne with hlt | hlt
  · exact hpair j idx hj hi hlt he.symm
  · exact hpair idx j hi hj hlt he

end HeldWriter.Fit

namespace UnmatchedCache

/-! ### The cache between operations, and within one -/

/-- Within an operation on a writer: that writer may be held with nothing. -/
structure Filling (c : UnmatchedCache) (g : Guid) : Prop where
  fit : ∀ w ∈ c.writers, w.Fit c.limits
  writers_le : c.writers.length ≤ c.limits.maxWriters
  not_empty : ∀ w ∈ c.writers, w.guid ≠ g → w.isEmpty = false

structure Settled (c : UnmatchedCache) : Prop where
  fit : ∀ w ∈ c.writers, w.Fit c.limits
  writers_le : c.writers.length ≤ c.limits.maxWriters
  not_empty : ∀ w ∈ c.writers, w.isEmpty = false

variable {c c' : UnmatchedCache} {w : HeldWriter} {g writer : Guid} {target : EntityId}
  {s : HeldSample} {df : DataFragSubmessage}

theorem Settled.filling (h : c.Settled) (g : Guid) : c.Filling g :=
  ⟨h.fit, h.writers_le, fun w hw _ => h.not_empty w hw⟩

theorem settled_init (limits : Limits) : (init limits).Settled where
  fit := fun _ hw => nomatch hw
  writers_le := Nat.zero_le _
  not_empty := fun _ hw => nomatch hw

theorem Settled.removeWriters (h : c.Settled) (p : HeldWriter → Bool) :
    (c.removeWriters p).Settled where
  fit := fun w hw => h.fit w (List.mem_of_mem_filter hw)
  writers_le := (List.length_filter_le _ _).trans h.writers_le
  not_empty := fun w hw => h.not_empty w (List.mem_of_mem_filter hw)

/-- What is held of a writer with nothing is dropped at the end. -/
theorem Filling.dropIfEmptyLocked (h : c.Filling g) : (c.dropIfEmptyLocked g).Settled where
  fit := fun w hw => h.fit w (List.mem_of_mem_filter hw)
  writers_le := (List.length_filter_le _ _).trans h.writers_le
  not_empty := by
    intro w hw
    obtain ⟨hm, hp⟩ := List.mem_filter.1 hw
    by_cases hg : w.guid = g
    · simpa [hg] using hp
    · exact h.not_empty w hm hg

theorem Settled.expireLocked (h : c.Settled) (nowNs : ℤ) : (c.expireLocked nowNs).Settled where
  fit := by
    intro w hw
    obtain ⟨w₀, hw₀, rfl⟩ := List.mem_map.1 (List.mem_of_mem_filter hw)
    exact (h.fit w₀ hw₀).expire nowNs
  writers_le := by
    refine (List.length_filter_le _ _).trans ?_
    rw [List.length_map]
    exact h.writers_le
  not_empty := fun w hw => by simpa using (List.mem_filter.1 hw).2

/-- Nothing that has run out is left. -/
theorem expireLocked_unexpired {nowNs : ℤ} (hw : w ∈ (c.expireLocked nowNs).writers) :
    (∀ s ∈ w.samples, nowNs < s.expiresNs) ∧ ∀ p ∈ w.partials, nowNs < p.expiresNs := by
  obtain ⟨w₀, -, rfl⟩ := List.mem_map.1 (List.mem_of_mem_filter hw)
  exact ⟨fun s hs => of_decide_eq_true (List.mem_filter.1 hs).2,
    fun p hp => of_decide_eq_true (List.mem_filter.1 hp).2⟩

theorem Filling.store (h : c.Filling g) (hg : w.guid = g) (hw : w.Fit c.limits) :
    (c.store w).Filling g where
  fit := by
    intro w' hw'
    obtain ⟨w₀, hw₀, rfl⟩ := List.mem_map.1 hw'
    split
    · exact hw
    · exact h.fit w₀ hw₀
  writers_le := by
    rw [UnmatchedCache.store, List.length_map]
    exact h.writers_le
  not_empty := by
    intro w' hw' hne
    obtain ⟨w₀, hw₀, rfl⟩ := List.mem_map.1 hw'
    split at hne
    · exact absurd hg hne
    next hne' =>
      rw [if_neg hne']
      exact h.not_empty w₀ hw₀ hne

/-- An entry with something in it settles the cache. -/
theorem Filling.settle (h : c.Filling g) (hg : w.guid = g) (hw : w.Fit c.limits)
    (hne : w.isEmpty = false) : (c.store w).Settled where
  fit := (h.store hg hw).fit
  writers_le := (h.store hg hw).writers_le
  not_empty := by
    intro w' hw'
    by_cases hg' : w'.guid = g
    · obtain ⟨w₀, hw₀, rfl⟩ := List.mem_map.1 hw'
      split
      · exact hne
      next hne' =>
        rw [if_neg hne'] at hg'
        exact absurd (hg'.trans hg.symm) hne'
    · exact (h.store hg hw).not_empty w' hw' hg'

/-! ### The operations -/

theorem Settled.reserveLocked (h : c.Settled) (n : ℕ) (nowNs : ℤ) :
    (c.reserveLocked n nowNs).1.Settled := by
  unfold UnmatchedCache.reserveLocked
  split
  · exact h
  · exact h.expireLocked nowNs

/-- The entry of a writer, made if need be. -/
theorem Settled.writerLocked {nowNs : ℤ} {w? : Option HeldWriter} (h : c.Settled)
    (hw : c.writerLocked writer nowNs = (c', w?)) :
    c'.Filling writer ∧ (w? = none → c'.Settled) ∧ ∀ w ∈ w?, w ∈ c'.writers ∧ w.guid = writer ∧
      (c.getPtr writer = some w ∨ w = { guid := writer }) := by
  unfold UnmatchedCache.writerLocked at hw
  split at hw
  next w₀ hget =>
    cases hw
    refine ⟨h.filling writer, fun hn => (nomatch hn), fun w hm => ?_⟩
    cases hm
    refine ⟨List.mem_of_find?_eq_some hget, ?_, .inl hget⟩
    simpa using List.find?_some hget
  next hnone =>
    have hc : (if c.limits.maxWriters ≤ c.writers.length then c.expireLocked nowNs
        else c).Settled := by
      split
      · exact h.expireLocked nowNs
      · exact h
    dsimp only at hw
    generalize (if c.limits.maxWriters ≤ c.writers.length then c.expireLocked nowNs else c) = c₁
      at hc hw
    split at hw
    · cases hw
      exact ⟨hc.filling writer, fun _ => hc, fun w hm => nomatch hm⟩
    next hlt =>
      cases hw
      refine ⟨⟨fun w hm => ?_, ?_, fun w hm hne => ?_⟩, fun hn => (nomatch hn), fun w hm => ?_⟩
      · rcases List.mem_append.1 hm with hm | hm
        · exact hc.fit w hm
        · rw [List.mem_singleton.1 hm]
          exact .empty _ _
      · rw [List.length_append]
        exact not_le.1 hlt
      · rcases List.mem_append.1 hm with hm | hm
        · exact hc.not_empty w hm
        · rw [List.mem_singleton.1 hm] at hne
          exact absurd rfl hne
      · cases hm
        exact ⟨List.mem_append_right _ (List.mem_singleton.2 rfl), rfl, .inr rfl⟩

theorem Filling.appendSampleLocked (h : c.Filling g) (hg : w.guid = g) (hw : w.Fit c.limits)
    (hs : ∀ s' ∈ w.samples, s'.key ≠ s.key) (hp : ∀ p ∈ w.partials, s.key ≠ p.key)
    (ha : c.appendSampleLocked w s = some c') : c'.Settled := by
  have hne : ∀ samples, HeldWriter.isEmpty { w with samples := samples ++ [s] } = false := by
    intro samples
    simp [HeldWriter.isEmpty]
  unfold UnmatchedCache.appendSampleLocked at ha
  dsimp only at ha
  split at ha
  · split at ha
    · cases ha
    next evicted rest hrest =>
      cases ha
      have hlen := hw.samples_le
      rw [hrest] at hlen
      have hfit := hw.addSample (hrest ▸ List.sublist_cons_self evicted rest) hlen hs hp
      exact Filling.settle ⟨h.fit, h.writers_le, h.not_empty⟩ hg hfit (hne rest)
  next hlt =>
    cases ha
    have hfit := hw.addSample (List.Sublist.refl _) (not_le.1 hlt) hs hp
    exact Filling.settle ⟨h.fit, h.writers_le, h.not_empty⟩ hg hfit (hne w.samples)

theorem Filling.receiveFragLocked {idx : ℕ} (h : c.Filling g) (hg : w.guid = g)
    (hw : w.Fit c.limits) (hr : c.receiveFragLocked w idx df = some c') : c'.Settled := by
  unfold UnmatchedCache.receiveFragLocked at hr
  split at hr
  · cases hr
  next p hp =>
    have hmem := List.mem_of_getElem? hp
    simp only [Option.bind_eq_bind, Option.bind_eq_some_iff] at hr
    obtain ⟨entry, -, hr⟩ := hr
    split at hr
    · have hc : Filling { c with bytes := c.bytes - entry.dataSize } g :=
        ⟨h.fit, h.writers_le, h.not_empty⟩
      have hfit : HeldWriter.Fit c.limits { w with partials := w.partials.eraseIdx idx } :=
        hw.sublist (List.Sublist.refl _) (List.eraseIdx_sublist _ _)
      have hg' : HeldWriter.guid { w with partials := w.partials.eraseIdx idx } = g := hg
      refine hc.appendSampleLocked hg' hfit (fun s hs => ?_) (fun q hq => ?_) hr
      · exact hw.apart s hs p hmem
      · exact HeldWriter.Fit.key_ne_of_mem_eraseIdx hw.partials_nodup hp q hq
    · cases hr
      refine h.settle hg (hw.setPartial hp) ?_
      have hpos : w.partials ≠ [] := List.ne_nil_of_mem hmem
      simp [HeldWriter.isEmpty, hpos]

theorem Filling.startPartial {fresh : ℕ → UInt8} {ts : RtpsTimestamp} {expiresNs : ℤ}
    (h : c.Filling g) (hg : w.guid = g) (hw : w.Fit c.limits)
    (hs : ∀ s ∈ w.samples, s.key ≠ (df.writerSn, target))
    (hp : ∀ p ∈ w.partials, p.key ≠ (df.writerSn, target))
    (hstart : c.startPartial fresh w target df ts expiresNs = some c') : c'.Filling g := by
  unfold UnmatchedCache.startPartial at hstart
  simp only [Option.bind_eq_bind, Option.bind_eq_some_iff] at hstart
  obtain ⟨⟨c₁, kept⟩, hkept, e?, -, hstart⟩ := hstart
  have hlimits : c₁.limits = c.limits ∧ c₁.Filling g ∧ kept.Sublist w.partials ∧
      kept.length < c.limits.maxPartialsPerWriter := by
    unfold evictPartial at hkept
    split at hkept
    · split at hkept
      · cases hkept
      next evicted rest hrest =>
        cases hkept
        have hlen := hw.partials_le
        rw [hrest] at hlen
        exact ⟨rfl, ⟨h.fit, h.writers_le, h.not_empty⟩,
          hrest ▸ List.sublist_cons_self evicted _, hlen⟩
    next hlt =>
      cases hkept
      exact ⟨rfl, h, List.Sublist.refl _, not_le.1 hlt⟩
  obtain ⟨hlim, hc₁, hsub, hlen⟩ := hlimits
  cases e? with
  | none =>
    cases hstart
    refine hc₁.store hg ?_
    rw [hlim]
    exact hw.sublist (List.Sublist.refl _) hsub
  | some entry =>
    have hfit := hw.addPartial (p := ⟨df.writerSn, target, expiresNs, entry⟩) hsub hlen hs hp
    rw [← hlim] at hfit
    have hc₂ : Filling { c₁ with bytes := c₁.bytes + df.dataSize } g :=
      ⟨hc₁.fit, hc₁.writers_le, hc₁.not_empty⟩
    have hg' : HeldWriter.guid { w with partials :=
        kept ++ [⟨df.writerSn, target, expiresNs, entry⟩] } = g := hg
    exact (hc₂.receiveFragLocked hg' hfit hstart).filling g

/-! ### Where an entry comes from -/

theorem getPtr_of_mem (hn : (c.writers.map (·.guid)).Nodup) (hw : w ∈ c.writers) :
    c.getPtr w.guid = some w := by
  cases hf : c.getPtr w.guid with
  | none => exact absurd (beq_self_eq_true w.guid) (by simpa using List.find?_eq_none.1 hf w hw)
  | some w' =>
    have hg : w'.guid = w.guid := by simpa using List.find?_some hf
    exact congrArg some (List.inj_on_of_nodup_map hn (List.mem_of_find?_eq_some hf) hw hg)

/-- After room was made the writer holds nothing it did not hold before. -/
theorem getPtr_reserveLocked {n : ℕ} {nowNs : ℤ} (hn : (c.writers.map (·.guid)).Nodup)
    (hw : (c.reserveLocked n nowNs).1.getPtr writer = some w) :
    ∃ w₀, c.getPtr writer = some w₀ ∧ w.samples.Sublist w₀.samples ∧
      w.partials.Sublist w₀.partials := by
  unfold UnmatchedCache.reserveLocked at hw
  split at hw
  · exact ⟨w, hw, List.Sublist.refl _, List.Sublist.refl _⟩
  · have hg : w.guid = writer := by simpa using List.find?_some hw
    obtain ⟨w₀, hw₀, rfl⟩ := List.mem_map.1 (List.mem_of_mem_filter (List.mem_of_find?_eq_some hw))
    exact ⟨w₀, hg ▸ getPtr_of_mem hn hw₀, List.filter_sublist, List.filter_sublist⟩

theorem hasSample_iff {sn : ℤ} : w.hasSample sn target = true ↔ ∃ s ∈ w.samples,
    s.key = (sn, target) := by
  rw [HeldWriter.hasSample, List.any_eq_true]
  refine exists_congr fun s => and_congr_right fun _ => ?_
  rw [Bool.and_eq_true, beq_iff_eq, beq_iff_eq, HeldSample.key, Prod.mk.injEq]

theorem partialIdx_eq_none {sn : ℤ} : w.partialIdx sn target = none ↔ ∀ p ∈ w.partials,
    p.key ≠ (sn, target) := by
  rw [HeldWriter.partialIdx, List.findIdx?_eq_none_iff]
  refine forall₂_congr fun p _ => ?_
  rw [Bool.and_eq_false_iff, beq_eq_false_iff_ne, beq_eq_false_iff_ne, HeldPartial.key,
    ne_eq (p.sn, p.target), Prod.mk.injEq, not_and_or]

/-- `put` holds a sample whose fragments are held. -/
def RacesPartial (c : UnmatchedCache) (writer : Guid) (target : EntityId) (change : CacheChange)
    (nowNs : ℤ) : Prop :=
  change.data.length ≤ c.limits.maxBytes ∧
    (c.getPtr writer).any (·.hasSample change.sequenceNumber target) = false ∧
    (c.reserveLocked change.data.length nowNs).2 = true ∧
    ((c.reserveLocked change.data.length nowNs).1.getPtr writer).any
      (fun w => (w.partialIdx change.sequenceNumber target).isSome) = true

instance (c : UnmatchedCache) (writer : Guid) (target : EntityId) (change : CacheChange)
    (nowNs : ℤ) : Decidable (c.RacesPartial writer target change nowNs) := by
  unfold RacesPartial
  infer_instance

/-- What is not held whole is not held whole either once there is room. -/
theorem key_ne_of_reserveLocked {sn : ℤ} {n : ℕ} {nowNs : ℤ} (hn : (c.writers.map (·.guid)).Nodup)
    (hnone : ¬ (c.getPtr writer).any (·.hasSample sn target) = true)
    (hw : (c.reserveLocked n nowNs).1.getPtr writer = some w) :
    ∀ s ∈ w.samples, s.key ≠ (sn, target) := by
  intro s hs he
  obtain ⟨w₀, hw₀, hsub, -⟩ := getPtr_reserveLocked hn hw
  rw [hw₀, Option.any_some] at hnone
  exact hnone (hasSample_iff.2 ⟨s, hsub.subset hs, he⟩)

/-- A sample is held under its number and the reader it was sent to. -/
theorem key_held (change : CacheChange) (hasKeyHash : Bool) (target : EntityId) (expiresNs : ℤ) :
    HeldSample.key ⟨if hasKeyHash then change else { change with keyHash := Bytes.zeroes 16 },
      hasKeyHash, target, expiresNs⟩ = (change.sequenceNumber, target) := by
  cases hasKeyHash <;> rfl

theorem Settled.put {change : CacheChange} {hasKeyHash : Bool} {nowNs ttlNs : ℤ} (h : c.Settled)
    (hn : (c.writers.map (·.guid)).Nodup) (hraces : ¬ c.RacesPartial writer target change nowNs)
    (hp : c.put writer target change hasKeyHash nowNs ttlNs = some c') : c'.Settled := by
  unfold UnmatchedCache.put at hp
  split at hp
  · cases hp
    exact h
  next hlen =>
  split at hp
  · cases hp
    exact h
  next hnone =>
  have hr := h.reserveLocked change.data.length nowNs
  split at hp
  next c₁ heq =>
    rw [heq] at hr
    cases hp
    exact hr
  next c₁ heq =>
    rw [heq] at hr
    split at hp
    next c₂ heq' =>
      cases hp
      exact (hr.writerLocked heq').2.1 rfl
    next c₂ w heq' =>
      obtain ⟨hfill, -, hw⟩ := hr.writerLocked heq'
      obtain ⟨hmem, hg, hfrom⟩ := hw w rfl
      simp only [Option.bind_eq_bind, Option.bind_eq_some_iff] at hp
      obtain ⟨c₃, ha, hc⟩ := hp
      cases hc
      have hfit := hfill.fit w hmem
      refine ((hfill.appendSampleLocked hg hfit ?_ ?_ ha).filling writer).dropIfEmptyLocked
      · rw [key_held]
        rcases hfrom with hfrom | rfl
        · exact key_ne_of_reserveLocked hn hnone (by rw [heq]; exact hfrom)
        · exact fun s hs => nomatch hs
      · rw [key_held]
        rcases hfrom with hfrom | rfl
        · -- the fragments held of the sample, if any, make it `RacesPartial`
          have hidx : w.partialIdx change.sequenceNumber target = none := by
            by_contra hsome
            refine hraces ⟨not_lt.1 hlen, by simpa using hnone, by rw [heq], ?_⟩
            rw [heq]
            show (c₁.getPtr writer).any _ = true
            rw [show c₁.getPtr writer = some w from hfrom, Option.any_some]
            exact Option.isSome_iff_ne_none.2 hsome
          exact fun p hp => (partialIdx_eq_none.1 hidx p hp).symm
        · exact fun p hp => nomatch hp

/-- A sample put is held next to what was held in parts. -/
theorem held_of_appendSampleLocked (writer : Guid) (hw : w ∈ c.writers)
    (ha : c.appendSampleLocked w s = some c') :
    ∃ w' ∈ (c'.dropIfEmptyLocked writer).writers, s ∈ w'.samples ∧ w'.partials = w.partials := by
  have hkeep : ∀ (bytes : ℤ) (samples : List HeldSample),
      ∃ w' ∈ ((UnmatchedCache.store { c with bytes := bytes }
        { w with samples := samples ++ [s] }).dropIfEmptyLocked writer).writers,
        s ∈ w'.samples ∧ w'.partials = w.partials := by
    intro bytes samples
    refine ⟨{ w with samples := samples ++ [s] }, List.mem_filter.2 ⟨?_, ?_⟩,
      List.mem_append_right _ (List.mem_singleton.2 rfl), rfl⟩
    · exact List.mem_map.2 ⟨w, hw, if_pos rfl⟩
    · simp [HeldWriter.isEmpty]
  unfold UnmatchedCache.appendSampleLocked at ha
  dsimp only at ha
  split at ha
  · split at ha
    · cases ha
    next evicted rest hrest =>
      cases ha
      exact hkeep _ rest
  · cases ha
    exact hkeep _ w.samples

/-- Where the sample put is held in parts, it is then held twice. -/
theorem not_settled_of_racesPartial {change : CacheChange} {hasKeyHash : Bool} {nowNs ttlNs : ℤ}
    (hraces : c.RacesPartial writer target change nowNs)
    (hp : c.put writer target change hasKeyHash nowNs ttlNs = some c') : ¬ c'.Settled := by
  obtain ⟨hlen, hnone, hroom, hpart⟩ := hraces
  unfold UnmatchedCache.put at hp
  rw [if_neg (not_lt.2 hlen), if_neg (by simpa using hnone)] at hp
  split at hp
  next c₁ heq =>
    rw [heq] at hroom
    cases hroom
  next c₁ heq =>
    rw [heq] at hpart
    cases hget : c₁.getPtr writer with
    | none =>
      rw [hget] at hpart
      cases hpart
    | some w =>
      rw [hget] at hpart
      have hwriter : c₁.writerLocked writer nowNs = (c₁, some w) := by
        rw [UnmatchedCache.writerLocked, hget]
      rw [hwriter] at hp
      simp only [Option.bind_eq_bind, Option.bind_eq_some_iff] at hp
      obtain ⟨c₂, ha, hc⟩ := hp
      cases hc
      intro hset
      obtain ⟨w', hw', hs, hpartials⟩ :=
        held_of_appendSampleLocked writer (List.mem_of_find?_eq_some hget) ha
      have hnone' : w.partialIdx change.sequenceNumber target = none := by
        refine partialIdx_eq_none.2 fun p hp he => ?_
        refine (hset.fit w' hw').apart _ hs p (hpartials ▸ hp) ?_
        rw [key_held, he]
      rw [Option.any_some, hnone'] at hpart
      cases hpart

/-- What is not held in parts is not held in parts either once there is room. -/
theorem partial_key_ne_of_reserveLocked {sn : ℤ} {n : ℕ} {nowNs : ℤ}
    (hn : (c.writers.map (·.guid)).Nodup)
    (hnone : (c.getPtr writer).bind (fun w => (w.partialIdx sn target).map (w, ·)) = none)
    (hw : (c.reserveLocked n nowNs).1.getPtr writer = some w) :
    ∀ p ∈ w.partials, p.key ≠ (sn, target) := by
  obtain ⟨w₀, hw₀, -, hsub⟩ := getPtr_reserveLocked hn hw
  rw [hw₀, Option.bind_some, Option.map_eq_none_iff] at hnone
  exact fun p hp => partialIdx_eq_none.1 hnone p (hsub.subset hp)

theorem Settled.putFrag {fresh : ℕ → UInt8} {ts : RtpsTimestamp} {nowNs ttlNs : ℤ}
    (h : c.Settled) (hn : (c.writers.map (·.guid)).Nodup)
    (hp : c.putFrag fresh writer target df ts nowNs ttlNs = some c') : c'.Settled := by
  unfold UnmatchedCache.putFrag at hp
  split at hp
  · cases hp
    exact h
  next hnone =>
  split at hp
  next w idx hidx =>
    obtain ⟨w', hw', hidx⟩ := Option.bind_eq_some_iff.1 hidx
    obtain ⟨i, -, hi⟩ := Option.map_eq_some_iff.1 hidx
    cases hi
    exact (h.filling w.guid).receiveFragLocked rfl (h.fit w (List.mem_of_find?_eq_some hw')) hp
  next hpart =>
    split at hp
    · cases hp
      exact h
    have hr := h.reserveLocked df.dataSize nowNs
    split at hp
    next c₁ heq =>
      rw [heq] at hr
      cases hp
      exact hr
    next c₁ heq =>
      rw [heq] at hr
      split at hp
      next c₂ heq' =>
        cases hp
        exact (hr.writerLocked heq').2.1 rfl
      next c₂ w heq' =>
        obtain ⟨hfill, -, hw⟩ := hr.writerLocked heq'
        obtain ⟨hmem, hg, hfrom⟩ := hw w rfl
        simp only [Option.bind_eq_bind, Option.bind_eq_some_iff] at hp
        obtain ⟨c₃, hs, hc⟩ := hp
        cases hc
        refine (hfill.startPartial hg (hfill.fit w hmem) ?_ ?_ hs).dropIfEmptyLocked
        · rcases hfrom with hfrom | rfl
          · exact key_ne_of_reserveLocked hn hnone (by rw [heq]; exact hfrom)
          · exact fun s hs => nomatch hs
        · rcases hfrom with hfrom | rfl
          · exact partial_key_ne_of_reserveLocked hn hpart (by rw [heq]; exact hfrom)
          · exact fun p hp => nomatch hp

end UnmatchedCache

/-! ### Runs of the cache -/

/-- What is asked of the cache. -/
inductive CacheOp where
  | put (writer : Guid) (target : EntityId) (change : CacheChange) (hasKeyHash : Bool)
      (nowNs ttlNs : ℤ)
  | putFrag (fresh : ℕ → UInt8) (writer : Guid) (target : EntityId) (df : DataFragSubmessage)
      (sourceTimestamp : RtpsTimestamp) (nowNs ttlNs : ℤ)
  | dropWriter (writer : Guid)
  | dropPrefix (sender : GuidPrefix)
  | expire (nowNs : ℤ)
  | collect (writer : Guid) (reader : EntityId)

namespace UnmatchedCache

variable {c c' : UnmatchedCache}

/-- The cache after an operation.  Collecting leaves it as it is. -/
def step (c : UnmatchedCache) : CacheOp → Option UnmatchedCache
  | .put writer target change hasKeyHash nowNs ttlNs =>
      c.put writer target change hasKeyHash nowNs ttlNs
  | .putFrag fresh writer target df sourceTimestamp nowNs ttlNs =>
      c.putFrag fresh writer target df sourceTimestamp nowNs ttlNs
  | .dropWriter writer => some (c.dropWriter writer)
  | .dropPrefix sender => some (c.dropPrefix sender)
  | .expire nowNs => some (c.expireLocked nowNs)
  | .collect _ _ => some c

/-- No sample is put whose fragments are held. -/
def Unraced (c : UnmatchedCache) : CacheOp → Prop
  | .put writer target change _ nowNs _ => ¬ c.RacesPartial writer target change nowNs
  | _ => True

instance (c : UnmatchedCache) : (op : CacheOp) → Decidable (c.Unraced op)
  | .put .. => inferInstanceAs (Decidable (¬ _))
  | .putFrag .. => .isTrue trivial
  | .dropWriter _ => .isTrue trivial
  | .dropPrefix _ => .isTrue trivial
  | .expire _ => .isTrue trivial
  | .collect .. => .isTrue trivial

theorem Accounted.step {op : CacheOp} (h : c.Accounted) (hs : c.step op = some c') :
    c'.Accounted ∧ c'.limits = c.limits := by
  cases op with
  | put writer target change hasKeyHash nowNs ttlNs => exact put_spec h hs
  | putFrag fresh writer target df ts nowNs ttlNs => exact putFrag_spec h hs
  | dropWriter writer =>
    cases hs
    exact ⟨accounted_removeWriters h _, rfl⟩
  | dropPrefix sender =>
    cases hs
    exact ⟨accounted_removeWriters h _, rfl⟩
  | expire nowNs =>
    cases hs
    exact ⟨accounted_expireLocked h nowNs, rfl⟩
  | collect writer reader =>
    cases hs
    exact ⟨h, rfl⟩

theorem Settled.step {op : CacheOp} (h : c.Settled) (hn : (c.writers.map (·.guid)).Nodup)
    (hok : c.Unraced op) (hs : c.step op = some c') : c'.Settled := by
  cases op with
  | put writer target change hasKeyHash nowNs ttlNs => exact h.put hn hok hs
  | putFrag fresh writer target df ts nowNs ttlNs => exact h.putFrag hn hs
  | dropWriter writer =>
    cases hs
    exact h.removeWriters _
  | dropPrefix sender =>
    cases hs
    exact h.removeWriters _
  | expire nowNs =>
    cases hs
    exact h.expireLocked nowNs
  | collect writer reader =>
    cases hs
    exact h

/-- What is counted is what is held, through every run. -/
theorem accounted_of_run {limits : Limits} {ok : UnmatchedCache → CacheOp → Prop}
    {ops : List CacheOp} (hrun : Run step ok (init limits) ops c) :
    c.Accounted ∧ c.limits = limits := by
  refine hrun.inv (I := fun c => c.Accounted ∧ c.limits = limits) ⟨accounted_init limits, rfl⟩
    fun c₁ op c₂ h _ hs => ?_
  obtain ⟨hacc, hlim⟩ := h.1.step hs
  exact ⟨hacc, hlim.trans h.2⟩

/-- A run in which no sample is put whose fragments are held keeps to the limits, and holds each
sample once; and it is such a step, and no other, that ends this. -/
theorem held_within_limits (limits : Limits) (ops : List CacheOp) (c : UnmatchedCache)
    (hrun : Run step Unraced (init limits) ops c) :
    (c.limits = limits ∧ c.Accounted ∧ c.Settled ∧
      ∀ nowNs, ∀ c', c.step (.expire nowNs) = some c' → ∀ w ∈ c'.writers,
        (∀ s ∈ w.samples, nowNs < s.expiresNs) ∧ ∀ p ∈ w.partials, nowNs < p.expiresNs) ∧
      ∀ op c', c.step op = some c' → (c'.Settled ↔ c.Unraced op) := by
  obtain ⟨hacc, hlim⟩ := accounted_of_run hrun
  have hset : c.Settled := by
    refine (hrun.inv (I := fun c => c.Accounted ∧ c.Settled)
      ⟨accounted_init limits, settled_init limits⟩ fun c₁ op c₂ h hok hs => ?_).2
    exact ⟨(h.1.step hs).1, h.2.step h.1.nodup hok hs⟩
  refine ⟨⟨hlim, hacc, hset, fun nowNs c' hs w hw => ?_⟩,
    fun op c' hs => ⟨fun h => ?_, fun hok => ?_⟩⟩
  · cases hs
    exact expireLocked_unexpired hw
  · cases op with
    | put writer target change hasKeyHash nowNs ttlNs =>
      exact fun hraces => not_settled_of_racesPartial hraces hs h
    | putFrag | dropWriter | dropPrefix | expire | collect => trivial
  · exact hset.step hacc.nodup hok hs

/-- Fragment 1 of 2 of sample 5, and then sample 5 whole. -/
def fragmentThenWhole : List CacheOp :=
  let writer : Guid := ⟨GuidPrefix.unknown, EntityId.unknown⟩
  let fragment : DataFragSubmessage :=
    ⟨0, EntityId.unknown, EntityId.unknown, 5, 1, 1, 1, 2, none, [1]⟩
  let whole : CacheChange :=
    { kind := .alive, writerGuid := writer, sequenceNumber := 5, sourceTimestamp := ⟨0, 0⟩,
      instanceHandle := INSTANCE_HANDLE_NIL, keyHash := Bytes.zeroes 16, data := [1, 2] }
  [.putFrag (fun _ => 0) writer EntityId.unknown fragment ⟨0, 0⟩ 0 10,
    .put writer EntityId.unknown whole true 0 10]

/-- The fragment alone: nothing has been held twice yet, and the sample put next would be. -/
theorem held_within_limits_fragment : ∃ c,
    Run step Unraced (init ⟨8, 1, 1, 1⟩) (fragmentThenWhole.take 1) c ∧ c.bytes = 2 ∧
      ((c.limits = ⟨8, 1, 1, 1⟩ ∧ c.Accounted ∧ c.Settled ∧
        ∀ nowNs, ∀ c', c.step (.expire nowNs) = some c' → ∀ w ∈ c'.writers,
          (∀ s ∈ w.samples, nowNs < s.expiresNs) ∧ ∀ p ∈ w.partials, nowNs < p.expiresNs) ∧
      ∀ op c', c.step op = some c' → (c'.Settled ↔ c.Unraced op)) := by
  obtain ⟨c, hrun, hbytes⟩ := exists_run_of_exec step Unraced (init ⟨8, 1, 1, 1⟩)
    (fragmentThenWhole.take 1) (show ∃ c, _ = some c ∧ c.bytes = 2 from ⟨_, rfl, rfl⟩)
  exact ⟨c, hrun, hbytes, held_within_limits ⟨8, 1, 1, 1⟩ _ c hrun⟩

/-- Sample 5 is held whole and in parts. -/
theorem held_twice : ∃ c,
    Run step (fun _ _ => True) (init ⟨8, 1, 1, 1⟩) fragmentThenWhole c ∧
      ∃ w ∈ c.writers, ∃ s ∈ w.samples, ∃ p ∈ w.partials, s.key = p.key :=
  exists_run_of_exec step (fun _ _ => True) (init ⟨8, 1, 1, 1⟩) fragmentThenWhole
    ⟨_, rfl, _, List.mem_cons_self, _, List.mem_cons_self, _, List.mem_cons_self, by decide⟩

end UnmatchedCache

end Zzdds.Rtps
