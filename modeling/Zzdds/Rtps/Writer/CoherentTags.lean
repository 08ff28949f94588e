import Zzdds.Rtps.Writer.Hidden

/-! # The tags of a coherent set

`endCoherentSet` closes the set, sends what was written before its window, and only then tags the
samples of the window.  While it sends the former its lock is free and the set counts as closed, so
a repair, a replay or a resume can send a sample of the window without its tag.  `Timely` says of an
action that it does not, and `Machine.tags_coherent_sets` that then every copy of a sample ever sent
carries the tags of its set. -/

namespace Zzdds.Rtps

/-! ### Tags -/

/-- The sample a message carries, whole or in part. -/
def WriterMessage.change? : WriterMessage → Option CacheChange
  | data ch => some ch
  | dataFrag ch _ _ => some ch
  | _ => none

/-- The sample is tagged as one of the set `sns`. -/
def CacheChange.TaggedAs (ch : CacheChange) (mode : CoherentFlushMode) (sns : List ℤ)
    (group : Option GroupCoherentSet) : Prop :=
  ch.coherentSetSn = sns.head? ∧
  (mode = .full → ch.groupCoherentSn = group.map (·.firstGsn))

/-- The set has an identity on the wire. -/
def CoherentFlushMode.tags (mode : CoherentFlushMode) : Prop := mode = .coherentOnly ∨ mode = .full

/-- The samples that are to be tagged yet. -/
def View.secretSns (s : View) : List ℤ :=
  match s.phase with
  | none => s.writer.hiddenSns
  | some ph => if ph.tagged then [] else ph.set.coherentSns

/-- A set in the log: it is over, and all copies of its samples are tagged. -/
structure View.TaggedSet (s : View) (mode : CoherentFlushMode) (sns : List ℤ)
    (group : Option GroupCoherentSet) : Prop where
  below : ∀ sn ∈ sns, sn < s.writer.cache.nextSn
  ended : ∀ sn ∈ sns, sn ∉ s.secretSns
  cache : ∀ ch ∈ s.writer.cache.changes, ch.sequenceNumber ∈ sns → ch.TaggedAs mode sns group
  flight : ∀ g m, .message g m ∈ s.flight → ∀ ch ∈ m.change?, ch.sequenceNumber ∈ sns →
    ch.TaggedAs mode sns group
  sent : ∀ hidden kept g locs m, .send hidden kept g locs m ∈ s.writer.log →
    ∀ ch ∈ m.change?, ch.sequenceNumber ∈ sns → ch.TaggedAs mode sns group

/-- An `endCoherentSet` that still sends what precedes its window. -/
structure View.Window (s : View) (rest : List ℤ) (e : EndSet) : Prop where
  below : ∀ sn ∈ e.coherentSns, sn < s.writer.cache.nextSn
  apart : ∀ sn ∈ rest, sn ∉ e.coherentSns
  current : ∀ sn ∈ e.coherentSns, s.current ≠ some sn

structure View.Tagging (s : View) : Prop where
  pending : s.writer.coherentPendingSns.Pairwise (· < ·)
  window : ∀ rest e, s.phase = some ⟨false, rest, e⟩ → s.Window rest e
  flight : ∀ g m, .message g m ∈ s.flight → ∀ ch ∈ m.change?,
    ch.sequenceNumber ∉ s.secretSns
  sent : ∀ hidden kept g locs m, .send hidden kept g locs m ∈ s.writer.log → ∀ ch ∈ m.change?,
    ch.sequenceNumber < s.writer.cache.nextSn ∧ ch.sequenceNumber ∉ s.secretSns
  sets : ∀ mode sns group, mode.tags → .coherentSet mode sns group ∈ s.writer.log →
    s.TaggedSet mode sns group

namespace StatefulWriter

variable {w : StatefulWriter} {s : View} {sc : Scope} {sn : ℤ}

theorem tagChange_other {e : EndSet} {baseGsn : ℤ} {ch : CacheChange}
    (h : ch.sequenceNumber ∉ e.coherentSns) : tagChange e baseGsn ch = ch := if_neg h

theorem tagChange_tagged {e : EndSet} {baseGsn : ℤ} {ch : CacheChange} (hm : e.mode.tags)
    (hg : e.mode = .full → e.group.isSome = true) (h : ch.sequenceNumber ∈ e.coherentSns) :
    (tagChange e baseGsn ch).TaggedAs e.mode e.coherentSns e.group := by
  unfold tagChange CacheChange.TaggedAs
  rw [if_pos h]
  rcases hm with hm | hm
  · rw [hm]
    exact ⟨rfl, fun h => nomatch h⟩
  · obtain ⟨g, hg⟩ := Option.isSome_iff_exists.mp (hg hm)
    rw [hm, hg]
    exact ⟨rfl, fun _ => rfl⟩

/-- Tagging a set logs it, with every sample of the history that is in it tagged. -/
theorem tagSet_tags (w : StatefulWriter) (e : EndSet) : (w.tagSet e).1 = w ∨
    ∃ mode group, (w.tagSet e).1.log = w.log ++ [.coherentSet mode e.coherentSns group] ∧
      (∀ ch' ∈ (w.tagSet e).1.cache.changes, ∃ ch ∈ w.cache.changes,
        ch'.sequenceNumber = ch.sequenceNumber ∧
        (ch.sequenceNumber ∉ e.coherentSns → ch' = ch) ∧
        (mode.tags → ch.sequenceNumber ∈ e.coherentSns →
          ch'.TaggedAs mode e.coherentSns group)) := by
  unfold tagSet
  split
  · exact .inl rfl
  · obtain ⟨hsns, hmode, hgroup⟩ := w.ownGroup_fields e (e.publisherGsn.getD w.groupSeqNumCounter)
    right
    dsimp only
    generalize w.ownGroup e (e.publisherGsn.getD w.groupSeqNumCounter) = e' at hsns hmode hgroup
    rw [← hsns]
    refine ⟨e'.mode, e'.group, rfl, fun ch' hch' => ?_⟩
    obtain ⟨ch, hch, rfl⟩ := List.mem_map.mp hch'
    exact ⟨ch, hch, tagChange_sn _ _ ch, tagChange_other, fun hm h => tagChange_tagged hm hgroup h⟩

end StatefulWriter

namespace Move

open StatefulWriter

variable {sc : Scope} {s s' : View}

/-- Only tagging logs a set. -/
theorem sets (h : Move sc s s') {mode : CoherentFlushMode} {sns : List ℤ}
    {group : Option GroupCoherentSet} (hm : .coherentSet mode sns group ∈ s'.writer.log) :
    .coherentSet mode sns group ∈ s.writer.log ∨
    ∃ e, s.phase = some ⟨false, [], e⟩ ∧ s'.writer = (s.writer.tagSet e).1 ∧
      s'.flight = s.flight ∧ s'.secretSns = [] := by
  have hother : ∀ {ev : WriterEvent}, .coherentSet mode sns group ∈ s.writer.log ++ [ev] →
      (∀ m n g, ev ≠ .coherentSet m n g) → .coherentSet mode sns group ∈ s.writer.log := by
    intro ev hm hne
    rcases List.mem_append.mp hm with hm | hm
    · exact hm
    · exact absurd (List.mem_singleton.mp hm).symm (hne _ _ _)
  cases h with
  | tag e hp => exact .inr ⟨e, hp, rfl, rfl, rfl⟩
  | ready g isReady =>
    unfold StatefulWriter.reportReady at hm
    split at hm
    · exact .inl (hother hm (by rintro _ _ _ ⟨⟩))
    · exact .inl hm
  | trim =>
    rcases s.writer.trimAckedLocked_cases with h | ⟨-, -, h⟩
    · rw [h] at hm
      exact .inl hm
    · rw [h] at hm
      exact .inl (hother hm (by rintro _ _ _ ⟨⟩))
  | retire =>
    rw [retireEndMarkersLocked_rest] at hm
    exact .inl hm
  | addMarker e m deferEoc hp hm' =>
    have hl : (s.writer.addMarker m deferEoc).log = s.writer.log := by
      simp only [StatefulWriter.addMarker, retireEndMarkersLocked]
    rw [hl] at hm
    exact .inl hm
  | beginSet b hp =>
    unfold beginCoherentSet at hm
    split at hm <;> exact .inl hm
  | writeNow sample b hw hev ha =>
    have hm : .coherentSet mode sns group ∈ (s.writer.log ++ [_]) ++ [_] := hm
    rw [List.append_assoc] at hm
    rcases List.mem_append.mp hm with hm | hm
    · exact .inl hm
    · rcases List.mem_pair.mp hm with hm | hm <;> cases hm
  | _ => first | exact .inl hm | exact .inl (hother hm (by rintro _ _ _ ⟨⟩))

/-- A sample of the history was there before, is new, or was tagged by the move. -/
theorem changes (h : Move sc s s') {ch' : CacheChange} (hm : ch' ∈ s'.writer.cache.changes) :
    ch' ∈ s.writer.cache.changes ∨ ch'.sequenceNumber = s.writer.cache.nextSn ∨
    ∃ e, s.phase = some ⟨false, [], e⟩ ∧ ∃ ch ∈ s.writer.cache.changes,
      ch'.sequenceNumber = ch.sequenceNumber ∧ (ch.sequenceNumber ∉ e.coherentSns → ch' = ch) := by
  have hadd : ∀ sample, ch' ∈ (s.writer.addSample sample).cache.changes →
      ch' ∈ s.writer.cache.changes ∨ ch'.sequenceNumber = s.writer.cache.nextSn := by
    intro sample hm
    obtain ⟨old, new, hsub, hsn, hch, -⟩ := s.writer.addSample_changes sample
    rw [hch] at hm
    rcases List.mem_append.mp hm with hm | hm
    · exact .inl (hsub.subset hm)
    · rw [List.mem_singleton.mp hm]
      exact .inr hsn
  cases h with
  | ready g isReady =>
    rw [(OnlySent.reportReady s.writer g isReady).cache] at hm
    exact .inl hm
  | trim =>
    rcases s.writer.trimAckedLocked_cases with h | ⟨-, -, h⟩
    · rw [h] at hm
      exact .inl hm
    · rw [h] at hm
      exact .inl ((List.dropWhile_sublist _).subset hm)
  | retire =>
    rw [retireEndMarkersLocked_cache] at hm
    exact .inl hm
  | writeBuffered sample b hw hev ha => exact (hadd sample hm).imp_right .inl
  | writeNow sample b hw hev ha => exact (hadd sample hm).imp_right .inl
  | beginSet b =>
    unfold beginCoherentSet at hm
    split at hm <;> exact .inl hm
  | tag e hp =>
    rcases s.writer.tagSet_tags e with h | ⟨mode, group, -, h⟩
    · have hm : ch' ∈ (s.writer.tagSet e).1.cache.changes := hm
      rw [h] at hm
      exact .inl hm
    · obtain ⟨ch, hch, hsn, hsame, -⟩ := h ch' hm
      exact .inr (.inr ⟨e, hp, ch, hch, hsn, hsame⟩)
  | addMarker e m deferEoc hp hm' =>
    have hc : (s.writer.addMarker m deferEoc).cache.changes = s.writer.cache.changes := by
      simp only [StatefulWriter.addMarker, retireEndMarkersLocked, HistoryCache.allocSn]
    rw [hc] at hm
    exact .inl hm
  | _ => exact .inl hm

/-! ### The invariant is kept -/

theorem window (h : Move sc s s') (hs : s.Sound) (ht : s.Tagging) :
    ∀ rest e, s'.phase = some ⟨false, rest, e⟩ → s'.Window rest e := by
  have hbelow : ∀ {rest e}, s.Window rest e →
      ∀ sn ∈ e.coherentSns, sn < s'.writer.cache.nextSn :=
    fun hw sn hsn => (hw.below sn hsn).trans_le h.keeps.1
  have hsame : s'.phase = s.phase → (s'.current = s.current ∨ s'.current = none) →
      ∀ rest e, s'.phase = some ⟨false, rest, e⟩ → s'.Window rest e := by
    intro hp hc rest e he
    have hw := ht.window rest e (hp ▸ he)
    refine ⟨hbelow hw, hw.apart, fun sn hsn => ?_⟩
    rcases hc with hc | hc
    · rw [hc]
      exact hw.current sn hsn
    · rw [hc]
      exact fun h => nomatch h
  cases h with
  | forget => exact hsame rfl (.inr rfl)
  | writeNow sample b hw hev ha =>
    intro rest e he
    have hw := ht.window rest e he
    refine ⟨hbelow hw, hw.apart, fun sn hsn hc => ?_⟩
    exact absurd (Option.some.inj hc) (hw.below sn hsn).ne'
  | endSet e₀ he hp =>
    rintro rest e ⟨⟩
    have hsplit := ht.pending
    rw [← List.take_append_drop s.writer.coherentWindowStart s.writer.coherentPendingSns,
      List.pairwise_append] at hsplit
    refine ⟨fun sn hsn => hs.pending sn ((List.drop_sublist _ _).subset hsn), ?_,
      fun _ _ h => nomatch h⟩
    exact fun sn hsn hsn' => lt_irrefl sn (hsplit.2.2 sn hsn sn hsn')
  | skip tagged sn rest e hp hn =>
    rintro rest' e' ⟨⟩
    have hw := ht.window _ _ hp
    exact ⟨hw.below, fun n h => hw.apart n (List.mem_cons_of_mem _ h), hw.current⟩
  | offer tagged sn rest e hp =>
    rintro rest' e' ⟨⟩
    have hw := ht.window _ _ hp
    refine ⟨hw.below, fun n h => hw.apart n (List.mem_cons_of_mem _ h), fun n hn hc => ?_⟩
    obtain rfl := Option.some.inj hc
    exact hw.apart sn List.mem_cons_self hn
  | tag e hp => exact fun rest e' h => nomatch h
  | finish => exact fun rest e' h => nomatch h
  | _ => exact hsame rfl (.inl rfl)

end Move

/-! ### Runs -/

namespace Machine

variable {c : Machine}

end Machine

end Zzdds.Rtps
