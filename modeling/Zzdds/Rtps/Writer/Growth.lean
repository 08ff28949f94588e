import Zzdds.Rtps.Writer.Sound

/-! # The history grows at its end

No action brings back a sample that has left the history, or changes the data of one that is in
it: what an action adds takes a new number. -/

namespace Zzdds.Rtps

open StatefulWriter

theorem StatefulWriter.trimAckedLocked_changes (w : StatefulWriter) :
    w.trimAckedLocked.cache.changes.Sublist w.cache.changes := by
  rcases w.trimAckedLocked_cases with h | ⟨-, -, h⟩
  · rw [h]
  · rw [h]
    exact List.dropWhile_sublist _

theorem StatefulWriter.tagChange_data (e : EndSet) (baseGsn : ℤ) (ch : CacheChange) :
    (tagChange e baseGsn ch).data = ch.data := by
  unfold tagChange
  dsimp only
  split_ifs <;> first | rfl | (cases e.group <;> rfl)

/-- The history grows only by new samples. -/
structure StatefulWriter.GrowsTo (w w' : StatefulWriter) : Prop where
  nextSn : w.cache.nextSn ≤ w'.cache.nextSn
  changes : ∀ ch ∈ w'.cache.changes, (∃ ch₀ ∈ w.cache.changes,
    ch₀.sequenceNumber = ch.sequenceNumber ∧ ch₀.data = ch.data) ∨
      w.cache.nextSn ≤ ch.sequenceNumber

namespace StatefulWriter.GrowsTo

variable {w w' w'' : StatefulWriter}

theorem of_sublist (hn : w.cache.nextSn ≤ w'.cache.nextSn)
    (hc : w'.cache.changes.Sublist w.cache.changes) : w.GrowsTo w' :=
  ⟨hn, fun ch hch => .inl ⟨ch, hc.subset hch, rfl, rfl⟩⟩

theorem of_cache (h : w'.cache = w.cache) : w.GrowsTo w' :=
  of_sublist (by rw [h]) (by rw [h])

theorem trans (h : w.GrowsTo w') (h' : w'.GrowsTo w'') : w.GrowsTo w'' where
  nextSn := h.nextSn.trans h'.nextSn
  changes := by
    intro ch hch
    rcases h'.changes ch hch with ⟨ch₁, hch₁, hsn, hd⟩ | hle
    · rcases h.changes ch₁ hch₁ with ⟨ch₀, hch₀, hsn', hd'⟩ | hle
      · exact .inl ⟨ch₀, hch₀, hsn'.trans hsn, hd'.trans hd⟩
      · exact .inr (hsn ▸ hle)
    · exact .inr (h.nextSn.trans hle)

theorem addSample (w : StatefulWriter) (sample : Sample) : w.GrowsTo (w.addSample sample) := by
  obtain ⟨old, new, hsub, hnew, hch, hnext⟩ := w.addSample_changes sample
  refine ⟨by rw [hnext]; exact (lt_add_one _).le, fun ch hmem => ?_⟩
  rw [hch] at hmem
  rcases List.mem_append.mp hmem with hmem | hmem
  · exact .inl ⟨ch, hsub.subset hmem, rfl, rfl⟩
  · rw [List.mem_singleton.mp hmem, hnew]
    exact .inr le_rfl

theorem tagSet (w : StatefulWriter) (e : EndSet) : w.GrowsTo (w.tagSet e).1 := by
  unfold StatefulWriter.tagSet
  split
  · exact of_cache rfl
  · refine ⟨le_rfl, fun ch hmem => .inl ?_⟩
    obtain ⟨ch₀, hch₀, rfl⟩ := List.mem_map.mp hmem
    exact ⟨ch₀, hch₀, (tagChange_sn _ _ _).symm, (tagChange_data _ _ _).symm⟩

/-- No sample comes into a range that was passed. -/
theorem cached (h : w.GrowsTo w') {first last : ℤ} (hl : last < w.cache.nextSn)
    (hc : ∃ ch ∈ w'.cache.changes, first ≤ ch.sequenceNumber ∧ ch.sequenceNumber ≤ last) :
    ∃ ch ∈ w.cache.changes, first ≤ ch.sequenceNumber ∧ ch.sequenceNumber ≤ last := by
  obtain ⟨ch, hch, hf, hle⟩ := hc
  rcases h.changes ch hch with ⟨ch₀, hch₀, hsn, -⟩ | hn
  · exact ⟨ch₀, hch₀, by rwa [hsn], by rwa [hsn]⟩
  · exact absurd (hl.trans_le hn) (not_lt.mpr hle)

end StatefulWriter.GrowsTo

theorem Move.grows {sc : Scope} {s s' : View} (h : Move sc s s') : s.writer.GrowsTo s'.writer := by
  cases h with
  | ready g isReady => exact .of_cache (OnlySent.reportReady s.writer g isReady).cache
  | trim =>
    refine .of_sublist ?_ s.writer.trimAckedLocked_changes
    rcases s.writer.trimAckedLocked_cases with h | ⟨-, -, h⟩ <;> rw [h]
    exact le_rfl
  | retire => exact .of_cache retireEndMarkersLocked_cache
  | writeBuffered sample b hw hev ha =>
    exact (GrowsTo.addSample s.writer sample).trans (.of_cache rfl)
  | writeNow sample b hw hev ha =>
    exact (GrowsTo.addSample s.writer sample).trans (.of_cache rfl)
  | beginSet b =>
    unfold beginCoherentSet
    split <;> exact .of_cache rfl
  | tag e hp => exact .tagSet s.writer e
  | addMarker e m deferEoc hp hm =>
    refine .of_sublist ?_ ?_
    · show _ ≤ (s.writer.addMarker m deferEoc).cache.nextSn
      rw [(addMarker_fields m deferEoc).2.2]
      exact (lt_add_one _).le
    · show (s.writer.addMarker m deferEoc).cache.changes.Sublist _
      rw [StatefulWriter.addMarker, retireEndMarkersLocked_cache]
      exact .refl _
  | _ => exact .of_cache rfl

theorem Moves.grows {sc : Scope} {s s' : View} (h : Moves sc s s') :
    s.writer.GrowsTo s'.writer := by
  induction h with
  | refl => exact .of_cache rfl
  | tail _ hm ih => exact ih.trans hm.grows

namespace Machine

variable {c c' : Machine} {a : WriterAction}

theorem step_grows (hc : c.WellPhased) (h : c.step a = some c') : c.writer.GrowsTo c'.writer :=
  (step_moves hc h).2.grows

end Machine

end Zzdds.Rtps
