import Zzdds.Rtps.Writer.Growth
import Zzdds.Rtps.Writer.MarkerFrames

/-! # Where a resume goes on within a sample

A held best-effort reader that stopped within a fragmented sample is to be sent the rest of it, not
the whole of it again.  `writer_sm.zig` keeps the place as a pair, the number the reader is held
from and the fragment to start with, and reads the fragment as one of the sample under that very
number.  A resume that stops within a sample behind a gap keeps a number before the sample's, and
the next one starts the sample anew. -/

namespace Zzdds.Rtps

/-- A fragmented sample that a resume sends to a best-effort reader. -/
structure FragResume where
  reader : ReaderMatch
  sn : ℤ
  /-- The number the reader is held from. -/
  held : ℤ
  /-- The fragment it starts with. -/
  first : ℕ
  /-- The fragment that would block, if one does. -/
  stop : Option ℕ

/-- They are of one sample for one reader. -/
def FragResume.Of (e e' : FragResume) : Prop := e.reader = e'.reader ∧ e.sn = e'.sn

/-! ### The head of a batch -/

theorem mergeMarkers_head {item : BatchItem} {rest : List BatchItem} {ms : List EndMarker}
    {chs : List CacheChange} (h : mergeMarkers ms chs = item :: rest) :
    (∃ m ∈ ms, item = .marker m ∧ ∀ ch ∈ chs.head?, m.sn < ch.sequenceNumber) ∨
    (∃ ch ∈ chs.head?, item = .sample ch) := by
  cases chs with
  | nil =>
    rw [mergeMarkers] at h
    have hmem : item ∈ ms.map BatchItem.marker := by
      rw [h]
      exact List.mem_cons_self
    obtain ⟨m, hm, rfl⟩ := List.mem_map.mp hmem
    exact .inl ⟨m, hm, rfl, fun _ h => by cases h⟩
  | cons ch chs =>
    rw [mergeMarkers] at h
    cases ht : ms.takeWhile (fun m => decide (m.sn < ch.sequenceNumber)) with
    | nil =>
      rw [ht, List.map_nil, List.nil_append] at h
      cases h
      exact .inr ⟨ch, rfl, rfl⟩
    | cons m ms' =>
      rw [ht, List.map_cons, List.cons_append] at h
      cases h
      have hm : m ∈ ms.takeWhile (fun m => decide (m.sn < ch.sequenceNumber)) := by
        rw [ht]
        exact List.mem_cons_self
      refine .inl ⟨m, (List.takeWhile_sublist _).subset hm, rfl, ?_⟩
      rintro _ ⟨⟩
      simpa using List.mem_takeWhile_imp hm

namespace StatefulWriter

variable {w w' : StatefulWriter} {m : ReaderMatch} {rp : ReaderProxy} {after held sn : ℤ} {k : ℕ}

/-- The samples a batch may send. -/
def batchChanges (w : StatefulWriter) (after : ℤ) : List CacheChange :=
  w.cache.changes.filter (fun ch => decide (after < ch.sequenceNumber))

theorem batchChanges_sorted (ho : w.Ordered) :
    ((w.batchChanges after).map (·.sequenceNumber)).Pairwise (· < ·) :=
  ho.changes.sublist (List.filter_sublist.map _)

/-- No sample of a batch comes before the first. -/
theorem head_le_of_batchChanges (ho : w.Ordered) {ch ch' : CacheChange}
    (h : (w.batchChanges after).head? = some ch) (hm : ch' ∈ w.batchChanges after) :
    ch.sequenceNumber ≤ ch'.sequenceNumber := by
  have hs : ((w.batchChanges after).map (·.sequenceNumber)).Pairwise (· < ·) :=
    batchChanges_sorted ho
  cases hl : w.batchChanges after with
  | nil =>
    rw [hl] at hm
    cases hm
  | cons ch₀ rest =>
    rw [hl] at h hm hs
    obtain rfl : ch₀ = ch := Option.some.inj h
    rw [List.map_cons, List.pairwise_cons] at hs
    rcases List.mem_cons.mp hm with rfl | hm
    · exact le_rfl
    · exact (hs.1 _ (List.mem_map_of_mem hm)).le

theorem mem_batchChanges {ch : CacheChange} :
    ch ∈ w.batchChanges after ↔ ch ∈ w.cache.changes ∧ after < ch.sequenceNumber := by
  rw [batchChanges, List.mem_filter, decide_eq_true_eq]

/-- A batch that starts with a sample starts with the first above `after`. -/
theorem batchItems_sample (ho : w.Ordered) {ch : CacheChange} {rest : List BatchItem}
    (h : w.batchItems after = .sample ch :: rest) :
    ch ∈ w.cache.changes ∧ after < ch.sequenceNumber ∧
    ∀ ch' ∈ w.cache.changes, after < ch'.sequenceNumber →
      ch.sequenceNumber ≤ ch'.sequenceNumber := by
  rcases mergeMarkers_head h with ⟨m, -, he, -⟩ | ⟨ch₀, hch₀, he⟩
  · cases he
  · cases he
    have hhead : (w.batchChanges after).head? = some ch := by
      rw [Option.mem_def, List.head?_takeWhile] at hch₀
      exact Option.eq_some_of_filter_eq_some hch₀
    have hmem := mem_batchChanges.mp (List.mem_of_head? hhead)
    exact ⟨hmem.1, hmem.2, fun ch' hm hlt =>
      head_le_of_batchChanges ho hhead (mem_batchChanges.mpr ⟨hm, hlt⟩)⟩

theorem dropWhile_markers_lt (hs : (w.endMarkers.map (·.sn)).Pairwise (· < ·)) {mk : EndMarker}
    (hm : mk ∈ w.endMarkers.dropWhile (fun mk => decide (mk.sn ≤ after))) : after < mk.sn := by
  have hsub : (w.endMarkers.dropWhile (fun mk => decide (mk.sn ≤ after))).Sublist
      w.endMarkers := List.dropWhile_sublist _
  cases hl : w.endMarkers.dropWhile (fun mk => decide (mk.sn ≤ after)) with
  | nil =>
    rw [hl] at hm
    cases hm
  | cons m₀ ms =>
    rw [hl] at hm hsub
    have hfirst : after < m₀.sn := by
      have hnot := List.head?_dropWhile_not (fun mk : EndMarker => decide (mk.sn ≤ after))
        w.endMarkers
      rw [hl] at hnot
      simpa using hnot
    have hpair := hs.sublist (hsub.map _)
    rw [List.map_cons, List.pairwise_cons] at hpair
    rcases List.mem_cons.mp hm with rfl | hm
    · exact hfirst
    · exact hfirst.trans (hpair.1 _ (List.mem_map_of_mem hm))

/-- What a batch sends comes after `after`. -/
theorem batchItems_lt (ho : w.Ordered) {item : BatchItem} (h : item ∈ w.batchItems after) :
    after < item.sn := by
  rcases mem_mergeMarkers h with ⟨ch, hch, rfl⟩ | ⟨mk, hmk, rfl⟩
  · exact (mem_batchChanges.mp ((List.takeWhile_sublist _).subset hch)).2
  · exact dropWhile_markers_lt ho.markers ((List.takeWhile_sublist _).subset hmk)

/-- Two samples of one number are the same. -/
theorem Ordered.change_eq (ho : w.Ordered) {ch ch' : CacheChange} (hm : ch ∈ w.cache.changes)
    (hm' : ch' ∈ w.cache.changes) (he : ch.sequenceNumber = ch'.sequenceNumber) : ch = ch' := by
  have hnodup : (w.cache.changes.map (·.sequenceNumber)).Nodup := ho.changes.imp ne_of_lt
  exact List.inj_on_of_nodup_map hnodup hm hm' he

/-- A batch that could start with the sample numbered right after `after` starts with it. -/
theorem batchItems_next (ho : w.Ordered) {ch : CacheChange} {item : BatchItem}
    {rest : List BatchItem} (hm : ch ∈ w.cache.changes) (hsn : ch.sequenceNumber = after + 1)
    (h : w.batchItems after = item :: rest) : item = .sample ch := by
  have hmem : ch ∈ w.batchChanges after := mem_batchChanges.mpr ⟨hm, by omega⟩
  have hfirst : (w.batchChanges after).head? = some ch := by
    cases hl : w.batchChanges after with
    | nil =>
      rw [hl] at hmem
      cases hmem
    | cons ch₀ chs =>
      have hhead : (w.batchChanges after).head? = some ch₀ := by rw [hl]; rfl
      have hle := head_le_of_batchChanges ho hhead hmem
      have hin := mem_batchChanges.mp (List.mem_of_head? hhead)
      rw [List.head?_cons, ho.change_eq hin.1 hm (by omega)]
  rcases mergeMarkers_head h with ⟨mk, hmk, rfl, hlt⟩ | ⟨ch₀, hch₀, rfl⟩
  · -- a marker before it would need a number between
    have hafter := dropWhile_markers_lt ho.markers ((List.takeWhile_sublist _).subset hmk)
    have hthrough : mk.sn ≤ w.lastSentSnLocked := by
      simpa using List.mem_takeWhile_imp hmk
    have hin : ch ∈ ((w.batchChanges after).takeWhile
        (fun ch => decide (ch.sequenceNumber ≤ w.lastSentSnLocked))).head? := by
      rw [Option.mem_def, List.head?_takeWhile, hfirst]
      have hle : ch.sequenceNumber ≤ w.lastSentSnLocked := by omega
      simp [Option.filter, hle]
    have := hlt ch hin
    omega
  · rw [Option.mem_def, List.head?_takeWhile] at hch₀
    have hsome := Option.eq_some_of_filter_eq_some hch₀
    rw [batchChanges] at hfirst
    rw [hfirst] at hsome
    rw [Option.some.inj hsome]

/-! ### The samples a resume sends in fragments -/

/-- The fragment a batch starts a sample with. -/
def firstFrag (rp : ReaderProxy) (ch : CacheChange) : ℕ :=
  if rp.unsentFromSn = some ch.sequenceNumber then rp.unsentFrag else 1

/-- What the batch of a reader held from `held` sends in fragments. -/
def fragResume (w : StatefulWriter) (rp : ReaderProxy) (held : ℤ) : Option FragResume :=
  if rp.reliable then none
  else
    match w.batchItems (held - 1) with
    | .sample ch :: _ => some {
        reader := rp.readerMatch
        sn := ch.sequenceNumber
        held := held
        first := firstFrag rp ch
        stop := (w.bumpHb.sendFragsToProxyLocked rp ch w.bumpHb.hbCount (firstFrag rp ch)).2 }
    | _ => none

/-- What `resumeLoop` sends in fragments. -/
def resumeFrags : ℕ → StatefulWriter → ℕ → ReaderMatch → ℕ → List FragResume
  | 0, _, _, _, _ => []
  | fuel + 1, w, i, m, budget =>
      let next := fun (w : StatefulWriter) (budget : ℕ) =>
        match w.readerProxies[i + 1]? with
        | none => []
        | some rp => resumeFrags fuel w (i + 1) rp.readerMatch budget
      match w.findMatchLocked m with
      | none => next w budget
      | some rp =>
          match rp.unsentFromSn with
          | none => next w budget
          | some held =>
              if rp.sendingSn.isSome then next w budget
              else if budget = 0 then []
              else
                match w.replayBatchUnlocked rp (held - 1) budget with
                | .nothing => next (w.setProxy { rp with unsentFromSn := none }) budget
                | .sent w₁ sent =>
                    let w₁ := w₁.modifyMatch m (·.resumeAt held sent.through sent.nextFrag)
                    (w.fragResume rp held).toList ++
                      if sent.blocked then next w₁ (budget - max 1 sent.count)
                      else resumeFrags fuel w₁ i m (budget - max 1 sent.count)
                | .release _ _ => []

/-- What `resumeFrom` sends in fragments. -/
def resumeFromFrags (w : StatefulWriter) (i budget : ℕ) : List FragResume :=
  match w.readerProxies[i]? with
  | none => []
  | some rp => resumeFrags (w.resumeFuel budget) w i rp.readerMatch budget

/-- What `afterResumeBatch` sends in fragments. -/
def afterResumeFrags (w : StatefulWriter) (m : ReaderMatch) (sent : Batch) (i : ℕ) (held : ℤ)
    (budget : ℕ) : List FragResume :=
  match w.findMatchLocked m with
  | none => w.resumeFromFrags (i + 1) budget
  | some p =>
      let budget := budget - max 1 sent.count
      let w := w.setProxy (p.resumeAt held sent.through sent.nextFrag)
      if sent.blocked then w.resumeFromFrags (i + 1) budget
      else resumeFrags (w.resumeFuel budget) w i m budget

/-- The rounds of a resume, what they send in fragments, and what is left at the end. -/
inductive Resumes : StatefulWriter → List FragResume → StatefulWriter × Option Task → Prop
  | stop (w : StatefulWriter) : Resumes w [] (w.trimAckedLocked, none)
  /-- Nothing is left for a reader. -/
  | clear (w : StatefulWriter) (m : ReaderMatch) (rp : ReaderProxy) (es : List FragResume)
      (r : StatefulWriter × Option Task) (hf : w.findMatchLocked m = some rp)
      (hr : Resumes (w.setProxy { rp with unsentFromSn := none }) es r) : Resumes w es r
  /-- A fragmented sample goes out, or a part of it. -/
  | sent (w w₁ : StatefulWriter) (m : ReaderMatch) (rp : ReaderProxy) (held : ℤ) (budget : ℕ)
      (sent : Batch) (es : List FragResume) (r : StatefulWriter × Option Task)
      (hf : w.findMatchLocked m = some rp) (hu : rp.unsentFromSn = some held)
      (hb : w.replayBatchUnlocked rp (held - 1) budget = .sent w₁ sent)
      (hr : Resumes (w₁.modifyMatch m (·.resumeAt held sent.through sent.nextFrag)) es r) :
      Resumes w ((w.fragResume rp held).toList ++ es) r
  /-- Whole samples go out with the lock released. -/
  | release (w w₁ : StatefulWriter) (m : ReaderMatch) (rp : ReaderProxy) (held : ℤ)
      (i budget : ℕ) (items : List BatchItem) (hf : w.findMatchLocked m = some rp)
      (hu : rp.unsentFromSn = some held)
      (hb : w.replayBatchUnlocked rp (held - 1) budget = .release w₁ items) :
      Resumes w [] (w₁, some (batchTask rp (held - 1) items (.resume i held budget)))

theorem resumeLoop_resumes :
    ∀ (fuel : ℕ) (w : StatefulWriter) (i : ℕ) (m : ReaderMatch) (budget : ℕ),
      Resumes w (resumeFrags fuel w i m budget) (resumeLoop fuel w i m budget)
  | 0, w, _, _, _ => .stop w
  | fuel + 1, w, i, m, budget => by
      have hnext : ∀ (w' : StatefulWriter) (budget : ℕ), Resumes w'
          (match w'.readerProxies[i + 1]? with
            | none => []
            | some rp => resumeFrags fuel w' (i + 1) rp.readerMatch budget)
          (match w'.readerProxies[i + 1]? with
            | none => (w'.trimAckedLocked, none)
            | some rp => resumeLoop fuel w' (i + 1) rp.readerMatch budget) := by
        intro w' budget
        cases w'.readerProxies[i + 1]? with
        | none => exact .stop w'
        | some rp => exact resumeLoop_resumes fuel w' (i + 1) rp.readerMatch budget
      rw [resumeFrags, resumeLoop]
      dsimp only
      cases hf : w.findMatchLocked m with
      | none => exact hnext w budget
      | some rp =>
        dsimp only
        cases hu : rp.unsentFromSn with
        | none => exact hnext w budget
        | some held =>
          dsimp only
          split_ifs
          · exact hnext w budget
          · exact .stop w
          · cases hb : w.replayBatchUnlocked rp (held - 1) budget with
            | nothing => exact .clear w m rp _ _ hf (hnext _ budget)
            | sent w₁ sent =>
              dsimp only
              refine .sent w w₁ m rp held budget sent _ _ hf hu hb ?_
              split_ifs
              · exact hnext _ _
              · exact resumeLoop_resumes fuel _ i m _
            | release w₁ items => exact .release w w₁ m rp held i budget items hf hu hb

theorem resumeFrom_resumes (w : StatefulWriter) (i budget : ℕ) :
    Resumes w (w.resumeFromFrags i budget) (w.resumeFrom i budget) := by
  unfold resumeFromFrags resumeFrom
  cases w.readerProxies[i]? with
  | none => exact .stop w
  | some rp => exact resumeLoop_resumes _ w i rp.readerMatch budget

/-- The writer as a batch of a resume returns, before the resume goes on. -/
def batchReturned (w : StatefulWriter) (m : ReaderMatch) (sent : Batch) (held : ℤ) :
    StatefulWriter :=
  match w.findMatchLocked m with
  | none => w
  | some p => w.setProxy (p.resumeAt held sent.through sent.nextFrag)

theorem afterResumeBatch_resumes (w : StatefulWriter) (m : ReaderMatch) (sent : Batch) (i : ℕ)
    (held : ℤ) (budget : ℕ) :
    Resumes (w.batchReturned m sent held) (w.afterResumeFrags m sent i held budget)
      (w.afterResumeBatch m sent i held budget) := by
  unfold batchReturned afterResumeFrags afterResumeBatch
  cases w.findMatchLocked m with
  | none => exact resumeFrom_resumes w (i + 1) budget
  | some p =>
    dsimp only
    split_ifs
    · exact resumeFrom_resumes _ (i + 1) _
    · exact resumeLoop_resumes _ _ i m _

/-! ### One round -/

theorem replayBatchUnlocked_sent_inv {maxChanges : ℕ} {w₁ : StatefulWriter} {sent : Batch}
    (h : w.replayBatchUnlocked rp after maxChanges = .sent w₁ sent) :
    ∃ ch rest, w.batchItems after = .sample ch :: rest ∧ w.config.isFragmented ch = true ∧
      w.sendBatchFragmented rp ch after = (w₁, sent) := by
  unfold replayBatchUnlocked at h
  split at h
  · cases h
  · split at h
    · cases h
    next ch rest hitems =>
      split at h
      next hfrag =>
        cases h
        exact ⟨ch, rest, hitems, hfrag, rfl⟩
      · cases h
    · cases h

theorem replayBatchUnlocked_release_inv {maxChanges : ℕ} {w₁ : StatefulWriter}
    {items : List BatchItem} (h : w.replayBatchUnlocked rp after maxChanges = .release w₁ items) :
    (∃ sn, w₁ = if w.config.resumeHeld then w.setProxy { rp with sendingSn := some sn } else w) ∧
    (∀ item ∈ items, item ∈ w.batchItems after) ∧
    ∃ item rest, w.batchItems after = item :: rest ∧ isWhole w.config item = true := by
  unfold replayBatchUnlocked at h
  split at h
  · cases h
  · split at h
    · cases h
    next ch rest hitems =>
      split at h
      · cases h
      next hfrag =>
        cases h
        refine ⟨⟨_, rfl⟩, fun item hmem => ?_, _, rest, hitems, by simpa [isWhole] using hfrag⟩
        rw [hitems]
        exact ((List.takeWhile_sublist _).cons_cons _).subset ((List.take_sublist _ _).subset hmem)
    next mk rest hitems =>
      cases h
      refine ⟨⟨_, rfl⟩, fun item hmem => ?_, _, rest, hitems, rfl⟩
      rw [hitems]
      exact ((List.takeWhile_sublist _).cons_cons _).subset ((List.take_sublist _ _).subset hmem)

theorem OnlySent.sendBatchFragmented (w : StatefulWriter) (rp : ReaderProxy) (ch : CacheChange)
    (after : ℤ) : OnlySent w (w.sendBatchFragmented rp ch after).1 := by
  unfold StatefulWriter.sendBatchFragmented
  dsimp only
  split
  · have h := (OnlySent.bumpHb w).trans
      (.sendFrag1ToProxyLocked w.bumpHb rp ch w.bumpHb.hbCount)
    split
    next heq =>
      rw [heq] at h
      exact h
    next heq =>
      rw [heq] at h
      exact h
  · have h := (OnlySent.bumpHb w).trans (OnlySent.sendFrags w.bumpHb rp ch w.bumpHb.hbCount
      (if rp.unsentFromSn = some ch.sequenceNumber then rp.unsentFrag else 1))
    split
    next heq =>
      rw [heq] at h
      exact h
    next heq =>
      rw [heq] at h
      exact h

/-- Where a batch to a best-effort reader leaves off. -/
theorem sendBatchFragmented_batch (hr : rp.reliable = false) (ch : CacheChange) :
    (w.sendBatchFragmented rp ch after).2 =
      match (w.bumpHb.sendFragsToProxyLocked rp ch w.bumpHb.hbCount (firstFrag rp ch)).2 with
      | some frag => { through := after, blocked := true, nextFrag := frag }
      | none => { through := ch.sequenceNumber, count := 1 } := by
  unfold sendBatchFragmented firstFrag
  simp only [hr, Bool.false_eq_true, if_false]
  split
  next heq => rw [heq]
  next heq => rw [heq]

theorem match_of_findMatch (h : w.findMatchLocked m = some rp) : rp.readerMatch = m := by
  have hfind := find_of_findMatch h
  have hg := guid_of_find hfind
  unfold findMatchLocked at h
  rw [hfind, Option.filter_eq_some_iff] at h
  obtain ⟨-, hid⟩ := h
  rw [beq_iff_eq] at hid
  cases m
  simp_all [ReaderProxy.readerMatch]

theorem OnlySent.findMatch (h : OnlySent w w') (m : ReaderMatch) :
    w'.findMatchLocked m = w.findMatchLocked m := by
  unfold findMatchLocked findReaderProxyLocked
  rw [h.readerProxies]

/-- The writer as the next round finds it. -/
theorem round_eq {maxChanges : ℕ} {w₁ : StatefulWriter} {sent : Batch}
    (hf : w.findMatchLocked m = some rp) (hu : rp.unsentFromSn = some held)
    (hb : w.replayBatchUnlocked rp (held - 1) maxChanges = .sent w₁ sent) :
    OnlySent w w₁ ∧ w₁.modifyMatch m (·.resumeAt held sent.through sent.nextFrag) =
      w₁.setProxy { rp with
        unsentFromSn := some (sent.through + 1)
        unsentFrag := sent.nextFrag } := by
  obtain ⟨ch, rest, -, -, hsend⟩ := replayBatchUnlocked_sent_inv hb
  have ho := OnlySent.sendBatchFragmented w rp ch (held - 1)
  rw [hsend] at ho
  refine ⟨ho, ?_⟩
  have hf₁ : w₁.findMatchLocked m = some rp := by rw [ho.findMatch, hf]
  unfold modifyMatch
  rw [hf₁]
  dsimp only
  rw [ReaderProxy.resumeAt, if_pos hu]

/-! ### The place is kept -/

/-- A fragmented sample of the number is in the history. -/
def HasFragmented (w : StatefulWriter) (sn : ℤ) : Prop :=
  ∃ ch ∈ w.cache.changes, w.config.isFragmented ch = true ∧ ch.sequenceNumber = sn

/-- After a stop at fragment `k` of `sn`, held from `held`, the hold is as the stop left it, or has
gone on: beyond the sample, or within the gap before it, where a sample starts anew. -/
def InPlace (held sn : ℤ) (k : ℕ) (h : ℤ) (frag : ℕ) : Prop :=
  sn < h ∨ (h = held ∧ frag = k) ∨ (frag = 1 ∧ held < sn ∧ held ≤ h)

/-- What stays so of a stop at fragment `k` of a sample, while the sample is in the history. -/
structure KeepsPlace (e : FragResume) (k : ℕ) (w : StatefulWriter) : Prop where
  ordered : w.Ordered
  lt : e.sn < w.cache.nextSn
  between : ∀ ch ∈ w.cache.changes, e.held ≤ ch.sequenceNumber → e.sn ≤ ch.sequenceNumber
  proxy : w.HasFragmented e.sn → ∀ rp ∈ w.readerProxies, rp.readerMatch = e.reader →
    rp.reliable = false ∧ ∀ h ∈ rp.unsentFromSn, InPlace e.held e.sn k h rp.unsentFrag

theorem HasFragmented.of_grows (h : w'.HasFragmented sn) (hg : w.GrowsTo w')
    (hc : w'.config = w.config) (hlt : sn < w.cache.nextSn) : w.HasFragmented sn := by
  obtain ⟨ch, hch, hfrag, rfl⟩ := h
  rcases hg.changes ch hch with ⟨ch₀, hch₀, hsn, hd⟩ | hle
  · refine ⟨ch₀, hch₀, ?_, hsn⟩
    rw [WriterConfig.isFragmented, hd, ← hc]
    exact hfrag
  · exact absurd hlt (not_lt.mpr hle)

variable {e e' : FragResume} {es : List FragResume}

theorem KeepsPlace.of_grows (h : KeepsPlace e k w) (ho : w'.Ordered) (hg : w.GrowsTo w')
    (hc : w'.config = w.config)
    (hp : w.HasFragmented e.sn → ∀ rp ∈ w'.readerProxies, rp.readerMatch = e.reader →
      rp.reliable = false ∧ ∀ h ∈ rp.unsentFromSn, InPlace e.held e.sn k h rp.unsentFrag) :
    KeepsPlace e k w' where
  ordered := ho
  lt := h.lt.trans_le hg.nextSn
  between := by
    intro ch hch hle
    rcases hg.changes ch hch with ⟨ch₀, hch₀, hsn, -⟩ | hn
    · rw [← hsn] at hle ⊢
      exact h.between ch₀ hch₀ hle
    · exact (h.lt.trans_le hn).le
  proxy := fun hf => hp (hf.of_grows hg hc h.lt)

theorem KeepsPlace.onlySent (h : KeepsPlace e k w) (ho : OnlySent w w') : KeepsPlace e k w' :=
  h.of_grows (h.ordered.congr ho.cache ho.endMarkers ho.lastFlushedSn ho.trimmedThrough
    ho.pendingEocSn) (.of_cache ho.cache) ho.config (by
      rw [ho.readerProxies]
      exact h.proxy)

theorem KeepsPlace.trim (h : KeepsPlace e k w) : KeepsPlace e k w.trimAckedLocked := by
  have hconfig : w.trimAckedLocked.config = w.config := by
    rcases w.trimAckedLocked_cases with h | ⟨-, -, h⟩ <;> rw [h]
    rfl
  have hnext : w.trimAckedLocked.cache.nextSn = w.cache.nextSn := by
    rcases w.trimAckedLocked_cases with h | ⟨-, -, h⟩ <;> rw [h]
    rfl
  refine h.of_grows h.ordered.trim (.of_sublist hnext.ge w.trimAckedLocked_changes) hconfig ?_
  rw [trimAckedLocked_readerProxies]
  exact h.proxy

/-- Write back a proxy that is in its place, or of another reader. -/
theorem KeepsPlace.setProxy (h : KeepsPlace e k w) (rp : ReaderProxy)
    (hp : rp.readerMatch = e.reader → w.HasFragmented e.sn →
      rp.reliable = false ∧ ∀ h ∈ rp.unsentFromSn, InPlace e.held e.sn k h rp.unsentFrag) :
    KeepsPlace e k (w.setProxy rp) := by
  have hal := Alike.setProxy w rp
  refine h.of_grows (h.ordered.congr hal.cache hal.endMarkers hal.lastFlushedSn
    hal.trimmedThrough hal.pendingEocSn) (.of_cache hal.cache) hal.config ?_
  intro hf rp' hm he
  rcases mem_setProxy hm with rfl | hm
  · exact hp he hf
  · exact h.proxy hf rp' hm he

theorem reliable_of_fragResume (h : e ∈ w.fragResume rp held) : rp.reliable = false := by
  by_contra hrel
  rw [Bool.not_eq_false] at hrel
  rw [fragResume, if_pos hrel] at h
  cases h

/-- The event of a round tells where its sample leaves off. -/
theorem fragResume_eq (hf : w.findMatchLocked m = some rp) (hr : rp.reliable = false)
    {ch : CacheChange} {rest : List BatchItem}
    (hitems : w.batchItems (held - 1) = .sample ch :: rest) : w.fragResume rp held = some {
      reader := m
      sn := ch.sequenceNumber
      held := held
      first := firstFrag rp ch
      stop := (w.bumpHb.sendFragsToProxyLocked rp ch w.bumpHb.hbCount (firstFrag rp ch)).2 } := by
  unfold fragResume
  rw [hr, if_neg (by simp), hitems, match_of_findMatch hf]

/-- A round that does not send the sample keeps the place. -/
theorem KeepsPlace.round {maxChanges : ℕ} {w₁ : StatefulWriter} {sent : Batch}
    (h : KeepsPlace e k w) (hf : w.findMatchLocked m = some rp)
    (hu : rp.unsentFromSn = some held)
    (hb : w.replayBatchUnlocked rp (held - 1) maxChanges = .sent w₁ sent)
    (hno : ∀ x ∈ w.fragResume rp held, ¬ x.Of e) :
    KeepsPlace e k (w₁.modifyMatch m (·.resumeAt held sent.through sent.nextFrag)) := by
  obtain ⟨ho, hround⟩ := round_eq hf hu hb
  obtain ⟨ch, rest, hitems, hfrag, hsend⟩ := replayBatchUnlocked_sent_inv hb
  rw [hround]
  refine (h.onlySent ho).setProxy _ ?_
  intro he hhas
  have hm : rp.readerMatch = m := match_of_findMatch hf
  have hreader : m = e.reader := hm.symm.trans he
  have hhas' : w.HasFragmented e.sn := by
    obtain ⟨ch', hch', hfr, hsn⟩ := hhas
    exact ⟨ch', by rwa [ho.cache] at hch', by rwa [ho.config] at hfr, hsn⟩
  obtain ⟨hrel, hplace⟩ := h.proxy hhas' rp (mem_of_find (find_of_findMatch hf)) (hm.trans hreader)
  refine ⟨hrel, ?_⟩
  rintro _ ⟨⟩
  have hin := hplace held hu
  obtain ⟨hmem, hafter, hleast⟩ := batchItems_sample h.ordered hitems
  have hev := fragResume_eq hf hrel hitems
  have hne : ch.sequenceNumber ≠ e.sn := fun hsn => hno _ hev ⟨hreader, hsn⟩
  have hbatch : (w.sendBatchFragmented rp ch (held - 1)).2 = _ := sendBatchFragmented_batch hrel ch
  rw [hsend] at hbatch
  -- the sample itself is cached: what goes out comes after it, or the hold is beyond it
  have hbeyond : e.sn < held := by
    by_contra hle
    obtain ⟨ch', hch', -, hsn⟩ := hhas'
    have hle' := hleast ch' hch' (by omega)
    have hheld : e.held ≤ held := by
      rcases hin with hin | ⟨hin, -⟩ | ⟨-, -, hin⟩ <;> omega
    have := h.between ch hmem (by omega)
    omega
  left
  rw [show sent = _ from hbatch]
  split <;> dsimp only <;> omega

theorem KeepsPlace.clear (h : KeepsPlace e k w) (hf : w.findMatchLocked m = some rp) :
    KeepsPlace e k (w.setProxy { rp with unsentFromSn := none }) := by
  refine h.setProxy _ fun he hhas => ?_
  obtain ⟨hrel, -⟩ := h.proxy hhas rp (mem_of_find (find_of_findMatch hf)) he
  exact ⟨hrel, fun _ h => (nomatch h)⟩

theorem KeepsPlace.sending (h : KeepsPlace e k w) (hf : w.findMatchLocked m = some rp)
    (sending : Option ℤ) : KeepsPlace e k (w.setProxy { rp with sendingSn := sending }) :=
  h.setProxy _ fun he hhas => h.proxy hhas rp (mem_of_find (find_of_findMatch hf)) he

theorem KeepsPlace.release {maxChanges : ℕ} {w₁ : StatefulWriter} {items : List BatchItem}
    (h : KeepsPlace e k w) (hf : w.findMatchLocked m = some rp)
    (hb : w.replayBatchUnlocked rp (held - 1) maxChanges = .release w₁ items) :
    KeepsPlace e k w₁ := by
  obtain ⟨⟨sn, rfl⟩, -, -⟩ := replayBatchUnlocked_release_inv hb
  split
  · exact h.sending hf (some sn)
  · exact h

/-- The fragment a round starts the sample with. -/
theorem KeepsPlace.first {maxChanges : ℕ} {w₁ : StatefulWriter} {sent : Batch}
    (h : KeepsPlace e k w) (hf : w.findMatchLocked m = some rp)
    (hu : rp.unsentFromSn = some held)
    (hb : w.replayBatchUnlocked rp (held - 1) maxChanges = .sent w₁ sent)
    (he' : e' ∈ w.fragResume rp held) (hof : e'.Of e) :
    e'.first = k ↔ k = 1 ∨ e.held = e.sn := by
  obtain ⟨ch, rest, hitems, hfrag, -⟩ := replayBatchUnlocked_sent_inv hb
  have hrel := reliable_of_fragResume he'
  rw [fragResume_eq hf hrel hitems] at he'
  cases he'
  obtain ⟨hreader, hsn⟩ := hof
  dsimp only at hreader hsn ⊢
  obtain ⟨hmem, hafter, -⟩ := batchItems_sample h.ordered hitems
  have hm : rp.readerMatch = e.reader := (match_of_findMatch hf).trans hreader
  obtain ⟨-, hplace⟩ := h.proxy ⟨ch, hmem, hfrag, hsn⟩ rp
    (mem_of_find (find_of_findMatch hf)) hm
  unfold firstFrag
  rw [hu, hsn]
  rcases hplace held hu with hin | ⟨rfl, hin⟩ | ⟨hin, hlt, -⟩
  · omega
  · rw [hin]
    by_cases hown : e.held = e.sn
    · rw [hown, if_pos rfl]
      exact ⟨fun _ => .inr rfl, fun _ => rfl⟩
    · rw [if_neg fun h => hown (Option.some.inj h)]
      exact ⟨fun h => .inl h.symm, fun h => (h.resolve_right hown).symm⟩
  · rw [hin, ite_self]
    exact ⟨fun h => .inl h.symm, fun h => (h.resolve_right hlt.ne).symm⟩

/-- The first time the sample is sent again. -/
theorem Resumes.first {r : StatefulWriter × Option Task} (hr : Resumes w es r) :
    KeepsPlace e k w → ∀ l₁ l₂, es = l₁ ++ e' :: l₂ → (∀ x ∈ l₁, ¬ x.Of e) → e'.Of e →
      (e'.first = k ↔ k = 1 ∨ e.held = e.sn) := by
  induction hr with
  | stop w =>
    intro _ l₁ l₂ hes
    cases l₁ <;> cases hes
  | clear w m rp es r hf _ ih => exact fun h => ih (h.clear hf)
  | sent w w₁ m rp held budget sent es r hf hu hb _ ih =>
    intro h l₁ l₂ hes hno hof
    cases hev : w.fragResume rp held with
    | none =>
      rw [hev] at hes
      refine ih (h.round hf hu hb ?_) l₁ l₂ hes hno hof
      rw [hev]
      exact fun _ h => (nomatch h)
    | some x =>
      rw [hev] at hes
      cases l₁ with
      | nil =>
        cases hes
        exact h.first hf hu hb hev hof
      | cons y l₁ =>
        cases hes
        refine ih (h.round hf hu hb ?_) l₁ l₂ rfl
          (fun z hz => hno z (List.mem_cons_of_mem _ hz)) hof
        rw [hev]
        rintro z ⟨⟩
        exact hno _ List.mem_cons_self
  | release w w₁ m rp held i budget items hf hu hb =>
    intro _ l₁ l₂ hes
    cases l₁ <;> cases hes

theorem Ordered.round {maxChanges : ℕ} {w₁ : StatefulWriter} {sent : Batch} (ho : w.Ordered)
    (hf : w.findMatchLocked m = some rp) (hu : rp.unsentFromSn = some held)
    (hb : w.replayBatchUnlocked rp (held - 1) maxChanges = .sent w₁ sent) :
    (w₁.modifyMatch m (·.resumeAt held sent.through sent.nextFrag)).Ordered := by
  obtain ⟨hos, hround⟩ := round_eq hf hu hb
  have hal : Alike w (w₁.modifyMatch m (·.resumeAt held sent.through sent.nextFrag)) := by
    rw [hround]
    exact hos.toAlike.trans (.setProxy _ _)
  exact ho.congr hal.cache hal.endMarkers hal.lastFlushedSn hal.trimmedThrough hal.pendingEocSn

/-- The task is a batch of a resume. -/
def ofResume : Task → Bool
  | .batch _ _ _ _ (.resume _ _ _) => true
  | _ => false

/-- A batch of a resume sends whole samples, from the number its reader is held from on: the sample
of that number, if there is one, is no fragmented one. -/
def WholeBatch (w : StatefulWriter) : Task → Prop
  | .batch _ _ todo sent (.resume _ held _) =>
      (∀ item ∈ todo, held ≤ item.sn) ∧ held ≤ sent.through + 1 ∧ sent.nextFrag = 1 ∧
        held < w.cache.nextSn ∧ ¬ w.HasFragmented held
  | _ => True

theorem wholeBatch_of_not_resume {t : Task} (h : ofResume t = false) : WholeBatch w t := by
  unfold WholeBatch
  split
  · cases h
  · trivial

theorem WholeBatch.of_grows {t : Task} (h : WholeBatch w t) (hg : w.GrowsTo w')
    (hc : w'.config = w.config) : WholeBatch w' t := by
  unfold WholeBatch at h ⊢
  split
  · obtain ⟨htodo, hle, hfrag, hlt, hno⟩ := h
    exact ⟨htodo, hle, hfrag, hlt.trans_le hg.nextSn, fun hf => hno (hf.of_grows hg hc hlt)⟩
  · trivial

theorem batchTask_whole {maxChanges i budget : ℕ} {w₁ : StatefulWriter} {items : List BatchItem}
    (ho : w.Ordered) (hb : w.replayBatchUnlocked rp (held - 1) maxChanges = .release w₁ items) :
    WholeBatch w₁ (batchTask rp (held - 1) items (.resume i held budget)) := by
  obtain ⟨⟨sn, hw⟩, hitems, item, rest, hhead, hwhole⟩ := replayBatchUnlocked_release_inv hb
  have hrest : w₁.cache = w.cache ∧ w₁.config = w.config := by
    rw [hw]
    split <;> exact ⟨rfl, rfl⟩
  have hfirst : item ∈ w.batchItems (held - 1) := by
    rw [hhead]
    exact List.mem_cons_self
  refine ⟨fun item hm => ?_, ?_, rfl, ?_, ?_⟩
  · have := batchItems_lt ho (hitems item hm)
    omega
  · show held ≤ held - 1 + 1
    omega
  · have hlt := batchItems_lt ho hfirst
    have hbelow : item.sn < w.cache.nextSn := by
      rcases mem_mergeMarkers hfirst with ⟨ch, hch, rfl⟩ | ⟨mk, hmk, rfl⟩
      · have hmem := mem_batchChanges.mp ((List.takeWhile_sublist _).subset hch)
        exact ho.below _ (mem_keptSns_of_change hmem.1)
      · exact ho.below _ (mem_keptSns_of_marker
          ((List.dropWhile_sublist _).subset ((List.takeWhile_sublist _).subset hmk)))
    rw [hrest.1]
    omega
  · rintro ⟨ch, hch, hfrag, hsn⟩
    rw [hrest.1] at hch
    rw [hrest.2] at hfrag
    have hnext := batchItems_next ho hch (by omega) hhead
    rw [hnext, isWhole, hfrag] at hwhole
    cases hwhole

theorem Resumes.whole {r : StatefulWriter × Option Task} (hr : Resumes w es r) :
    w.Ordered → ∀ t ∈ r.2, WholeBatch r.1 t := by
  induction hr with
  | stop w => exact fun _ _ h => (nomatch h)
  | clear w m rp es r hf _ ih => exact fun ho => ih (ho.congr rfl rfl rfl rfl rfl)
  | sent w w₁ m rp held budget sent es r hf hu hb _ ih => exact fun ho => ih (ho.round hf hu hb)
  | release w w₁ m rp held i budget items hf hu hb =>
    rintro ho _ ⟨⟩
    exact batchTask_whole ho hb

/-! ### No other call leaves a batch of a resume -/

theorem sendChangeToAllLocked_task (ch : CacheChange) (trailingHb : Bool) (ret : SendReturn) :
    ∀ t ∈ (w.sendChangeToAllLocked ch trailingHb ret).2, ofResume t = false := by
  unfold sendChangeToAllLocked
  dsimp only
  split
  · exact fun _ h => (nomatch h)
  · rintro _ ⟨⟩
    rfl

theorem finishSet_task (e : EndSet) : ∀ t ∈ (w.finishSet e).2, ofResume t = false := by
  unfold finishSet
  dsimp only
  split
  · rintro _ ⟨⟩
    rfl
  · exact fun _ h => (nomatch h)

/-- One sample of a flush: `r` is what follows when it went out under the lock. -/
theorem offer_task {ch : CacheChange} {trailingHb : Bool} {ret : SendReturn}
    {r : StatefulWriter → StatefulWriter × Option Task}
    (hr : ∀ w', ∀ t ∈ (r w').2, ofResume t = false) :
    ∀ t ∈ (match w.sendChangeToAllLocked ch trailingHb ret with
        | (w, some task) => (w, some task)
        | (w, none) => r w).2, ofResume t = false := by
  have hs := sendChangeToAllLocked_task (w := w) ch trailingHb ret
  rcases he : w.sendChangeToAllLocked ch trailingHb ret with ⟨w', _ | task⟩
  · exact hr w'
  · rw [he] at hs
    exact hs

theorem flushWindow_task (e : EndSet) : ∀ (rest : List ℤ) (w : StatefulWriter),
    ∀ t ∈ (w.flushWindow e rest).2, ofResume t = false
  | [], w => by
      rw [flushWindow]
      exact finishSet_task e
  | sn :: rest, w => by
      rw [flushWindow]
      cases w.cache.getChange sn with
      | none => exact flushWindow_task e rest w
      | some ch => exact offer_task (flushWindow_task e rest)

theorem closeSet_task (e : EndSet) : ∀ t ∈ (w.closeSet e).2, ofResume t = false := by
  unfold closeSet
  split
  · exact finishSet_task e
  · exact flushWindow_task _ _ _

theorem flushPreWindow_task (e : EndSet) : ∀ (rest : List ℤ) (w : StatefulWriter),
    ∀ t ∈ (w.flushPreWindow e rest).2, ofResume t = false
  | [], w => closeSet_task e
  | sn :: rest, w => by
      rw [flushPreWindow]
      cases w.cache.getChange sn with
      | none => exact flushPreWindow_task e rest w
      | some ch => exact offer_task (flushPreWindow_task e rest)

theorem endCoherentSet_task (e : EndSet) : ∀ t ∈ (w.endCoherentSet e).2, ofResume t = false := by
  unfold endCoherentSet
  dsimp only
  split
  · exact finishSet_task _
  · exact flushPreWindow_task _ _ _

theorem write_task (s : Sample) (suspended : Bool) :
    ∀ t ∈ (w.write s suspended).2, ofResume t = false := by
  unfold write
  dsimp only
  split
  · exact fun _ h => (by cases h)
  · split
    · exact fun _ h => (by cases h)
    next ch _ =>
      have hs := sendChangeToAllLocked_task
        (w := (w.addSample s).emit (.wrote w.cache.nextSn suspended)) ch true .write
      split
      · exact fun _ h => (by cases h)
      next heq =>
        rw [heq] at hs
        exact hs

theorem replayLoop_task (m : ReaderMatch) (historyThrough : ℤ) :
    ∀ (fuel : ℕ) (w : StatefulWriter) (sentThrough : ℤ) (catchUpRounds : ℕ),
      ∀ t ∈ (replayLoop m historyThrough fuel w sentThrough catchUpRounds).2, ofResume t = false
  | 0, _, _, _ => fun _ h => (by cases h)
  | fuel + 1, w, sentThrough, catchUpRounds => by
      rw [replayLoop]
      split
      · exact fun _ h => (by cases h)
      · dsimp only
        split
        · exact fun _ h => (by cases h)
        · split
          · exact fun _ h => (by cases h)
          next w' sent _ =>
            split
            · exact fun _ h => (by cases h)
            · exact replayLoop_task m historyThrough fuel w' sent.through _
          · rintro _ ⟨⟩
            rfl

theorem replayHistoryToProxyUnlocked_task :
    ∀ t ∈ (w.replayHistoryToProxyUnlocked rp).2, ofResume t = false := by
  unfold replayHistoryToProxyUnlocked
  split
  · exact fun _ h => (by cases h)
  · split
    · exact fun _ h => (by cases h)
    · exact replayLoop_task _ _ _ _ 0 0

theorem sendInitialHeartbeatUnlocked_task :
    ∀ t ∈ (w.sendInitialHeartbeatUnlocked rp).2, ofResume t = false := by
  unfold sendInitialHeartbeatUnlocked
  split
  · exact fun _ h => (nomatch h)
  · rintro _ ⟨⟩
    rfl

theorem greet_task : ∀ t ∈ (w.greet rp).2, ofResume t = false := by
  unfold greet
  split
  · exact replayHistoryToProxyUnlocked_task
  · split
    · exact sendInitialHeartbeatUnlocked_task
    · exact fun _ h => (nomatch h)

theorem addOrRefreshMatchedReaderWith_task (m : MatchedReader) (gens : Locator → UInt32)
    (isCurrent : Bool) :
    ∀ t ∈ (w.addOrRefreshMatchedReaderWith m gens isCurrent).2, ofResume t = false := by
  unfold addOrRefreshMatchedReaderWith
  split
  · exact fun _ h => (nomatch h)
  · split
    · exact fun _ h => (nomatch h)
    · exact greet_task

theorem returnFromSend_task (ret : SendReturn) :
    ∀ t ∈ (w.returnFromSend ret).2, ofResume t = false := by
  cases ret with
  | write => exact fun _ h => (nomatch h)
  | preWindow rest e => exact flushPreWindow_task e rest w
  | window rest e => exact flushWindow_task e rest w

theorem afterReplayBatch_task (sent : Batch) (historyThrough : ℤ) (catchUpRounds : ℕ) :
    ∀ t ∈ (w.afterReplayBatch m sent historyThrough catchUpRounds).2, ofResume t = false := by
  unfold afterReplayBatch
  split
  · exact fun _ h => (nomatch h)
  · exact replayLoop_task _ _ _ _ _ _

/-! ### A batch of a resume returns -/

/-- The writer once a batch is out. -/
def batchDone (w : StatefulWriter) (m : ReaderMatch) : StatefulWriter :=
  if w.config.resumeHeld then w.modifyMatch m (fun rp => { rp with sendingSn := none }) else w

theorem batchDone_alike (w : StatefulWriter) (m : ReaderMatch) : Alike w (w.batchDone m) := by
  unfold batchDone modifyMatch
  split
  · split
    · exact .setProxy w _
    · exact .refl w
  · exact .refl w

theorem batchReturned_alike (w : StatefulWriter) (m : ReaderMatch) (sent : Batch) (held : ℤ) :
    Alike w (w.batchReturned m sent held) := by
  unfold batchReturned
  split
  · exact .refl w
  · exact .setProxy w _

theorem KeepsPlace.done (h : KeepsPlace e k w) (m : ReaderMatch) :
    KeepsPlace e k (w.batchDone m) := by
  unfold batchDone modifyMatch
  split
  · split
    next hf => exact h.sending hf none
    · exact h
  · exact h

/-- A batch of whole samples that returns goes on from a number the sample is not started at. -/
theorem KeepsPlace.returned {sent : Batch} (h : KeepsPlace e k w) (hle : e.held ≤ e.sn)
    (hthrough : held ≤ sent.through + 1) (hfrag : sent.nextFrag = 1)
    (hno : ¬ w.HasFragmented held) : KeepsPlace e k (w.batchReturned m sent held) := by
  unfold batchReturned
  split
  · exact h
  next rp hf =>
    refine h.setProxy _ fun he hhas => ?_
    unfold ReaderProxy.resumeAt at he ⊢
    by_cases hu : rp.unsentFromSn = some held
    · rw [if_pos hu] at he ⊢
      obtain ⟨hrel, hplace⟩ := h.proxy hhas rp (mem_of_find (find_of_findMatch hf)) he
      refine ⟨hrel, ?_⟩
      rintro _ ⟨⟩
      rcases hplace held hu with hin | ⟨rfl, -⟩ | ⟨-, hlt, hin⟩
      · left
        omega
      · -- the sample itself is behind a gap
        have hne : e.held ≠ e.sn := fun heq => hno (heq ▸ hhas)
        exact .inr (.inr ⟨hfrag, lt_of_le_of_ne hle hne, hthrough⟩)
      · exact .inr (.inr ⟨hfrag, hlt, hin.trans hthrough⟩)
    · rw [if_neg hu] at he ⊢
      exact h.proxy hhas rp (mem_of_find (find_of_findMatch hf)) he

/-! ### One step of a task -/

theorem sendData_alike (w : StatefulWriter) (g : Guid) (locs : List Locator) (msg : WriterMessage) :
    Alike w (w.sendData g locs msg).1 := (OnlySent.sendData w g locs msg).toAlike

theorem WholeBatch.of_alike {t : Task} (h : WholeBatch w t) (ha : Alike w w') : WholeBatch w' t :=
  h.of_grows (.of_cache ha.cache) ha.config

/-- One send of a batch leaves a batch of the same kind. -/
theorem WholeBatch.item {locs : List Locator} {item : BatchItem} {todo : List BatchItem}
    {sent : Batch} {ret : BatchReturn} (h : WholeBatch w (.batch m locs (item :: todo) sent ret)) :
    ∀ t ∈ (w.runTask (.batch m locs (item :: todo) sent ret)).2,
      WholeBatch (w.runTask (.batch m locs (item :: todo) sent ret)).1 t := by
  rw [runTask]
  have ha := sendData_alike w m.guid locs item.message
  rcases he : w.sendData m.guid locs item.message with ⟨w', _ | _⟩ <;> rw [he] at ha <;>
    rintro _ ⟨⟩ <;> refine WholeBatch.of_alike ?_ ha
  · cases ret with
    | replay historyThrough catchUpRounds => trivial
    | resume i held budget => exact ⟨fun _ h => (by cases h), h.2⟩
  · cases ret with
    | replay historyThrough catchUpRounds => trivial
    | resume i held budget =>
      obtain ⟨htodo, -, hfrag, hlt, hno⟩ := h
      have hitem := htodo item List.mem_cons_self
      exact ⟨fun item hm => htodo item (List.mem_cons_of_mem _ hm), by dsimp only; omega, hfrag,
        hlt, hno⟩

/-- A step of a task leaves a batch of a resume only if it is one of whole samples. -/
theorem runTask_whole {t : Task} (ho : w.Ordered) (h : WholeBatch w t) :
    ∀ t' ∈ (w.runTask t).2, WholeBatch (w.runTask t).1 t' := by
  have hno : ∀ {r : StatefulWriter × Option Task}, (∀ t ∈ r.2, ofResume t = false) →
      ∀ t ∈ r.2, WholeBatch r.1 t := fun h t ht => wholeBatch_of_not_resume (h t ht)
  cases t with
  | sendChange ch todo owed done ret =>
    rcases owed with _ | ⟨s, hb⟩
    · cases todo with
      | nil => exact hno (returnFromSend_task ret)
      | cons s todo =>
        refine hno ?_
        rw [runTask]
        rcases w.sendData s.readerMatch.guid s.locs (.data ch) with ⟨w', _ | _⟩ <;>
          rintro _ ⟨⟩ <;> rfl
    · refine hno ?_
      rintro _ ⟨⟩
      rfl
  | batch m locs todo sent ret =>
    cases todo with
    | cons item todo => exact h.item
    | nil =>
      cases ret with
      | replay historyThrough catchUpRounds => exact hno (afterReplayBatch_task sent _ _)
      | resume i held budget =>
        have ha := (batchDone_alike w m).trans (batchReturned_alike (w.batchDone m) m sent held)
        exact (afterResumeBatch_resumes (w.batchDone m) m sent i held budget).whole
          (ho.congr ha.cache ha.endMarkers ha.lastFlushedSn ha.trimmedThrough ha.pendingEocSn)
  | initialHeartbeat reader startSn locs hb => exact fun _ h => (by cases h)
  | takeEOC =>
    refine hno ?_
    rintro _ ⟨⟩
    rfl
  | sendEOC infos =>
    refine hno ?_
    rintro _ ⟨⟩
    rfl
  | flushEOC infos => exact fun _ h => (by cases h)

end StatefulWriter

namespace Machine

open StatefulWriter

variable {c c' c₁ : Machine} {a : WriterAction} {e e' : FragResume} {k : ℕ}

/-- The batches under way of resumes are of whole samples. -/
structure Batches (c : Machine) : Prop where
  phased : c.WellPhased
  sound : c.view.Sound
  whole : ∀ t ∈ c.tasks, WholeBatch c.writer t

theorem start_whole {r : StatefulWriter × Option Task} (h : ∀ t ∈ r.2, WholeBatch r.1 t)
    (hold : ∀ t ∈ c.tasks, WholeBatch r.1 t) : ∀ t ∈ (c.start r).tasks, WholeBatch r.1 t := by
  intro t ht
  rcases List.mem_append.mp ht with ht | ht
  · exact hold t ht
  · exact h t (Option.mem_toList.mp ht)

theorem step_config (hc : c.WellPhased) (h : c.step a = some c') :
    c'.writer.config = c.writer.config :=
  (step_moves hc h).2.inv (I := fun s => s.writer.config = c.writer.config)
    (fun _ _ hm hi => hm.config.trans hi) rfl

theorem Batches.step (hb : c.Batches) (h : c.step a = some c') : c'.Batches where
  phased := hb.phased.step h
  sound := (step_moves hb.phased h).2.inv (fun _ _ hm hi => hm.sound hi) hb.sound
  whole := by
    have hold : ∀ t ∈ c.tasks, WholeBatch c'.writer t := fun t ht =>
      (hb.whole t ht).of_grows (step_grows hb.phased h) (step_config hb.phased h)
    have hno : ∀ {r : StatefulWriter × Option Task}, (∀ t ∈ r.2, ofResume t = false) →
        ∀ t ∈ r.2, WholeBatch r.1 t := fun h t ht => wholeBatch_of_not_resume (h t ht)
    cases a with
    | write s =>
      cases h
      exact start_whole (hno (write_task s _)) hold
    | addOrRefreshMatchedReader m gens isCurrent =>
      cases h
      exact start_whole (hno (addOrRefreshMatchedReaderWith_task m gens isCurrent)) hold
    | resumeHeld =>
      cases h
      exact start_whole ((resumeFrom_resumes c.writer 0 RESUME_BUDGET).whole hb.sound.toOrdered)
        hold
    | endCoherentSet e =>
      rw [Machine.step] at h
      split at h
      · cases h
        exact start_whole (hno (endCoherentSet_task e)) hold
      · cases h
    | task i =>
      rw [Machine.step] at h
      split at h
      · cases h
      next t ht =>
        cases h
        intro t' ht'
        rcases List.mem_append.mp ht' with ht' | ht'
        · rcases List.mem_append.mp ht' with ht' | ht'
          · exact hold t' (List.mem_of_mem_take ht')
          · exact runTask_whole hb.sound.toOrdered (hb.whole t (List.mem_of_getElem? ht)) t'
              (Option.mem_toList.mp ht')
        · exact hold t' (List.mem_of_mem_drop ht')
    | handleNackFrag reader writerSn fragSet count =>
      obtain ⟨w, -, rfl⟩ := Option.map_eq_some_iff.mp h
      exact hold
    | beginCoherentSet isCoherentWindow =>
      rw [Machine.step] at h
      split at h
      · cases h
        exact hold
      · cases h
    | _ =>
      cases h
      exact hold

end Machine

end Zzdds.Rtps
