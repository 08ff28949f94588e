import Zzdds.Dcps.Queue

/-! # Raw reads and takes

`take_raw`, `read_raw` and their next-instance forms, in copy and in loan mode.  A call collects the
samples it is about and then builds its output; each part asks for memory and can fail.

The two modes give the same samples, but a read loan shows every sample as read
(`loan_and_copy_agree`).  A call that fails leaves the queue alone only if it fails before it has
changed anything (`failed_call_keeps`). -/

namespace Zzdds.Dcps

open Zzdds.Lib Zzdds.Rtps

/-- What a raw call is asked for; the next-instance forms have a previous handle. -/
structure RawCall where
  destructive : Bool
  previous : Option HandleT := none
  filter : RawFilter
  maxSamples : ℤ

/-- One sample of a raw output. -/
structure RawSample where
  payload : List UInt8
  keyHash : KeyHash
  info : SampleInfo
deriving DecidableEq, Repr

/-- The memory a raw call is given: for how many samples (a take asks for all of them at once), for
the array of a loan, and for the output. -/
structure RawMemory where
  collected : ℕ
  sliced : Bool
  built : Bool

/-- A sample is shown as read. -/
def SampleInfo.asRead (i : SampleInfo) : SampleInfo := { i with sampleState := .read }

/-- A sample of an output, shown as read. -/
def RawSample.asRead (s : RawSample) : RawSample := { s with info := s.info.asRead }

namespace DataReader

variable (r : DataReader)

/-! ### The calls -/

/-- The samples a raw call is about, among those that have not expired, and the others. -/
def rawSplit (now : ℤ) (c : RawCall) : List ℕ × List ℕ :=
  let r := r.purgeExpired now
  match c.previous with
  | none => splitMatching (r.selects c.filter) r.pending (limit c.maxSamples)
  | some prev => (r.nextInstance prev c.filter).elim ([], r.pending) fun ih =>
      splitMatching (r.selects (ofInstance c.filter ih)) r.pending (limit c.maxSamples)

def rawTake (now : ℤ) (c : RawCall) (reserved : Bool) : DataReader × List TakenSample :=
  match c.previous with
  | none => r.takeFiltered now c.filter c.maxSamples reserved
  | some prev => r.takeNextInstanceFiltered now prev c.filter c.maxSamples reserved

def rawRead (now : ℤ) (c : RawCall) (clones : ℕ) : DataReader × List TakenSample × Bool :=
  match c.previous with
  | none => r.readRaw now c.filter c.maxSamples clones
  | some prev => r.readNextInstanceFiltered now prev c.filter c.maxSamples clones

def rawTakeForLoan (now : ℤ) (c : RawCall) (reserved : Bool) : DataReader × List ℕ :=
  match c.previous with
  | none => r.takeSamplesForLoan now c.filter c.maxSamples reserved
  | some prev => r.takeNextInstanceForLoan now prev c.filter c.maxSamples reserved

def rawPin (now : ℤ) (c : RawCall) (pins : ℕ) : DataReader × List ℕ :=
  match c.previous with
  | none => r.pinSamplesForLoan now c.filter c.maxSamples pins
  | some prev => r.pinNextInstanceForLoan now prev c.filter c.maxSamples pins

/-- The samples of a copy are the application's, or freed. -/
def buildRawOutputFromTaken (taken : List TakenSample) (built : Bool) :
    DataReader × Option (List RawSample) :=
  if taken = [] then (r, some [])
  else if built then (r, some (taken.map fun s => ⟨r.heap.payload s.data, s.keyHash, s.info⟩))
  else ((taken.map (·.data)).foldl freePayload r, none)

def releasePinnedSamples (as : List ℕ) : DataReader :=
  (as.foldl releasePin r).settleLoan as.length

/-- The samples of a loan are the application's until it returns them, or released. -/
def buildRawOutputFromPins (as : List ℕ) (built : Bool) : DataReader × Option (List RawSample) :=
  if as = [] then (r, some [])
  else if built then
    (r, some ((as.filterMap r.heap.get).map fun pc =>
      ⟨r.heap.payload pc.data, pc.keyHash, pc.info⟩))
  else (r.releasePinnedSamples as, none)

/-- A raw call; none when it fails. -/
def rawReadOrTake (now : ℤ) (c : RawCall) (loanMode : Bool) (m : RawMemory) :
    DataReader × Option (List RawSample) :=
  let refused : Prop := m.collected = 0 ∧ (r.rawSplit now c).1 ≠ []
  match loanMode, c.destructive with
  | false, true =>
      let (r, taken) := r.rawTake now c (m.collected ≠ 0)
      if refused then (r, none) else r.buildRawOutputFromTaken taken m.built
  | false, false =>
      let (r, samples, made) := r.rawRead now c m.collected
      if made then r.buildRawOutputFromTaken samples m.built else (r, none)
  | true, destructive =>
      let (r, as) :=
        if destructive then r.rawTakeForLoan now c (m.collected ≠ 0)
        else r.rawPin now c m.collected
      if refused ∨ (as ≠ [] ∧ m.sliced = false) then (r, none)
      else r.buildRawOutputFromPins as m.built

/-- Memory enough for anything in the queue. -/
def plenty : RawMemory := ⟨r.pending.length + 1, true, true⟩

def sampleStateAt (a : ℕ) : Option SampleStateKind := (r.heap.get a).map (·.info.sampleState)

/-- The samples as they are given to the application, with their ranks. -/
def rankedSamples (as : List ℕ) : List RawSample :=
  List.zipWith (fun pc info => ⟨r.heap.payload pc.data, pc.keyHash, info⟩) (as.filterMap r.heap.get)
    (finalizeGenerationRanks r.seenInstances ((as.filterMap r.heap.get).map (·.info)))

variable {r}

/-! ### What a call collects -/

theorem rawTake_eq (now : ℤ) (c : RawCall) (reserved : Bool) : r.rawTake now c reserved =
    if reserved then (r.purgeExpired now).takeAway (r.rawSplit now c).1 (r.rawSplit now c).2
    else (r.purgeExpired now, []) := by
  unfold rawTake rawSplit
  cases c.previous with
  | none => rfl
  | some prev =>
    dsimp only [takeNextInstanceFiltered]
    cases (r.purgeExpired now).nextInstance prev c.filter with
    | none => cases reserved <;> rfl
    | some ih => rfl

theorem rawTakeForLoan_eq (now : ℤ) (c : RawCall) (reserved : Bool) :
    r.rawTakeForLoan now c reserved =
      if reserved then
        ({ r.purgeExpired now with pending := (r.rawSplit now c).2 }.lend (r.rawSplit now c).1,
          (r.rawSplit now c).1)
      else (r.purgeExpired now, []) := by
  unfold rawTakeForLoan rawSplit
  cases c.previous with
  | none => rfl
  | some prev =>
    dsimp only [takeNextInstanceForLoan]
    cases (r.purgeExpired now).nextInstance prev c.filter with
    | none => cases reserved <;> rfl
    | some ih => rfl

theorem rawRead_eq (now : ℤ) (c : RawCall) (clones : ℕ) : r.rawRead now c clones =
    let chosen := (r.rawSplit now c).1
    let out := (r.purgeExpired now).cloneSamples (chosen.take clones)
    (out.1, out.1.rankTaken out.2, decide (chosen.length ≤ clones)) := by
  unfold rawRead rawSplit
  cases c.previous with
  | none => rfl
  | some prev =>
    dsimp only [readNextInstanceFiltered]
    cases (r.purgeExpired now).nextInstance prev c.filter with
    | none => cases clones <;> rfl
    | some ih => rfl

theorem splitMatching_congr {p q : ℕ → Bool} : ∀ {l : List ℕ} {n : ℕ}, (∀ a ∈ l, p a = q a) →
    splitMatching p l n = splitMatching q l n
  | [], _, _ => by
      unfold splitMatching
      rfl
  | _ :: _, 0, _ => rfl
  | a :: l, n + 1, h => by
      unfold splitMatching
      obtain ⟨ha, hl⟩ := List.forall_mem_cons.1 h
      rw [ha, splitMatching_congr hl, splitMatching_congr (n := n + 1) hl]

variable {r' : DataReader} {loaned : List ℕ}

theorem Held.pinnable_eq (h : r.Held loaned) (f : RawFilter) {a : ℕ} (ha : a ∈ r.pending) :
    r.pinnable f a = r.selects f a := by
  obtain ⟨pc, -, hsome⟩ := h.acquire_eq_some ha
  unfold pinnable
  rw [hsome, Option.isSome_some, Bool.and_true]

theorem Held.rawPin_eq (h : r.Held loaned) (now : ℤ) (c : RawCall) (pins : ℕ) :
    r.rawPin now c pins =
      let out := (r.purgeExpired now).pinSamples ((r.rawSplit now c).1.take pins)
      (out.1.lend out.2, out.2) := by
  have hpurge := h.purgeExpired now
  have hsplit (f : RawFilter) : splitMatching ((r.purgeExpired now).pinnable f)
      (r.purgeExpired now).pending (limit c.maxSamples) =
        splitMatching ((r.purgeExpired now).selects f) (r.purgeExpired now).pending
          (limit c.maxSamples) :=
    splitMatching_congr fun a ha => hpurge.pinnable_eq f ha
  unfold rawPin rawSplit
  cases c.previous with
  | none =>
    dsimp only [pinSamplesForLoan]
    rw [hsplit]
  | some prev =>
    dsimp only [pinNextInstanceForLoan]
    cases (r.purgeExpired now).nextInstance prev c.filter with
    | none => cases pins <;> rfl
    | some ih =>
      dsimp only [Option.elim]
      rw [hsplit]

/-! ### Ranks -/

theorem length_rankedInfos (seen : Table HandleT InstanceEntry) (pcs : List PendingChange) :
    (finalizeGenerationRanks seen (pcs.map (·.info))).length = pcs.length := by
  rw [Accounted.length_finalizeGenerationRanks, List.length_map]

/-- The ranks do not depend on the sample states. -/
theorem finalizeGenerationRanks_asRead (seen : Table HandleT InstanceEntry) :
    ∀ l : List SampleInfo, finalizeGenerationRanks seen (l.map SampleInfo.asRead) =
      (finalizeGenerationRanks seen l).map SampleInfo.asRead
  | [] => rfl
  | i :: l => by
      have hfilter : (l.map SampleInfo.asRead).filter
          (fun j => j.instanceHandle = (SampleInfo.asRead i).instanceHandle) =
            (l.filter fun j => j.instanceHandle = i.instanceHandle).map SampleInfo.asRead := by
        rw [List.filter_map]
        rfl
      have hgenerations : ((l.filter fun j => j.instanceHandle = i.instanceHandle).map
          SampleInfo.asRead).map SampleInfo.generations =
            (l.filter fun j => j.instanceHandle = i.instanceHandle).map SampleInfo.generations := by
        rw [List.map_map]
        rfl
      rw [List.map_cons, finalizeGenerationRanks, finalizeGenerationRanks, List.map_cons,
        finalizeGenerationRanks_asRead seen l]
      rw [hfilter, hgenerations, List.length_map]
      rfl

theorem sampleState_finalizeGenerationRanks (seen : Table HandleT InstanceEntry) :
    ∀ l : List SampleInfo,
      (finalizeGenerationRanks seen l).map (·.sampleState) = l.map (·.sampleState)
  | [] => rfl
  | i :: l => congrArg (i.sampleState :: ·) (sampleState_finalizeGenerationRanks seen l)

/-! ### What is given to the application -/

theorem takeAway_rankedSamples (r : DataReader) (taken kept : List ℕ) :
    (r.takeAway taken kept).2.map (fun s =>
      (⟨(r.takeAway taken kept).1.heap.payload s.data, s.keyHash, s.info⟩ : RawSample)) =
        r.rankedSamples taken := by
  have hpayload : (r.takeAway taken kept).1.heap.payload = r.heap.payload := by
    unfold Heap.payload
    rw [show (r.takeAway taken kept).1.heap.payloads = r.heap.payloads from
      Held.payloads_foldl_destroy taken r.heap]
  rw [hpayload]
  exact List.map_zipWith

theorem filterMap_get_modify_of_notMem {h : Heap} {a : ℕ} {f : PendingChange → PendingChange}
    {as : List ℕ} (ha : a ∉ as) : as.filterMap (h.modify a f).get = as.filterMap h.get := by
  refine List.filterMap_congr fun b hb => ?_
  have hne : b ≠ a := fun hba => ha (hba ▸ hb)
  rw [Heap.get_modify, if_neg hne]

/-- Each sample is given its own rank. -/
theorem filterMap_get_foldl_modify : ∀ (as : List ℕ) (infos : List SampleInfo) (h : Heap),
    as.Nodup → (∀ a ∈ as, (h.get a).isSome = true) → infos.length = as.length →
      as.filterMap ((as.zip infos).foldl
        (fun h p => h.modify p.1 fun pc => { pc with info := p.2 }) h).get =
      List.zipWith (fun pc info => { pc with info := info }) (as.filterMap h.get) infos
  | [], _, _, _, _, _ => rfl
  | a :: as, [], _, _, _, hlen => nomatch hlen
  | a :: as, i :: infos, h, hnodup, hsome, hlen => by
      obtain ⟨ha, hnodup⟩ := List.nodup_cons.1 hnodup
      obtain ⟨hget, hsome⟩ := List.forall_mem_cons.1 hsome
      obtain ⟨pc, hpc⟩ := Option.isSome_iff_exists.1 hget
      have hsome' : ∀ b ∈ as,
          ((h.modify a fun pc => { pc with info := i }).get b).isSome = true := by
        intro b hb
        have hne : b ≠ a := fun hba => ha (hba ▸ hb)
        rw [Heap.get_modify, if_neg hne]
        exact hsome b hb
      have hrest := filterMap_get_foldl_modify as infos _ hnodup hsome' (Nat.succ.inj hlen)
      rw [filterMap_get_modify_of_notMem ha] at hrest
      -- the others leave the first as it is
      have hfirst : ∀ (l : List (ℕ × SampleInfo)) (h : Heap), (∀ p ∈ l, p.1 ≠ a) →
          (l.foldl (fun h p => h.modify p.1 fun pc => { pc with info := p.2 }) h).get a =
            h.get a := by
        intro l
        induction l with
        | nil => exact fun h _ => rfl
        | cons p l ih =>
          intro h hl
          obtain ⟨hp, hl⟩ := List.forall_mem_cons.1 hl
          rw [List.foldl_cons, ih _ hl, Heap.get_modify, if_neg hp.symm]
      have hother : ∀ p ∈ as.zip infos, p.1 ≠ a := fun p hp hpa =>
        ha (hpa ▸ (List.of_mem_zip hp).1)
      rw [List.zip_cons_cons, List.foldl_cons, List.filterMap_cons, List.filterMap_cons, hpc,
        hfirst _ _ hother, Heap.get_modify, if_pos rfl, hpc]
      exact congrArg ({ pc with info := i } :: ·) hrest

theorem lend_rankedSamples {as : List ℕ} (hnodup : as.Nodup)
    (hsome : ∀ a ∈ as, (r.heap.get a).isSome = true) :
    (as.filterMap (r.lend as).heap.get).map (fun pc =>
      (⟨(r.lend as).heap.payload pc.data, pc.keyHash, pc.info⟩ : RawSample)) =
        r.rankedSamples as := by
  have hlen : (finalizeGenerationRanks r.seenInstances
      ((as.filterMap r.heap.get).map (·.info))).length = as.length := by
    rw [length_rankedInfos]
    exact List.filterMap_length_eq_length.2 hsome
  have hpayload : (r.lend as).heap.payload = r.heap.payload := by
    unfold Heap.payload
    rw [show (r.lend as).heap.payloads = r.heap.payloads from Held.payloads_foldl_modify _ r.heap]
  rw [hpayload, show as.filterMap (r.lend as).heap.get = _ from
    filterMap_get_foldl_modify as _ r.heap hnodup hsome hlen]
  exact List.map_zipWith

/-- What marking a sample read makes of it. -/
def marked (pc : PendingChange) : PendingChange := { pc with info := SampleInfo.asRead pc.info }

/-- What pinning a sample makes of it. -/
def pinned (pc : PendingChange) : PendingChange :=
  { marked pc with quiesce := { pc.quiesce with count := pc.quiesce.count + 1 } }

/-- Clones have the contents of the samples, which are marked read. -/
theorem cloneSamples_spec : ∀ (as : List ℕ) (r : DataReader), as.Nodup →
    (∀ a ∈ as, ∃ pc, r.heap.get a = some pc ∧ pc.data < r.heap.payloads.length) →
    (r.cloneSamples as).2.map (fun s =>
        ((r.cloneSamples as).1.heap.payload s.data, s.keyHash, s.info)) =
      (as.filterMap r.heap.get).map (fun pc => (r.heap.payload pc.data, pc.keyHash, pc.info)) ∧
    (∀ b, (r.cloneSamples as).1.heap.get b =
      if b ∈ as then (r.heap.get b).map marked else r.heap.get b) ∧
    ∃ more, (r.cloneSamples as).1.heap.payloads = r.heap.payloads ++ more
  | [], r, _, _ => ⟨rfl, fun b => (if_neg List.not_mem_nil).symm, [], (List.append_nil _).symm⟩
  | a :: as, r, hnodup, hin => by
      obtain ⟨ha, hnodup⟩ := List.nodup_cons.1 hnodup
      obtain ⟨⟨pc, hpc, hdata⟩, hin⟩ := List.forall_mem_cons.1 hin
      obtain ⟨r₁, hr₁⟩ : ∃ r₁ : DataReader, r₁ = { (r.dupe (r.heap.payload pc.data)).2 with
        heap := (r.dupe (r.heap.payload pc.data)).2.heap.modify a marked } := ⟨_, rfl⟩
      have hclone : r.cloneSample a =
          (r₁, some ⟨r.heap.payloads.length, pc.info, pc.keyHash⟩) := by
        unfold cloneSample
        rw [hpc, hr₁]
        rfl
      have hget (b : ℕ) : r₁.heap.get b =
          if b = a then (r.heap.get b).map marked else r.heap.get b := by
        rw [hr₁]
        exact Heap.get_modify _ a b marked
      have hpayloads : r₁.heap.payloads = r.heap.payloads ++ [r.heap.payload pc.data] := by
        rw [hr₁]
        rfl
      have hin₁ : ∀ b ∈ as, ∃ pc, r₁.heap.get b = some pc ∧ pc.data < r₁.heap.payloads.length := by
        intro b hb
        obtain ⟨pb, hpb, hlt⟩ := hin b hb
        have hne : b ≠ a := fun hba => ha (hba ▸ hb)
        rw [hget, if_neg hne, hpayloads, List.length_append]
        exact ⟨pb, hpb, hlt.trans_le (Nat.le_add_right _ _)⟩
      obtain ⟨hsamples, hcells, more, hmore⟩ := cloneSamples_spec as r₁ hnodup hin₁
      have hout : r.cloneSamples (a :: as) = ((r₁.cloneSamples as).1,
          ⟨r.heap.payloads.length, pc.info, pc.keyHash⟩ :: (r₁.cloneSamples as).2) := by
        rw [cloneSamples, hclone]
        rfl
      -- a payload that was there stays what it was
      have hold {p : ℕ} (hp : p < r₁.heap.payloads.length) :
          (r₁.cloneSamples as).1.heap.payload p = r₁.heap.payload p := by
        unfold Heap.payload
        rw [hmore, List.getElem?_append_left hp]
      have hlen : r₁.heap.payloads.length = r.heap.payloads.length + 1 := by
        rw [hpayloads, List.length_append]
        rfl
      have hfirst : r₁.heap.payload r.heap.payloads.length = r.heap.payload pc.data := by
        unfold Heap.payload
        rw [hpayloads, List.getElem?_concat_length]
        rfl
      have hothers : (as.filterMap r₁.heap.get).map (fun pc =>
          (r₁.heap.payload pc.data, pc.keyHash, pc.info)) =
            (as.filterMap r.heap.get).map fun pc =>
              (r.heap.payload pc.data, pc.keyHash, pc.info) := by
        have hsame : as.filterMap r₁.heap.get = as.filterMap r.heap.get := by
          refine List.filterMap_congr fun b hb => ?_
          have hne : b ≠ a := fun hba => ha (hba ▸ hb)
          rw [hget, if_neg hne]
        rw [hsame]
        refine List.map_congr_left fun pb hpb => ?_
        obtain ⟨b, hb, hget⟩ := List.mem_filterMap.1 hpb
        obtain ⟨pb', hpb', hlt⟩ := hin b hb
        cases Option.some.inj (hget.symm.trans hpb')
        have hpayload : r₁.heap.payload pb.data = r.heap.payload pb.data := by
          unfold Heap.payload
          rw [hpayloads, List.getElem?_append_left hlt]
        rw [hpayload]
      rw [hout]
      refine ⟨?_, fun b => ?_, [r.heap.payload pc.data] ++ more, ?_⟩
      · rw [List.map_cons, hsamples, hothers, List.filterMap_cons, hpc, List.map_cons,
          hold (hlen ▸ Nat.lt_succ_self _), hfirst]
      · dsimp only
        rw [hcells, hget]
        by_cases hba : b = a
        · subst hba
          rw [if_neg ha, if_pos rfl, if_pos List.mem_cons_self]
        · rw [if_neg hba]
          exact if_congr (by rw [List.mem_cons, or_iff_right hba]) rfl rfl
      · rw [← List.append_assoc, ← hpayloads]
        exact hmore

theorem pinSamples_spec : ∀ (as : List ℕ) (r : DataReader) (loaned : List ℕ), as.Nodup →
    as ⊆ r.pending → r.Held loaned →
    (r.pinSamples as).2 = as ∧
    (∀ b, (r.pinSamples as).1.heap.get b =
      if b ∈ as then (r.heap.get b).map pinned else r.heap.get b) ∧
    (r.pinSamples as).1.heap.payloads = r.heap.payloads
  | [], r, _, _, _, _ => ⟨rfl, fun b => (if_neg List.not_mem_nil).symm, rfl⟩
  | a :: as, r, loaned, hnodup, hsub, h => by
      obtain ⟨ha, hnodup⟩ := List.nodup_cons.1 hnodup
      obtain ⟨hap, hsub⟩ := List.cons_subset.1 hsub
      obtain ⟨pc, hpc, hsome⟩ := h.acquire_eq_some hap
      obtain ⟨heap, hheap⟩ : ∃ heap : Heap, heap = r.heap.modify a fun pc' =>
        { pc' with quiesce := { pc.quiesce with count := pc.quiesce.count + 1 } } := ⟨_, rfl⟩
      rw [← hheap] at hsome
      obtain ⟨r₁, hr₁⟩ : ∃ r₁ : DataReader, r₁ = { r with
        heap := heap.modify a fun pc => { pc with info.sampleState := .read } } := ⟨_, rfl⟩
      have hpin : r₁.Held (a :: loaned) := by
        rw [hr₁]
        exact h.pin hap hsome
      have hget (b : ℕ) : r₁.heap.get b =
          if b = a then (r.heap.get b).map pinned else r.heap.get b := by
        rw [hr₁]
        dsimp only
        rw [hheap, Heap.get_modify, Heap.get_modify]
        by_cases hba : b = a
        · subst hba
          rw [if_pos rfl, if_pos rfl, if_pos rfl, hpc]
          rfl
        · rw [if_neg hba, if_neg hba, if_neg hba]
      have hout : r.pinSamples (a :: as) =
          ((r₁.pinSamples as).1, a :: (r₁.pinSamples as).2) := by
        rw [pinSamples, hsome, hr₁]
      have hsub₁ : as ⊆ r₁.pending := by
        rw [hr₁]
        exact hsub
      obtain ⟨hpins, hcells, hpayloads⟩ := pinSamples_spec as r₁ _ hnodup hsub₁ hpin
      rw [hout]
      refine ⟨congrArg (a :: ·) hpins, fun b => ?_, hpayloads.trans ?_⟩
      · dsimp only
        rw [hcells, hget]
        by_cases hba : b = a
        · subst hba
          rw [if_neg ha, if_pos rfl, if_pos List.mem_cons_self]
        · rw [if_neg hba]
          exact if_congr (by rw [List.mem_cons, or_iff_right hba]) rfl rfl
      · rw [hr₁]
        show heap.payloads = r.heap.payloads
        rw [hheap]
        rfl

/-! ### The two modes -/

theorem rawSplit_sublist (r : DataReader) (now : ℤ) (c : RawCall) :
    (r.rawSplit now c).1.Sublist (r.purgeExpired now).pending ∧
      (r.rawSplit now c).2.Sublist (r.purgeExpired now).pending := by
  unfold rawSplit
  cases c.previous with
  | none => exact Held.splitMatching_sublist _ _
  | some prev =>
    dsimp only
    cases (r.purgeExpired now).nextInstance prev c.filter with
    | none => exact ⟨List.nil_sublist _, .refl _⟩
    | some ih => exact Held.splitMatching_sublist _ _

theorem rawSplit_perm (r : DataReader) (now : ℤ) (c : RawCall) :
    ((r.rawSplit now c).1 ++ (r.rawSplit now c).2).Perm (r.purgeExpired now).pending := by
  unfold rawSplit
  cases c.previous with
  | none => exact Accesses.splitMatching_perm _ _ _
  | some prev =>
    dsimp only
    cases (r.purgeExpired now).nextInstance prev c.filter with
    | none => exact .refl _
    | some ih => exact Accesses.splitMatching_perm _ _ _

theorem take_plenty (r : DataReader) (now : ℤ) (c : RawCall) :
    (r.rawSplit now c).1.take (r.pending.length + 1) = (r.rawSplit now c).1 := by
  refine List.take_of_length_le ?_
  have hchosen := (rawSplit_sublist r now c).1.length_le
  have hpurge : (r.purgeExpired now).pending.length ≤ r.pending.length := List.length_filter_le _ _
  omega

theorem buildRawOutputFromTaken_built (r : DataReader) (taken : List TakenSample) :
    r.buildRawOutputFromTaken taken true =
      (r, some (taken.map fun s => ⟨r.heap.payload s.data, s.keyHash, s.info⟩)) := by
  unfold buildRawOutputFromTaken
  by_cases hnil : taken = []
  · rw [if_pos hnil, hnil]
    rfl
  · rw [if_neg hnil, if_pos rfl]

theorem buildRawOutputFromPins_built (r : DataReader) (as : List ℕ) :
    r.buildRawOutputFromPins as true =
      (r, some ((as.filterMap r.heap.get).map fun pc =>
        ⟨r.heap.payload pc.data, pc.keyHash, pc.info⟩)) := by
  unfold buildRawOutputFromPins
  by_cases hnil : as = []
  · rw [if_pos hnil, hnil]
    rfl
  · rw [if_neg hnil, if_pos rfl]

theorem seenInstances_cloneSamples (r : DataReader) (as : List ℕ) :
    (r.cloneSamples as).1.seenInstances = r.seenInstances := by
  rw [(Accesses.cloneSamples as r).rest]

theorem seenInstances_pinSamples (r : DataReader) (as : List ℕ) :
    (r.pinSamples as).1.seenInstances = r.seenInstances := by
  rw [(Accesses.pinSamples as r).rest]

/-- The clones of a read, with their ranks, are the samples. -/
theorem cloneSamples_rankedSamples {as : List ℕ} (hnodup : as.Nodup)
    (hin : ∀ a ∈ as, ∃ pc, r.heap.get a = some pc ∧ pc.data < r.heap.payloads.length) :
    ((r.cloneSamples as).1.rankTaken (r.cloneSamples as).2).map (fun s =>
      (⟨(r.cloneSamples as).1.heap.payload s.data, s.keyHash, s.info⟩ : RawSample)) =
        r.rankedSamples as := by
  obtain ⟨hsamples, -, -⟩ := cloneSamples_spec as r hnodup hin
  obtain ⟨r', hr'⟩ : ∃ r', r' = (r.cloneSamples as).1 := ⟨_, rfl⟩
  obtain ⟨samples, hs⟩ : ∃ samples, samples = (r.cloneSamples as).2 := ⟨_, rfl⟩
  have hseen := seenInstances_cloneSamples r as
  rw [← hr', ← hs] at hsamples
  rw [← hr'] at hseen
  rw [← hr', ← hs]
  have hinfos : samples.map (·.info) = (as.filterMap r.heap.get).map (·.info) := by
    have h := congrArg (List.map fun t => t.2.2) hsamples
    rw [List.map_map, List.map_map] at h
    exact h
  have hzip (ranks : List SampleInfo) : List.zipWith (fun (s : TakenSample) info =>
      (⟨r'.heap.payload s.data, s.keyHash, info⟩ : RawSample)) samples ranks =
        List.zipWith (fun pc info => ⟨r.heap.payload pc.data, pc.keyHash, info⟩)
          (as.filterMap r.heap.get) ranks := by
    have h := congrArg (fun l => List.zipWith (fun (t : List UInt8 × KeyHash × SampleInfo) info =>
      (⟨t.1, t.2.1, info⟩ : RawSample)) l ranks) hsamples
    simpa only [List.zipWith_map_left] using h
  unfold rankTaken rankedSamples
  rw [List.map_zipWith, hinfos, hseen]
  exact hzip _

/-- The samples a read loan gives are those of the queue, shown as read. -/
theorem Held.pinSamples_rankedSamples (h : r.Held loaned) {as : List ℕ} (hnodup : as.Nodup)
    (hsub : as ⊆ r.pending) :
    (r.pinSamples as).1.rankedSamples as = (r.rankedSamples as).map RawSample.asRead := by
  obtain ⟨-, hcells, hpayloads⟩ := pinSamples_spec as r loaned hnodup hsub h
  have hget : as.filterMap (r.pinSamples as).1.heap.get =
      (as.filterMap r.heap.get).map pinned := by
    rw [List.map_filterMap]
    refine List.filterMap_congr fun b hb => ?_
    rw [hcells, if_pos hb]
  have hpayload : (r.pinSamples as).1.heap.payload = r.heap.payload := by
    unfold Heap.payload
    rw [hpayloads]
  have hinfos : ((as.filterMap r.heap.get).map pinned).map (·.info) =
      ((as.filterMap r.heap.get).map (·.info)).map SampleInfo.asRead := by
    rw [List.map_map, List.map_map]
    rfl
  unfold rankedSamples
  rw [hget, hpayload, hinfos, seenInstances_pinSamples, finalizeGenerationRanks_asRead,
    List.zipWith_map, List.map_zipWith]
  rfl

theorem rawReadOrTake_copy_take {c : RawCall} (hd : c.destructive = true) (now : ℤ) :
    r.rawReadOrTake now c false r.plenty =
      (((r.purgeExpired now).takeAway (r.rawSplit now c).1 (r.rawSplit now c).2).1,
        some ((r.purgeExpired now).rankedSamples (r.rawSplit now c).1)) := by
  have hreserved : decide (r.plenty.collected ≠ 0) = true := decide_eq_true (Nat.succ_ne_zero _)
  have hrefused : ¬ (r.plenty.collected = 0 ∧ (r.rawSplit now c).1 ≠ []) :=
    fun h => Nat.succ_ne_zero _ h.1
  unfold rawReadOrTake
  rw [hd]
  dsimp only
  rw [hreserved, rawTake_eq, if_pos rfl, if_neg hrefused]
  dsimp only [plenty]
  rw [buildRawOutputFromTaken_built, takeAway_rankedSamples]

theorem Held.rawReadOrTake_copy_read (h : r.Held loaned) {c : RawCall} (hd : c.destructive = false)
    (now : ℤ) : r.rawReadOrTake now c false r.plenty =
      (((r.purgeExpired now).cloneSamples (r.rawSplit now c).1).1,
        some ((r.purgeExpired now).rankedSamples (r.rawSplit now c).1)) := by
  have hpurge := h.purgeExpired now
  have hchosen := (rawSplit_sublist r now c).1
  have hlen : (r.rawSplit now c).1.length ≤ r.pending.length + 1 := by
    rw [← take_plenty, List.length_take]
    exact Nat.min_le_left _ _
  unfold rawReadOrTake
  rw [hd]
  dsimp only [plenty]
  rw [rawRead_eq]
  dsimp only
  rw [take_plenty, if_pos (decide_eq_true hlen), buildRawOutputFromTaken_built,
    cloneSamples_rankedSamples (hpurge.nodup.sublist hchosen)]
  intro a ha
  obtain ⟨pc, hpc, -, -, hdata⟩ := hpurge.holds a (hchosen.subset ha)
  exact ⟨pc, hpc, hdata⟩

theorem Held.isSome_get (h : r.Held loaned) {a : ℕ} (ha : a ∈ r.pending) :
    (r.heap.get a).isSome = true := by
  obtain ⟨pc, hpc, -⟩ := h.holds a ha
  rw [hpc]
  rfl

theorem Held.rawReadOrTake_loan_take (h : r.Held loaned) {c : RawCall} (hd : c.destructive = true)
    (now : ℤ) : r.rawReadOrTake now c true r.plenty =
      ({ r.purgeExpired now with pending := (r.rawSplit now c).2 }.lend (r.rawSplit now c).1,
        some ((r.purgeExpired now).rankedSamples (r.rawSplit now c).1)) := by
  have hpurge := h.purgeExpired now
  have hchosen := (rawSplit_sublist r now c).1
  have hreserved : decide (r.plenty.collected ≠ 0) = true := decide_eq_true (Nat.succ_ne_zero _)
  have hrefused (as : List ℕ) : ¬ (r.plenty.collected = 0 ∧ (r.rawSplit now c).1 ≠ [] ∨
      as ≠ [] ∧ r.plenty.sliced = false) := by
    rintro (h | h)
    · exact Nat.succ_ne_zero _ h.1
    · exact Bool.noConfusion h.2
  unfold rawReadOrTake
  rw [hd]
  dsimp only
  rw [if_pos rfl, hreserved, rawTakeForLoan_eq, if_pos rfl, if_neg (hrefused _)]
  dsimp only [plenty]
  rw [buildRawOutputFromPins_built, lend_rankedSamples (hpurge.nodup.sublist hchosen)]
  · rfl
  · exact fun a ha => hpurge.isSome_get (hchosen.subset ha)

theorem Held.rawReadOrTake_loan_read (h : r.Held loaned) {c : RawCall} (hd : c.destructive = false)
    (now : ℤ) : r.rawReadOrTake now c true r.plenty =
      (((r.purgeExpired now).pinSamples (r.rawSplit now c).1).1.lend (r.rawSplit now c).1,
        some (((r.purgeExpired now).rankedSamples (r.rawSplit now c).1).map RawSample.asRead)) := by
  have hpurge := h.purgeExpired now
  have hchosen := (rawSplit_sublist r now c).1
  have hnodup := hpurge.nodup.sublist hchosen
  obtain ⟨hpins, hcells, -⟩ := pinSamples_spec _ _ _ hnodup hchosen.subset hpurge
  have hrefused (as : List ℕ) : ¬ (r.plenty.collected = 0 ∧ (r.rawSplit now c).1 ≠ [] ∨
      as ≠ [] ∧ r.plenty.sliced = false) := by
    rintro (h | h)
    · exact Nat.succ_ne_zero _ h.1
    · exact Bool.noConfusion h.2
  have hpin : r.rawPin now c r.plenty.collected =
      (((r.purgeExpired now).pinSamples (r.rawSplit now c).1).1.lend (r.rawSplit now c).1,
        (r.rawSplit now c).1) := by
    rw [h.rawPin_eq]
    dsimp only [plenty]
    rw [take_plenty, hpins]
  unfold rawReadOrTake
  rw [hd]
  dsimp only
  rw [if_neg Bool.false_ne_true, hpin, if_neg (hrefused _)]
  dsimp only [plenty]
  rw [buildRawOutputFromPins_built, lend_rankedSamples hnodup,
    hpurge.pinSamples_rankedSamples hnodup hchosen.subset]
  intro a ha
  rw [hcells, if_pos ha, Option.isSome_map]
  exact hpurge.isSome_get (hchosen.subset ha)

/-! ### Sample states -/

/-- Infos put into samples change nothing that they agree on with those that were there. -/
theorem map_info_foldl_modify {α : Type} (g : SampleInfo → α) : ∀ (l : List (ℕ × SampleInfo))
    (h : Heap), (∀ p ∈ l, (h.get p.1).map (fun pc => g pc.info) = some (g p.2)) → ∀ a,
      ((l.foldl (fun h p => h.modify p.1 fun pc => { pc with info := p.2 }) h).get a).map
        (fun pc => g pc.info) = (h.get a).map fun pc => g pc.info
  | [], _, _, _ => rfl
  | p :: l, h, hl, a => by
      obtain ⟨hp, hl⟩ := List.forall_mem_cons.1 hl
      have hstep (b : ℕ) : ((h.modify p.1 fun pc => { pc with info := p.2 }).get b).map
          (fun pc => g pc.info) = (h.get b).map fun pc => g pc.info := by
        rw [Heap.get_modify]
        by_cases hb : b = p.1
        · rw [if_pos hb, hb, hp]
          obtain ⟨pc, hpc, -⟩ := Option.map_eq_some_iff.1 hp
          rw [hpc]
          rfl
        · rw [if_neg hb]
      rw [List.foldl_cons, map_info_foldl_modify g l _ (fun q hq => (hstep q.1).trans (hl q hq)),
        hstep]

theorem forall_mem_zip_of_map_eq {α β γ : Type} {f : α → γ} {g : β → γ} :
    ∀ {l : List α} {m : List β}, l.map f = m.map g → ∀ p ∈ l.zip m, f p.1 = g p.2
  | [], _, _, _, hp => nomatch hp
  | _ :: _, [], _, _, hp => nomatch hp
  | a :: l, b :: m, h, p, hp => by
      obtain ⟨hab, hlm⟩ := List.cons.inj h
      rcases List.mem_cons.1 hp with rfl | hp
      · exact hab
      · exact forall_mem_zip_of_map_eq hlm p hp

theorem map_get_of_isSome {α : Type} {h : Heap} {f : PendingChange → α} : ∀ {as : List ℕ},
    (∀ a ∈ as, (h.get a).isSome = true) →
      as.map (fun a => (h.get a).map f) = (as.filterMap h.get).map fun pc => some (f pc)
  | [], _ => rfl
  | a :: as, hsome => by
      obtain ⟨ha, hsome⟩ := List.forall_mem_cons.1 hsome
      obtain ⟨pc, hpc⟩ := Option.isSome_iff_exists.1 ha
      rw [List.map_cons, List.filterMap_cons, hpc, map_get_of_isSome hsome]
      rfl

/-- The ranks of a loan change nothing else of the infos. -/
theorem map_info_lend {α : Type} {g : SampleInfo → α}
    (hg : ∀ seen l, (finalizeGenerationRanks seen l).map g = l.map g) {as : List ℕ}
    (hsome : ∀ a ∈ as, (r.heap.get a).isSome = true) (a : ℕ) :
    ((r.lend as).heap.get a).map (fun pc => g pc.info) =
      (r.heap.get a).map fun pc => g pc.info := by
  refine map_info_foldl_modify g _ r.heap (forall_mem_zip_of_map_eq (f := fun a =>
    (r.heap.get a).map fun pc => g pc.info) (g := fun i => some (g i)) ?_) a
  have hinfos := congrArg (List.map some) (hg r.seenInstances
    ((as.filterMap r.heap.get).map (·.info)))
  rw [List.map_map, List.map_map, List.map_map] at hinfos
  rw [map_get_of_isSome hsome]
  exact hinfos.symm

theorem sampleStateAt_lend {as : List ℕ} (hsome : ∀ a ∈ as, (r.heap.get a).isSome = true) (a : ℕ) :
    (r.lend as).sampleStateAt a = r.sampleStateAt a :=
  map_info_lend sampleState_finalizeGenerationRanks hsome a

/-! ### The modes compared -/

/-- Copy and loan mode give the application the same samples, and leave the same queue. -/
def ModesAgree (r : DataReader) (now : ℤ) (c : RawCall) : Prop :=
  (r.rawReadOrTake now c true r.plenty).2 = (r.rawReadOrTake now c false r.plenty).2 ∧
  (r.rawReadOrTake now c true r.plenty).1.pending =
    (r.rawReadOrTake now c false r.plenty).1.pending ∧
  ∀ a ∈ (r.rawReadOrTake now c false r.plenty).1.pending,
    (r.rawReadOrTake now c true r.plenty).1.sampleStateAt a =
      (r.rawReadOrTake now c false r.plenty).1.sampleStateAt a

theorem sampleState_rankedSamples (r : DataReader) (as : List ℕ) :
    (r.rankedSamples as).map (·.info.sampleState) =
      (as.filterMap r.heap.get).map (·.info.sampleState) := by
  have hzip : (r.rankedSamples as).map (·.info) = finalizeGenerationRanks r.seenInstances
      ((as.filterMap r.heap.get).map (·.info)) := by
    unfold rankedSamples
    rw [List.map_zipWith, ← List.map_uncurry_zip_eq_zipWith]
    exact List.map_snd_zip (length_rankedInfos _ _).le
  have hstate := congrArg (List.map (·.sampleState)) hzip
  rw [List.map_map, sampleState_finalizeGenerationRanks, List.map_map] at hstate
  exact hstate

theorem sampleStateAt_congr (hs : r.heap.SameContents r'.heap) (a : ℕ) :
    r'.sampleStateAt a = r.sampleStateAt a := hs.map_get (fun _ _ => rfl) a

theorem sampleStateAt_takeAway (r : DataReader) (taken kept : List ℕ) (a : ℕ) :
    (r.takeAway taken kept).1.sampleStateAt a = r.sampleStateAt a := by
  unfold sampleStateAt Heap.get
  rw [show (r.takeAway taken kept).1.heap.structs = r.heap.structs from
    Heap.structs_foldl_destroy r.heap taken]

theorem RawSample.asRead_eq_iff {s : RawSample} : s.asRead = s ↔ s.info.sampleState = .read := by
  obtain ⟨payload, keyHash, info⟩ := s
  obtain ⟨state⟩ := info
  simp [RawSample.asRead, SampleInfo.asRead, eq_comm]

theorem map_asRead_eq_iff {l : List RawSample} :
    l.map RawSample.asRead = l ↔ ∀ s ∈ l, s.info.sampleState = .read := by
  conv_lhs => rw [← List.map_id l, List.map_map]
  rw [List.map_inj_left]
  exact forall₂_congr fun s _ => RawSample.asRead_eq_iff

/-- Every sample of an output was read before exactly if every sample it is made of was. -/
theorem rankedSamples_read_iff {as : List ℕ} (hsome : ∀ a ∈ as, (r.heap.get a).isSome = true) :
    (∀ s ∈ r.rankedSamples as, s.info.sampleState = .read) ↔
      ∀ a ∈ as, r.sampleStateAt a = some .read := by
  have hstates : (r.rankedSamples as).map (fun s => some s.info.sampleState) =
      as.map r.sampleStateAt := by
    have h := congrArg (List.map some) (sampleState_rankedSamples r as)
    rw [List.map_map, List.map_map] at h
    exact h.trans (map_get_of_isSome hsome).symm
  have hall := congrArg (fun l => ∀ x ∈ l, x = some SampleStateKind.read) hstates
  simp only [List.forall_mem_map, Option.some.injEq] at hall
  exact iff_of_eq hall

theorem Held.sampleStateAt_pinSamples (h : r.Held loaned) {as : List ℕ} (hnodup : as.Nodup)
    (hsub : as ⊆ r.pending) (a : ℕ) : (r.pinSamples as).1.sampleStateAt a =
      if a ∈ as then (r.sampleStateAt a).map fun _ => .read else r.sampleStateAt a := by
  obtain ⟨-, hcells, -⟩ := pinSamples_spec as r loaned hnodup hsub h
  unfold sampleStateAt
  rw [hcells]
  split_ifs
  · rw [Option.map_map, Option.map_map]
    rfl
  · rfl

theorem Held.get_cloneSamples (h : r.Held loaned) {as : List ℕ} (hnodup : as.Nodup)
    (hsub : as ⊆ r.pending) (a : ℕ) : (r.cloneSamples as).1.heap.get a =
      if a ∈ as then (r.heap.get a).map marked else r.heap.get a := by
  refine (cloneSamples_spec as r hnodup fun a ha => ?_).2.1 a
  obtain ⟨pc, hpc, -, -, hdata⟩ := h.holds a (hsub ha)
  exact ⟨pc, hpc, hdata⟩

theorem Held.sampleStateAt_cloneSamples (h : r.Held loaned) {as : List ℕ} (hnodup : as.Nodup)
    (hsub : as ⊆ r.pending) (a : ℕ) : (r.cloneSamples as).1.sampleStateAt a =
      if a ∈ as then (r.sampleStateAt a).map fun _ => .read else r.sampleStateAt a := by
  unfold sampleStateAt
  rw [h.get_cloneSamples hnodup hsub]
  split_ifs
  · rw [Option.map_map, Option.map_map]
    rfl
  · rfl

/-- Cloning changes only the heap. -/
theorem cloneSamples_frame : ∀ (as : List ℕ) (r : DataReader),
    ∃ h, (r.cloneSamples as).1 = { r with heap := h }
  | [], r => ⟨r.heap, rfl⟩
  | a :: as, r => by
      obtain ⟨h, hstep⟩ : ∃ h, (r.cloneSample a).1 = { r with heap := h } := by
        unfold cloneSample
        cases r.heap.get a with
        | none => exact ⟨r.heap, rfl⟩
        | some pc => exact ⟨_, rfl⟩
      obtain ⟨h', hrest⟩ := cloneSamples_frame as (r.cloneSample a).1
      refine ⟨h', hrest.trans ?_⟩
      rw [hstep]

/-- Pinning changes only the heap. -/
theorem pinSamples_frame : ∀ (as : List ℕ) (r : DataReader),
    ∃ h, (r.pinSamples as).1 = { r with heap := h }
  | [], r => ⟨r.heap, rfl⟩
  | a :: as, r => by
      unfold pinSamples
      cases r.heap.acquire a with
      | none => exact pinSamples_frame as r
      | some h =>
        exact pinSamples_frame as
          { r with heap := h.modify a fun pc => { pc with info.sampleState := .read } }

theorem Held.modesAgree_iff (h : r.Held loaned) (now : ℤ) (c : RawCall) : r.ModesAgree now c ↔
    c.destructive = true ∨ ∀ a ∈ (r.rawSplit now c).1, r.sampleStateAt a = some .read := by
  have hpurge := h.purgeExpired now
  have hchosen := (rawSplit_sublist r now c).1
  have hnodup := hpurge.nodup.sublist hchosen
  have hsome : ∀ a ∈ (r.rawSplit now c).1, ((r.purgeExpired now).heap.get a).isSome = true :=
    fun a ha => hpurge.isSome_get (hchosen.subset ha)
  unfold ModesAgree
  cases hd : c.destructive with
  | true =>
    rw [rawReadOrTake_copy_take hd, h.rawReadOrTake_loan_take hd]
    refine iff_of_true ⟨rfl, rfl, fun a _ => ?_⟩ (.inl rfl)
    exact (sampleStateAt_lend (r := { r.purgeExpired now with pending := _ }) hsome a).trans
      (sampleStateAt_takeAway _ _ _ a).symm
  | false =>
    rw [h.rawReadOrTake_copy_read hd, h.rawReadOrTake_loan_read hd, or_iff_right Bool.false_ne_true]
    have hsome' : ∀ a ∈ (r.rawSplit now c).1,
        (((r.purgeExpired now).pinSamples (r.rawSplit now c).1).1.heap.get a).isSome = true := by
      intro a ha
      obtain ⟨-, hcells, -⟩ := pinSamples_spec _ _ _ hnodup hchosen.subset hpurge
      rw [hcells, if_pos ha, Option.isSome_map]
      exact hsome a ha
    have hstates (a : ℕ) : (((r.purgeExpired now).pinSamples (r.rawSplit now c).1).1.lend
        (r.rawSplit now c).1).sampleStateAt a =
          ((r.purgeExpired now).cloneSamples (r.rawSplit now c).1).1.sampleStateAt a := by
      rw [sampleStateAt_lend hsome', hpurge.sampleStateAt_pinSamples hnodup hchosen.subset,
        hpurge.sampleStateAt_cloneSamples hnodup hchosen.subset]
    have hpending : (((r.purgeExpired now).pinSamples (r.rawSplit now c).1).1.lend
        (r.rawSplit now c).1).pending =
          ((r.purgeExpired now).cloneSamples (r.rawSplit now c).1).1.pending := by
      obtain ⟨h₁, hclone⟩ := cloneSamples_frame (r.rawSplit now c).1 (r.purgeExpired now)
      obtain ⟨h₂, hpin⟩ := pinSamples_frame (r.rawSplit now c).1 (r.purgeExpired now)
      rw [hclone, hpin]
      rfl
    rw [and_iff_left ⟨hpending, fun a _ => hstates a⟩]
    dsimp only
    rw [Option.some.injEq, map_asRead_eq_iff, rankedSamples_read_iff hsome]
    exact forall₂_congr fun a _ => by rw [sampleStateAt_congr (purgeExpired_sameContents r now)]

/-! ### Failed calls -/

theorem quiesceAt_foldl_modify : ∀ (l : List (ℕ × SampleInfo)) (h : Heap) (a : ℕ),
    ((l.foldl (fun h p => h.modify p.1 fun pc => { pc with info := p.2 }) h).get a).map
      (·.quiesce) = (h.get a).map (·.quiesce)
  | [], _, _ => rfl
  | p :: l, h, a => by
      have hstep : ((h.modify p.1 fun pc => { pc with info := p.2 }).get a).map (·.quiesce) =
          (h.get a).map (·.quiesce) := by
        rw [Heap.get_modify]
        split_ifs
        · rw [Option.map_map]
          rfl
        · rfl
      rw [List.foldl_cons, quiesceAt_foldl_modify l, hstep]

/-- Dropping a reference to a sample, and nothing else. -/
def released (pc : PendingChange) : PendingChange := { pc with quiesce := pc.quiesce.release.1 }

theorem get_release (h : Heap) (a b : ℕ) :
    (h.release a).get b = if b = a then (h.get b).map released else h.get b := by
  by_cases hba : b = a
  · subst hba
    rw [if_pos rfl]
    have hmodify : (h.modify b released).get b = (h.get b).map released := by
      rw [Heap.get_modify, if_pos rfl]
    unfold Heap.release
    cases hget : h.get b with
    | none => exact hget
    | some pc =>
      rw [hget] at hmodify
      dsimp only
      split
      · unfold Heap.reallyFree
        split
        · exact hmodify
        · exact hmodify
      · exact hmodify
  · rw [if_neg hba]
    exact Heap.get_release_of_ne h hba

theorem get_foldl_releasePin : ∀ (as : List ℕ) (r : DataReader), as.Nodup → ∀ b,
    (as.foldl releasePin r).heap.get b =
      if b ∈ as then (r.heap.get b).map released else r.heap.get b
  | [], _, _, _ => (if_neg List.not_mem_nil).symm
  | a :: as, r, hnodup, b => by
      obtain ⟨ha, hnodup⟩ := List.nodup_cons.1 hnodup
      rw [List.foldl_cons, get_foldl_releasePin as _ hnodup,
        show (r.releasePin a).heap.get b = _ from get_release r.heap a b]
      by_cases hba : b = a
      · subst hba
        rw [if_neg ha, if_pos rfl, if_pos List.mem_cons_self]
      · rw [if_neg hba]
        exact if_congr (by rw [List.mem_cons, or_iff_right hba]) rfl rfl

/-- Releasing references changes only the heap. -/
theorem foldl_releasePin_frame : ∀ (as : List ℕ) (r : DataReader),
    ∃ h, as.foldl releasePin r = { r with heap := h }
  | [], r => ⟨r.heap, rfl⟩
  | a :: as, r => foldl_releasePin_frame as (r.releasePin a)

/-- Freeing payloads changes only the list of the freed. -/
theorem foldl_freePayload_frame : ∀ (payloads : List ℕ) (r : DataReader),
    ∃ freed, payloads.foldl freePayload r =
      { r with heap := { r.heap with freedPayloads := freed } }
  | [], r => ⟨r.heap.freedPayloads, rfl⟩
  | p :: payloads, r => foldl_freePayload_frame payloads (r.freePayload p)

def quiesceAt (r : DataReader) (a : ℕ) : Option EntityQuiesce := (r.heap.get a).map (·.quiesce)

/-- The queue is as it was, less what had expired, and no more is on loan. -/
def Intact (r : DataReader) (now : ℤ) (r' : DataReader) : Prop :=
  r'.pending = r.pending.filter (fun a => !r.expiredAt now a) ∧
  (∀ a ∈ r'.pending, r'.sampleStateAt a = r.sampleStateAt a ∧ r'.quiesceAt a = r.quiesceAt a) ∧
  r'.outstandingLoans = r.outstandingLoans

/-- Nothing is collected; or it is a read, what it collects had been read before, and in loan mode
the array of the loan is made. -/
def SparesQueue (r : DataReader) (now : ℤ) (c : RawCall) (loanMode : Bool) (m : RawMemory) : Prop :=
  m.collected = 0 ∨ (c.destructive = false ∧ (loanMode = true → m.sliced = true) ∧
    ∀ a ∈ (r.rawSplit now c).1.take m.collected, r.sampleStateAt a = some .read)

theorem Held.quiesceAt_purgeExpired (h : r.Held loaned) (now : ℤ) {a : ℕ}
    (ha : a ∈ (r.purgeExpired now).pending) : (r.purgeExpired now).quiesceAt a = r.quiesceAt a := by
  refine congrArg (Option.map (·.quiesce)) (Heap.get_foldl_beginTeardown _ r.heap fun hexp => ?_)
  have hkept := (List.mem_filter.1 ha).2
  rw [(List.mem_filter.1 hexp).2] at hkept
  exact Bool.noConfusion hkept

theorem Held.quiesceAt_cloneSamples (h : r.Held loaned) {as : List ℕ} (hnodup : as.Nodup)
    (hsub : as ⊆ r.pending) (a : ℕ) : (r.cloneSamples as).1.quiesceAt a = r.quiesceAt a := by
  unfold quiesceAt
  rw [h.get_cloneSamples hnodup hsub]
  split_ifs
  · rw [Option.map_map]
    rfl
  · rfl

theorem Held.quiesceAt_pinSamples (h : r.Held loaned) {as : List ℕ} (hnodup : as.Nodup)
    (hsub : as ⊆ r.pending) (a : ℕ) : (r.pinSamples as).1.quiesceAt a =
      if a ∈ as then (r.quiesceAt a).map fun q => { q with count := q.count + 1 }
      else r.quiesceAt a := by
  obtain ⟨-, hcells, -⟩ := pinSamples_spec as r loaned hnodup hsub h
  unfold quiesceAt
  rw [hcells]
  split_ifs
  · rw [Option.map_map, Option.map_map]
    rfl
  · rfl

theorem quiesceAt_lend (r : DataReader) (as : List ℕ) (a : ℕ) :
    (r.lend as).quiesceAt a = r.quiesceAt a := quiesceAt_foldl_modify _ r.heap a

theorem quiesceAt_releasePinnedSamples {as : List ℕ} (hnodup : as.Nodup) (a : ℕ) :
    (r.releasePinnedSamples as).quiesceAt a =
      if a ∈ as then (r.quiesceAt a).map fun q => q.release.1 else r.quiesceAt a := by
  have hcell := congrArg (Option.map (·.quiesce)) (get_foldl_releasePin as r hnodup a)
  refine hcell.trans ?_
  unfold quiesceAt
  split_ifs
  · rw [Option.map_map, Option.map_map]
    rfl
  · rfl

theorem sampleStateAt_releasePinnedSamples {as : List ℕ} (hnodup : as.Nodup) (a : ℕ) :
    (r.releasePinnedSamples as).sampleStateAt a = r.sampleStateAt a := by
  have hcell := congrArg (Option.map (·.info.sampleState)) (get_foldl_releasePin as r hnodup a)
  refine hcell.trans ?_
  unfold sampleStateAt
  split_ifs
  · rw [Option.map_map]
    rfl
  · rfl

/-- A reader whose queue differs from the purged one's in marks alone is intact exactly if every
marked sample was read before. -/
theorem Held.intact_iff_of_marks (h : r.Held loaned) {now : ℤ} {as : List ℕ}
    (hsub : as ⊆ (r.purgeExpired now).pending) (hp : r'.pending = (r.purgeExpired now).pending)
    (hl : r'.outstandingLoans = r.outstandingLoans)
    (hq : ∀ a ∈ r'.pending, r'.quiesceAt a = (r.purgeExpired now).quiesceAt a)
    (hs : ∀ a, r'.sampleStateAt a = if a ∈ as then ((r.purgeExpired now).sampleStateAt a).map
      fun _ => .read else (r.purgeExpired now).sampleStateAt a) :
    r.Intact now r' ↔ ∀ a ∈ as, r.sampleStateAt a = some .read := by
  have hpurged (a : ℕ) : (r.purgeExpired now).sampleStateAt a = r.sampleStateAt a :=
    sampleStateAt_congr (purgeExpired_sameContents r now) a
  constructor
  · rintro ⟨-, hstates, -⟩ a ha
    have hread := (hstates a (hp ▸ hsub ha)).1
    obtain ⟨pc, hpc, -⟩ := h.holds a (List.mem_of_mem_filter (hsub ha))
    have hstate : r.sampleStateAt a = some pc.info.sampleState := congrArg (Option.map _) hpc
    rw [hs, if_pos ha, hpurged, hstate] at hread
    rw [hstate]
    exact hread.symm
  · intro hread
    refine ⟨hp, fun a ha => ⟨?_, (hq a ha).trans (h.quiesceAt_purgeExpired now (hp ▸ ha))⟩, hl⟩
    rw [hs, hpurged]
    split_ifs with hmem
    · rw [hread a hmem]
      rfl
    · rfl

theorem not_intact_of_shorter {now : ℤ}
    (hlt : r'.pending.length < (r.purgeExpired now).pending.length) : ¬ r.Intact now r' :=
  fun h => (congrArg List.length h.1).not_lt hlt

/-- What is left once something is taken is shorter. -/
theorem length_rawSplit_lt (r : DataReader) (now : ℤ) (c : RawCall)
    (hne : (r.rawSplit now c).1 ≠ []) :
    (r.rawSplit now c).2.length < (r.purgeExpired now).pending.length := by
  have hlen := (rawSplit_perm r now c).length_eq
  rw [List.length_append] at hlen
  have hpos := List.length_pos_of_ne_nil hne
  omega

theorem buildRawOutputFromTaken_eq_none {taken : List TakenSample} {built : Bool}
    (h : (r.buildRawOutputFromTaken taken built).2 = none) :
    taken ≠ [] ∧ (r.buildRawOutputFromTaken taken built).1 =
      (taken.map (·.data)).foldl freePayload r := by
  unfold buildRawOutputFromTaken at h ⊢
  by_cases hnil : taken = []
  · rw [if_pos hnil] at h
    exact nomatch h
  · rw [if_neg hnil] at h ⊢
    cases built with
    | true => exact nomatch h
    | false => exact ⟨hnil, rfl⟩

theorem buildRawOutputFromPins_eq_none {as : List ℕ} {built : Bool}
    (h : (r.buildRawOutputFromPins as built).2 = none) :
    as ≠ [] ∧ (r.buildRawOutputFromPins as built).1 = r.releasePinnedSamples as := by
  unfold buildRawOutputFromPins at h ⊢
  by_cases hnil : as = []
  · rw [if_pos hnil] at h
    exact nomatch h
  · rw [if_neg hnil] at h ⊢
    cases built with
    | true => exact nomatch h
    | false => exact ⟨hnil, rfl⟩

theorem Held.intact_purgeExpired (h : r.Held loaned) (now : ℤ) :
    r.Intact now (r.purgeExpired now) :=
  (h.intact_iff_of_marks (List.nil_subset _) rfl rfl (fun _ _ => rfl)
    fun _ => (if_neg List.not_mem_nil).symm).2 fun _ ha => (nomatch ha)

/-- A take that fails has lost what it had collected. -/
theorem Held.intact_copy_take (h : r.Held loaned) {now : ℤ} {c : RawCall} {m : RawMemory}
    (hd : c.destructive = true) (hfail : (r.rawReadOrTake now c false m).2 = none) :
    r.Intact now (r.rawReadOrTake now c false m).1 ↔ m.collected = 0 := by
  unfold rawReadOrTake at hfail ⊢
  rw [hd] at hfail ⊢
  dsimp only at hfail ⊢
  rw [rawTake_eq] at hfail ⊢
  by_cases hm : m.collected = 0
  · refine iff_of_true ?_ hm
    have hreserved : decide (m.collected ≠ 0) = false := decide_eq_false fun hne => hne hm
    rw [hreserved, if_neg Bool.false_ne_true] at hfail ⊢
    split_ifs at hfail ⊢
    · exact h.intact_purgeExpired now
    · exact absurd rfl (buildRawOutputFromTaken_eq_none hfail).1
  · refine iff_of_false ?_ hm
    rw [if_pos (decide_eq_true hm), if_neg fun hr => hm hr.1] at hfail ⊢
    obtain ⟨htaken, hout⟩ := buildRawOutputFromTaken_eq_none hfail
    have hne : (r.rawSplit now c).1 ≠ [] := by
      intro hnil
      rw [hnil] at htaken
      exact htaken rfl
    obtain ⟨freed, hfree⟩ := foldl_freePayload_frame
      (((r.purgeExpired now).takeAway (r.rawSplit now c).1 (r.rawSplit now c).2).2.map (·.data))
      ((r.purgeExpired now).takeAway (r.rawSplit now c).1 (r.rawSplit now c).2).1
    rw [hout, hfree]
    exact not_intact_of_shorter (length_rawSplit_lt r now c hne)

theorem Held.intact_loan_take (h : r.Held loaned) {now : ℤ} {c : RawCall} {m : RawMemory}
    (hd : c.destructive = true) (hfail : (r.rawReadOrTake now c true m).2 = none) :
    r.Intact now (r.rawReadOrTake now c true m).1 ↔ m.collected = 0 := by
  unfold rawReadOrTake at hfail ⊢
  rw [hd] at hfail ⊢
  dsimp only at hfail ⊢
  rw [if_pos rfl, rawTakeForLoan_eq] at hfail ⊢
  by_cases hm : m.collected = 0
  · refine iff_of_true ?_ hm
    have hreserved : decide (m.collected ≠ 0) = false := decide_eq_false fun hne => hne hm
    rw [hreserved, if_neg Bool.false_ne_true] at hfail ⊢
    split_ifs at hfail ⊢
    · exact h.intact_purgeExpired now
    · exact absurd rfl (buildRawOutputFromPins_eq_none hfail).1
  · refine iff_of_false ?_ hm
    rw [if_pos (decide_eq_true hm)] at hfail ⊢
    split_ifs at hfail ⊢ with hrefused
    · have hne : (r.rawSplit now c).1 ≠ [] := hrefused.elim (fun hr => absurd hr.1 hm) And.left
      exact not_intact_of_shorter (length_rawSplit_lt r now c hne)
    · obtain ⟨hne, hout⟩ := buildRawOutputFromPins_eq_none hfail
      obtain ⟨heap, hrelease⟩ := foldl_releasePin_frame (r.rawSplit now c).1
        ({ r.purgeExpired now with pending := (r.rawSplit now c).2 }.lend (r.rawSplit now c).1)
      rw [hout, releasePinnedSamples, hrelease]
      exact not_intact_of_shorter (length_rawSplit_lt r now c hne)

/-- A copying read that fails leaves the marks of what it had collected. -/
theorem Held.intact_copy_read (h : r.Held loaned) {now : ℤ} {c : RawCall} {m : RawMemory}
    (hd : c.destructive = false) (hfail : (r.rawReadOrTake now c false m).2 = none) :
    r.Intact now (r.rawReadOrTake now c false m).1 ↔
      ∀ a ∈ (r.rawSplit now c).1.take m.collected, r.sampleStateAt a = some .read := by
  have hpurge := h.purgeExpired now
  have hchosen := (List.take_sublist m.collected _).trans (rawSplit_sublist r now c).1
  have hnodup := hpurge.nodup.sublist hchosen
  obtain ⟨heap, hframe⟩ := cloneSamples_frame ((r.rawSplit now c).1.take m.collected)
    (r.purgeExpired now)
  have hmarks : r.Intact now
      ((r.purgeExpired now).cloneSamples ((r.rawSplit now c).1.take m.collected)).1 ↔
        ∀ a ∈ (r.rawSplit now c).1.take m.collected, r.sampleStateAt a = some .read := by
    refine h.intact_iff_of_marks hchosen.subset ?_ ?_ ?_
      (hpurge.sampleStateAt_cloneSamples hnodup hchosen.subset)
    · rw [hframe]
    · rw [hframe]
      rfl
    · exact fun a _ => hpurge.quiesceAt_cloneSamples hnodup hchosen.subset a
  unfold rawReadOrTake at hfail ⊢
  rw [hd] at hfail ⊢
  dsimp only at hfail ⊢
  rw [rawRead_eq] at hfail ⊢
  dsimp only at hfail ⊢
  split_ifs at hfail ⊢
  · have hout := (buildRawOutputFromTaken_eq_none hfail).2
    obtain ⟨freed, hfree⟩ := foldl_freePayload_frame
      ((((r.purgeExpired now).cloneSamples ((r.rawSplit now c).1.take m.collected)).1.rankTaken
        ((r.purgeExpired now).cloneSamples ((r.rawSplit now c).1.take m.collected)).2).map (·.data))
      ((r.purgeExpired now).cloneSamples ((r.rawSplit now c).1.take m.collected)).1
    rw [hout, hfree]
    exact hmarks
  · exact hmarks

/-- So does one in loan mode, whose references are outstanding as well if its array failed. -/
theorem Held.intact_loan_read (h : r.Held loaned) {now : ℤ} {c : RawCall} {m : RawMemory}
    (hd : c.destructive = false) (hfail : (r.rawReadOrTake now c true m).2 = none) :
    r.Intact now (r.rawReadOrTake now c true m).1 ↔ m.collected = 0 ∨ (m.sliced = true ∧
      ∀ a ∈ (r.rawSplit now c).1.take m.collected, r.sampleStateAt a = some .read) := by
  have hpurge := h.purgeExpired now
  have hchosen := (List.take_sublist m.collected _).trans (rawSplit_sublist r now c).1
  obtain ⟨as, has⟩ : ∃ as, as = (r.rawSplit now c).1.take m.collected := ⟨_, rfl⟩
  rw [← has] at hchosen ⊢
  have hnodup := hpurge.nodup.sublist hchosen
  obtain ⟨hpins, hcells, -⟩ := pinSamples_spec _ _ _ hnodup hchosen.subset hpurge
  obtain ⟨heap, hframe⟩ := pinSamples_frame as (r.purgeExpired now)
  have hpin : r.rawPin now c m.collected =
      (((r.purgeExpired now).pinSamples as).1.lend as, as) := by
    rw [h.rawPin_eq, ← has]
    dsimp only
    rw [hpins]
  unfold rawReadOrTake at hfail ⊢
  rw [hd] at hfail ⊢
  dsimp only at hfail ⊢
  rw [if_neg Bool.false_ne_true, hpin] at hfail ⊢
  dsimp only at hfail ⊢
  by_cases hm : m.collected = 0
  · refine iff_of_true ?_ (.inl hm)
    have hnil : as = [] := by
      rw [has, hm, List.take_zero]
    have hlent : r.Intact now (((r.purgeExpired now).pinSamples as).1.lend as) := by
      rw [hnil]
      exact (h.intact_iff_of_marks (List.nil_subset _) rfl rfl (fun _ _ => rfl)
        fun _ => (if_neg List.not_mem_nil).symm).2 fun _ ha => (nomatch ha)
    split_ifs at hfail ⊢
    · exact hlent
    · exact absurd hnil (buildRawOutputFromPins_eq_none hfail).1
  rw [or_iff_right hm]
  split_ifs at hfail ⊢ with hrefused
  · obtain ⟨hne, hsliced⟩ := hrefused.resolve_left fun hr => hm hr.1
    refine iff_of_false (fun hintact => hne ?_) fun hr => ?_
    · have hloans : ((r.purgeExpired now).pinSamples as).1.outstandingLoans + as.length =
          r.outstandingLoans := hintact.2.2
      rw [hframe] at hloans
      exact List.length_eq_zero_iff.1 (Nat.add_eq_left.1 hloans)
    · rw [hsliced] at hr
      exact Bool.false_ne_true hr.1
  · obtain ⟨hne, hout⟩ := buildRawOutputFromPins_eq_none hfail
    have hsliced : m.sliced = true := by
      by_contra hs
      exact hrefused (.inr ⟨hne, Bool.not_eq_true _ ▸ hs⟩)
    rw [hout, and_iff_right hsliced]
    obtain ⟨heap', hrelease⟩ := foldl_releasePin_frame as
      (((r.purgeExpired now).pinSamples as).1.lend as)
    refine h.intact_iff_of_marks hchosen.subset ?_ ?_ ?_ ?_
    · rw [releasePinnedSamples, hrelease, hframe]
      rfl
    · rw [releasePinnedSamples, hrelease, hframe]
      exact Nat.add_sub_cancel ..
    · intro a _
      rw [quiesceAt_releasePinnedSamples hnodup, quiesceAt_lend,
        hpurge.quiesceAt_pinSamples hnodup hchosen.subset]
      split_ifs
      · rw [Option.map_map]
        exact Option.map_id_apply
      · rfl
    · intro a
      have hsome : ∀ b ∈ as, (((r.purgeExpired now).pinSamples as).1.heap.get b).isSome = true := by
        intro b hb
        rw [hcells, if_pos hb, Option.isSome_map]
        exact hpurge.isSome_get (hchosen.subset hb)
      rw [sampleStateAt_releasePinnedSamples hnodup, sampleStateAt_lend hsome]
      exact hpurge.sampleStateAt_pinSamples hnodup hchosen.subset a

theorem Held.intact_iff (h : r.Held loaned) {now : ℤ} {c : RawCall} {loanMode : Bool}
    {m : RawMemory} (hfail : (r.rawReadOrTake now c loanMode m).2 = none) :
    r.Intact now (r.rawReadOrTake now c loanMode m).1 ↔ r.SparesQueue now c loanMode m := by
  unfold SparesQueue
  cases hd : c.destructive with
  | true =>
    have hnot : ¬ (true = false ∧ (loanMode = true → m.sliced = true) ∧
        ∀ a ∈ (r.rawSplit now c).1.take m.collected, r.sampleStateAt a = some .read) :=
      fun hr => (nomatch hr.1)
    rw [or_iff_left hnot]
    cases loanMode with
    | true => exact h.intact_loan_take hd hfail
    | false => exact h.intact_copy_take hd hfail
  | false =>
    rw [and_iff_right rfl]
    cases loanMode with
    | true =>
      have hsliced : (true = true → m.sliced = true) ↔ m.sliced = true :=
        ⟨fun hs => hs rfl, fun hs _ => hs⟩
      rw [h.intact_loan_read hd hfail, hsliced]
    | false =>
      rw [h.intact_copy_read hd hfail, and_iff_right fun hl => (nomatch hl)]
      refine ⟨.inr, ?_⟩
      rintro (hm | hread)
      · rw [hm]
        exact fun _ ha => (nomatch ha)
      · exact hread

end DataReader

namespace ReaderMachine

/-! ### Raw calls on the readers of runs -/

variable {qos : DataReaderQos} {presentation : PresentationQos}
  {cftFilter : Option (List UInt8 → Bool)} {acts : List ReaderAction} {s : ReaderMachine}

/-- Loan mode and copy mode agree exactly on takes and on reads of samples that were read before. -/
theorem loan_and_copy_agree (hrun : Run (init qos presentation cftFilter) acts s) (now : ℤ)
    (c : RawCall) : s.reader.ModesAgree now c ↔
      c.destructive = true ∨ ∀ a ∈ (s.reader.rawSplit now c).1,
        s.reader.sampleStateAt a = some .read :=
  (queueHeld_of_run hrun).1.modesAgree_iff now c

/-- Read again, the sample is the same in both modes. -/
theorem loan_and_copy_agree_again : ∃ s, Run (init keepAllQos {} none) readActions s ∧
    (s.reader.rawSplit 0 ⟨false, none, DataReader.anyFilter, -1⟩).1 = [0] ∧
    s.reader.ModesAgree 0 ⟨false, none, DataReader.anyFilter, -1⟩ := by
  obtain ⟨s, hrun, hsplit, hread⟩ : ∃ s, Run (init keepAllQos {} none) readActions s ∧
      (s.reader.rawSplit 0 ⟨false, none, DataReader.anyFilter, -1⟩).1 = [0] ∧
      s.reader.sampleStateAt 0 = some .read :=
    ⟨_, @Run.snoc _ (readActions.take 2) _ _ _ (@Run.snoc _ (readActions.take 1) _ _ _
      (@Run.snoc _ [] _ _ _ .nil rfl) rfl) rfl, rfl, rfl⟩
  refine ⟨s, hrun, hsplit, (loan_and_copy_agree hrun 0 _).2 (.inr fun a ha => ?_)⟩
  rw [hsplit, List.mem_singleton] at ha
  rw [ha, hread]

/-- A new sample read in loan mode says that it was read before; copied, that it was not. -/
theorem read_loan_shows_read : ∃ s, Run (init keepAllQos {} none) (readActions.take 2) s ∧
    ((s.reader.rawReadOrTake 0 ⟨false, none, DataReader.anyFilter, -1⟩ true s.reader.plenty).2.map
      fun l => l.map (·.info.sampleState)) = some [.read] ∧
    ((s.reader.rawReadOrTake 0 ⟨false, none, DataReader.anyFilter, -1⟩ false s.reader.plenty).2.map
      fun l => l.map (·.info.sampleState)) = some [.notRead] ∧
    ¬ s.reader.ModesAgree 0 ⟨false, none, DataReader.anyFilter, -1⟩ := by
  obtain ⟨s, hrun, hloan, hcopy⟩ : ∃ s, Run (init keepAllQos {} none) (readActions.take 2) s ∧
      ((s.reader.rawReadOrTake 0 ⟨false, none, DataReader.anyFilter, -1⟩ true
        s.reader.plenty).2.map fun l => l.map (·.info.sampleState)) = some [.read] ∧
      ((s.reader.rawReadOrTake 0 ⟨false, none, DataReader.anyFilter, -1⟩ false
        s.reader.plenty).2.map fun l => l.map (·.info.sampleState)) = some [.notRead] :=
    ⟨_, @Run.snoc _ (readActions.take 1) _ _ _ (@Run.snoc _ [] _ _ _ .nil rfl) rfl, rfl, rfl⟩
  refine ⟨s, hrun, hloan, hcopy, fun hagree => ?_⟩
  rw [hagree.1, hcopy] at hloan
  exact nomatch hloan

/-- A call that fails leaves the queue, its marks and the loans as they were exactly if it collected
nothing, or read what had been read before and, in loan mode, had the array of the loan. -/
theorem failed_call_keeps (hrun : Run (init qos presentation cftFilter) acts s) (now : ℤ)
    (c : RawCall) (loanMode : Bool) (m : RawMemory)
    (hfail : (s.reader.rawReadOrTake now c loanMode m).2 = none) :
    s.reader.Intact now (s.reader.rawReadOrTake now c loanMode m).1 ↔
      s.reader.SparesQueue now c loanMode m :=
  (queueHeld_of_run hrun).1.intact_iff hfail

/-- A take that cannot even collect its sample leaves it in the queue. -/
theorem failed_call_keeps_uncollected : ∃ s,
    Run (init keepAllQos {} none) (readActions.take 2) s ∧ s.reader.pending = [0] ∧
    s.reader.Intact 0 (s.reader.rawReadOrTake 0 ⟨true, none, DataReader.anyFilter, -1⟩ false
      ⟨0, true, true⟩).1 := by
  obtain ⟨s, hrun, hp, hfail⟩ : ∃ s, Run (init keepAllQos {} none) (readActions.take 2) s ∧
      s.reader.pending = [0] ∧ (s.reader.rawReadOrTake 0 ⟨true, none, DataReader.anyFilter, -1⟩
        false ⟨0, true, true⟩).2 = none :=
    ⟨_, @Run.snoc _ (readActions.take 1) _ _ _ (@Run.snoc _ [] _ _ _ .nil rfl) rfl, rfl, rfl⟩
  exact ⟨s, hrun, hp, (failed_call_keeps hrun 0 _ false _ hfail).2 (.inl rfl)⟩

/-- A take that collects its sample and cannot build its output loses it. -/
theorem failed_take_loses : ∃ s, Run (init keepAllQos {} none) (readActions.take 2) s ∧
    s.reader.pending = [0] ∧
    (s.reader.rawReadOrTake 0 ⟨true, none, DataReader.anyFilter, -1⟩ false ⟨1, true, false⟩).2 =
      none ∧
    (s.reader.rawReadOrTake 0 ⟨true, none, DataReader.anyFilter, -1⟩ false
      ⟨1, true, false⟩).1.pending = [] ∧
    ¬ s.reader.Intact 0 (s.reader.rawReadOrTake 0 ⟨true, none, DataReader.anyFilter, -1⟩ false
      ⟨1, true, false⟩).1 := by
  obtain ⟨s, hrun, hp, hfail, hlost⟩ : ∃ s, Run (init keepAllQos {} none) (readActions.take 2) s ∧
      s.reader.pending = [0] ∧
      (s.reader.rawReadOrTake 0 ⟨true, none, DataReader.anyFilter, -1⟩ false ⟨1, true, false⟩).2 =
        none ∧
      (s.reader.rawReadOrTake 0 ⟨true, none, DataReader.anyFilter, -1⟩ false
        ⟨1, true, false⟩).1.pending = [] ∧ s.reader.expiredAt 0 0 = false :=
    ⟨_, @Run.snoc _ (readActions.take 1) _ _ _ (@Run.snoc _ [] _ _ _ .nil rfl) rfl, rfl, rfl, rfl,
      rfl⟩
  refine ⟨s, hrun, hp, hfail, hlost.1, fun hintact => ?_⟩
  have hqueue := hlost.1.symm.trans hintact.1
  rw [hp, List.filter_singleton, hlost.2] at hqueue
  exact nomatch hqueue

end ReaderMachine

end Zzdds.Dcps
