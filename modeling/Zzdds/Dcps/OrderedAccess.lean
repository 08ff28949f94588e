import Zzdds.Lib.Window
import Zzdds.Dcps.RawAccess

/-! # Ordered access

`begin_access` sorts the queue and opens a window on what it holds: the watermark counts the samples
that may be taken until `end_access`.  Whatever happens in between, what is left of the window stays
in the sorted order, before the newcomers, and open.  Newcomers are kept out by `takeRaw` alone, and
by it only as long as nothing else has removed a sample of the window (`window_closed_exact`). -/

namespace Zzdds.Dcps

open Zzdds.Lib Zzdds.Rtps

/-! ### Calls on the queue -/

/-- A call that looks for samples in the whole queue: what it is asked for, and for how many samples
it has memory. -/
structure QueueCall where
  now : ℤ
  about : RawCall
  room : ℕ

/-- Every way to read or to take but `takeRaw`. -/
def ReaderAction.queueCall : ReaderAction → Option QueueCall
  | .take (.takeNextInstanceRaw now prev) _ =>
      some ⟨now, ⟨true, some prev, DataReader.anyFilter, 1⟩, 1⟩
  | .take (.takeFiltered now f maxSamples reserved) _ =>
      some ⟨now, ⟨true, none, f, maxSamples⟩, if reserved then DataReader.limit maxSamples else 0⟩
  | .take (.takeNextInstanceFiltered now prev f maxSamples reserved) _ =>
      some ⟨now, ⟨true, some prev, f, maxSamples⟩,
        if reserved then DataReader.limit maxSamples else 0⟩
  | .read (.readRaw now f maxSamples clones) _ => some ⟨now, ⟨false, none, f, maxSamples⟩, clones⟩
  | .read (.readNextInstanceRaw now prev clones) _ =>
      some ⟨now, ⟨false, some prev, DataReader.anyFilter, 1⟩, clones⟩
  | .read (.readNextInstanceFiltered now prev f maxSamples clones) _ =>
      some ⟨now, ⟨false, some prev, f, maxSamples⟩, clones⟩
  | .lend (.pinSamplesForLoan now f maxSamples pins) _ =>
      some ⟨now, ⟨false, none, f, maxSamples⟩, pins⟩
  | .lend (.pinNextInstanceForLoan now prev f maxSamples pins) _ =>
      some ⟨now, ⟨false, some prev, f, maxSamples⟩, pins⟩
  | .lend (.takeSamplesForLoan now f maxSamples reserved) _ =>
      some ⟨now, ⟨true, none, f, maxSamples⟩, if reserved then DataReader.limit maxSamples else 0⟩
  | .lend (.takeNextInstanceForLoan now prev f maxSamples reserved) _ =>
      some ⟨now, ⟨true, some prev, f, maxSamples⟩,
        if reserved then DataReader.limit maxSamples else 0⟩
  | _ => none

namespace DataReader

variable (r : DataReader)

/-- The samples a call gives the application. -/
def collected (q : QueueCall) : List ℕ := (r.rawSplit q.now q.about).1.take q.room

/-- The entries of the queue the window leaves open. -/
def openEntries : List ℕ := r.orderedAccessWatermark.elim r.pending r.pending.take

/-- The sample `takeRaw` gives. -/
def rawFront (now : ℤ) : Option ℕ := r.openEntries.find? fun a => !r.expiredAt now a

/-- What a call passes: in its next-instance form the samples of one instance, if it finds any. -/
def passing (q : QueueCall) : Option (ℕ → Bool) :=
  match q.about.previous with
  | none => some (r.selects q.about.filter)
  | some prev => ((r.purgeExpired q.now).nextInstance prev q.about.filter).map fun ih =>
      r.selects (ofInstance q.about.filter ih)

end DataReader

/-- The samples an action gives the application. -/
def ReaderAction.collected (r : DataReader) : ReaderAction → List ℕ
  | .take call _ => call.targets r
  | act => act.queueCall.elim [] r.collected

namespace DataReader

variable {r r' : DataReader}

/-! ### What a call collects -/

theorem splitMatching_fst {p : ℕ → Bool} : ∀ (l : List ℕ) (n : ℕ),
    (splitMatching p l n).1 = (l.filter p).take n
  | [], _ => by
      unfold splitMatching
      rw [List.filter_nil, List.take_nil]
  | _ :: _, 0 => rfl
  | a :: l, n + 1 => by
      unfold splitMatching
      split_ifs with ha
      · rw [List.filter_cons_of_pos ha, List.take_succ_cons]
        exact congrArg (a :: ·) (splitMatching_fst l n)
      · rw [List.filter_cons_of_neg ha]
        exact splitMatching_fst l (n + 1)

theorem selects_purgeExpired (r : DataReader) (now : ℤ) (f : RawFilter) :
    (r.purgeExpired now).selects f = r.selects f :=
  funext (selects_congr (purgeExpired_sameContents r now) f)

/-- A call collects the first samples of the queue, expired ones aside, that it passes. -/
theorem collected_eq (r : DataReader) (q : QueueCall) : r.collected q =
    (r.passing q).elim [] fun p => (((r.pending.filter fun a => !r.expiredAt q.now a).filter p).take
      (min q.room (limit q.about.maxSamples))) := by
  unfold collected rawSplit passing
  cases q.about.previous with
  | none =>
    dsimp only [Option.elim]
    rw [splitMatching_fst, List.take_take, selects_purgeExpired]
    rfl
  | some prev =>
    dsimp only
    cases (r.purgeExpired q.now).nextInstance prev q.about.filter with
    | none => exact List.take_nil
    | some ih =>
      dsimp only [Option.elim, Option.map]
      rw [splitMatching_fst, List.take_take, selects_purgeExpired]
      rfl

/-- Whatever the state of a sample of an instance, the filter that passes all of it does. -/
theorem selects_anyFilter (r : DataReader) (ih : HandleT) (a : ℕ) :
    r.selects (ofInstance anyFilter ih) a = decide (r.handleAt a = some ih) := by
  unfold selects handleAt
  cases r.heap.get a with
  | none => rfl
  | some pc =>
    have hsample : pc.info.sampleState.bit &&& 0xffff ≠ 0 := by
      cases pc.info.sampleState <;> decide
    have hview : pc.info.viewState.bit &&& 0xffff ≠ 0 := by
      cases pc.info.viewState <;> decide
    have hinstance : pc.info.instanceState.bit &&& 0xffff ≠ 0 := by
      cases pc.info.instanceState <;> decide
    unfold matchesSample ofInstance anyFilter
    simp [hsample, hview, hinstance]

theorem takeNextInstanceRaw_eq (r : DataReader) (now : ℤ) (prev : HandleT) :
    r.takeNextInstanceRaw now prev =
      let c : RawCall := ⟨true, some prev, anyFilter, 1⟩
      let out := (r.purgeExpired now).takeAway (r.rawSplit now c).1 (r.rawSplit now c).2
      (out.1, out.2.map fun s => { s with keyHash := Bytes.zeroes 16 }) := by
  unfold takeNextInstanceRaw rawSplit
  dsimp only
  cases (r.purgeExpired now).nextInstance prev anyFilter with
  | none => rfl
  | some ih =>
    have hp : (fun a => decide ((r.purgeExpired now).handleAt a = some ih)) =
        (r.purgeExpired now).selects (ofInstance anyFilter ih) :=
      funext fun a => (selects_anyFilter _ ih a).symm
    dsimp only [Option.elim]
    rw [hp]
    rfl

/-- A call does to the reader what it is for: the window stays, and what has expired goes, and with
a take what it collects. -/
structure Calls (r : DataReader) (q : QueueCall) (r' : DataReader) : Prop where
  watermark : r'.orderedAccessWatermark = r.orderedAccessWatermark
  structs : r'.heap.structs.length = r.heap.structs.length
  pending : r'.pending = (r.purgeExpired q.now).pending ∨
    (q.about.destructive = true ∧ r.collected q = (r.rawSplit q.now q.about).1 ∧
      r'.pending = (r.rawSplit q.now q.about).2)

namespace Calls

variable {q : QueueCall}

theorem freePayloads (h : Calls r q r') (payloads : List ℕ) :
    Calls r q (payloads.foldl freePayload r') := by
  obtain ⟨freed, hframe⟩ := foldl_freePayload_frame payloads r'
  rw [hframe]
  exact ⟨h.watermark, h.structs, h.pending⟩

theorem purge {heap : Heap} (hlen : heap.structs.length = r.heap.structs.length) :
    Calls r q { r.purgeExpired q.now with heap := heap } := ⟨rfl, hlen, .inl rfl⟩

theorem length_purgeExpired (r : DataReader) (now : ℤ) :
    (r.purgeExpired now).heap.structs.length = r.heap.structs.length :=
  Heap.length_foldl_beginTeardown _ _

/-- A take with room for everything it looks for. -/
theorem take {now : ℤ} {c : RawCall} {room : ℕ} (hd : c.destructive = true)
    (hroom : (r.rawSplit now c).1.length ≤ room) (h : Accesses (r.purgeExpired now) r')
    (hw : r'.orderedAccessWatermark = r.orderedAccessWatermark)
    (hp : r'.pending = (r.rawSplit now c).2) : Calls r ⟨now, c, room⟩ r' :=
  ⟨hw, h.structs.trans (length_purgeExpired r now),
    .inr ⟨hd, List.take_of_length_le hroom, hp⟩⟩

theorem length_rawSplit_le (r : DataReader) (now : ℤ) (c : RawCall) :
    (r.rawSplit now c).1.length ≤ limit c.maxSamples := by
  have hlen (p : ℕ → Bool) (l : List ℕ) (n : ℕ) : (splitMatching p l n).1.length ≤ n := by
    rw [splitMatching_fst]
    exact List.length_take_le n _
  unfold rawSplit
  cases c.previous with
  | none => exact hlen _ _ _
  | some prev =>
    dsimp only
    cases (r.purgeExpired now).nextInstance prev c.filter with
    | none => exact Nat.zero_le _
    | some ih => exact hlen _ _ _

theorem rawTake (r : DataReader) (now : ℤ) {c : RawCall} (hd : c.destructive = true)
    (reserved : Bool) :
    Calls r ⟨now, c, if reserved then limit c.maxSamples else 0⟩ (r.rawTake now c reserved).1 := by
  rw [rawTake_eq]
  cases reserved with
  | false => exact purge (length_purgeExpired r now)
  | true =>
    have hkept := (rawSplit_sublist r now c).2.subset
    exact take hd (length_rawSplit_le r now c) (Accesses.takeAway _ _ hkept) rfl rfl

theorem rawTakeForLoan (r : DataReader) (now : ℤ) {c : RawCall} (hd : c.destructive = true)
    (reserved : Bool) : Calls r ⟨now, c, if reserved then limit c.maxSamples else 0⟩
      (r.rawTakeForLoan now c reserved).1 := by
  rw [rawTakeForLoan_eq]
  cases reserved with
  | false => exact purge (length_purgeExpired r now)
  | true =>
    have hkept : Accesses (r.purgeExpired now)
        { r.purgeExpired now with pending := (r.rawSplit now c).2 } :=
      ⟨rfl, (rawSplit_sublist r now c).2.subset, rfl⟩
    exact take hd (length_rawSplit_le r now c) (hkept.trans (Accesses.lend _ _)) rfl rfl

theorem rawRead (r : DataReader) (now : ℤ) (c : RawCall) (clones : ℕ) :
    Calls r ⟨now, c, clones⟩ (r.rawRead now c clones).1 := by
  have hlen := (Accesses.cloneSamples ((r.rawSplit now c).1.take clones)
    (r.purgeExpired now)).structs.trans (length_purgeExpired r now)
  obtain ⟨heap, hframe⟩ := cloneSamples_frame ((r.rawSplit now c).1.take clones)
    (r.purgeExpired now)
  rw [hframe] at hlen
  rw [rawRead_eq]
  dsimp only
  rw [hframe]
  exact purge hlen

theorem pins (r : DataReader) (as bs : List ℕ) :
    Calls r q (((r.purgeExpired q.now).pinSamples as).1.lend bs) := by
  have hlen := ((Accesses.pinSamples as (r.purgeExpired q.now)).trans
    (Accesses.lend _ bs)).structs.trans (length_purgeExpired r q.now)
  obtain ⟨heap, hframe⟩ := pinSamples_frame as (r.purgeExpired q.now)
  rw [hframe] at hlen ⊢
  exact ⟨rfl, hlen, .inl rfl⟩

theorem takeCall {call : TakeCall} {built : Bool}
    (hq : (ReaderAction.take call built).queueCall = some q) : Calls r q (call.run r).1 := by
  cases call with
  | takeRaw now => exact nomatch hq
  | takeNextInstanceRaw now prev =>
    cases hq
    simp only [TakeCall.run]
    rw [takeNextInstanceRaw_eq]
    have hkept := (rawSplit_sublist r now ⟨true, some prev, anyFilter, 1⟩).2.subset
    exact take rfl (length_rawSplit_le r now _) (Accesses.takeAway _ _ hkept) rfl rfl
  | takeFiltered now f maxSamples reserved =>
    cases hq
    exact rawTake r now (c := ⟨true, none, f, maxSamples⟩) rfl reserved
  | takeNextInstanceFiltered now prev f maxSamples reserved =>
    cases hq
    exact rawTake r now (c := ⟨true, some prev, f, maxSamples⟩) rfl reserved

theorem readCall {call : ReadCall} {built : Bool}
    (hq : (ReaderAction.read call built).queueCall = some q) : Calls r q (call.run r).1 := by
  cases call with
  | readRaw now f maxSamples clones =>
    cases hq
    exact rawRead r now ⟨false, none, f, maxSamples⟩ clones
  | readNextInstanceRaw now prev clones =>
    cases hq
    exact rawRead r now ⟨false, some prev, anyFilter, 1⟩ clones
  | readNextInstanceFiltered now prev f maxSamples clones =>
    cases hq
    exact rawRead r now ⟨false, some prev, f, maxSamples⟩ clones

theorem loanCall {call : LoanCall} {sliced : Bool}
    (hq : (ReaderAction.lend call sliced).queueCall = some q) : Calls r q (call.run r).1 := by
  cases call with
  | pinSamplesForLoan now f maxSamples n =>
    cases hq
    exact pins r _ _
  | pinNextInstanceForLoan now prev f maxSamples n =>
    cases hq
    simp only [LoanCall.run, pinNextInstanceForLoan]
    split
    · exact purge (length_purgeExpired r now)
    · exact pins r _ _
  | takeSamplesForLoan now f maxSamples reserved =>
    cases hq
    exact rawTakeForLoan r now (c := ⟨true, none, f, maxSamples⟩) rfl reserved
  | takeNextInstanceForLoan now prev f maxSamples reserved =>
    cases hq
    exact rawTakeForLoan r now (c := ⟨true, some prev, f, maxSamples⟩) rfl reserved

/-- What is left of the queue keeps its order. -/
theorem sublist (h : Calls r q r') : r'.pending.Sublist r.pending := by
  rcases h.pending with hp | ⟨-, -, hp⟩
  · rw [hp]
    exact List.filter_sublist
  · rw [hp]
    exact (rawSplit_sublist r q.now q.about).2.trans List.filter_sublist

/-- What leaves has expired or is taken. -/
theorem removed (h : Calls r q r') {a : ℕ} (ha : a ∈ r.pending) (ha' : a ∉ r'.pending) :
    r.expiredAt q.now a = true ∨ (q.about.destructive = true ∧ a ∈ r.collected q) := by
  by_cases hexp : r.expiredAt q.now a = true
  · exact .inl hexp
  · have hkept : a ∈ (r.purgeExpired q.now).pending :=
      List.mem_filter.2 ⟨ha, by rw [Bool.eq_false_of_not_eq_true hexp]; rfl⟩
    rcases h.pending with hp | ⟨hd, hcollected, hp⟩
    · exact absurd (hp ▸ hkept) ha'
    · refine .inr ⟨hd, ?_⟩
      rw [hcollected]
      have hsplit := (rawSplit_perm r q.now q.about).symm.subset hkept
      refine (List.mem_append.1 hsplit).resolve_right ?_
      rw [← hp]
      exact ha'

end Calls

/-! ### The first open sample -/

theorem takeRawTarget_cons (r : DataReader) (now : ℤ) (a : ℕ) (l : List ℕ) {w : Option ℕ}
    (hw : w ≠ some 0) : r.takeRawTarget now w (a :: l) =
      if r.expiredAt now a then r.takeRawTarget now (w.map (· - 1)) l else [a] := by
  cases w with
  | none => rfl
  | some w =>
    cases w with
    | zero => exact absurd rfl hw
    | succ w => rfl

theorem takeRawTarget_eq (r : DataReader) (now : ℤ) : ∀ (l : List ℕ) (w : Option ℕ),
    r.takeRawTarget now w l = ((w.elim l l.take).find? fun a => !r.expiredAt now a).toList
  | [], w => by
      cases w with
      | none => rfl
      | some w =>
        rw [Option.elim_some, List.take_nil]
        cases w <;> rfl
  | a :: l, w => by
      have hopen : ∀ w' : Option ℕ, w' = w.map (· - 1) → w ≠ some 0 →
          w.elim (a :: l) (a :: l).take = a :: w'.elim l l.take := by
        rintro w' rfl hw
        cases w with
        | none => rfl
        | some w =>
          cases w with
          | zero => exact absurd rfl hw
          | succ w => rfl
      by_cases hw : w = some 0
      · subst hw
        rfl
      · rw [takeRawTarget_cons r now a l hw, hopen _ rfl hw, takeRawTarget_eq r now l,
          List.find?_cons]
        cases r.expiredAt now a <;> rfl

theorem takeRaw_targets (r : DataReader) (now : ℤ) :
    (TakeCall.takeRaw now).targets r = (r.rawFront now).toList :=
  takeRawTarget_eq r now r.pending r.orderedAccessWatermark

/-- The window after `takeRaw`, and what it removes. -/
theorem takeRawLoop_windowed (window : List ℕ) (now : ℤ) (r₀ : DataReader) :
    ∀ (l : List ℕ) (r : DataReader), (∀ a, r.expiredAt now a = r₀.expiredAt now a) →
      (∀ wm, r.orderedAccessWatermark = some wm → Windowed window l wm →
        ∃ wm', (takeRawLoop now r l).1.orderedAccessWatermark = some wm' ∧
          Windowed window (takeRawLoop now r l).1.pending wm') ∧
      ∀ a ∈ l, a ∉ (takeRawLoop now r l).1.pending → r₀.expiredAt now a = true ∨
        a ∈ r₀.takeRawTarget now r.orderedAccessWatermark l
  | [], r, _ => ⟨fun wm hwm h => ⟨wm, hwm, h⟩, fun _ ha => (nomatch ha)⟩
  | a :: l, r, hexp => by
      unfold takeRawLoop
      split_ifs with hzero
      · exact ⟨fun wm hwm h => ⟨wm, hwm, h⟩, fun b hb hb' => absurd hb hb'⟩
      have hserve : ∀ wm, r.orderedAccessWatermark = some wm → Windowed window (a :: l) wm →
          r.orderedAccessWatermark.map (· - 1) = some (wm - 1) ∧ Windowed window l (wm - 1) := by
        intro wm hwm h
        cases wm with
        | zero => exact absurd hwm hzero
        | succ wm =>
          rw [hwm]
          exact ⟨rfl, h.serve⟩
      rw [takeRawTarget_cons r₀ now a l hzero]
      dsimp only
      split_ifs with he he' he'
      · obtain ⟨hwindowed, hremoved⟩ := takeRawLoop_windowed window now r₀ l
          { r with
            orderedAccessWatermark := r.orderedAccessWatermark.map (· - 1)
            heap := r.heap.beginTeardown a }
          fun b => (Accounted.expired_beginTeardown r.heap now a b).trans (hexp b)
        refine ⟨fun wm hwm h => ?_, fun b hb hb' => ?_⟩
        · exact hwindowed _ (hserve wm hwm h).1 (hserve wm hwm h).2
        · rcases List.mem_cons.1 hb with rfl | hb
          · exact .inl he'
          · exact hremoved b hb hb'
      · exact absurd ((hexp a).symm.trans he) he'
      · exact absurd ((hexp a).trans he') he
      · refine ⟨fun wm hwm h => ⟨wm - 1, (hserve wm hwm h).1, (hserve wm hwm h).2⟩,
          fun b hb hb' => ?_⟩
        rcases List.mem_cons.1 hb with rfl | hb
        · exact .inr List.mem_cons_self
        · exact absurd hb hb'

theorem targets_eq {call : TakeCall} {built : Bool} {q : QueueCall}
    (hq : (ReaderAction.take call built).queueCall = some q) : call.targets r = r.collected q := by
  have hreserved (now : ℤ) (c : RawCall) (reserved : Bool) :
      (r.rawSplit now c).1.take (if reserved then limit c.maxSamples else 0) =
        if reserved then (r.rawSplit now c).1 else [] := by
    cases reserved with
    | false => rfl
    | true => exact List.take_of_length_le (Calls.length_rawSplit_le r now c)
  cases call with
  | takeRaw now => exact nomatch hq
  | takeNextInstanceRaw now prev =>
    cases hq
    refine Eq.trans ?_ (hreserved now ⟨true, some prev, anyFilter, 1⟩ true).symm
    unfold rawSplit
    simp only [TakeCall.targets]
    cases (r.purgeExpired now).nextInstance prev anyFilter with
    | none => rfl
    | some ih =>
      have hp : (fun a => decide ((r.purgeExpired now).handleAt a = some ih)) =
          (r.purgeExpired now).selects (ofInstance anyFilter ih) :=
        funext fun a => (selects_anyFilter _ ih a).symm
      rw [Option.elim_some, Option.elim_some, hp]
      rfl
  | takeFiltered now f maxSamples reserved =>
    cases hq
    exact (hreserved now ⟨true, none, f, maxSamples⟩ reserved).symm
  | takeNextInstanceFiltered now prev f maxSamples reserved =>
    cases hq
    refine Eq.trans ?_ (hreserved now ⟨true, some prev, f, maxSamples⟩ reserved).symm
    unfold rawSplit
    simp only [TakeCall.targets]
    cases (r.purgeExpired now).nextInstance prev f with
    | none => rfl
    | some ih => rfl

/-! ### What a call gives -/

def dataAt (r : DataReader) (a : ℕ) : Option ℕ := (r.heap.get a).map (·.data)

theorem dataAt_purgeExpired (r : DataReader) (now : ℤ) : (r.purgeExpired now).dataAt = r.dataAt :=
  funext ((purgeExpired_sameContents r now).map_get fun _ _ => rfl)

theorem takeAway_data (r : DataReader) (taken kept : List ℕ) :
    (r.takeAway taken kept).2.map (·.data) = taken.filterMap r.dataAt := by
  rw [show (r.takeAway taken kept).2.map (·.data) = _ from Accounted.takenSamples_data r taken,
    List.map_filterMap]
  rfl

theorem takeRawLoop_data (now : ℤ) (r₀ : DataReader) : ∀ (l : List ℕ) (r : DataReader),
    r₀.heap.SameContents r.heap → (∀ a, r.expiredAt now a = r₀.expiredAt now a) →
      (takeRawLoop now r l).2.map (·.data) =
        (r₀.takeRawTarget now r.orderedAccessWatermark l).filterMap r₀.dataAt
  | [], r, _, _ => by
      cases r.orderedAccessWatermark with
      | none => rfl
      | some w => cases w <;> rfl
  | a :: l, r, hs, hexp => by
      unfold takeRawLoop
      split_ifs with hzero
      · rw [hzero]
        rfl
      rw [takeRawTarget_cons r₀ now a l hzero]
      dsimp only
      split_ifs with he he' he'
      · exact takeRawLoop_data now r₀ l
          { r with
            orderedAccessWatermark := r.orderedAccessWatermark.map (· - 1)
            heap := r.heap.beginTeardown a }
          (hs.trans (.beginTeardown r.heap a))
          fun b => (Accounted.expired_beginTeardown r.heap now a b).trans (hexp b)
      · exact absurd ((hexp a).symm.trans he) he'
      · exact absurd ((hexp a).trans he') he
      · rw [List.map_map]
        refine (takeAway_data { r with
          orderedAccessWatermark := r.orderedAccessWatermark.map (· - 1) } [a] l).trans ?_
        exact List.filterMap_congr fun b _ => hs.map_get (fun _ _ => rfl) b

/-- A take gives the payloads of its samples. -/
theorem takeCall_data (r : DataReader) (call : TakeCall) :
    (call.run r).2.map (·.data) = (call.targets r).filterMap r.dataAt := by
  have hraw (now : ℤ) (c : RawCall) (reserved : Bool) :
      (r.rawTake now c reserved).2.map (·.data) =
        (r.collected ⟨now, c, if reserved then limit c.maxSamples else 0⟩).filterMap r.dataAt := by
    rw [rawTake_eq]
    cases reserved with
    | false => rfl
    | true =>
      refine (takeAway_data _ _ _).trans ?_
      rw [dataAt_purgeExpired]
      exact congrArg _ (List.take_of_length_le (Calls.length_rawSplit_le r now c)).symm
  cases call with
  | takeRaw now => exact takeRawLoop_data now r r.pending r (.refl _) fun _ => rfl
  | takeNextInstanceRaw now prev =>
    rw [@targets_eq r _ true _ rfl]
    simp only [TakeCall.run]
    rw [takeNextInstanceRaw_eq, List.map_map]
    refine (takeAway_data _ _ _).trans ?_
    rw [dataAt_purgeExpired]
    exact congrArg _ (List.take_of_length_le (Calls.length_rawSplit_le r now _)).symm
  | takeFiltered now f maxSamples reserved =>
    rw [@targets_eq r _ true _ rfl]
    exact hraw now ⟨true, none, f, maxSamples⟩ reserved
  | takeNextInstanceFiltered now prev f maxSamples reserved =>
    rw [@targets_eq r _ true _ rfl]
    exact hraw now ⟨true, some prev, f, maxSamples⟩ reserved

/-- A copying read gives the contents of its samples. -/
theorem Held.readCall_payloads {loaned : List ℕ} (h : r.Held loaned) {call : ReadCall}
    {built : Bool} {q : QueueCall} (hq : (ReaderAction.read call built).queueCall = some q) :
    (call.run r).2.1.map (fun s => (call.run r).1.heap.payload s.data) =
      (r.collected q).filterMap fun a => (r.dataAt a).map r.heap.payload := by
  have hread (now : ℤ) (c : RawCall) (clones : ℕ) : (r.rawRead now c clones).2.1.map
      (fun s => (r.rawRead now c clones).1.heap.payload s.data) =
        (r.collected ⟨now, c, clones⟩).filterMap fun a => (r.dataAt a).map r.heap.payload := by
    have hpurge := h.purgeExpired now
    have hchosen := (List.take_sublist clones _).trans (rawSplit_sublist r now c).1
    have hin : ∀ a ∈ (r.rawSplit now c).1.take clones, ∃ pc,
        (r.purgeExpired now).heap.get a = some pc ∧
          pc.data < (r.purgeExpired now).heap.payloads.length := by
      intro a ha
      obtain ⟨pc, hpc, -, -, hdata⟩ := hpurge.holds a (hchosen.subset ha)
      exact ⟨pc, hpc, hdata⟩
    obtain ⟨hsamples, -, -⟩ := cloneSamples_spec _ _ (hpurge.nodup.sublist hchosen) hin
    have hpayloads := congrArg (List.map fun t : List UInt8 × KeyHash × SampleInfo => t.1) hsamples
    rw [List.map_map, List.map_map, List.map_filterMap] at hpayloads
    have hranked := congrArg (List.map ((r.purgeExpired now).cloneSamples
      ((r.rawSplit now c).1.take clones)).1.heap.payload) (Accounted.rankTaken_data
        ((r.purgeExpired now).cloneSamples ((r.rawSplit now c).1.take clones)).1
        ((r.purgeExpired now).cloneSamples ((r.rawSplit now c).1.take clones)).2)
    rw [List.map_map, List.map_map] at hranked
    rw [rawRead_eq]
    refine hranked.trans (hpayloads.trans (List.filterMap_congr fun a _ => ?_))
    rw [← dataAt_purgeExpired r now]
    unfold dataAt
    rw [Option.map_map]
    have hpayload : r.heap.payload = (r.purgeExpired now).heap.payload := by
      unfold Heap.payload
      rw [(purgeExpired_sameContents r now).payloads]
    rw [hpayload]
    rfl
  cases call with
  | readRaw now f maxSamples clones =>
    cases hq
    exact hread now ⟨false, none, f, maxSamples⟩ clones
  | readNextInstanceRaw now prev clones =>
    cases hq
    simp only [ReadCall.run, readNextInstanceRaw, List.map_map]
    exact hread now ⟨false, some prev, anyFilter, 1⟩ clones
  | readNextInstanceFiltered now prev f maxSamples clones =>
    cases hq
    exact hread now ⟨false, some prev, f, maxSamples⟩ clones

/-- A loan is of its samples. -/
theorem Held.loanCall_samples {loaned : List ℕ} (h : r.Held loaned) {call : LoanCall}
    {sliced : Bool} {q : QueueCall} (hq : (ReaderAction.lend call sliced).queueCall = some q) :
    (call.run r).2 = r.collected q := by
  have htake (now : ℤ) (c : RawCall) (reserved : Bool) : (r.rawTakeForLoan now c reserved).2 =
      r.collected ⟨now, c, if reserved then limit c.maxSamples else 0⟩ := by
    rw [rawTakeForLoan_eq]
    cases reserved with
    | false => rfl
    | true => exact (List.take_of_length_le (Calls.length_rawSplit_le r now c)).symm
  have hpin (now : ℤ) (c : RawCall) (pins : ℕ) :
      (r.rawPin now c pins).2 = r.collected ⟨now, c, pins⟩ := by
    have hpurge := h.purgeExpired now
    have hchosen := (List.take_sublist pins _).trans (rawSplit_sublist r now c).1
    rw [h.rawPin_eq]
    exact (pinSamples_spec _ _ _ (hpurge.nodup.sublist hchosen) hchosen.subset hpurge).1
  cases call with
  | pinSamplesForLoan now f maxSamples n =>
    cases hq
    exact hpin now ⟨false, none, f, maxSamples⟩ n
  | pinNextInstanceForLoan now prev f maxSamples n =>
    cases hq
    exact hpin now ⟨false, some prev, f, maxSamples⟩ n
  | takeSamplesForLoan now f maxSamples reserved =>
    cases hq
    exact htake now ⟨true, none, f, maxSamples⟩ reserved
  | takeNextInstanceForLoan now prev f maxSamples reserved =>
    cases hq
    exact htake now ⟨true, some prev, f, maxSamples⟩ reserved

/-! ### Arrivals -/

/-- The queue loses only such samples as `lost` says and gains new ones at its end. -/
structure Extends (lost : ℕ → Prop) (r r' : DataReader) : Prop where
  pending : ∃ kept new, r'.pending = kept ++ new ∧ kept.Sublist r.pending ∧
    ∀ a ∈ new, r.heap.structs.length ≤ a
  lost : ∀ a ∈ r.pending, a ∉ r'.pending → lost a
  structs : r.heap.structs.length ≤ r'.heap.structs.length
  watermark : r'.orderedAccessWatermark = r.orderedAccessWatermark

namespace Extends

variable {lost : ℕ → Prop} {r'' : DataReader}

theorem of_eq (hp : r'.pending = r.pending) (hs : r'.heap.structs.length = r.heap.structs.length)
    (hw : r'.orderedAccessWatermark = r.orderedAccessWatermark) : Extends lost r r' :=
  ⟨⟨r.pending, [], hp.trans (List.append_nil _).symm, .refl _, fun _ ha => (nomatch ha)⟩,
    fun a ha ha' => absurd (hp ▸ ha) ha', hs.ge, hw⟩

theorem trans (h : Extends lost r r') (h' : Extends lost r' r'') : Extends lost r r'' := by
  obtain ⟨kept, new, hp, hkept, hnew⟩ := h.pending
  obtain ⟨kept', new', hp', hkept', hnew'⟩ := h'.pending
  rw [hp] at hkept'
  obtain ⟨k, n, rfl, hk, hn⟩ := List.sublist_append_iff.1 hkept'
  refine ⟨⟨k, n ++ new', ?_, hk.trans hkept, fun a ha => ?_⟩, fun a ha ha'' => ?_,
    h.structs.trans h'.structs, h'.watermark.trans h.watermark⟩
  · rw [hp', List.append_assoc]
  · rcases List.mem_append.1 ha with ha | ha
    · exact hnew a (hn.subset ha)
    · exact h.structs.trans (hnew' a ha)
  · by_cases ha' : a ∈ r'.pending
    · exact h'.lost a ha' ha''
    · exact h.lost a ha ha'

theorem enqueue (r : DataReader) (pc : PendingChange) : Extends lost r (r.enqueue pc) := by
  refine ⟨⟨r.pending, [r.heap.structs.length], rfl, .refl _, fun a ha => ?_⟩, fun a ha ha' => ?_,
    ?_, rfl⟩
  · rw [List.mem_singleton.1 ha]
  · exact absurd (List.mem_append_left _ ha) ha'
  · show _ ≤ (r.heap.structs ++ [pc]).length
    rw [List.length_append]
    exact Nat.le_add_right _ _

theorem enqueues : ∀ (samples : List PendingChange) (r : DataReader),
    Extends lost r (samples.foldl DataReader.enqueue r)
  | [], _ => of_eq rfl rfl rfl
  | pc :: samples, r => (enqueue r pc).trans (enqueues samples _)

theorem leaves (h : LeavesSamples r r')
    (hw : r'.orderedAccessWatermark = r.orderedAccessWatermark) : Extends lost r r' :=
  of_eq h.pending (congrArg List.length h.structs) hw

end Extends

/-- Ending a set frees samples or queues it. -/
theorem endCoherentWipLocked_frame (r : DataReader) (now : ℤ) (writer : Guid) (cw : CoherentWriter)
    (clean : Bool) : ∃ heap wip committed, (r.endCoherentWipLocked now writer cw clean).1 =
      { r with heap := heap, coherentWip := wip, coherentCommitted := committed } := by
  unfold endCoherentWipLocked
  split
  next => exact ⟨_, _, _, rfl⟩
  next wip _ =>
    dsimp only
    split_ifs
    · exact ⟨_, _, _, rfl⟩
    · exact ⟨_, _, _, rfl⟩
    · exact ⟨_, _, _, rfl⟩

theorem trackCoherentLocked_frame (r : DataReader) (now : ℤ) (change : CacheChange)
    (isMarker : Bool) : ∃ heap wip committed writers start,
      (r.trackCoherentLocked now change isMarker).1 = { r with
        heap := heap
        coherentWip := wip
        coherentCommitted := committed
        coherentWriters := writers
        lastCoherentWipStartNs := start } := by
  have hend : ∀ (b clean : Bool) (cw cw' : CoherentWriter), ∃ heap wip committed,
      (if b then r.endCoherentWipLocked now change.writerGuid cw clean else (r, cw', false)).1 =
        { r with heap := heap, coherentWip := wip, coherentCommitted := committed } := by
    intro b clean cw cw'
    cases b with
    | false => exact ⟨_, _, _, rfl⟩
    | true => exact endCoherentWipLocked_frame r now _ cw clean
  unfold trackCoherentLocked
  dsimp only
  split
  · split
    · exact ⟨_, _, _, _, _, rfl⟩
    · obtain ⟨heap, wip, committed, hframe⟩ := hend _ _ _ _
      rw [hframe]
      exact ⟨_, _, _, _, _, rfl⟩
  · obtain ⟨heap, wip, committed, hframe⟩ := hend _ _ _ _
    rw [hframe]
    exact ⟨_, _, _, _, _, rfl⟩

theorem arriveLocked_frame (r : DataReader) (now : ℤ) (ih : HandleT) (change : CacheChange) :
    ∃ heap wip committed writers start instances, (r.arriveLocked now ih change).2 = { r with
      heap := heap
      coherentWip := wip
      coherentCommitted := committed
      coherentWriters := writers
      lastCoherentWipStartNs := start
      writerInstances := instances } := by
  obtain ⟨heap, instances, htrack⟩ : ∃ heap instances, (if change.kind = .alive then
      (r.dupe change.data).2.trackWriterInstanceLocked change.writerGuid ih
      else (r.dupe change.data).2) = { r with heap := heap, writerInstances := instances } := by
    split_ifs
    · exact ⟨_, _, rfl⟩
    · exact ⟨_, _, rfl⟩
  unfold arriveLocked
  dsimp only
  rw [htrack]
  split_ifs
  · obtain ⟨heap', wip, committed, writers, start, hframe⟩ := trackCoherentLocked_frame
      { r with heap := heap, writerInstances := instances } now change false
    rw [hframe]
    exact ⟨_, _, _, _, _, _, rfl⟩
  · exact ⟨_, _, _, _, _, _, rfl⟩

/-- Ownership and the filters change neither the queue nor the memory. -/
theorem ownershipLocked_frame (r : DataReader) (ih : HandleT) (writer : Guid) :
    ∃ owners, (r.ownershipLocked ih writer).1 = { r with ownerMap := owners } := by
  unfold ownershipLocked
  split_ifs
  · split
    · split_ifs
      · exact ⟨r.ownerMap, rfl⟩
      · exact ⟨_, rfl⟩
      · exact ⟨r.ownerMap, rfl⟩
    · exact ⟨_, rfl⟩
  · exact ⟨r.ownerMap, rfl⟩

theorem stampLocked_frame (r : DataReader) (copy : ℕ) (ih : HandleT) (change : CacheChange) :
    ∃ seen, (r.stampLocked copy ih change).1 = { r with seenInstances := seen } := by
  unfold stampLocked
  dsimp only
  split_ifs
  · exact ⟨_, rfl⟩
  · exact ⟨_, rfl⟩

theorem filtersTaken_frame (r : DataReader) (ih : HandleT) (change : CacheChange) :
    ∃ last owners, r.filtersTaken ih change = { r with tbfMap := last, ownerMap := owners } := by
  unfold filtersTaken
  dsimp only
  split_ifs
  · exact ⟨_, _, rfl⟩
  · exact ⟨_, _, rfl⟩
  · exact ⟨_, _, rfl⟩
  · exact ⟨_, _, rfl⟩

/-- Under KEEP_LAST, a sample of an instance can push another one of it out. -/
def Evicts (r : DataReader) (ih : HandleT) (a : ℕ) : Prop :=
  r.qos.history = .keepLast ∧ r.handleAt a = some ih

namespace Extends

variable (r)

theorem keepLastLocked (ih : HandleT) : Extends (r.Evicts ih) r (r.keepLastLocked ih) := by
  unfold DataReader.keepLastLocked
  split_ifs with hkeep
  · unfold evictOldestLocked
    split
    next => exact of_eq rfl rfl rfl
    next b hb =>
      have hhandle : r.handleAt b = some ih := by simpa using List.find?_some hb
      refine ⟨⟨r.pending.erase b, [], (List.append_nil _).symm, List.erase_sublist,
        fun _ ha => (nomatch ha)⟩, fun a ha ha' => ?_, ?_, rfl⟩
      · have hab : a = b := by
          by_contra hne
          exact ha' ((List.mem_erase_of_ne hne).2 ha)
        exact ⟨hkeep.1, hab ▸ hhandle⟩
      · exact (Heap.length_beginTeardown r.heap b).ge
  · exact of_eq rfl rfl rfl

theorem queueLocked (copy : ℕ) (ih : HandleT) (change : CacheChange) :
    Extends (r.Evicts ih) r (r.queueLocked copy ih change) := by
  refine (keepLastLocked r ih).trans ?_
  unfold DataReader.queueLocked
  dsimp only
  split
  · exact of_eq rfl rfl rfl
  · obtain ⟨seen, hstamp⟩ := stampLocked_frame (r.keepLastLocked ih) copy ih change
    have hseen : Extends (r.Evicts ih) (r.keepLastLocked ih)
        { r.keepLastLocked ih with seenInstances := seen } := of_eq rfl rfl rfl
    obtain ⟨last, owners, hfilters⟩ := filtersTaken_frame
      (DataReader.enqueue { r.keepLastLocked ih with seenInstances := seen }
        ((r.keepLastLocked ih).stampLocked copy ih change).2) ih change
    rw [hstamp, hfilters]
    exact (hseen.trans (enqueue _ _)).trans (of_eq rfl rfl rfl)

theorem bufferLocked {lost : ℕ → Prop} (copy : ℕ) (ih : HandleT) (change : CacheChange) :
    Extends lost r (r.bufferLocked copy ih change) := by
  unfold DataReader.bufferLocked
  split
  next => exact of_eq rfl rfl rfl
  next =>
    obtain ⟨seen, hstamp⟩ := stampLocked_frame r copy ih change
    obtain ⟨last, owners, hfilters⟩ := filtersTaken_frame { r with seenInstances := seen } ih change
    dsimp only
    rw [hstamp, hfilters]
    exact of_eq rfl rfl rfl

theorem onDataCb (now : ℤ) (change : CacheChange) :
    Extends (r.Evicts (keyHashToHandle change.keyHash)) r (r.onDataCb now change) := by
  have hleaves := arriveLocked_leaves r now change
  have harrive : Extends (r.Evicts (keyHashToHandle change.keyHash)) r
      (r.arriveLocked now (keyHashToHandle change.keyHash) change).2 := by
    refine of_eq hleaves.pending (congrArg List.length hleaves.structs) ?_
    obtain ⟨_, _, _, _, _, _, hframe⟩ := arriveLocked_frame r now
      (keyHashToHandle change.keyHash) change
    rw [hframe]
  refine harrive.trans ?_
  obtain ⟨owners, howner⟩ := ownershipLocked_frame
    (r.arriveLocked now (keyHashToHandle change.keyHash) change).2
    (keyHashToHandle change.keyHash) change.writerGuid
  have hevicts : r.Evicts (keyHashToHandle change.keyHash) =
      DataReader.Evicts { (r.arriveLocked now (keyHashToHandle change.keyHash) change).2 with
        ownerMap := owners } (keyHashToHandle change.keyHash) := by
    funext a
    unfold Evicts handleAt Heap.get
    dsimp only
    rw [hleaves.qos, hleaves.structs]
  have howned : Extends (r.Evicts (keyHashToHandle change.keyHash))
      (r.arriveLocked now (keyHashToHandle change.keyHash) change).2
      { (r.arriveLocked now (keyHashToHandle change.keyHash) change).2 with
        ownerMap := owners } := of_eq rfl rfl rfl
  refine howned.trans ?_
  rw [hevicts]
  unfold DataReader.onDataCb
  dsimp only
  rw [howner]
  split_ifs
  · exact of_eq rfl rfl rfl
  · exact bufferLocked _ _ _ _
  · exact queueLocked _ _ _ _

theorem orphans {lost : ℕ → Prop} (guid : Guid) (now : Time) : ∀ (l : List HandleT)
    (r : DataReader), Extends lost r (l.foldl (fun r ih => r.orphanLocked guid now ih) r)
  | [], _ => of_eq rfl rfl rfl
  | ih :: l, r => by
      have hone : Extends lost r (r.orphanLocked guid now ih) := by
        unfold orphanLocked
        split_ifs
        · exact of_eq rfl rfl rfl
        · have hstates : Extends lost r ((r.dupe emptyKeyCdr).2.determineStatesLocked ih
              .notAliveUnregistered).1 := of_eq rfl rfl rfl
          exact hstates.trans (enqueue _ _)
        · exact of_eq rfl rfl rfl
      exact hone.trans (orphans guid now l _)

theorem onWriterUnmatchingCb {lost : ℕ → Prop} (now : Time) (guid : Guid) :
    Extends lost r (r.onWriterUnmatchingCb now guid) := by
  unfold DataReader.onWriterUnmatchingCb
  refine trans ?_ (orphans guid now _ _)
  exact of_eq rfl (congrArg List.length (LeavesSamples.structs_foldl_free _ r.heap)) rfl

theorem onWriterMatchingCb {lost : ℕ → Prop} (now : ℤ) (info : MatchedWriterInfo) (isNew : Bool) :
    Extends lost r (r.onWriterMatchingCb now info isNew) := by
  refine leaves (LeavesSamples.onWriterMatchingCb r now info isNew) ?_
  unfold DataReader.onWriterMatchingCb
  dsimp only
  split_ifs <;> rfl

theorem onEocCb {lost : ℕ → Prop} (now : ℤ) (change : CacheChange) :
    Extends lost r (r.onEocCb now change) := by
  refine leaves (LeavesSamples.onEocCb r now change) ?_
  unfold DataReader.onEocCb
  split_ifs
  · obtain ⟨_, _, _, _, _, hframe⟩ := trackCoherentLocked_frame r now change true
    rw [hframe]
  · rfl

theorem promoteCommittedSetLocked {lost : ℕ → Prop} (idx : ℕ) :
    Extends lost r (r.promoteCommittedSetLocked idx) := by
  have herase : Extends lost r
      { r with coherentCommitted := r.coherentCommitted.eraseIdx idx } := of_eq rfl rfl rfl
  exact herase.trans (enqueues _ _)

theorem discardCommittedSetLocked {lost : ℕ → Prop} (idx : ℕ) :
    Extends lost r (r.discardCommittedSetLocked idx) :=
  leaves (LeavesSamples.discardCommittedSetLocked r idx) rfl

end Extends

/-! ### The window -/

/-- What is left of the window is in order, before the newcomers, and open; the samples of the
window were there before all that are still to come. -/
structure InWindow (window : List ℕ) (r : DataReader) : Prop where
  windowed : ∃ wm, r.orderedAccessWatermark = some wm ∧ Windowed window r.pending wm
  old : ∀ a ∈ window, a < r.heap.structs.length

variable {window : List ℕ}

theorem Held.inWindow_beginOrdered {loaned : List ℕ} (h : r.Held loaned) :
    InWindow r.beginOrdered.pending r.beginOrdered :=
  ⟨⟨_, rfl, Windowed.start _⟩, fun _ ha => h.beginOrdered.lt_of_pending ha⟩

namespace InWindow

theorem extended {lost : ℕ → Prop} (h : InWindow window r) (he : Extends lost r r') :
    InWindow window r' := by
  obtain ⟨wm, hwm, hwindowed⟩ := h.windowed
  obtain ⟨kept, new, hp, hkept, hnew⟩ := he.pending
  refine ⟨⟨wm, he.watermark.trans hwm, ?_⟩, fun a ha => (h.old a ha).trans_le he.structs⟩
  rw [hp]
  exact (hwindowed.sublist hkept).append fun a ha haw => (h.old a haw).not_ge (hnew a ha)

theorem calls {q : QueueCall} (h : InWindow window r) (hc : Calls r q r') : InWindow window r' := by
  obtain ⟨wm, hwm, hwindowed⟩ := h.windowed
  exact ⟨⟨wm, hc.watermark.trans hwm, hwindowed.sublist hc.sublist⟩,
    fun a ha => hc.structs ▸ h.old a ha⟩

theorem takeRaw (h : InWindow window r) (now : ℤ) : InWindow window (r.takeRaw now).1 := by
  obtain ⟨wm, hwm, hwindowed⟩ := h.windowed
  have hwindow := (takeRawLoop_windowed window now r r.pending r fun _ => rfl).1 wm hwm hwindowed
  refine ⟨hwindow, fun a ha => ?_⟩
  have hlen := (Accesses.takeRawLoop now r.pending r (List.Subset.refl _)).structs
  exact hlen ▸ h.old a ha

theorem openEntries (h : InWindow window r) :
    ∃ wm, r.openEntries = r.pending.take wm ∧ Windowed window r.pending wm := by
  obtain ⟨wm, hwm, hwindowed⟩ := h.windowed
  refine ⟨wm, ?_, hwindowed⟩
  unfold DataReader.openEntries
  rw [hwm]
  rfl

end InWindow

end DataReader

/-! ### Newcomers -/

namespace ReaderAction

open DataReader

/-- The action cannot reach a newcomer.  `takeRaw` finds a sample of the window that has not
expired, or no newcomer among the open entries that has not; any other call passes no newcomer that
has not expired, or enough samples of the window. -/
def Spares (window : List ℕ) (r : DataReader) : ReaderAction → Prop
  | .take (.takeRaw now) _ =>
      (∃ a ∈ r.pending, a ∈ window ∧ r.expiredAt now a = false) ∨
        ∀ a ∈ r.openEntries, a ∉ window → r.expiredAt now a = true
  | act => ∀ q, act.queueCall = some q → ∀ p, r.passing q = some p →
      (∀ a ∈ r.pending, a ∉ window → r.expiredAt q.now a = false → p a = false) ∨
        min q.room (limit q.about.maxSamples) ≤
          ((r.pending.filter (· ∈ window)).filter fun a => !r.expiredAt q.now a && p a).length

/-- The action removes a sample: takes it, finds it expired or, where it brings a sample of the same
instance under KEEP_LAST, evicts it. -/
def Removes (r : DataReader) (a : ℕ) : ReaderAction → Prop
  | .data _ change => r.Evicts (keyHashToHandle change.keyHash) a
  | .take (.takeRaw now) _ =>
      r.expiredAt now a = true ∨ a ∈ (TakeCall.takeRaw now).targets r
  | act => ∃ q, act.queueCall = some q ∧
      (r.expiredAt q.now a = true ∨ (q.about.destructive = true ∧ a ∈ r.collected q))

theorem collected_eq {act : ReaderAction} {q : QueueCall} (hq : act.queueCall = some q)
    (r : DataReader) : act.collected r = r.collected q := by
  cases act with
  | take call built => exact targets_eq hq
  | read call built =>
    show (ReaderAction.read call built).queueCall.elim [] r.collected = _
    rw [hq]
    rfl
  | lend call sliced =>
    show (ReaderAction.lend call sliced).queueCall.elim [] r.collected = _
    rw [hq]
    rfl
  | _ => exact nomatch hq

theorem spares_iff {window : List ℕ} {r : DataReader} {act : ReaderAction} {q : QueueCall}
    (hq : act.queueCall = some q) : act.Spares window r ↔ ∀ p, r.passing q = some p →
      (∀ a ∈ r.pending, a ∉ window → r.expiredAt q.now a = false → p a = false) ∨
        min q.room (limit q.about.maxSamples) ≤
          ((r.pending.filter (· ∈ window)).filter fun a => !r.expiredAt q.now a && p a).length := by
  have hiff {P : QueueCall → Prop} : (∀ q', act.queueCall = some q' → P q') ↔ P q :=
    ⟨fun h => h q hq, fun h q' hq' => Option.some.inj (hq.symm.trans hq') ▸ h⟩
  cases act with
  | take call built =>
    cases call with
    | takeRaw now => exact nomatch hq
    | _ => exact hiff
  | _ => exact hiff

/-- Under an open window, an action gives the application no newcomer exactly if it cannot reach
one. -/
theorem collected_mem_iff {window : List ℕ} {r : DataReader} (h : InWindow window r)
    (act : ReaderAction) : (∀ a ∈ act.collected r, a ∈ window) ↔ act.Spares window r := by
  cases hq : act.queueCall with
  | some q =>
    obtain ⟨wm, -, hwindowed⟩ := h.windowed
    have hlive : Windowed window (r.pending.filter fun a => !r.expiredAt q.now a) wm :=
      hwindowed.sublist List.filter_sublist
    rw [collected_eq hq, spares_iff hq, DataReader.collected_eq]
    cases r.passing q with
    | none => exact iff_of_true (fun _ ha => (nomatch ha)) fun _ hp => (nomatch hp)
    | some p =>
      have hleft : ((r.pending.filter fun a => !r.expiredAt q.now a).filter (· ∈ window)).filter p =
          (r.pending.filter (· ∈ window)).filter fun a => !r.expiredAt q.now a && p a := by
        rw [List.filter_filter, List.filter_filter, List.filter_filter]
        exact List.filter_congr fun a _ => by ac_rfl
      have hnew : (∀ a ∈ r.pending.filter (fun a => !r.expiredAt q.now a), a ∉ window →
          p a = false) ↔
            ∀ a ∈ r.pending, a ∉ window → r.expiredAt q.now a = false → p a = false := by
        simp only [List.mem_filter, Bool.not_eq_true', and_imp]
        exact forall₂_congr fun a _ => forall_comm
      rw [Option.elim_some, hlive.take_filter_mem_iff, hleft, hnew]
      exact ⟨fun h p' hp' => Option.some.inj hp' ▸ h, fun h => h p rfl⟩
  | none =>
    cases act with
    | take call built =>
      cases call with
      | takeRaw now =>
        obtain ⟨wm, hopen, hwindowed⟩ := h.openEntries
        show (∀ a ∈ (TakeCall.takeRaw now).targets r, a ∈ window) ↔
          (∃ a ∈ r.pending, a ∈ window ∧ r.expiredAt now a = false) ∨
            ∀ a ∈ r.openEntries, a ∉ window → r.expiredAt now a = true
        have hfirst := hwindowed.find?_mem_iff (p := fun a => !r.expiredAt now a)
        simp only [Bool.not_eq_true', Bool.not_eq_false'] at hfirst
        rw [takeRaw_targets, rawFront, hopen, ← hfirst]
        simp only [Option.mem_toList]
      | _ => exact nomatch hq
    | read call built => cases call <;> exact nomatch hq
    | lend call sliced => cases call <;> exact nomatch hq
    | _ => exact iff_of_true (fun _ ha => (nomatch ha)) fun _ hq => (nomatch hq)

end ReaderAction

namespace ReaderMachine

open DataReader

variable {s s' s₁ : ReaderMachine} {window : List ℕ}

/-! ### Steps of an open window -/

theorem reader_giveOut (s : ReaderMachine) (reader : DataReader) (payloads : List ℕ)
    (built : Bool) : (s.giveOut reader payloads built).reader =
      if built then reader else payloads.foldl freePayload reader := by
  unfold giveOut
  split_ifs <;> rfl

/-- What a call of the queue does to the reader. -/
theorem step_calls {act : ReaderAction} {q : QueueCall} (hq : act.queueCall = some q)
    (hs : s.step act = some s') : Calls s.reader q s'.reader := by
  have hgive {reader : DataReader} (h : Calls s.reader q reader) (s₀ : ReaderMachine)
      (payloads : List ℕ) (built : Bool) :
      Calls s.reader q (s₀.giveOut reader payloads built).reader := by
    rw [reader_giveOut]
    split_ifs
    · exact h
    · exact h.freePayloads payloads
  cases act with
  | take call built =>
    cases hs
    exact hgive (.takeCall hq) _ _ _
  | read call built =>
    simp only [ReaderMachine.step] at hs
    split_ifs at hs
    · cases hs
      exact hgive (.readCall hq) _ _ _
    · cases hs
      exact .readCall hq
  | lend call sliced =>
    cases hs
    exact .loanCall hq
  | _ => exact by cases hq

/-- An open window stays one, and nothing leaves the queue unless the action removes it. -/
theorem step_inWindow (h : InWindow window s.reader) {act : ReaderAction}
    (hopen : act ≠ .beginOrdered ∧ act ≠ .endOrdered) (hs : s.step act = some s') :
    InWindow window s'.reader ∧
      ∀ a ∈ s.reader.pending, a ∉ s'.reader.pending → act.Removes s.reader a := by
  have hextends {lost : ℕ → Prop} (he : Extends lost s.reader s'.reader)
      (hlost : ∀ a, lost a → act.Removes s.reader a) : InWindow window s'.reader ∧
        ∀ a ∈ s.reader.pending, a ∉ s'.reader.pending → act.Removes s.reader a :=
    ⟨h.extended he, fun a ha ha' => hlost a (he.lost a ha ha')⟩
  have hnone {P : ℕ → Prop} : ∀ a, False → P a := fun _ hf => hf.elim
  have hcalls {q : QueueCall} (hq : act.queueCall = some q)
      (hremoves : ∀ a, s.reader.expiredAt q.now a = true ∨
        (q.about.destructive = true ∧ a ∈ s.reader.collected q) → act.Removes s.reader a) :
      InWindow window s'.reader ∧
        ∀ a ∈ s.reader.pending, a ∉ s'.reader.pending → act.Removes s.reader a :=
    ⟨h.calls (step_calls hq hs), fun a ha ha' => hremoves a ((step_calls hq hs).removed ha ha')⟩
  cases act with
  | matching now info =>
    cases hs
    exact hextends (.onWriterMatchingCb _ now info _) hnone
  | unmatching now guid =>
    obtain ⟨-, hs⟩ := Option.ite_none_right_eq_some.1 hs
    cases hs
    exact hextends (.onWriterUnmatchingCb _ now guid) hnone
  | data now change =>
    obtain ⟨-, hs⟩ := Option.ite_none_right_eq_some.1 hs
    cases hs
    exact hextends (.onDataCb _ now change) fun _ he => he
  | eoc now change =>
    obtain ⟨-, hs⟩ := Option.ite_none_right_eq_some.1 hs
    cases hs
    exact hextends (.onEocCb _ now change) hnone
  | promote idx =>
    cases hs
    exact hextends (.promoteCommittedSetLocked _ idx) hnone
  | discard idx =>
    cases hs
    exact hextends (.discardCommittedSetLocked _ idx) hnone
  | beginOrdered => exact absurd rfl hopen.1
  | endOrdered => exact absurd rfl hopen.2
  | take call built =>
    cases call with
    | takeRaw now =>
      have hrun : InWindow window (s.reader.takeRaw now).1 ∧ ∀ a ∈ s.reader.pending,
          a ∉ (s.reader.takeRaw now).1.pending →
            (ReaderAction.take (.takeRaw now) built).Removes s.reader a :=
        ⟨h.takeRaw now,
          (takeRawLoop_windowed window now s.reader s.reader.pending s.reader fun _ => rfl).2⟩
      cases hs
      rw [reader_giveOut]
      split_ifs
      · exact hrun
      · obtain ⟨freed, hfree⟩ := foldl_freePayload_frame
          ((takeRawLoop now s.reader s.reader.pending).2.map (·.data))
          (takeRawLoop now s.reader s.reader.pending).1
        rw [hfree]
        have hframe : Extends (fun _ => False) (s.reader.takeRaw now).1
            { (s.reader.takeRaw now).1 with
              heap := { (s.reader.takeRaw now).1.heap with freedPayloads := freed } } :=
          .of_eq rfl rfl rfl
        exact ⟨hrun.1.extended hframe, hrun.2⟩
    | _ => exact hcalls rfl fun a ha => ⟨_, rfl, ha⟩
  | read call built => cases call <;> exact hcalls rfl fun a ha => ⟨_, rfl, ha⟩
  | lend call sliced => cases call <;> exact hcalls rfl fun a ha => ⟨_, rfl, ha⟩
  | register i made =>
    obtain ⟨as, -, rfl⟩ := Option.map_eq_some_iff.mp hs
    cases made <;> exact hextends (.of_eq rfl rfl rfl) hnone
  | returnLoan key =>
    obtain ⟨as, -, rfl⟩ := Option.map_eq_some_iff.mp hs
    exact hextends (.of_eq rfl rfl rfl) hnone
  | releasePin i =>
    simp only [ReaderMachine.step] at hs
    split at hs
    next n a as _ =>
      cases hs
      exact hextends (.of_eq rfl (Heap.length_release _ a) rfl) hnone
    next => cases hs
  | settle i =>
    simp only [ReaderMachine.step] at hs
    split at hs
    next n _ =>
      cases hs
      exact hextends (.of_eq rfl rfl rfl) hnone
    next => cases hs
  | freeCopy i =>
    obtain ⟨payloads, -, rfl⟩ := Option.map_eq_some_iff.mp hs
    obtain ⟨freed, hfree⟩ := foldl_freePayload_frame payloads s.reader
    exact hextends (by rw [hfree]; exact .of_eq rfl rfl rfl) hnone

/-! ### Runs of an open window -/

/-- What an action between the two accesses meets in the state it is taken in. -/
def Along (s₁ : ReaderMachine) (acts : List ReaderAction)
    (P : DataReader → ReaderAction → Prop) : Prop :=
  ∀ before act after s, acts = before ++ act :: after → Run s₁ before s → P s.reader act

/-- What was in the window and has not been removed since is in the queue, in the sorted order, and
open: the first of it that has not expired is the one `takeRaw` gives. -/
def WindowStays (s₁ : ReaderMachine) (acts : List ReaderAction) (s : ReaderMachine) : Prop :=
  (∀ a ∈ s₁.reader.pending, a ∈ s.reader.pending ∨
    ∃ before act after t, acts = before ++ act :: after ∧ Run s₁ before t ∧
      act.Removes t.reader a) ∧
  (s.reader.pending.filter (· ∈ s₁.reader.pending)).Sublist s₁.reader.pending ∧
  ∀ now a, (s.reader.pending.filter (· ∈ s₁.reader.pending)).find?
      (fun a => !s.reader.expiredAt now a) = some a → (TakeCall.takeRaw now).targets s.reader = [a]

theorem inWindow_of_run {acts : List ReaderAction} (h₁ : InWindow s₁.reader.pending s₁.reader)
    (hopen : ∀ act ∈ acts, act ≠ .beginOrdered ∧ act ≠ .endOrdered) (hrun : Run s₁ acts s) :
    InWindow s₁.reader.pending s.reader ∧ ∀ a ∈ s₁.reader.pending, a ∈ s.reader.pending ∨
      ∃ before act after t, acts = before ++ act :: after ∧ Run s₁ before t ∧
        act.Removes t.reader a := by
  induction hrun with
  | nil => exact ⟨h₁, fun a ha => .inl ha⟩
  | @snoc acts act s s' hrun hs ih =>
    obtain ⟨hwindow, hstays⟩ := ih fun b hb => hopen b (List.mem_append_left _ hb)
    have hact := hopen act (List.mem_append_right _ List.mem_cons_self)
    obtain ⟨hwindow', hremoved⟩ := step_inWindow hwindow hact hs
    refine ⟨hwindow', fun a ha => ?_⟩
    rcases hstays a ha with hin | ⟨before, b, after, t, rfl, ht, hb⟩
    · by_cases hin' : a ∈ s'.reader.pending
      · exact .inl hin'
      · exact .inr ⟨acts, act, [], s, rfl, hrun, hremoved a hin hin'⟩
    · exact .inr ⟨before, b, after ++ [act], t, List.append_assoc .., ht, hb⟩

theorem windowStays_of_run {acts : List ReaderAction} (h₁ : InWindow s₁.reader.pending s₁.reader)
    (hopen : ∀ act ∈ acts, act ≠ .beginOrdered ∧ act ≠ .endOrdered) (hrun : Run s₁ acts s) :
    WindowStays s₁ acts s := by
  obtain ⟨hwindow, hstays⟩ := inWindow_of_run h₁ hopen hrun
  obtain ⟨wm, hentries, hwindowed⟩ := hwindow.openEntries
  refine ⟨hstays, hwindowed.left_sublist, fun now a ha => ?_⟩
  rw [takeRaw_targets, rawFront, hentries, hwindowed.find?_take ha]
  rfl

variable {qos : DataReaderQos} {presentation : PresentationQos}
  {cftFilter : Option (List UInt8 → Bool)} {acts₀ acts : List ReaderAction} {s₀ : ReaderMachine}

/-- From `begin_access` on, until something ends the access, the samples of the window stay readable
in the sorted order; and no read or take gives a newcomer exactly if none can reach one. -/
theorem window_closed_exact (hrun₀ : Run (init qos presentation cftFilter) acts₀ s₀)
    (hbegin : s₀.step .beginOrdered = some s₁)
    (hopen : ∀ act ∈ acts, act ≠ .beginOrdered ∧ act ≠ .endOrdered) (hrun : Run s₁ acts s) :
    (WindowStays s₁ acts s ∧
      s₁.Along acts fun r act => ∀ a ∈ act.collected r, a ∈ s₁.reader.pending) ↔
        s₁.Along acts fun r act => act.Spares s₁.reader.pending r := by
  have h₁ : InWindow s₁.reader.pending s₁.reader := by
    cases hbegin
    exact (queueHeld_of_run hrun₀).1.inWindow_beginOrdered
  rw [and_iff_right (windowStays_of_run h₁ hopen hrun)]
  refine forall₄_congr fun before act after t => forall_congr' fun hacts => ?_
  refine forall_congr' fun ht => ?_
  have hbefore : ∀ b ∈ before, b ≠ .beginOrdered ∧ b ≠ .endOrdered := fun b hb =>
    hopen b (hacts ▸ List.mem_append_left _ hb)
  exact ReaderAction.collected_mem_iff (inWindow_of_run h₁ hbefore ht).1 act

theorem Run.unique {acts : List ReaderAction} (h : Run s₁ acts s) (h' : Run s₁ acts s') :
    s = s' := by
  induction h generalizing s' with
  | nil =>
    generalize hl : ([] : List ReaderAction) = l at h'
    cases h' with
    | nil => rfl
    | snoc _ _ => exact absurd hl.symm (List.append_ne_nil_of_right_ne_nil _ (List.cons_ne_nil _ _))
  | @snoc acts a t s hrun hs ih =>
    generalize hl : acts ++ [a] = l at h'
    cases h' with
    | nil => exact absurd hl (List.append_ne_nil_of_right_ne_nil _ (List.cons_ne_nil _ _))
    | snoc hrun' hs' =>
      obtain ⟨rfl, ha⟩ := List.append_inj' hl rfl
      cases ha
      cases ih hrun'
      exact Option.some.inj (hs.symm.trans hs')

theorem Along.nil {P : DataReader → ReaderAction → Prop} : s₁.Along [] P := fun _ _ _ _ hacts _ =>
  absurd hacts.symm (List.append_ne_nil_of_right_ne_nil _ (List.cons_ne_nil _ _))

theorem Along.snoc {P : DataReader → ReaderAction → Prop} {acts : List ReaderAction}
    {act : ReaderAction} (h : s₁.Along acts P) (hrun : Run s₁ acts s) (hact : P s.reader act) :
    s₁.Along (acts ++ [act]) P := by
  intro before b after t hacts ht
  rcases List.eq_nil_or_concat after with rfl | ⟨after, c, rfl⟩
  · obtain ⟨rfl, hb⟩ := List.append_inj' hacts rfl
    cases hb
    cases ht.unique hrun
    exact hact
  · rw [List.concat_eq_append, ← List.cons_append, ← List.append_assoc] at hacts
    exact h before b after t (List.append_inj' hacts rfl).1 ht

/-! ### A newcomer -/

/-- Ordered access to a whole topic. -/
def orderedTopic : PresentationQos where
  accessScope := .topicPresentation
  orderedAccess := true

/-- One sample is there when the access begins, and one comes in during it. -/
def newcomerActions : List ReaderAction :=
  [.matching 0 { guid := someWriter 1, publisherGuid := someWriter 0 },
    .data 0 (someChange 1 1 .alive), .beginOrdered, .data 0 (someChange 1 2 .alive)]

/-- `takeRaw` gives the sample that was there. -/
theorem window_closed_takeRaw : ∃ s₀ s₁ s,
    Run (init keepAllQos orderedTopic none) (newcomerActions.take 2) s₀ ∧
    s₀.step .beginOrdered = some s₁ ∧
    Run s₁ (newcomerActions.drop 3 ++ [.take (.takeRaw 0) true]) s ∧
    (WindowStays s₁ (newcomerActions.drop 3 ++ [.take (.takeRaw 0) true]) s ∧
      s₁.Along (newcomerActions.drop 3 ++ [.take (.takeRaw 0) true]) fun r act =>
        ∀ a ∈ act.collected r, a ∈ s₁.reader.pending) := by
  obtain ⟨s₀, s₁, t, s, hrun₀, hbegin, hdata, htake, hwindow, hp, hlive⟩ : ∃ s₀ s₁ t s,
      Run (init keepAllQos orderedTopic none) (newcomerActions.take 2) s₀ ∧
      s₀.step .beginOrdered = some s₁ ∧ Run s₁ (newcomerActions.drop 3) t ∧
      t.step (.take (.takeRaw 0) true) = some s ∧ s₁.reader.pending = [0] ∧
      t.reader.pending = [0, 1] ∧ t.reader.expiredAt 0 0 = false :=
    ⟨_, _, _, _, @Run.snoc _ (newcomerActions.take 1) _ _ _ (@Run.snoc _ [] _ _ _ .nil rfl) rfl,
      rfl, @Run.snoc _ [] _ _ _ .nil rfl, rfl, rfl, rfl, rfl⟩
  have hopen : ∀ act ∈ newcomerActions.drop 3 ++ [ReaderAction.take (.takeRaw 0) true],
      act ≠ .beginOrdered ∧ act ≠ .endOrdered := by
    intro act hact
    rcases List.mem_cons.1 hact with rfl | hact
    · exact ⟨fun h => (nomatch h), fun h => (nomatch h)⟩
    · cases List.mem_singleton.1 hact
      exact ⟨fun h => (nomatch h), fun h => (nomatch h)⟩
  have hrun := Run.snoc hdata htake
  have harrives : s₁.Along (newcomerActions.drop 3) fun r act => act.Spares s₁.reader.pending r :=
    Along.snoc Along.nil .nil fun q hq => (nomatch hq)
  have hfirst : (ReaderAction.take (.takeRaw 0) true).Spares s₁.reader.pending t.reader :=
    Or.inl ⟨0, hp ▸ List.mem_cons_self, hwindow ▸ List.mem_cons_self, hlive⟩
  exact ⟨s₀, s₁, s, hrun₀, hbegin, hrun,
    (window_closed_exact hrun₀ hbegin hopen hrun).2 (harrives.snoc hdata hfirst)⟩

/-- `take` with the masks gives the newcomer as well. -/
theorem newcomer_taken : ∃ s₀ s₁ s,
    Run (init keepAllQos orderedTopic none) (newcomerActions.take 2) s₀ ∧
    s₀.step .beginOrdered = some s₁ ∧ Run s₁ (newcomerActions.drop 3) s ∧
    s₁.reader.pending = [0] ∧
    (TakeCall.takeFiltered 0 DataReader.anyFilter (-1) true).targets s.reader = [0, 1] ∧
    ((TakeCall.takeFiltered 0 DataReader.anyFilter (-1) true).run s.reader).2.length = 2 :=
  ⟨_, _, _, @Run.snoc _ (newcomerActions.take 1) _ _ _ (@Run.snoc _ [] _ _ _ .nil rfl) rfl,
    rfl, @Run.snoc _ [] _ _ _ .nil rfl, rfl, rfl, rfl⟩

/-! ### What the application gets -/

/-- A take gives the payloads of its samples, a copying read copies of their contents, and a loan
the samples themselves. -/
def Gives (r : DataReader) (as : List ℕ) : ReaderAction → Prop
  | .take call _ => (call.run r).2.map (·.data) = as.filterMap r.dataAt
  | .read call _ => (call.run r).2.1.map (fun s => (call.run r).1.heap.payload s.data) =
      as.filterMap fun a => (r.dataAt a).map r.heap.payload
  | .lend call _ => (call.run r).2 = as
  | _ => as = []

/-- Whatever has happened to a reader, a call gives the first samples in the queue that it passes
and that have not expired, as many as it asks for and has memory for. -/
theorem gives_of_run (hrun : Run (init qos presentation cftFilter) acts s) (act : ReaderAction) :
    Gives s.reader (act.collected s.reader) act ∧
    (∀ a ∈ s.reader.pending, (s.reader.dataAt a).isSome) ∧
    (∀ now built, act = .take (.takeRaw now) built →
      act.collected s.reader = (s.reader.rawFront now).toList) ∧
    ∀ q, act.queueCall = some q → act.collected s.reader = (s.reader.passing q).elim [] fun p =>
      ((s.reader.pending.filter fun a => !s.reader.expiredAt q.now a).filter p).take
        (min q.room (limit q.about.maxSamples)) := by
  obtain ⟨hheld, -⟩ := queueHeld_of_run hrun
  refine ⟨?_, fun a ha => ?_, ?_, fun q hq => ?_⟩
  · cases act with
    | take call built => exact takeCall_data s.reader call
    | read call built =>
      obtain ⟨q, hq⟩ : ∃ q, (ReaderAction.read call built).queueCall = some q := by
        cases call <;> exact ⟨_, rfl⟩
      rw [ReaderAction.collected_eq hq]
      exact hheld.readCall_payloads hq
    | lend call sliced =>
      obtain ⟨q, hq⟩ : ∃ q, (ReaderAction.lend call sliced).queueCall = some q := by
        cases call <;> exact ⟨_, rfl⟩
      rw [ReaderAction.collected_eq hq]
      exact hheld.loanCall_samples hq
    | _ => rfl
  · obtain ⟨pc, hpc, -⟩ := hheld.holds a ha
    rw [dataAt, hpc]
    rfl
  · rintro now built rfl
    exact takeRaw_targets s.reader now
  · rw [ReaderAction.collected_eq hq, DataReader.collected_eq]

theorem gives_of_run_read : ∃ s : ReaderMachine,
    Gives s.reader [0] (.read (.readRaw 0 anyFilter (-1) 1) true) := by
  obtain ⟨s, hrun, hcollected⟩ : ∃ s,
      Run (init keepAllQos orderedTopic none) (newcomerActions.take 2) s ∧
      (ReaderAction.read (.readRaw 0 anyFilter (-1) 1) true).collected s.reader = [0] :=
    ⟨_, @Run.snoc _ (newcomerActions.take 1) _ _ _ (@Run.snoc _ [] _ _ _ .nil rfl) rfl, rfl⟩
  exact ⟨s, hcollected ▸ (gives_of_run hrun (.read (.readRaw 0 anyFilter (-1) 1) true)).1⟩

end ReaderMachine

end Zzdds.Dcps
