import Mathlib.Data.Nat.Bitwise
import Zzdds.Dcps.Samples
import Zzdds.Lib.Run
import Zzdds.Lib.Threads

/-! # The quiesce guard of an entity

`EntityQuiesce` of `entity_quiesce.zig`, one word with the flag of teardown in its highest bit and the
references in the others.  Its calls are made of atomic steps, which any number of threads take in
any order; a weak compare-exchange may fail for no reason.  What a word means is what
`Dcps.EntityQuiesce` keeps (`view`). -/

namespace Zzdds.Util

open Lib

/-! ### The word -/

def tearingDownBit : UInt64 := (1 : UInt64) <<< (63 : UInt64)

def countMask : UInt64 := tearingDownBit - 1

/-- What a word of the guard means. -/
def view (w : UInt64) : Dcps.EntityQuiesce where
  tearingDown := w &&& tearingDownBit ≠ 0
  count := (w &&& countMask).toNat

section View

variable {w : UInt64}

theorem toNat_countMask : countMask.toNat = 2 ^ 63 - 1 := by decide

theorem toNat_tearingDownBit : tearingDownBit.toNat = 2 ^ 63 := by decide

theorem view_count (w : UInt64) : (view w).count = w.toNat % 2 ^ 63 := by
  rw [view, UInt64.toNat_and, toNat_countMask, Nat.and_two_pow_sub_one_eq_mod]

theorem view_tearingDown (w : UInt64) : (view w).tearingDown = decide (2 ^ 63 ≤ w.toNat) := by
  have hand : (w &&& tearingDownBit).toNat = (w.toNat.testBit 63).toNat * 2 ^ 63 := by
    rw [UInt64.toNat_and, toNat_tearingDownBit, Nat.and_two_pow]
  have htest : w.toNat.testBit 63 = true ↔ 2 ^ 63 ≤ w.toNat := by
    have hlt := w.toNat_lt
    rw [Nat.testBit_eq_decide_div_mod_eq, decide_eq_true_iff]
    omega
  rw [view]
  refine decide_eq_decide.2 ?_
  rw [← htest, Ne, ← UInt64.toNat_inj, hand]
  cases w.toNat.testBit 63 <;> decide

theorem toNat_eq (w : UInt64) :
    w.toNat = (if (view w).tearingDown then 2 ^ 63 else 0) + (view w).count := by
  have hlt := w.toNat_lt
  rw [view_count, view_tearingDown]
  split_ifs with h
  · have := of_decide_eq_true h
    omega
  · have : ¬ 2 ^ 63 ≤ w.toNat := fun hle => h (decide_eq_true hle)
    omega

/-- The word that means this. -/
theorem view_of_toNat {q : Dcps.EntityQuiesce} (hq : q.count < 2 ^ 63)
    (h : w.toNat = (if q.tearingDown then 2 ^ 63 else 0) + q.count) : view w = q := by
  obtain ⟨flag, count⟩ := q
  have hflag := view_tearingDown w
  have hcount := view_count w
  dsimp only at hq h
  have hview : view w = ⟨(view w).tearingDown, (view w).count⟩ := rfl
  cases flag with
  | false =>
    rw [if_neg Bool.false_ne_true, Nat.zero_add] at h
    rw [h] at hflag hcount
    rw [decide_eq_false (by omega)] at hflag
    rw [Nat.mod_eq_of_lt hq] at hcount
    rw [hview, hflag, hcount]
  | true =>
    rw [if_pos rfl] at h
    rw [h] at hflag hcount
    rw [decide_eq_true (by omega)] at hflag
    rw [Nat.add_mod_left, Nat.mod_eq_of_lt hq] at hcount
    rw [hview, hflag, hcount]

/-- A reference more, as long as the flag is not reached. -/
theorem view_add_one (h : (view w).count + 1 < 2 ^ 63) :
    view (w + 1) = { view w with count := (view w).count + 1 } := by
  have hw := toNat_eq w
  refine view_of_toNat h ?_
  rw [UInt64.toNat_add, hw, UInt64.toNat_one]
  dsimp only
  split_ifs <;> omega

theorem view_sub_one (h : (view w).count ≠ 0) : view (w - 1) = (view w).release.1 := by
  have hw := toNat_eq w
  have hlt : (view w).count < 2 ^ 63 := by
    rw [view_count]
    omega
  have hle : (1 : UInt64) ≤ w := by
    rw [UInt64.le_iff_toNat_le, UInt64.toNat_one, hw]
    omega
  refine view_of_toNat (lt_of_le_of_lt (Nat.sub_le _ _) hlt) ?_
  rw [UInt64.toNat_sub_of_le _ _ hle, hw, UInt64.toNat_one, Dcps.EntityQuiesce.release]
  dsimp only
  omega

theorem view_or (w : UInt64) : view (w ||| tearingDownBit) = (view w).close := by
  have hcount : (view (w ||| tearingDownBit)).count = (view w).count := by
    rw [view_count, view_count, ← Nat.and_two_pow_sub_one_eq_mod, ← Nat.and_two_pow_sub_one_eq_mod,
      UInt64.toNat_or, toNat_tearingDownBit, Nat.and_or_distrib_right]
    exact Nat.or_zero _
  have hflag : (view (w ||| tearingDownBit)).tearingDown = true := by
    rw [view_tearingDown, UInt64.toNat_or, toNat_tearingDownBit]
    exact decide_eq_true Nat.right_le_or
  rw [Dcps.EntityQuiesce.close, ← hcount, ← hflag]

end View

/-! ### Calls and their steps -/

/-- A success of `acquire`, or of `acquireIfAlive`.  `late` says whether the call began after a
`close`, and `ran` whether `on_last` had run before it succeeded. -/
structure Admission where
  ifAlive : Bool
  late : Bool
  ran : Bool
deriving DecidableEq

/-- The guard.  Only `state` is in the source: `begun` says that `beginTeardown` was called, `closed`
that a `close` was made, `held` counts the successes whose release was not called, `runs` the runs
of `on_last`. -/
structure EntityQuiesce where
  state : UInt64 := 1
  begun : Bool := false
  closed : Bool := false
  held : ℕ := 0
  runs : ℕ := 0
  admissions : List Admission := []
deriving DecidableEq

/-- The atomic steps; a compare-exchange has the word that was loaded. -/
inductive Frame where
  | acquire (ifAlive late : Bool)
  | swap (ifAlive late : Bool) (cur : UInt64)
  | release
  | onLast
  | close
deriving DecidableEq

namespace EntityQuiesce

variable (q : EntityQuiesce)

/-- The load of `acquire` and of `acquireIfAlive`, which does not ask for the flag. -/
def load (ifAlive late : Bool) : List Frame :=
  if !ifAlive ∧ q.state &&& tearingDownBit ≠ 0 then []
  else if q.state &&& countMask = 0 then []
  else [.swap ifAlive late q.state]

/-- `cmpxchgWeak`, which may fail for no reason. -/
def cmpxchgWeak (fails ifAlive late : Bool) (cur : UInt64) : EntityQuiesce × List Frame :=
  if q.state = cur ∧ ¬ fails then
    ({ q with
      state := cur + 1
      held := q.held + 1
      admissions := ⟨ifAlive, late, q.runs ≠ 0⟩ :: q.admissions }, [])
  else (q, [.acquire ifAlive late])

def release : EntityQuiesce × List Frame :=
  ({ q with state := q.state - 1 }, if q.state &&& countMask = 1 then [.onLast] else [])

def close : EntityQuiesce := { q with state := q.state ||| tearingDownBit, closed := true }

def run (fails : Bool) (q : EntityQuiesce) : Frame → Option (EntityQuiesce × List Frame)
  | .acquire ifAlive late => some (q, q.load ifAlive late)
  | .swap ifAlive late cur => some (q.cmpxchgWeak fails ifAlive late cur)
  | .release => some q.release
  | .onLast => some ({ q with runs := q.runs + 1 }, [])
  | .close => some (q.close, [])

end EntityQuiesce

abbrev QuiesceThreads := Threads EntityQuiesce Frame

/-- A thread calls a function, or takes its next step. -/
inductive QuiesceAction where
  | acquire (ifAlive : Bool)
  | release
  | close
  | beginTeardown
  | turn (i : ℕ) (fails : Bool)

namespace QuiesceThreads

/-- Each release is of a success, and there is one `beginTeardown`. -/
def step (t : QuiesceThreads) : QuiesceAction → Option QuiesceThreads
  | .acquire ifAlive => some (t.spawn t.shared [.acquire ifAlive t.shared.closed])
  | .release =>
    if t.shared.held = 0 then none
    else some (t.spawn { t.shared with held := t.shared.held - 1 } [.release])
  | .close => some (t.spawn t.shared [.close])
  | .beginTeardown =>
    if t.shared.begun then none
    else some (t.spawn { t.shared with begun := true } [.close, .release])
  | .turn i fails => t.turn (EntityQuiesce.run fails) i

/-- The references: the entity's own, until teardown drops it, the successes, and the releases under
way. -/
def references (q : EntityQuiesce) (fs : Multiset Frame) : ℕ :=
  (if q.begun then 0 else 1) + q.held + fs.count .release

/-- The step leaves fewer than 2^63 references. -/
def Fits (t : QuiesceThreads) (a : QuiesceAction) : Prop :=
  ∀ t' ∈ step t a, references t'.shared t'.frames < 2 ^ 63

instance (t : QuiesceThreads) (a : QuiesceAction) : Decidable (Fits t a) := by
  unfold Fits
  infer_instance

def QuiesceRun : List QuiesceAction → QuiesceThreads → Prop := Run step Fits ⟨{}, []⟩

/-! ### What every step keeps -/

/-- What a step that is to come rests on. -/
def Rests (q : EntityQuiesce) : Frame → Prop
  | .acquire ifAlive late => ifAlive = false → late = true → q.closed = true
  | .swap ifAlive late cur =>
    (view cur).count ≠ 0 ∧ (ifAlive = false → (view cur).tearingDown = false ∧ late = false)
  | _ => True

structure Sound (q : EntityQuiesce) (fs : Multiset Frame) : Prop where
  count : (view q.state).count = references q fs
  flag : (view q.state).tearingDown = q.closed
  last : q.runs + fs.count .onLast = if references q fs = 0 then 1 else 0
  rests : ∀ f ∈ fs, Rests q f
  admitted : ∀ a ∈ q.admissions, a.ran = false ∧ (a.ifAlive = false → a.late = false)

section Step

variable {q q' : EntityQuiesce} {fs rest : Multiset Frame} {new : List Frame} {fails : Bool}

theorem Rests.mono {f : Frame} (h : Rests q f) (hclosed : q.closed = true → q'.closed = true) :
    Rests q' f := by
  cases f with
  | acquire ifAlive late => exact fun hs hl => hclosed (h hs hl)
  | swap => exact h
  | release | onLast | close => trivial

/-- Another frame, of which nothing is counted. -/
theorem Sound.cons {f : Frame} (h : Sound q fs) (hf : Rests q f) (hr : f ≠ .release)
    (ho : f ≠ .onLast) : Sound q (f ::ₘ fs) := by
  have hrefs : references q (f ::ₘ fs) = references q fs := by
    rw [references, references, Multiset.count_cons_of_ne hr.symm]
  refine ⟨hrefs ▸ h.count, h.flag, ?_, Multiset.forall_mem_cons.2 ⟨hf, h.rests⟩, h.admitted⟩
  rw [hrefs, Multiset.count_cons_of_ne ho.symm]
  exact h.last

/-- The same the other way round. -/
theorem Sound.tail {f : Frame} (h : Sound q (f ::ₘ fs)) (hr : f ≠ .release) (ho : f ≠ .onLast) :
    Sound q fs := by
  have hrefs : references q (f ::ₘ fs) = references q fs := by
    rw [references, references, Multiset.count_cons_of_ne hr.symm]
  refine ⟨hrefs ▸ h.count, h.flag, ?_, (Multiset.forall_mem_cons.1 h.rests).2, h.admitted⟩
  rw [← hrefs, ← Multiset.count_cons_of_ne ho.symm]
  exact h.last

theorem Sound.close (h : Sound q (.close ::ₘ rest)) : Sound q.close rest := by
  have ht := h.tail (fun h => nomatch h) fun h => nomatch h
  refine ⟨?_, ?_, ht.last, fun f hf => (ht.rests f hf).mono fun _ => rfl, ht.admitted⟩
  · rw [EntityQuiesce.close, view_or]
    exact ht.count
  · rw [EntityQuiesce.close, view_or]
    rfl

theorem mask_eq_zero_iff {w : UInt64} : w &&& countMask = 0 ↔ (view w).count = 0 := by
  rw [← UInt64.toNat_inj]
  rfl

theorem mask_eq_one_iff {w : UInt64} : w &&& countMask = 1 ↔ (view w).count = 1 := by
  rw [← UInt64.toNat_inj]
  rfl

/-- `on_last` is to run when no reference is left. -/
theorem Sound.release (h : Sound q (.release ::ₘ rest)) :
    Sound q.release.1 (↑q.release.2 + rest) := by
  have hcount := h.count
  have hlast := h.last
  have hrefs : references q (.release ::ₘ rest) = references q rest + 1 := by
    rw [references, references, Multiset.count_cons_self]
    rfl
  have honLast : (Frame.release ::ₘ rest).count .onLast = rest.count .onLast :=
    Multiset.count_cons_of_ne (by decide) rest
  rw [hrefs] at hcount hlast
  rw [honLast, if_neg (Nat.succ_ne_zero _)] at hlast
  have hview : view q.release.1.state = (view q.state).release.1 := view_sub_one (by omega)
  have hrests : ∀ f ∈ rest, Rests q.release.1 f := fun f hf =>
    ((Multiset.forall_mem_cons.1 h.rests).2 f hf).mono fun hc => hc
  have hnew : q.release.2 = if references q rest = 0 then [.onLast] else [] := by
    refine if_congr ?_ rfl rfl
    rw [mask_eq_one_iff, hcount]
    omega
  have hcounts (f : Frame) : (↑q.release.2 + rest).count f =
      (if references q rest = 0 then [Frame.onLast] else []).count f + rest.count f := by
    rw [hnew, Multiset.count_add, Multiset.coe_count]
  have hafter : references q.release.1 (↑q.release.2 + rest) = references q rest := by
    have hnone : (if references q rest = 0 then [Frame.onLast] else []).count .release = 0 := by
      split_ifs <;> rfl
    rw [references, hcounts, hnone, Nat.zero_add]
    rfl
  refine ⟨?_, ?_, ?_, ?_, h.admitted⟩
  · rw [hview, Dcps.EntityQuiesce.release, hcount, hafter]
    rfl
  · rw [hview]
    exact h.flag
  · rw [hafter, hcounts]
    show q.runs + _ = _
    split_ifs with hzero
    · rw [List.count_singleton_self]
      omega
    · rw [List.count_nil]
      omega
  · intro f hf
    rcases Multiset.mem_add.1 hf with hf | hf
    · rw [hnew] at hf
      split_ifs at hf
      · cases List.mem_singleton.1 hf
        trivial
      · cases hf
    · exact hrests f hf

theorem Sound.onLast (h : Sound q (.onLast ::ₘ rest)) :
    Sound { q with runs := q.runs + 1 } rest := by
  have hrefs : references q (.onLast ::ₘ rest) = references q rest := by
    rw [references, references, Multiset.count_cons_of_ne (by decide)]
  have hlast := h.last
  rw [hrefs, Multiset.count_cons_self] at hlast
  refine ⟨hrefs ▸ h.count, h.flag, ?_, fun f hf => ?_, h.admitted⟩
  · rw [← Nat.add_assoc, Nat.add_right_comm] at hlast
    exact hlast
  · exact ((Multiset.forall_mem_cons.1 h.rests).2 f hf).mono fun hc => hc

theorem Sound.load {ifAlive late : Bool} (h : Sound q (.acquire ifAlive late ::ₘ rest)) :
    Sound q (↑(q.load ifAlive late) + rest) := by
  have ht := h.tail (fun h => nomatch h) fun h => nomatch h
  have hlate := h.rests _ (Multiset.mem_cons_self _ _)
  unfold EntityQuiesce.load
  split_ifs with hflag hzero
  · exact (Multiset.zero_add rest).symm ▸ ht
  · exact (Multiset.zero_add rest).symm ▸ ht
  · have hswap : Rests q (.swap ifAlive late q.state) := by
      refine ⟨fun hc => hzero (mask_eq_zero_iff.2 hc), fun hs => ?_⟩
      have hopen : (view q.state).tearingDown = false := by
        refine decide_eq_false fun hbit => hflag ⟨?_, hbit⟩
        rw [hs]
        rfl
      refine ⟨hopen, ?_⟩
      rw [h.flag] at hopen
      by_contra hl
      have hclosed := hlate hs (Bool.eq_true_of_not_eq_false hl)
      rw [hopen] at hclosed
      cases hclosed
    exact ht.cons hswap (fun h => nomatch h) fun h => nomatch h

theorem Sound.swap {ifAlive late : Bool} {cur : UInt64}
    (h : Sound q (.swap ifAlive late cur ::ₘ rest))
    (hfits : references (q.cmpxchgWeak fails ifAlive late cur).1
      (↑(q.cmpxchgWeak fails ifAlive late cur).2 + rest) < 2 ^ 63) :
    Sound (q.cmpxchgWeak fails ifAlive late cur).1
      (↑(q.cmpxchgWeak fails ifAlive late cur).2 + rest) := by
  have ht := h.tail (fun h => nomatch h) fun h => nomatch h
  obtain ⟨hne, hstrict⟩ := h.rests _ (Multiset.mem_cons_self _ _)
  unfold EntityQuiesce.cmpxchgWeak at hfits ⊢
  split_ifs at hfits ⊢ with hswap
  · obtain ⟨rfl, -⟩ := hswap
    have hnil : (↑([] : List Frame) : Multiset Frame) + rest = rest := Multiset.zero_add rest
    rw [hnil] at hfits ⊢
    have hcount := ht.count
    have hlast := ht.last
    have hrefs : (if q.begun then 0 else 1) + (q.held + 1) + rest.count .release =
        references q rest + 1 := by
      rw [references]
      omega
    have hview := view_add_one (w := q.state) (by
      rw [hcount, ← hrefs]
      exact hfits)
    rw [if_neg (by omega)] at hlast
    refine ⟨?_, ?_, ?_, fun f hf => (ht.rests f hf).mono fun hc => hc, ?_⟩
    · rw [hview, hcount]
      exact hrefs.symm
    · rw [hview]
      exact ht.flag
    · refine hlast.trans (if_neg fun hzero => ?_).symm
      have hzero : (if q.begun then 0 else 1) + (q.held + 1) + rest.count .release = 0 := hzero
      omega
    · refine List.forall_mem_cons.2 ⟨⟨decide_eq_false ?_, fun hs => (hstrict hs).2⟩, ht.admitted⟩
      omega
  · refine ht.cons ?_ (fun h => nomatch h) fun h => nomatch h
    intro hs hl
    rw [(hstrict hs).2] at hl
    cases hl

/-- A reference that changes hands: it is dropped by the frame `release` instead. -/
theorem Sound.handOver (h : Sound q fs) (hstate : q'.state = q.state)
    (hclosed : q'.closed = q.closed) (hruns : q'.runs = q.runs)
    (hadmissions : q'.admissions = q.admissions)
    (hrefs : references q' (.release ::ₘ fs) = references q fs) : Sound q' (.release ::ₘ fs) := by
  refine ⟨?_, ?_, ?_, fun f hf => ?_, hadmissions ▸ h.admitted⟩
  · rw [hstate, hrefs]
    exact h.count
  · rw [hstate, hclosed]
    exact h.flag
  · rw [hruns, hrefs, Multiset.count_cons_of_ne (by decide)]
    exact h.last
  · rcases Multiset.mem_cons.1 hf with rfl | hf
    · trivial
    · exact (h.rests f hf).mono fun hc => hclosed.trans hc

/-- A step of a thread. -/
theorem Sound.run {f : Frame} (h : Sound q (f ::ₘ rest)) (hrun : q.run fails f = some (q', new))
    (hfits : references q' (↑new + rest) < 2 ^ 63) : Sound q' (↑new + rest) := by
  cases f with
  | acquire ifAlive late =>
    cases hrun
    exact h.load
  | swap ifAlive late cur =>
    obtain ⟨rfl, rfl⟩ := Prod.mk.inj (Option.some.inj hrun)
    exact h.swap hfits
  | release =>
    obtain ⟨rfl, rfl⟩ := Prod.mk.inj (Option.some.inj hrun)
    exact h.release
  | onLast =>
    cases hrun
    exact (Multiset.zero_add rest).symm ▸ h.onLast
  | close =>
    cases hrun
    exact (Multiset.zero_add rest).symm ▸ h.close

end Step

theorem Sound.step {t t' : QuiesceThreads} {a : QuiesceAction} (h : Sound t.shared t.frames)
    (hok : Fits t a) (hstep : step t a = some t') : Sound t'.shared t'.frames := by
  have hfits := hok t' hstep
  cases a with
  | acquire ifAlive =>
    cases hstep
    rw [Threads.spawn_frames, Threads.spawn_shared]
    refine h.cons ?_ (fun h => nomatch h) fun h => nomatch h
    exact fun _ hl => hl
  | close =>
    cases hstep
    rw [Threads.spawn_frames, Threads.spawn_shared]
    exact h.cons trivial (fun h => nomatch h) fun h => nomatch h
  | release =>
    rw [QuiesceThreads.step] at hstep
    split_ifs at hstep with hheld
    cases hstep
    rw [Threads.spawn_frames, Threads.spawn_shared]
    refine h.handOver rfl rfl rfl rfl ?_
    rw [references, references, Multiset.count_cons_self]
    dsimp only
    omega
  | beginTeardown =>
    rw [QuiesceThreads.step] at hstep
    split_ifs at hstep with hbegun
    cases hstep
    rw [Threads.spawn_frames, Threads.spawn_shared]
    have hteardown : Sound { t.shared with begun := true } (.release ::ₘ t.frames) := by
      refine h.handOver rfl rfl rfl rfl ?_
      rw [references, references, Multiset.count_cons_self, if_neg hbegun]
      dsimp only
      rw [if_pos rfl]
      omega
    exact hteardown.cons (f := .close) trivial (fun h => nomatch h) fun h => nomatch h
  | turn i fails =>
    obtain ⟨f, new, rest, -, hframes, hrun, hframes'⟩ := Threads.turn_frames hstep
    rw [hframes'] at hfits ⊢
    rw [hframes] at h
    exact h.run hrun hfits

theorem QuiesceRun.sound {acts : List QuiesceAction} {t : QuiesceThreads}
    (h : QuiesceRun acts t) : Sound t.shared t.frames := by
  refine Run.inv (I := fun t => Sound t.shared t.frames) h ?_ fun _ _ _ hs hok hstep =>
    hs.step hok hstep
  refine ⟨by decide, by decide, rfl, fun f hf => ?_, fun a ha => nomatch ha⟩
  rw [Threads.frames_nil] at hf
  cases hf

/-- **Entities are freed once, after their last user.**  `on_last` runs at most once, and has run when
everyone has finished; while it is to run or has run, no success is without its release; no `acquire`
that began after a `close` succeeded, and nothing succeeded after `on_last` ran. -/
theorem freed_once {acts : List QuiesceAction} {t : QuiesceThreads} (h : QuiesceRun acts t) :
    t.shared.runs ≤ 1 ∧
      (t.Idle → t.shared.begun → t.shared.held = 0 → t.shared.runs = 1) ∧
      (t.shared.runs ≠ 0 ∨ .onLast ∈ t.frames → t.shared.held = 0 ∧ .release ∉ t.frames) ∧
      ∀ a ∈ t.shared.admissions, a.ran = false ∧ (a.ifAlive = false → a.late = false) := by
  have hs := QuiesceRun.sound h
  have hlast := hs.last
  refine ⟨?_, fun hidle hbegun hheld => ?_, fun hrun => ?_, hs.admitted⟩
  · split_ifs at hlast <;> omega
  · have hzero : references t.shared t.frames = 0 := by
      rw [references, hidle, hbegun, hheld]
      rfl
    rw [if_pos hzero, show t.frames = 0 from hidle, Multiset.count_zero] at hlast
    exact hlast
  · have hpos : t.shared.runs + t.frames.count .onLast ≠ 0 := by
      rcases hrun with hrun | hrun
      · omega
      · have := Multiset.count_pos.2 hrun
        omega
    rw [hlast] at hpos
    have hzero : references t.shared t.frames = 0 := by
      by_contra hne
      exact hpos (if_neg hne)
    rw [references] at hzero
    exact ⟨by omega, Multiset.count_eq_zero.1 (by omega)⟩

/-- A callback enters before teardown and leaves after it, so that its release is the last. -/
def lastCallback : List QuiesceAction :=
  [.acquire false, .turn 0 false, .turn 0 true, .turn 0 false, .turn 0 false, .beginTeardown,
    .turn 1 false, .turn 1 false, .acquire false, .turn 2 false, .acquire true, .turn 3 false,
    .turn 3 false, .release, .turn 4 false, .release, .turn 5 false, .turn 5 false]

theorem freed_once_lastCallback : ∃ t, QuiesceRun lastCallback t ∧ t.shared.runs = 1 ∧
    t.shared.admissions = [⟨true, true, false⟩, ⟨false, false, false⟩] ∧ t.shared.runs ≤ 1 := by
  obtain ⟨t, hrun, hruns, hadmissions⟩ := exists_run_of_exec step Fits ⟨{}, []⟩ lastCallback
    (p := fun t => t.shared.runs = 1 ∧
      t.shared.admissions = [⟨true, true, false⟩, ⟨false, false, false⟩]) (by decide +kernel)
  exact ⟨t, hrun, hruns, hadmissions, (freed_once hrun).1⟩

end QuiesceThreads

end Zzdds.Util
