import Mathlib.Tactic

/-! # Counters whose changes are reported once

A status has some counters and a flag.  An update adds to counters of the status and sets the
flag; a report hands out what each counter has changed by since the last report, and clears the
changes and the flag.  A `StatusLedger` keeps the counters of several statuses, with the flags in one
mask and arithmetic that stops at a result beyond 32 bits.

`StatusLedger.Exact` says that reports lose nothing and repeat nothing: what was reported and what is
still pending add up to the count, and a flag is set exactly as long as its status has changed
since its last report. -/

namespace Zzdds.Lib

/-! ### Masks of flags -/

/-- A mask of 32 flags. -/
abbrev Flags := BitVec 32

namespace Flags

def has (m : Flags) (b : ℕ) : Bool := m &&& BitVec.twoPow 32 b != 0#32

def set (m : Flags) (b : ℕ) : Flags := m ||| BitVec.twoPow 32 b

def clear (m : Flags) (b : ℕ) : Flags := m &&& ~~~ BitVec.twoPow 32 b

variable (m : Flags) {b b' : ℕ}

theorem has_eq (hb : b < 32) : has m b = m.getLsbD b := by
  have hne : BitVec.twoPow 32 b ≠ 0#32 := by
    intro h
    have := congrArg (fun x : BitVec 32 => x.getLsbD b) h
    simp [hb] at this
  rw [has, BitVec.and_twoPow]
  cases m.getLsbD b <;> simp [hne]

@[simp] theorem has_zero (hb : b < 32) : has 0#32 b = false := by
  rw [has_eq _ hb, BitVec.getLsbD_zero]

theorem has_set (hb : b < 32) (hb' : b' < 32) : has (set m b) b' = (decide (b = b') || has m b') := by
  rw [has_eq _ hb', has_eq _ hb', set, BitVec.getLsbD_or, BitVec.getLsbD_twoPow, Bool.or_comm]
  simp [hb]

theorem has_clear (hb : b < 32) (hb' : b' < 32) :
    has (clear m b) b' = (!decide (b = b') && has m b') := by
  rw [has_eq _ hb', has_eq _ hb', clear, BitVec.getLsbD_and, BitVec.getLsbD_not,
    BitVec.getLsbD_twoPow, Bool.and_comm]
  simp [hb, hb']

end Flags

/-! ### Counters -/

structure Counter where
  count : ℤ := 0
  /-- By how much it has changed since the last report. -/
  change : ℤ := 0
deriving DecidableEq, Repr

def fits32 (x : ℤ) : Prop := -2147483648 ≤ x ∧ x ≤ 2147483647

instance decidableFits32 (x : ℤ) : Decidable (fits32 x) :=
  inferInstanceAs (Decidable (-2147483648 ≤ x ∧ x ≤ 2147483647))

/-- Add to the count and to its change; none when either overflows. -/
def Counter.add (c : Counter) (d : ℤ) : Option Counter :=
  if fits32 (c.count + d) ∧ fits32 (c.change + d) then some ⟨c.count + d, c.change + d⟩ else none

/-- The statuses `K`, each with the position of its flag and its counters among `C`. -/
class StatusTable (K : Type) (C : outParam Type) where
  flag : K → ℕ
  status : C → K
  flag_lt : ∀ k, flag k < 32
  flag_inj : ∀ k k', flag k = flag k' → k = k'

open StatusTable

/-- Who a report is given to. -/
inductive Recipient where
  | getter | listener
deriving DecidableEq, Repr

/-- What a report hands out of the counters of its status.  For the record: how many updates it
is the first report of. -/
structure StatusReport (K C : Type) where
  status : K
  recipient : Recipient
  counts : C → ℤ
  changes : C → ℤ
  pending : ℕ

structure StatusLedger (K C : Type) where
  counter : C → Counter := fun _ => {}
  flags : Flags := 0#32
  /-- For the record: the updates of each status since its last report. -/
  pending : K → ℕ := fun _ => 0
  reports : List (StatusReport K C) := []

namespace StatusLedger

variable {K C : Type} [StatusTable K C]

def changed (l : StatusLedger K C) (k : K) : Bool := Flags.has l.flags (flag k)

/-- Add to several counters. -/
def addAll [DecidableEq C] (l : StatusLedger K C) : List (C × ℤ) → Option (StatusLedger K C)
  | [] => some l
  | (c, d) :: rest =>
      ((l.counter c).add d).bind fun x =>
        addAll { l with counter := Function.update l.counter c x } rest

omit [StatusTable K C] in
/-- What adding to counters does, whatever the order. -/
theorem addAll_counter [DecidableEq C] : ∀ {deltas : List (C × ℤ)} {l l' : StatusLedger K C},
    l.addAll deltas = some l' →
    (∀ c, (l'.counter c).count =
        (l.counter c).count + ((deltas.filter (fun d => d.1 = c)).map Prod.snd).sum ∧
      (l'.counter c).change =
        (l.counter c).change + ((deltas.filter (fun d => d.1 = c)).map Prod.snd).sum) ∧
    l'.flags = l.flags ∧ l'.pending = l.pending ∧ l'.reports = l.reports
  | [], l, l', h => by
      cases h
      exact ⟨fun c => by simp, rfl, rfl, rfl⟩
  | (c₀, d) :: rest, l, l', h => by
      obtain ⟨x, hx, h⟩ := Option.bind_eq_some_iff.mp h
      obtain ⟨hc, hf, hp, hr⟩ := addAll_counter h
      refine ⟨?_, hf, hp, hr⟩
      intro c
      have hadd : x = ⟨(l.counter c₀).count + d, (l.counter c₀).change + d⟩ := by
        unfold Counter.add at hx
        split at hx
        · exact (Option.some.inj hx).symm
        · cases hx
      obtain ⟨h₁, h₂⟩ := hc c
      by_cases he : c₀ = c
      · subst he
        simp only [Function.update_self, hadd] at h₁ h₂
        simp only [decide_true, List.filter_cons_of_pos, List.map_cons, List.sum_cons]
        omega
      · simp only [Function.update_of_ne (Ne.symm he)] at h₁ h₂
        rw [List.filter_cons_of_neg (by simpa using he)]
        exact ⟨h₁, h₂⟩

/-- An update of a status. -/
def update [DecidableEq C] (l : StatusLedger K C) (k : K) (deltas : List (C × ℤ)) :
    Option (StatusLedger K C) :=
  (l.addAll deltas).map fun l => { l with flags := l.flags.set (flag k) }

variable [DecidableEq K]

/-- Report a status and clear its changes. -/
def report (l : StatusLedger K C) (k : K) (recipient : Recipient) : StatusLedger K C where
  counter := fun c => if status c = k then { l.counter c with change := 0 } else l.counter c
  flags := l.flags.clear (flag k)
  pending := Function.update l.pending k 0
  reports := l.reports ++ [{
    status := k
    recipient := recipient
    counts := fun c => (l.counter c).count
    changes := fun c => (l.counter c).change
    pending := l.pending k }]

/-- A listener claims a status: it is reported if it has changed. -/
def claim (l : StatusLedger K C) (k : K) (resolved : Bool) : StatusLedger K C :=
  if resolved && l.changed k then l.report k .listener else l

@[simp] theorem count_report (l : StatusLedger K C) (k : K) (recipient : Recipient) (c : C) :
    ((l.report k recipient).counter c).count = (l.counter c).count := by
  dsimp only [report]
  split_ifs <;> rfl

@[simp] theorem count_claim (l : StatusLedger K C) (k : K) (resolved : Bool) (c : C) :
    ((l.claim k resolved).counter c).count = (l.counter c).count := by
  unfold claim
  split_ifs
  · exact count_report l k .listener c
  · rfl

/-- A flag that is not a status. -/
def setFlag (l : StatusLedger K C) (b : ℕ) : StatusLedger K C := { l with flags := l.flags.set b }

def clearFlag (l : StatusLedger K C) (b : ℕ) : StatusLedger K C := { l with flags := l.flags.clear b }

/-- What was reported of a counter. -/
def reported (l : StatusLedger K C) (c : C) : ℤ :=
  ((l.reports.filter (fun r => r.status = status c)).map (fun r => r.changes c)).sum

/-- Nothing is lost and nothing reported twice. -/
structure Exact (l : StatusLedger K C) : Prop where
  accounted : ∀ c, l.reported c + (l.counter c).change = (l.counter c).count
  flagged : ∀ k, l.changed k = decide (0 < l.pending k)
  justified : ∀ r ∈ l.reports, r.recipient = .listener → 0 < r.pending

/-! ### Reports -/

variable {l : StatusLedger K C}

theorem exact_empty : Exact ({} : StatusLedger K C) where
  accounted := fun _ => rfl
  flagged := fun k => Flags.has_zero (flag_lt k)
  justified := fun _ h => nomatch h

/-- A report to a getter, or to a listener of a status that has changed. -/
theorem Exact.report (he : Exact l) {k : K} {recipient : Recipient}
    (hto : recipient = .listener → l.changed k = true) : Exact (l.report k recipient) := by
  constructor
  · intro c
    have h := he.accounted c
    have hr : (l.report k recipient).reported c =
        l.reported c + if status c = k then (l.counter c).change else 0 := by
      show (((l.reports ++ [_]).filter _).map _).sum = _
      rw [List.filter_append, List.map_append, List.sum_append]
      congr 1
      by_cases hk : status c = k
      · simp [hk]
      · rw [if_neg hk, List.filter_cons_of_neg (by simpa using fun h => hk h.symm)]
        rfl
    rw [hr]
    simp only [StatusLedger.report]
    split
    next =>
      dsimp only
      omega
    next => omega
  · intro k'
    show (Flags.clear l.flags (flag k)).has (flag k') =
      decide (0 < Function.update l.pending k 0 k')
    rw [Flags.has_clear _ (flag_lt k) (flag_lt k')]
    by_cases hk : k' = k
    · subst hk
      simp
    · have hf : flag k ≠ flag k' := fun h => hk (flag_inj k k' h).symm
      rw [Function.update_of_ne hk, decide_eq_false hf, Bool.not_false, Bool.true_and]
      exact he.flagged k'
  · intro r hr
    rcases List.mem_append.mp hr with hr | hr
    · exact he.justified r hr
    · rw [List.mem_singleton.mp hr]
      intro hl
      have h := he.flagged k
      rw [hto hl] at h
      exact of_decide_eq_true h.symm

theorem Exact.claim (he : Exact l) (k : K) (resolved : Bool) : Exact (l.claim k resolved) := by
  unfold StatusLedger.claim
  split
  next h =>
    rw [Bool.and_eq_true] at h
    exact he.report fun _ => h.2
  next => exact he

/-- A flag that belongs to no status. -/
theorem Exact.otherFlag (he : Exact l) {m : Flags} (h : ∀ k : K, m.has (flag k) = l.changed k) :
    Exact { l with flags := m } :=
  ⟨he.accounted, fun k => (h k).trans (he.flagged k), he.justified⟩

/-! ### Updates

A stretch of updates under one lock moves each counter one way: `dir` says which. -/

variable [Fintype C]

/-- Some counter of the status differs. -/
def differs (l l' : StatusLedger K C) (k : K) : Bool :=
  decide (∃ c, status c = k ∧ (l'.counter c).count ≠ (l.counter c).count)

/-- Record what differs from `l`. -/
def note (l l' : StatusLedger K C) : StatusLedger K C :=
  { l' with pending := fun k => l'.pending k + if l.differs l' k then 1 else 0 }

structure Stretch (dir : C → ℤ) (l l' : StatusLedger K C) : Prop where
  even : ∀ c, (l'.counter c).change - (l.counter c).change =
    (l'.counter c).count - (l.counter c).count
  oneWay : ∀ c, 0 ≤ dir c * ((l'.counter c).count - (l.counter c).count)
  changed : ∀ k, l'.changed k = (l.changed k || l.differs l' k)
  pending : l'.pending = l.pending
  reports : l'.reports = l.reports

variable {dir : C → ℤ} {l' l'' : StatusLedger K C}

theorem differs_eq_true {k : K} : l.differs l' k = true ↔
    ∃ c, status c = k ∧ (l'.counter c).count ≠ (l.counter c).count := by
  rw [differs, decide_eq_true_eq]

theorem differs_self (l : StatusLedger K C) (k : K) : l.differs l k = false := by
  rw [Bool.eq_false_iff, ne_eq, differs_eq_true]
  rintro ⟨c, -, h⟩
  exact h rfl

namespace Stretch

theorem refl (l : StatusLedger K C) : Stretch dir l l where
  even := fun c => by simp
  oneWay := fun c => by simp
  changed := fun k => by rw [differs_self, Bool.or_false]
  pending := rfl
  reports := rfl

/-- A counter that moved in a first part of a stretch has moved after the second. -/
theorem differs_trans (hd : ∀ c, dir c ≠ 0) (h : Stretch dir l l') (h' : Stretch dir l' l'')
    (k : K) : l.differs l'' k = (l.differs l' k || l'.differs l'' k) := by
  rw [Bool.eq_iff_iff, Bool.or_eq_true]
  simp only [differs_eq_true]
  constructor
  · rintro ⟨c, hc, hne⟩
    by_cases h₁ : (l'.counter c).count = (l.counter c).count
    · exact .inr ⟨c, hc, by rwa [h₁]⟩
    · exact .inl ⟨c, hc, h₁⟩
  · have hmoved : ∀ c, (l'.counter c).count ≠ (l.counter c).count ∨
        (l''.counter c).count ≠ (l'.counter c).count →
        (l''.counter c).count ≠ (l.counter c).count := by
      intro c hor heq
      have h₁ := h.oneWay c
      have h₂ := h'.oneWay c
      rw [heq] at h₂
      have hzero : dir c * ((l'.counter c).count - (l.counter c).count) = 0 := by nlinarith
      have hsame : (l'.counter c).count = (l.counter c).count := by
        have := (mul_eq_zero.mp hzero).resolve_left (hd c)
        omega
      rcases hor with hne | hne
      · exact hne hsame
      · exact hne (by rw [heq, hsame])
    rintro (⟨c, hc, hne⟩ | ⟨c, hc, hne⟩)
    · exact ⟨c, hc, hmoved c (.inl hne)⟩
    · exact ⟨c, hc, hmoved c (.inr hne)⟩

theorem trans (hd : ∀ c, dir c ≠ 0) (h : Stretch dir l l') (h' : Stretch dir l' l'') :
    Stretch dir l l'' where
  even := fun c => by
    have h₁ := h.even c
    have h₂ := h'.even c
    omega
  oneWay := fun c => by
    have h₁ := h.oneWay c
    have h₂ := h'.oneWay c
    nlinarith
  changed := fun k => by
    rw [h'.changed, h.changed, differs_trans hd h h', Bool.or_assoc]
  pending := h'.pending.trans h.pending
  reports := h'.reports.trans h.reports

end Stretch

/-- One update, that moves a counter of its status. -/
theorem Stretch.update [DecidableEq C] {k : K} {deltas : List (C × ℤ)} (h : l.update k deltas = some l')
    (hs : ∀ d ∈ deltas, status d.1 = k)
    (hdir : ∀ c, 0 ≤ dir c * ((deltas.filter (fun d => d.1 = c)).map Prod.snd).sum)
    (hmoves : ∃ c, ((deltas.filter (fun d => d.1 = c)).map Prod.snd).sum ≠ 0) :
    Stretch dir l l' := by
  obtain ⟨l₁, hadd, rfl⟩ := Option.map_eq_some_iff.mp h
  obtain ⟨hc, hf, hp, hr⟩ := addAll_counter hadd
  constructor
  · intro c
    have := hc c
    show (l₁.counter c).change - _ = (l₁.counter c).count - _
    omega
  · intro c
    show 0 ≤ dir c * ((l₁.counter c).count - (l.counter c).count)
    rw [(hc c).1, add_sub_cancel_left]
    exact hdir c
  · intro k'
    have hflags : (Flags.set l₁.flags (flag k)).has (flag k') =
        (decide (k = k') || l.changed k') := by
      rw [Flags.has_set _ (flag_lt k) (flag_lt k'), hf]
      congr 1
      exact decide_eq_decide.mpr ⟨flag_inj k k', fun h => by rw [h]⟩
    show (Flags.set l₁.flags (flag k)).has (flag k') = _
    rw [hflags, Bool.or_comm]
    congr 1
    rw [Bool.eq_iff_iff, decide_eq_true_eq, differs_eq_true]
    constructor
    · rintro rfl
      obtain ⟨c, hne⟩ := hmoves
      refine ⟨c, ?_, ?_⟩
      · by_contra hns
        refine hne ?_
        rw [List.filter_eq_nil_iff.mpr ?_]
        · rfl
        · intro d hd he
          rw [decide_eq_true_eq] at he
          exact hns (he ▸ hs d hd)
      · have := (hc c).1
        show (l₁.counter c).count ≠ _
        omega
    · rintro ⟨c, hk', hne⟩
      by_contra hkk
      refine hne ?_
      show (l₁.counter c).count = _
      rw [(hc c).1, List.filter_eq_nil_iff.mpr ?_]
      · simp
      · intro d hd he
        rw [decide_eq_true_eq] at he
        exact hkk ((hs d hd).symm.trans (he ▸ hk'))
  · exact hp
  · exact hr

/-- A stretch of updates, recorded. -/
theorem Exact.note (he : Exact l) (h : Stretch dir l l') : Exact (l.note l') := by
  constructor
  · intro c
    have h₁ := he.accounted c
    have h₂ := h.even c
    have hr : (l.note l').reported c = l.reported c := by
      show ((l'.reports.filter _).map _).sum = _
      rw [h.reports]
      rfl
    rw [hr]
    show _ + (l'.counter c).change = (l'.counter c).count
    omega
  · intro k
    show l'.changed k = decide (0 < l'.pending k + if l.differs l' k then 1 else 0)
    rw [h.changed, he.flagged, h.pending]
    cases l.differs l' k <;> simp
  · intro r hr
    exact he.justified r (h.reports ▸ hr)

end StatusLedger

end Zzdds.Lib
