import Zzdds.Rtps.Reader.Delivery
import Zzdds.Rtps.Writer.Sound

/-! # The counts of HEARTBEATs and NACK_FRAGs

A reader takes a HEARTBEAT only when its count is newer, as a signed 32-bit difference, than that of
the last one it took; so it does with a HEARTBEAT_FRAG, and a writer with a NACK_FRAG.  The reader
draws its counts from an `i32` that wraps, and sends each NACK_FRAG under the lock its count was
drawn under.  The writer draws from an `i32` it never wraps, and a task may send a HEARTBEAT with
the lock released, which one drawn later may overtake.  `Machine.Counted` says that the counts
drawn are in range and each newer than those the same reader was sent before, `Unovertaken` that no
HEARTBEAT is overtaken. -/

namespace Zzdds.Rtps

/-! ### Counts -/

def WriterMessage.heartbeatCount? : WriterMessage → Option ℕ
  | heartbeat _ _ _ _ count _ _ => some count
  | _ => none

def WriterMessage.heartbeatFragCount? : WriterMessage → Option ℕ
  | heartbeatFrag _ _ count => some count
  | _ => none

def WriterEvent.countTo (g : Guid) (count? : WriterMessage → Option ℕ) : WriterEvent → Option ℕ
  | send _ _ reader _ m => if reader = g then count? m else none
  | _ => none

/-- The counts a reader was sent, in order. -/
def StatefulWriter.countsTo (w : StatefulWriter) (g : Guid) (count? : WriterMessage → Option ℕ) :
    List ℕ :=
  w.log.filterMap (·.countTo g count?)

/-- With fewer than 2³¹ counts skipped, `b` is newer than `a` to a reader. -/
def Newer (a b : ℕ) : Prop :=
  b < a + 2 ^ 31 → isNewerCount (Int32.ofNat b) (some (Int32.ofNat a)) = true

/-- No count the writer has drawn overflows, and each is newer than those its reader was sent
before. -/
structure Machine.Counted (c : Machine) : Prop where
  inRange : ∀ n ≤ c.writer.hbCount, (Int32.ofNat n).toInt = n
  heartbeats : ∀ g, (c.writer.countsTo g WriterMessage.heartbeatCount?).Pairwise Newer
  heartbeatFrags : ∀ g, (c.writer.countsTo g WriterMessage.heartbeatFragCount?).Pairwise Newer

/-- The HEARTBEAT a task sends was not overtaken: all its reader was sent have older counts. -/
def WriterAction.Unovertaken (c : Machine) (a : WriterAction) : Prop :=
  ∀ g count, (a.scope c).land g count →
    ∀ n ∈ c.writer.countsTo g WriterMessage.heartbeatCount?, n < count

theorem newer_of_lt {a b : ℕ} (h : a < b) : Newer a b := by
  intro hlt
  have hsub : Int32.ofNat b - Int32.ofNat a = Int32.ofNat (b - a) :=
    (Int32.ofNat_sub b a h.le).symm
  rw [isNewerCount, decide_eq_true_eq, hsub, Int32.lt_iff_toInt_lt,
    Int32.toInt_ofNat_of_lt (by omega)]
  show (0 : ℤ) < ((b - a : ℕ) : ℤ)
  omega

/-- Each NACK_FRAG is newer to its writer than those before it, with fewer than 2³¹ counts drawn
between. -/
def StatefulReader.Counted (r : StatefulReader) : Prop :=
  ∀ i j a b, i < j → j < i + 2 ^ 31 → r.core.draws[i]? = some (true, a) →
    r.core.draws[j]? = some (true, b) → isNewerCount b (some a) = true

/-! ### The writer's invariant -/

/-- The reader and count of a HEARTBEAT a task is to send. -/
def Packet.heartbeat? : Packet → Option (Guid × ℕ)
  | message g m => m.heartbeatCount?.map (g, ·)
  | flushing _ => none

/-- The count was drawn; if it is the last one, the reader was sent it. -/
def View.Drawn (s : View) (g : Guid) (n : ℕ) : Prop :=
  n ≤ s.writer.hbCount ∧ (n = s.writer.hbCount → g ∈ s.addressed)

structure View.Counted (s : View) : Prop where
  heartbeats_drawn : ∀ g, ∀ n ∈ s.writer.countsTo g WriterMessage.heartbeatCount?, s.Drawn g n
  heartbeatFrags_drawn : ∀ g, ∀ n ∈ s.writer.countsTo g WriterMessage.heartbeatFragCount?,
    s.Drawn g n
  flight_drawn : ∀ x ∈ s.flight.filterMap Packet.heartbeat?, s.Drawn x.1 x.2
  flight_heartbeat : ∀ g m, .message g m ∈ s.flight → m.heartbeatFragCount? = none
  once : (s.flight.filterMap Packet.heartbeat?).Nodup
  heartbeats : ∀ g, (s.writer.countsTo g WriterMessage.heartbeatCount?).Pairwise (· < ·)
  heartbeatFrags : ∀ g, (s.writer.countsTo g WriterMessage.heartbeatFragCount?).Pairwise (· < ·)

/-- The actions' condition, inside the action. -/
structure Scope.Unovertaken (sc : Scope) (s : View) : Prop where
  alone : ∀ g count, sc.land g count → ∀ g', ¬ sc.heartbeat g'
  single : ∀ g n n', sc.land g n → sc.land g n' → n = n'
  older : ∀ g count, sc.land g count → (g, count) ∈ s.flight.filterMap Packet.heartbeat? →
    ∀ n ∈ s.writer.countsTo g WriterMessage.heartbeatCount?, n < count

namespace StatefulWriter

variable {w w' : StatefulWriter}

theorem countsTo_append {evs : List WriterEvent} (h : w'.log = w.log ++ evs) (g : Guid)
    (count? : WriterMessage → Option ℕ) :
    w'.countsTo g count? = w.countsTo g count? ++ evs.filterMap (·.countTo g count?) := by
  rw [countsTo, countsTo, h, List.filterMap_append]

theorem countsTo_of_not_send {evs : List WriterEvent} (h : w'.log = w.log ++ evs)
    (hno : ∀ ev ∈ evs, ev.isSend = false) (g : Guid) (count? : WriterMessage → Option ℕ) :
    w'.countsTo g count? = w.countsTo g count? := by
  have hnil : evs.filterMap (·.countTo g count?) = [] := by
    rw [List.filterMap_eq_nil_iff]
    intro ev hev
    cases ev with
    | send => cases hno _ hev
    | _ => rfl
  rw [countsTo_append h, hnil, List.append_nil]

end StatefulWriter

namespace Move

open StatefulWriter

variable {sc : Scope} {s s' : View} {g : Guid} {n : ℕ}

/-- Under one count no reader is forgotten. -/
theorem addressed (h : Move sc s s') : s.writer.hbCount ≤ s'.writer.hbCount ∧
    (s'.writer.hbCount = s.writer.hbCount → s.addressed ⊆ s'.addressed) := by
  have hsame : ∀ {w : StatefulWriter}, w.hbCount = s.writer.hbCount →
      s.writer.hbCount ≤ w.hbCount ∧ (w.hbCount = s.writer.hbCount → s.addressed ⊆ s.addressed) :=
    fun h => ⟨h.ge, fun _ => subset_rfl⟩
  cases h with
  | bump => exact ⟨Nat.le_succ _, fun h => absurd h (Nat.succ_ne_self _)⟩
  | heartbeat => exact ⟨le_rfl, fun _ => Set.subset_insert _ _⟩
  | heartbeatFrag => exact ⟨le_rfl, fun _ => Set.subset_insert _ _⟩
  | launchHeartbeat => exact ⟨le_rfl, fun _ => Set.subset_insert _ _⟩
  | ready g isReady =>
    apply hsame
    unfold reportReady
    split <;> rfl
  | trim =>
    apply hsame
    rcases s.writer.trimAckedLocked_cases with h | ⟨-, -, h⟩
    · rw [h]
    · rw [h]
      rfl
  | retire =>
    apply hsame
    rw [retireEndMarkersLocked_rest]
  | forget => exact ⟨le_rfl, fun _ => Set.subset_univ _⟩
  | beginSet b =>
    apply hsame
    unfold beginCoherentSet
    split <;> rfl
  | tag e hp =>
    apply hsame
    unfold tagSet
    split <;> rfl
  | addMarker e m deferEoc hp hm =>
    apply hsame
    simp only [StatefulWriter.addMarker, retireEndMarkersLocked]
  | _ => exact hsame rfl

/-- A count drawn stays drawn. -/
theorem drawn (h : Move sc s s') (hd : s.Drawn g n) : s'.Drawn g n := by
  obtain ⟨hle, hsub⟩ := h.addressed
  refine ⟨hd.1.trans hle, fun he => ?_⟩
  have hlast : s'.writer.hbCount = s.writer.hbCount := le_antisymm (he ▸ hd.1) hle
  exact hsub hlast (hd.2 (he.trans hlast))

/-- The HEARTBEATs tasks are to send: one more, under the last count drawn, or no more than
before. -/
theorem heartbeats_flight (h : Move sc s s') :
    s'.flight.filterMap Packet.heartbeat? ≤ s.flight.filterMap Packet.heartbeat? ∨
    ∃ g, s'.flight.filterMap Packet.heartbeat? =
        (g, s.writer.hbCount) ::ₘ s.flight.filterMap Packet.heartbeat? ∧
      s'.writer = s.writer ∧ g ∉ s.addressed ∧ g ∈ s'.addressed := by
  have hless : ∀ {x : Packet} {f : Multiset Packet}, s.flight = x ::ₘ f →
      f.filterMap Packet.heartbeat? ≤ s.flight.filterMap Packet.heartbeat? := by
    intro x f hf
    rw [hf]
    exact Multiset.filterMap_le_filterMap _ (Multiset.le_cons_self _ _)
  cases h with
  | launchData g ch hs => exact .inl (Multiset.filterMap_cons_none _ _ rfl).le
  | launchMarker g m hm => exact .inl (Multiset.filterMap_cons_none _ _ rfl).le
  | launchHeartbeat g startSn gaps firstSn lastSn final liveliness hu ho hl =>
    exact .inr ⟨g, Multiset.filterMap_cons_some _ _ _ rfl, rfl, hu, Set.mem_insert _ _⟩
  | launchFlush sn hf => exact .inl (Multiset.filterMap_cons_none _ _ rfl).le
  | takeEoc sn hs => exact .inl (Multiset.filterMap_cons_none _ _ rfl).le
  | land g locs m f hf hl => exact .inl (hless hf)
  | flush sn f hf => exact .inl (hless hf)
  | drop x f hf => exact .inl (hless hf)
  | _ => exact .inl le_rfl

/-- A HEARTBEAT sent now: under the last count drawn, which its reader has not been sent before, or
one that was scheduled. -/
theorem heartbeats (h : Move sc s s') (hi : s.Counted) (g : Guid) :
    s'.writer.countsTo g WriterMessage.heartbeatCount? =
      s.writer.countsTo g WriterMessage.heartbeatCount? ∨
    ∃ n, s'.writer.countsTo g WriterMessage.heartbeatCount? =
        s.writer.countsTo g WriterMessage.heartbeatCount? ++ [n] ∧
      ((n = s.writer.hbCount ∧ sc.heartbeat g ∧ g ∉ s.addressed ∧ g ∈ s'.addressed) ∨
        (sc.land g n ∧ s.flight.filterMap Packet.heartbeat? =
          (g, n) ::ₘ s'.flight.filterMap Packet.heartbeat?)) := by
  rcases h.log with ⟨g', locs, m, hs, hl, hc⟩ | ⟨evs, hl, hno⟩
  · rw [countsTo_append hl]
    by_cases hg : g' = g
    · subst hg
      cases hn : m.heartbeatCount? with
      | none => left; simp [WriterEvent.countTo, hn]
      | some n =>
        right
        refine ⟨n, by simp [WriterEvent.countTo, hn], ?_⟩
        cases hs with
        | heartbeat startSn gaps firstSn lastSn final liveliness hu hg ho hv hl =>
          cases hn
          rcases hc _ rfl with hf | ⟨-, -, hin⟩
          · have hold := hi.flight_drawn (g', s.writer.hbCount)
              ((Multiset.mem_filterMap _ _).mpr
                ⟨_, by rw [hf]; exact Multiset.mem_cons_self _ _, rfl⟩)
            exact absurd (hold.2 rfl) hu
          · exact .inl ⟨rfl, hg, hu, hin⟩
        | land _ hf hland =>
          cases m with
          | heartbeat startSn gaps firstSn lastSn count final liveliness =>
            cases hn
            right
            refine ⟨(hland _ _ _ _ _ _ _ rfl).1, ?_⟩
            rcases hc _ rfl with hcons | ⟨hlast, hu, -⟩
            · rw [hcons]
              exact Multiset.filterMap_cons_some _ _ _ rfl
            · have hold := hi.flight_drawn (g', _)
                ((Multiset.mem_filterMap _ _).mpr ⟨_, hf, rfl⟩)
              exact absurd (hold.2 hlast) hu
          | _ => cases hn
        | _ => cases hn
    · left
      simp [WriterEvent.countTo, hg]
  · exact .inl (countsTo_of_not_send hl hno g _)

theorem heartbeatFrags (h : Move sc s s') (hi : s.Counted) (g : Guid) :
    s'.writer.countsTo g WriterMessage.heartbeatFragCount? =
      s.writer.countsTo g WriterMessage.heartbeatFragCount? ∨
    (s'.writer.countsTo g WriterMessage.heartbeatFragCount? =
        s.writer.countsTo g WriterMessage.heartbeatFragCount? ++ [s.writer.hbCount] ∧
      g ∉ s.addressed ∧ g ∈ s'.addressed) := by
  rcases h.log with ⟨g', locs, m, hs, hl, hc⟩ | ⟨evs, hl, hno⟩
  · rw [countsTo_append hl]
    by_cases hg : g' = g
    · subst hg
      cases hn : m.heartbeatFragCount? with
      | none => left; simp [WriterEvent.countTo, hn]
      | some n =>
        right
        cases hs with
        | heartbeatFrag ch numFrags hu hs =>
          cases hn
          refine ⟨by simp [WriterEvent.countTo, WriterMessage.heartbeatFragCount?], hu, ?_⟩
          rcases hc _ rfl with hf | ⟨-, -, hin⟩
          · have := hi.flight_heartbeat g' _ (by rw [hf]; exact Multiset.mem_cons_self _ _)
            cases this
          · exact hin
        | land _ hf hland =>
          rw [hi.flight_heartbeat g' m hf] at hn
          cases hn
        | _ => cases hn
    · left
      simp [WriterEvent.countTo, hg]
  · exact .inl (countsTo_of_not_send hl hno g _)

/-- A count drawn, whose reader is not addressed yet, is older than the last one drawn. -/
theorem drawn_lt (hd : s.Drawn g n) (hu : g ∉ s.addressed) : n < s.writer.hbCount :=
  lt_of_le_of_ne hd.1 fun h => hu (hd.2 h)

/-- A HEARTBEAT sent now is newer than those its reader was sent. -/
theorem heartbeat_newer (hi : s.Counted) (hj : sc.Unovertaken s)
    (hn : (n = s.writer.hbCount ∧ sc.heartbeat g ∧ g ∉ s.addressed ∧ g ∈ s'.addressed) ∨
      (sc.land g n ∧ s.flight.filterMap Packet.heartbeat? =
        (g, n) ::ₘ s'.flight.filterMap Packet.heartbeat?)) :
    ∀ k ∈ s.writer.countsTo g WriterMessage.heartbeatCount?, k < n := by
  intro k hk
  rcases hn with ⟨rfl, -, hu, -⟩ | ⟨hl, hf⟩
  · exact drawn_lt (hi.heartbeats_drawn g k hk) hu
  · exact hj.older g n hl (by rw [hf]; exact Multiset.mem_cons_self _ _) k hk

theorem heartbeats_drawn (h : Move sc s s') (hi : s.Counted) :
    ∀ n ∈ s'.writer.countsTo g WriterMessage.heartbeatCount?, s'.Drawn g n := by
  intro n hn
  rcases h.heartbeats hi g with he | ⟨k, he, hk⟩
  · exact h.drawn (hi.heartbeats_drawn g n (he ▸ hn))
  · rw [he] at hn
    rcases List.mem_append.mp hn with hn | hn
    · exact h.drawn (hi.heartbeats_drawn g n hn)
    · obtain rfl := List.mem_singleton.mp hn
      rcases hk with ⟨rfl, -, -, hin⟩ | ⟨-, hf⟩
      · exact ⟨h.addressed.1, fun _ => hin⟩
      · exact h.drawn (hi.flight_drawn (g, n) (by rw [hf]; exact Multiset.mem_cons_self _ _))

theorem counted (h : Move sc s s') (hi : s.Counted) (hj : sc.Unovertaken s) : s'.Counted where
  heartbeats_drawn := fun g => h.heartbeats_drawn hi
  heartbeatFrags_drawn := fun g n hn => by
    rcases h.heartbeatFrags hi g with he | ⟨he, -, hin⟩
    · exact h.drawn (hi.heartbeatFrags_drawn g n (he ▸ hn))
    · rw [he] at hn
      rcases List.mem_append.mp hn with hn | hn
      · exact h.drawn (hi.heartbeatFrags_drawn g n hn)
      · rw [List.mem_singleton.mp hn]
        exact ⟨h.addressed.1, fun _ => hin⟩
  flight_drawn := fun x hx => by
    rcases h.heartbeats_flight with hle | ⟨g, he, -, -, hin⟩
    · exact h.drawn (hi.flight_drawn x (Multiset.mem_of_le hle hx))
    · rw [he] at hx
      rcases Multiset.mem_cons.mp hx with rfl | hx
      · exact ⟨h.addressed.1, fun _ => hin⟩
      · exact h.drawn (hi.flight_drawn x hx)
  flight_heartbeat := fun g m hm => by
    rcases h.scheduled hm with hm | hm
    · exact hi.flight_heartbeat g m hm
    · cases hm <;> rfl
  once := by
    rcases h.heartbeats_flight with hle | ⟨g, he, -, hu, -⟩
    · exact Multiset.nodup_of_le hle hi.once
    · rw [he, Multiset.nodup_cons]
      exact ⟨fun hf => hu ((hi.flight_drawn _ hf).2 rfl), hi.once⟩
  heartbeats := fun g => by
    rcases h.heartbeats hi g with he | ⟨n, he, hn⟩
    · rw [he]
      exact hi.heartbeats g
    · rw [he, List.pairwise_append]
      refine ⟨hi.heartbeats g, List.pairwise_singleton _ _, fun k hk n' hn' => ?_⟩
      rw [List.mem_singleton.mp hn']
      exact heartbeat_newer hi hj hn k hk
  heartbeatFrags := fun g => by
    rcases h.heartbeatFrags hi g with he | ⟨he, hu, -⟩
    · rw [he]
      exact hi.heartbeatFrags g
    · rw [he, List.pairwise_append]
      refine ⟨hi.heartbeatFrags g, List.pairwise_singleton _ _, fun k hk n hn => ?_⟩
      rw [List.mem_singleton.mp hn]
      exact drawn_lt (hi.heartbeatFrags_drawn g k hk) hu

theorem unovertaken (h : Move sc s s') (hi : s.Counted) (hj : sc.Unovertaken s) :
    sc.Unovertaken s' where
  alone := hj.alone
  single := hj.single
  older := fun g n hl hf k hk => by
    rcases h.heartbeats_flight with hle | ⟨g', he, hw, hu, -⟩
    · have hf' := Multiset.mem_of_le hle hf
      rcases h.heartbeats hi g with he | ⟨k', he, hk'⟩
      · exact hj.older g n hl hf' k (he ▸ hk)
      · rw [he] at hk
        rcases List.mem_append.mp hk with hk | hk
        · exact hj.older g n hl hf' k hk
        · -- the one that has just gone out is in flight no more
          obtain rfl := List.mem_singleton.mp hk
          exfalso
          rcases hk' with ⟨-, hg, -, -⟩ | ⟨hl', hcons⟩
          · exact hj.alone g n hl g hg
          · obtain rfl := hj.single g n k hl hl'
            have hnd := hi.once
            rw [hcons, Multiset.nodup_cons] at hnd
            exact hnd.1 hf
    · rw [hw] at hk
      rw [he] at hf
      rcases Multiset.mem_cons.mp hf with hf | hf
      · cases hf
        exact drawn_lt (hi.heartbeats_drawn g k hk) hu
      · exact hj.older g n hl hf k hk

end Move

/-! ### Runs -/

/-- An action that sends a scheduled HEARTBEAT sends no other. -/
theorem WriterAction.scope_land (c : Machine) (a : WriterAction) {g : Guid} {n : ℕ}
    (h : (a.scope c).land g n) : (∀ g', ¬ (a.scope c).heartbeat g') ∧
      ∀ n', (a.scope c).land g n' → n = n' := by
  cases a with
  | addOrRefreshMatchedReader m gens isCurrent =>
    exfalso
    cases isCurrent with
    | false => exact h
    | true =>
      rw [scope, if_pos rfl, StatefulWriter.matchScope] at h
      split at h <;> exact h
  | task i =>
    rw [scope] at h ⊢
    split at h
    next t _ =>
      unfold Task.scope at h ⊢
      split at h <;>
        first
        | exact h.elim
        | exact ⟨fun _ => id, fun n' h' => h.2.trans h'.2.symm⟩
    next => exact h.elim
  | _ => exact h.elim

namespace Machine

variable {c : Machine} {a : WriterAction}

theorem scope_unovertaken (h : a.Unovertaken c) : (a.scope c).Unovertaken c.view where
  alone := fun _ _ hl => (a.scope_land c hl).1
  single := fun _ _ n' hl hl' => (a.scope_land c hl).2 n' hl'
  older := fun g n hl _ => h g n hl

theorem init_counted (config : WriterConfig) (kind : HistoryKind) (depth : ℕ) (blocks : ℕ → Bool) :
    (init config kind depth blocks).view.Counted where
  heartbeats_drawn := fun _ _ h => (List.not_mem_nil h).elim
  heartbeatFrags_drawn := fun _ _ h => (List.not_mem_nil h).elim
  flight_drawn := fun _ h => (Multiset.notMem_zero _ h).elim
  flight_heartbeat := fun _ _ h => (Multiset.notMem_zero _ h).elim
  once := Multiset.nodup_zero
  heartbeats := fun _ => List.Pairwise.nil
  heartbeatFrags := fun _ => List.Pairwise.nil

/-- As long as no HEARTBEAT is overtaken and fewer than 2³¹ counts are drawn, all are in range and
newer than those before. -/
theorem run_counted {config : WriterConfig} {kind : HistoryKind} {depth : ℕ} {blocks : ℕ → Bool}
    {as : List WriterAction}
    (hd : (init config kind depth blocks).RunMeets (fun c a => a.Unovertaken c) as)
    (h : (init config kind depth blocks).run as = some c) (hn : c.writer.hbCount < 2 ^ 31) :
    c.Counted := by
  have hinv := run_inv (I := View.Counted) Scope.Unovertaken
    (fun c a _ _ hp => scope_unovertaken hp)
    (fun c a _ s s' hm hi hj => ⟨hm.counted hi hj, hm.unovertaken hi hj⟩)
    as _ (init_wellPhased _ _ _ _) (init_counted _ _ _ _) hd h
  refine ⟨fun n hle => Int32.toInt_ofNat_of_lt (hle.trans_lt hn), fun g => ?_, fun g => ?_⟩
  · exact (hinv.2.heartbeats g).imp newer_of_lt
  · exact (hinv.2.heartbeatFrags g).imp newer_of_lt

end Machine

/-! ### The reader's counts -/

namespace StatefulReader

variable {r r' : StatefulReader}

theorem run_appends {ops : List ReaderOp} : ∀ {r : StatefulReader}, r.run ops = some r' →
    Appends Set.univ r.core r'.core := by
  induction ops with
  | nil =>
    intro r h
    cases h
    exact .refl _ _
  | cons op ops ih =>
    intro r h
    obtain ⟨r₁, h₁, h₂⟩ := Option.bind_eq_some_iff.mp h
    exact (step_appends h₁).trans (ih h₂)

theorem run_counted {ops : List ReaderOp} (h₀ : r.core.log = []) (h : r.run ops = some r') :
    r'.Counted := by
  obtain ⟨ds, hds, hfrom⟩ := (run_appends h).draws
  have hnil : r.core.draws = [] := by
    rw [ReaderCore.draws, h₀]
    rfl
  rw [hnil, List.nil_append] at hds
  intro i j a b hij hlt ha hb
  rw [hds] at ha hb
  have ha := hfrom.getElem ha
  have hb := hfrom.getElem hb
  dsimp only at ha hb
  have hsub : b - a = Int32.ofNat (j - i) := by
    have he : Int32.ofNat (j + 1) = Int32.ofNat (i + 1) + Int32.ofNat (j - i) := by
      rw [← Int32.ofNat_add]
      congr 1
      omega
    rw [ha, hb, he, ← Int32.add_assoc, Int32.add_comm, Int32.add_sub_cancel]
  rw [isNewerCount, decide_eq_true_eq, hsub, Int32.lt_iff_toInt_lt,
    Int32.toInt_ofNat_of_lt (by omega)]
  show (0 : ℤ) < ((j - i : ℕ) : ℤ)
  omega

end StatefulReader

namespace Machine

/-- Without readers a HEARTBEAT only draws a count. -/
theorem run_heartbeats (config : WriterConfig) (kind : HistoryKind) (depth : ℕ)
    (blocks : ℕ → Bool) (n : ℕ) : ∃ c,
    (init config kind depth blocks).run (List.replicate n (.sendHeartbeat false false)) = some c ∧
      c.writer.hbCount = n := by
  have hrun : ∀ (n : ℕ) (c : Machine), c.writer.readerProxies = [] → ∃ c',
      c.run (List.replicate n (.sendHeartbeat false false)) = some c' ∧
        c'.writer.hbCount = c.writer.hbCount + n := by
    intro n
    induction n with
    | zero => exact fun c _ => ⟨c, rfl, rfl⟩
    | succ n ih =>
      intro c hc
      have hw : c.writer.sendHeartbeat false false = c.writer.bumpHb := by
        rw [StatefulWriter.sendHeartbeat, hc]
        rfl
      obtain ⟨c', hr, hb⟩ := ih { c with writer := c.writer.sendHeartbeat false false }
        (by rw [hw]; exact hc)
      refine ⟨c', hr, hb.trans ?_⟩
      rw [hw]
      show c.writer.hbCount + 1 + n = _
      omega
  obtain ⟨c, hr, hb⟩ := hrun n (init config kind depth blocks) rfl
  exact ⟨c, hr, hb.trans (Nat.zero_add n)⟩

/-- The counts of a writer that draws fewer than 2³¹ of them, none overtaken, and those of any
reader, each newer than the last. -/
theorem counts_accepted (config : WriterConfig) (kind : HistoryKind) (depth : ℕ)
    (blocks : ℕ → Bool) (as : List WriterAction) (c : Machine)
    (hd : (init config kind depth blocks).RunMeets (fun c a => a.Unovertaken c) as)
    (h : (init config kind depth blocks).run as = some c) (hn : c.writer.hbCount < 2 ^ 31)
    (r r' : StatefulReader) (ops : List ReaderOp) (h₀ : r.core.log = [])
    (hr : r.run ops = some r') : c.Counted ∧ r'.Counted :=
  ⟨run_counted hd h hn, StatefulReader.run_counted h₀ hr⟩

/-- A reader, a sample with its HEARTBEAT, and a further HEARTBEAT. -/
def heartbeatRun : List WriterAction :=
  [.addOrRefreshMatchedReader (smallReader 2 true) (fun _ => 0) true, .write (smallSample [1]),
    .task 0, .task 0, .sendHeartbeat false false]

/-- Two announcements of a sample that arrives in fragments. -/
def nackFragOps : List ReaderOp :=
  [.matchWriter remoteWriter none true, .heartbeatFrag remoteWriter.guid 1 2 1,
    .heartbeatFrag remoteWriter.guid 1 2 2]

theorem counts_accepted_heartbeatRun : ∃ c r,
    (smallWriter .keepAll).RunMeets (fun c a => a.Unovertaken c) heartbeatRun ∧
    (smallWriter .keepAll).run heartbeatRun = some c ∧
    c.writer.countsTo (smallGuid 2) WriterMessage.heartbeatCount? = [1, 2, 3] ∧
    idleReader.run nackFragOps = some r ∧ r.core.draws = [(false, 1), (true, 2), (true, 3)] ∧
    c.Counted ∧ r.Counted := by
  have hd : (smallWriter .keepAll).RunMeets (fun c a => a.Unovertaken c) heartbeatRun := by
    refine ⟨fun _ _ h => h.elim, fun c₁ h₁ => ?_⟩
    obtain rfl := Option.some.inj h₁
    refine ⟨fun _ _ h => h.elim, fun c₂ h₂ => ?_⟩
    obtain rfl := Option.some.inj h₂
    refine ⟨fun _ _ h => h.elim, fun c₃ h₃ => ?_⟩
    obtain rfl := Option.some.inj h₃
    refine ⟨?_, fun c₄ h₄ => ?_⟩
    · rintro g count ⟨rfl, rfl⟩ n hn
      have hn : n ∈ [1] := hn
      rw [List.mem_singleton.mp hn]
      exact Nat.lt_succ_self 1
    · obtain rfl := Option.some.inj h₄
      exact ⟨fun _ _ h => h.elim, fun _ _ => trivial⟩
  have hr : (idleReader.run nackFragOps).isSome = true := by decide
  have hdraws : (idleReader.run nackFragOps).map (·.core.draws) =
      some [(false, 1), (true, 2), (true, 3)] := by decide
  obtain ⟨r, hr⟩ := Option.isSome_iff_exists.mp hr
  rw [hr] at hdraws
  obtain ⟨hc, hrc⟩ := counts_accepted smallConfig .keepAll 1 _ heartbeatRun _ hd rfl (by decide)
    idleReader r nackFragOps rfl hr
  exact ⟨_, r, hd, rfl, rfl, hr, Option.some.inj hdraws, hc, hrc⟩

/-- After 2³¹ HEARTBEATs the count overflows; and a HEARTBEAT sent before one that a task has still
to send makes the latter stale. -/
theorem counts_refused :
    (∃ as c, (smallWriter .keepAll).run as = some c ∧ c.writer.hbCount = 2 ^ 31 ∧ ¬ c.Counted) ∧
    ∃ c, (smallWriter .keepAll).run
      [.addOrRefreshMatchedReader (smallReader 2 true) (fun _ => 0) true, .write (smallSample [1]),
        .sendHeartbeat false false, .task 0, .task 0] = some c ∧ c.writer.hbCount = 3 ∧
      ¬ c.Counted := by
  refine ⟨?_, _, rfl, rfl, fun h => ?_⟩
  · obtain ⟨c, hrun, hcount⟩ := run_heartbeats smallConfig .keepAll 1 (fun _ => false) (2 ^ 31)
    refine ⟨_, c, hrun, hcount, fun h => ?_⟩
    have := h.inRange (2 ^ 31) hcount.ge
    revert this
    decide
  · have hcounts : [1, 3, 2].Pairwise Newer := h.heartbeats (smallGuid 2)
    rw [List.pairwise_cons, List.pairwise_cons] at hcounts
    have := hcounts.2.1 2 (List.mem_singleton.mpr rfl) (by decide)
    revert this
    decide

end Machine

end Zzdds.Rtps
