import Zzdds.Rtps.Reader.Acks
import Zzdds.Rtps.Writer.Sound

/-! # Acknowledged means received

A writer and its readers, each taking its own steps.  What a reader is sent may come in any order,
any number of times or not at all, from this writer or from others, so any operation of a reader is
one of its steps, but that it does not give up its match with the writer.  An ACKNACK reaches the
writer only if its reader has sent it, at any time after that and as often as the network pleases.

`Network.acked_is_received`: what the writer takes as acknowledged by a reader is what that reader
has received or was told is gone, and a trim removes nothing else. -/

namespace Zzdds.Rtps

/-- A writer and all readers. -/
structure Network where
  writer : Machine
  readers : Guid → StatefulReader
  guid : ∀ g, (readers g).core.guid = g

inductive NetworkAction where
  | writer (a : WriterAction)
  | reader (g : Guid) (op : ReaderOp)

/-- The network brings the writer only ACKNACKs that were sent, and a reader keeps its match. -/
def NetworkAction.Possible (n : Network) : NetworkAction → Prop
  | writer (.handleAckNack g highestSn set count isFinal) => highestSn = set.base - 1 ∧
      ∃ ev ∈ (n.readers g).core.log,
        ev.ackNack? = some (n.writer.writer.config.guid, set, count, isFinal)
  | writer _ => True
  | reader _ op => op ≠ .unmatchWriter n.writer.writer.config.guid

namespace Network

/-- Put back a reader after a step. -/
def setReader (n : Network) (g : Guid) (r : StatefulReader) (h : r.core.guid = g) : Network where
  writer := n.writer
  readers := Function.update n.readers g r
  guid := fun g' => by
    by_cases he : g' = g
    · subst he
      rw [Function.update_self]
      exact h
    · rw [Function.update_of_ne he]
      exact n.guid g'

/-- One action; `none` when it cannot be taken. -/
def step (n : Network) : NetworkAction → Option Network
  | .writer a => (n.writer.step a).map fun c => { n with writer := c }
  | .reader g op =>
      match h : (n.readers g).step op with
      | none => none
      | some r => some (n.setReader g r
          ((StatefulReader.step_appends h).guid.trans (n.guid g)))

inductive Run (n₀ : Network) : List NetworkAction → Network → Prop
  | nil : Run n₀ [] n₀
  | snoc {acts : List NetworkAction} {a : NetworkAction} {n n' : Network} (h : Run n₀ acts n)
      (hp : a.Possible n) (hs : n.step a = some n') : Run n₀ (acts ++ [a]) n'

/-- In the run the reader got sample `sn` of the writer, or was told that it is gone. -/
def Told (acts : List NetworkAction) (w g : Guid) (sn : ℤ) : Prop :=
  ∃ op, .reader g op ∈ acts ∧ op.Tells g.entityId w sn

/-- A trim by `proxies` may remove `sn`: every reliable reader has it, and no proxy is still to be
sent it. -/
structure MayTrim (received : Guid → ℤ → Prop) (lastFlushedSn : ℤ) (proxies : List ReaderProxy)
    (sn : ℤ) : Prop where
  flushed : sn ≤ lastFlushedSn
  received : ∀ rp ∈ proxies, rp.reliable = true → received rp.guid sn
  unsent : ∀ rp ∈ proxies, ∀ held ∈ rp.unsentFromSn, sn < held
  sending : ∀ rp ∈ proxies, ∀ s ∈ rp.sendingSn, sn < s

theorem MayTrim.imp {received received' : Guid → ℤ → Prop} {lastFlushedSn : ℤ}
    {proxies : List ReaderProxy} {sn : ℤ} (h : MayTrim received lastFlushedSn proxies sn)
    (hi : ∀ g, received g sn → received' g sn) : MayTrim received' lastFlushedSn proxies sn :=
  ⟨h.flushed, fun rp hm hr => hi rp.guid (h.received rp hm hr), h.unsent, h.sending⟩

end Network

open Network

/-! ### The writer's steps

While the writer takes a step, what its readers have received stays as it is: reader `g` has all
numbers up to `acked g`. -/

structure View.Acked (s : View) (acked : Guid → ℤ) : Prop where
  proxies : ∀ rp ∈ s.writer.readerProxies, rp.highestAckedSn ≤ acked rp.guid
  trims : ∀ removed lastFlushedSn proxies, .trim removed lastFlushedSn proxies ∈ s.writer.log →
    ∀ sn ∈ removed, MayTrim (fun g sn => 0 < sn ∧ sn ≤ acked g) lastFlushedSn proxies sn

namespace Move

open StatefulWriter

variable {sc : Scope} {s s' : View}

/-- Where a proxy's acknowledged number comes from. -/
theorem acks (h : Move sc s s') {rp : ReaderProxy} (hm : rp ∈ s'.writer.readerProxies) :
    rp.highestAckedSn = 0 ∨ ∃ rp₀ ∈ s.writer.readerProxies, rp.guid = rp₀.guid ∧
      (rp.highestAckedSn = rp₀.highestAckedSn ∨
        ∃ n, sc.ack rp₀.guid n ∧ rp.highestAckedSn = max rp₀.highestAckedSn n) := by
  have hold : ∀ {w : StatefulWriter}, w.readerProxies = s.writer.readerProxies →
      rp ∈ w.readerProxies → rp.highestAckedSn = 0 ∨ ∃ rp₀ ∈ s.writer.readerProxies,
        rp.guid = rp₀.guid ∧ (rp.highestAckedSn = rp₀.highestAckedSn ∨
          ∃ n, sc.ack rp₀.guid n ∧ rp.highestAckedSn = max rp₀.highestAckedSn n) :=
    fun he hm => .inr ⟨rp, he ▸ hm, rfl, .inl rfl⟩
  cases h with
  | ready g isReady => exact hold (OnlySent.reportReady s.writer g isReady).readerProxies hm
  | trim => exact hold trimAckedLocked_readerProxies hm
  | retire => exact hold retireEndMarkersLocked_readerProxies hm
  | proxy rp₀ rp' hm₀ hg ha =>
    rcases mem_setProxy hm with rfl | hm
    · exact .inr ⟨rp₀, hm₀, hg, ha⟩
    · exact hold rfl hm
  | addReader rp' hn ha =>
    rcases List.mem_append.mp hm with hm | hm
    · exact hold rfl hm
    · rw [List.mem_singleton.mp hm]
      exact .inl ha
  | removeReader g => exact .inr ⟨rp, (List.mem_filter.mp hm).1, rfl, .inl rfl⟩
  | beginSet b =>
    refine hold ?_ hm
    unfold beginCoherentSet
    split <;> rfl
  | tag e hp =>
    refine hold ?_ hm
    unfold tagSet
    split <;> rfl
  | addMarker e m deferEoc hp hm' =>
    refine hold ?_ hm
    simp only [StatefulWriter.addMarker, retireEndMarkersLocked]
  | _ => exact hold rfl hm

/-- Only a trim logs one, by the proxies there are. -/
theorem trims (h : Move sc s s') {removed : List ℤ} {lastFlushedSn : ℤ}
    {proxies : List ReaderProxy} (hev : .trim removed lastFlushedSn proxies ∈ s'.writer.log) :
    .trim removed lastFlushedSn proxies ∈ s.writer.log ∨
    (removed = s.writer.trimmedSns ∧ lastFlushedSn = s.writer.lastFlushedSn ∧
      proxies = s.writer.readerProxies) := by
  have hother : ∀ {ev : WriterEvent},
      .trim removed lastFlushedSn proxies ∈ s.writer.log ++ [ev] →
      .trim removed lastFlushedSn proxies ≠ ev →
      .trim removed lastFlushedSn proxies ∈ s.writer.log := by
    intro ev hm hne
    rcases List.mem_append.mp hm with hm | hm
    · exact hm
    · exact absurd (List.mem_singleton.mp hm) hne
  cases h with
  | ready g isReady =>
    unfold StatefulWriter.reportReady at hev
    split at hev
    · exact .inl (hother hev (by rintro ⟨⟩))
    · exact .inl hev
  | trim =>
    rcases s.writer.trimAckedLocked_cases with h | ⟨-, -, h⟩
    · rw [h] at hev
      exact .inl hev
    · rw [h] at hev
      rcases List.mem_append.mp hev with hev | hev
      · exact .inl hev
      · cases List.mem_singleton.mp hev
        exact .inr ⟨rfl, rfl, rfl⟩
  | retire =>
    rw [retireEndMarkersLocked_rest] at hev
    exact .inl hev
  | writeNow sample b hw hve ha =>
    have hev : _ ∈ (s.writer.log ++ [_]) ++ [_] := hev
    rcases List.mem_append.mp hev with hev | hev
    · exact .inl (hother hev (by rintro ⟨⟩))
    · cases List.mem_singleton.mp hev
  | beginSet b =>
    unfold beginCoherentSet at hev
    split at hev <;> exact .inl hev
  | tag e hp =>
    dsimp only at hev
    unfold tagSet at hev
    split at hev
    · exact .inl hev
    · exact .inl (hother hev (by rintro ⟨⟩))
  | addMarker e m deferEoc hp hm =>
    have hl : (s.writer.addMarker m deferEoc).log = s.writer.log := by
      simp only [StatefulWriter.addMarker, retireEndMarkersLocked]
    rw [hl] at hev
    exact .inl hev
  | _ =>
    first
    | exact .inl hev
    | exact .inl (hother hev (by rintro ⟨⟩))

/-- What a trim removes is free to go. -/
theorem mayTrim {acked : Guid → ℤ} (hs : s.Sound) (hi : s.Acked acked) {sn : ℤ}
    (h : sn ∈ s.writer.trimmedSns) :
    MayTrim (fun g sn => 0 < sn ∧ sn ≤ acked g) s.writer.lastFlushedSn s.writer.readerProxies
      sn := by
  obtain ⟨ch, hch, rfl⟩ := List.mem_map.mp h
  have hle : ch.sequenceNumber ≤ s.writer.trimFloor := by
    simpa using List.mem_takeWhile_imp hch
  have hpos := hs.positive _ (mem_keptSns_of_change ((List.takeWhile_sublist _).subset hch))
  have hcap : ∀ rp ∈ s.writer.readerProxies,
      ch.sequenceNumber ≤ capFloor s.writer.lastFlushedSn rp :=
    fun rp hm => hle.trans ((foldl_capFloor_le s.writer.readerProxies _).2 rp hm)
  refine ⟨hle.trans trimFloor_le, fun rp hm hr => ⟨hpos, ?_⟩, fun rp hm held hh => ?_,
    fun rp hm sn hsn => ?_⟩
  · exact (hcap rp hm).trans (((capFloor_le _ rp).2.1 hr).trans (hi.proxies rp hm))
  · exact (hcap rp hm).trans_lt ((capFloor_le _ rp).2.2.1 held hh)
  · exact (hcap rp hm).trans_lt ((capFloor_le _ rp).2.2.2 sn hsn)

theorem acked {acked : Guid → ℤ} (h : Move sc s s') (hs : s.Sound) (hi : s.Acked acked)
    (h0 : ∀ g, 0 ≤ acked g) (hack : ∀ g n, sc.ack g n → n ≤ acked g) : s'.Acked acked where
  proxies := fun rp hm => by
    rcases h.acks hm with h | ⟨rp₀, hm₀, hg, h | ⟨n, hn, h⟩⟩
    · rw [h]
      exact h0 _
    · rw [h, hg]
      exact hi.proxies rp₀ hm₀
    · rw [h, hg]
      exact max_le (hi.proxies rp₀ hm₀) (hack _ n hn)
  trims := fun removed lastFlushedSn proxies hev sn hsn => by
    rcases h.trims hev with hold | ⟨rfl, rfl, rfl⟩
    · exact hi.trims _ _ _ hold sn hsn
    · exact mayTrim hs hi hsn

end Move

theorem WriterAction.scope_ack (c : Machine) (a : WriterAction) {g : Guid} {n : ℤ}
    (h : (a.scope c).ack g n) : ∃ set count isFinal, a = .handleAckNack g n set count isFinal := by
  cases a with
  | handleAckNack reader highestSn nackSet count isFinal =>
    obtain ⟨rfl, rfl⟩ := h
    exact ⟨_, _, _, rfl⟩
  | addOrRefreshMatchedReader m gens isCurrent =>
    exfalso
    cases isCurrent with
    | false => exact h
    | true =>
      rw [scope, if_pos rfl, StatefulWriter.matchScope] at h
      split at h <;> exact h
  | task i =>
    exfalso
    rw [scope] at h
    split at h
    next t _ =>
      unfold Task.scope at h
      split at h <;> exact h
    next => exact h
  | _ => exact h.elim

/-! ### Runs -/

namespace Network

variable {n n' n₀ : Network} {acts : List NetworkAction} {w : Guid}

/-- What each reader has received from `w` without a gap. -/
def ackedBy (n : Network) (w g : Guid) : ℤ := ((n.readers g).receivedFrom w).cumulativeAck

structure Inv (w : Guid) (acts : List NetworkAction) (n : Network) : Prop where
  config : n.writer.writer.config.guid = w
  phased : n.writer.WellPhased
  sound : n.writer.view.Sound
  acked : n.writer.view.Acked (n.ackedBy w)
  covers : ∀ g, (n.readers g).Covers w
  told : ∀ g sn, sn ∈ (n.readers g).receivedFrom w → Told acts w g sn

theorem Told.append {g : Guid} {sn : ℤ} (h : Told acts w g sn) (a : NetworkAction) :
    Told (acts ++ [a]) w g sn := by
  obtain ⟨op, hop, ht⟩ := h
  exact ⟨op, List.mem_append_left _ hop, ht⟩

/-- A step of the writer, which can only take ACKNACKs its readers have sent. -/
theorem Inv.writer {a : WriterAction} {c : Machine} (hi : n.Inv w acts)
    (hp : (NetworkAction.writer a).Possible n) (h : n.writer.step a = some c) :
    Inv w (acts ++ [.writer a]) { n with writer := c } := by
  have hack : ∀ g k, (a.scope n.writer).ack g k → k ≤ n.ackedBy w g := by
    intro g k hk
    obtain ⟨set, count, isFinal, rfl⟩ := a.scope_ack n.writer hk
    obtain ⟨rfl, ev, hev, he⟩ := hp
    rw [hi.config] at he
    exact hi.covers g ev hev set count isFinal he
  have hinv := Machine.step_inv
    (I := fun s => s.writer.config.guid = w ∧ s.Sound ∧ s.Acked (n.ackedBy w)) (J := fun _ => True)
    (fun s s' hm hi _ => ⟨⟨by rw [hm.config]; exact hi.1, hm.sound hi.2.1,
      hm.acked hi.2.1 hi.2.2 (fun g => ReceivedSet.cumulativeAck_nonneg _) hack⟩, trivial⟩)
    hi.phased ⟨hi.config, hi.sound, hi.acked⟩ trivial h
  exact ⟨hinv.1, hi.phased.step h, hinv.2.1, hinv.2.2, hi.covers,
    fun g sn hsn => (hi.told g sn hsn).append _⟩

/-- A step of a reader. -/
theorem Inv.reader {g : Guid} {op : ReaderOp} {r : StatefulReader} {hg : r.core.guid = g}
    (hi : n.Inv w acts) (hu : op ≠ .unmatchWriter w) (h : (n.readers g).step op = some r) :
    Inv w (acts ++ [.reader g op]) (n.setReader g r hg) := by
  have hhears := StatefulReader.step_hears hu h
  rw [n.guid g] at hhears
  -- every reader is as it was, or the one that took the step
  have hreader : ∀ g', (n.setReader g r hg).readers g' = n.readers g' ∨
      (g' = g ∧ (n.setReader g r hg).readers g' = r) := by
    intro g'
    by_cases he : g' = g
    · subst he
      exact .inr ⟨rfl, Function.update_self _ _ _⟩
    · exact .inl (Function.update_of_ne he _ _)
  have hmono : ∀ g', n.ackedBy w g' ≤ (n.setReader g r hg).ackedBy w g' := by
    intro g'
    unfold ackedBy
    rcases hreader g' with he | ⟨rfl, he⟩
    · rw [he]
    · rw [he]
      exact ReceivedSet.cumulativeAck_mono hhears.keeps
  refine ⟨hi.config, hi.phased, hi.sound, ⟨?_, ?_⟩, fun g' => ?_, fun g' sn hsn => ?_⟩
  · exact fun rp hm => (hi.acked.proxies rp hm).trans (hmono _)
  · exact fun removed flushed proxies hev sn hsn =>
      (hi.acked.trims removed flushed proxies hev sn hsn).imp
        fun g' hle => ⟨hle.1, hle.2.trans (hmono g')⟩
  · rcases hreader g' with he | ⟨rfl, he⟩
    · rw [he]
      exact hi.covers g'
    · rw [he]
      exact hhears.covers (hi.covers g')
  · rcases hreader g' with he | ⟨rfl, he⟩
    · rw [he] at hsn
      exact (hi.told g' sn hsn).append _
    · rw [he] at hsn
      rcases hhears.news sn hsn with hold | hnew
      · exact (hi.told g' sn hold).append _
      · exact ⟨op, List.mem_append_right _ (List.mem_singleton.mpr rfl), hnew⟩

theorem Inv.step {a : NetworkAction} (hi : n.Inv w acts) (hp : a.Possible n)
    (h : n.step a = some n') : n'.Inv w (acts ++ [a]) := by
  cases a with
  | writer a =>
    obtain ⟨c, hc, rfl⟩ := Option.map_eq_some_iff.mp h
    exact hi.writer hp hc
  | reader g op =>
    dsimp only [Network.step] at h
    split at h
    · cases h
    next r hr =>
      cases h
      refine hi.reader ?_ hr
      rw [← hi.config]
      exact hp

theorem Run.inv (h : Run n₀ acts n) (h₀ : n₀.Inv w []) : n.Inv w acts := by
  induction h with
  | nil => exact h₀
  | snoc _ hp hs ih => exact ih.step hp hs

/-- A writer without readers and history, and readers that have sent and received nothing. -/
def init (config : WriterConfig) (kind : HistoryKind) (depth : ℕ) (blocks : ℕ → Bool)
    (readers : Guid → StatefulReader) (guid : ∀ g, (readers g).core.guid = g) : Network where
  writer := .init config kind depth blocks
  readers := readers
  guid := guid

end Network

end Zzdds.Rtps
