import Zzdds.Dcps.AccessFrame

/-! # Who owns which memory

A ledger of the reader's memory: the samples by who refers to them (the queue, and each reference of
a loan), the payloads by who owns them.  `Sound` says that a sample's count is the number of its
references, that it is given back exactly when there are none, and that every payload has one owner
or has been given back once.  Each way memory moves keeps the ledger sound; the operations of the
reader are put together from these. -/

namespace Zzdds.Dcps

open Zzdds.Lib Zzdds.Rtps

/-- `copies` are the payloads the application owns, `others` those that no sample of the queue or of
a loan has: staged, leaked, or in the hands of the call that runs.  `handed` is every payload a take
ever gave away. -/
structure Ledger where
  heap : Heap
  pending : List ℕ
  loaned : List ℕ
  copies : List ℕ
  others : List ℕ
  handed : List ℕ

/-- The two memories agree on what a ledger reads, but for whether teardown has begun. -/
structure Heap.Like (h h' : Heap) : Prop where
  cells : ∀ a, (h'.get a).map (fun pc => (pc.data, pc.quiesce.count)) =
    (h.get a).map fun pc => (pc.data, pc.quiesce.count)
  structs : h'.structs.length = h.structs.length
  payloads : h'.payloads.length = h.payloads.length
  freedPayloads : h'.freedPayloads = h.freedPayloads
  freedStructs : h'.freedStructs = h.freedStructs

theorem Heap.Like.refl (h : Heap) : h.Like h := ⟨fun _ => rfl, rfl, rfl, rfl, rfl⟩

theorem Heap.get_modify (h : Heap) (a b : ℕ) (f : PendingChange → PendingChange) :
    (h.modify a f).get b = if b = a then (h.get b).map f else h.get b := by
  show (h.structs.modify a f)[b]? = _
  rw [List.getElem?_modify]
  simp only [@eq_comm ℕ a b]
  split
  · rfl
  · exact Option.map_id'

namespace Ledger

/-- The references to a sample. -/
def refs (L : Ledger) (a : ℕ) : ℕ := L.pending.count a + L.loaned.count a

/-- How often a payload was given back or given away. -/
def spent (L : Ledger) (p : ℕ) : ℕ := L.heap.freedPayloads.count p + L.copies.count p

structure Sound (L : Ledger) : Prop where
  counted : ∀ a, L.refs a ≠ 0 → ∃ pc, L.heap.get a = some pc ∧ pc.quiesce.count = L.refs a
  nodup : L.pending.Nodup
  open_ : ∀ a ∈ L.pending, ∀ pc, L.heap.get a = some pc → pc.quiesce.tearingDown = false
  freed : ∀ a, L.heap.freedStructs.count a =
    if a < L.heap.structs.length ∧ L.refs a = 0 then 1 else 0
  own : ∀ a pc, L.heap.get a = some pc → L.refs a ≠ 0 →
    pc.data < L.heap.payloads.length ∧ L.spent pc.data + L.others.count pc.data = 0
  inj : ∀ a b pa pb, L.heap.get a = some pa → L.heap.get b = some pb → L.refs a ≠ 0 →
    L.refs b ≠ 0 → pa.data = pb.data → a = b
  rest : ∀ p, (∀ a pc, L.heap.get a = some pc → L.refs a ≠ 0 → pc.data ≠ p) →
    L.spent p + L.others.count p = if p < L.heap.payloads.length then 1 else 0
  retired : ∀ a pc, L.heap.get a = some pc → L.refs a = 0 → L.spent pc.data = 1
  handed : ∀ p ∈ L.handed, L.spent p = 1

namespace Sound

variable {L L' : Ledger}

theorem lt_of_refs (h : L.Sound) {a : ℕ} (ha : L.refs a ≠ 0) : a < L.heap.structs.length := by
  obtain ⟨pc, hpc, -⟩ := h.counted a ha
  exact (List.getElem?_eq_some_iff.mp hpc).1

/-- A payload has at most one owner. -/
theorem spent_le_one (h : L.Sound) (p : ℕ) : L.spent p + L.others.count p ≤ 1 := by
  by_cases hp : ∀ a pc, L.heap.get a = some pc → L.refs a ≠ 0 → pc.data ≠ p
  · rw [h.rest p hp]
    split <;> omega
  · push Not at hp
    obtain ⟨a, pc, hg, hr, rfl⟩ := hp
    have := (h.own a pc hg hr).2
    omega

/-- A payload in other hands is no sample's. -/
theorem ne_of_mem_others (h : L.Sound) {p : ℕ} (hp : p ∈ L.others) {a : ℕ} {pc : PendingChange}
    (hg : L.heap.get a = some pc) (hr : L.refs a ≠ 0) : pc.data ≠ p := by
  rintro rfl
  have h₁ := (h.own a pc hg hr).2
  have h₂ := List.count_pos_iff.mpr hp
  omega

/-! ### Moves that change no count -/

/-- What refers to a sample may change hands, and what the ledger does not read may change. -/
theorem like (h : L.Sound) (hh : L.heap.Like L'.heap) (hr : ∀ a, L'.refs a = L.refs a)
    (hn : L'.pending.Nodup)
    (ho : ∀ a ∈ L'.pending, ∀ pc, L'.heap.get a = some pc → pc.quiesce.tearingDown = false)
    (hc : ∀ p, L'.copies.count p = L.copies.count p)
    (hot : ∀ p, L'.others.count p = L.others.count p) (hd : L'.handed ⊆ L.handed) : L'.Sound := by
  have hspent : ∀ p, L'.spent p = L.spent p := fun p => by
    rw [spent, spent, hh.freedPayloads, hc]
  -- a cell of the one is a cell of the other
  have hback : ∀ a pc', L'.heap.get a = some pc' → ∃ pc, L.heap.get a = some pc ∧
      pc.data = pc'.data ∧ pc.quiesce.count = pc'.quiesce.count := by
    intro a pc' hg
    have hcell := hh.cells a
    rw [hg, Option.map_some, eq_comm, Option.map_eq_some_iff] at hcell
    obtain ⟨pc, hpc, he⟩ := hcell
    obtain ⟨he₁, he₂⟩ := Prod.mk.injEq .. ▸ he
    exact ⟨pc, hpc, he₁, he₂⟩
  have hforth : ∀ a pc, L.heap.get a = some pc → ∃ pc', L'.heap.get a = some pc' ∧
      pc'.data = pc.data ∧ pc'.quiesce.count = pc.quiesce.count := by
    intro a pc hg
    have hcell := hh.cells a
    rw [hg, Option.map_some, Option.map_eq_some_iff] at hcell
    obtain ⟨pc', hpc, he⟩ := hcell
    obtain ⟨he₁, he₂⟩ := Prod.mk.injEq .. ▸ he
    exact ⟨pc', hpc, he₁, he₂⟩
  refine ⟨fun a ha => ?_, hn, ho, fun a => ?_, fun a pc' hg hr' => ?_,
    fun a b pa pb ha hb hra hrb he => ?_, fun p hp => ?_, fun a pc' hg hr' => ?_, fun p hp => ?_⟩
  · rw [hr] at ha ⊢
    obtain ⟨pc, hpc, hcount⟩ := h.counted a ha
    obtain ⟨pc', hpc', -, hq⟩ := hforth a pc hpc
    exact ⟨pc', hpc', hq.trans hcount⟩
  · rw [hh.freedStructs, hh.structs, hr]
    exact h.freed a
  · obtain ⟨pc, hpc, hdata, -⟩ := hback a pc' hg
    rw [hr] at hr'
    rw [hh.payloads, hspent, hot, ← hdata]
    exact h.own a pc hpc hr'
  · obtain ⟨pa₀, hpa, hda, -⟩ := hback a pa ha
    obtain ⟨pb₀, hpb, hdb, -⟩ := hback b pb hb
    rw [hr] at hra hrb
    exact h.inj a b pa₀ pb₀ hpa hpb hra hrb (hda.trans (he.trans hdb.symm))
  · rw [hspent, hot, hh.payloads]
    refine h.rest p fun a pc hg hra => ?_
    obtain ⟨pc', hpc', hdata, -⟩ := hforth a pc hg
    rw [← hdata]
    exact hp a pc' hpc' (by rw [hr]; exact hra)
  · obtain ⟨pc, hpc, hdata, -⟩ := hback a pc' hg
    rw [hr] at hr'
    rw [hspent, ← hdata]
    exact h.retired a pc hpc hr'
  · rw [hspent]
    exact h.handed p (hd hp)

/-! ### Payloads -/

/-- A new payload is in the hands of the call. -/
theorem dupe (h : L.Sound) (octets : List UInt8) :
    Sound { L with
      heap := (L.heap.dupe octets).2
      others := L.heap.payloads.length :: L.others } := by
  have hlen : (L.heap.payloads ++ [octets]).length = L.heap.payloads.length + 1 := List.length_append
  refine ⟨h.counted, h.nodup, h.open_, h.freed, fun a pc hg hr => ?_, h.inj, fun p hp => ?_,
    h.retired, h.handed⟩
  · obtain ⟨hlt, hz⟩ := h.own a pc hg hr
    refine ⟨by show _ < (L.heap.payloads ++ [octets]).length; omega, ?_⟩
    show L.spent pc.data + (L.heap.payloads.length :: L.others).count pc.data = 0
    rw [List.count_cons_of_ne (by omega)]
    exact hz
  · show L.spent p + (L.heap.payloads.length :: L.others).count p =
      if p < (L.heap.payloads ++ [octets]).length then 1 else 0
    have hrest := h.rest p hp
    rw [hlen, List.count_cons]
    by_cases he : L.heap.payloads.length = p
    · subst he
      rw [if_neg (lt_irrefl _)] at hrest
      simp
      omega
    · rw [if_neg (by simpa using he)]
      split at hrest
      · rw [if_pos (by omega)]
        omega
      · rw [if_neg (by omega)]
        omega

/-- A payload nobody has any more is given back, or one the call has is given to the application. -/
theorem spend (h : L.Sound) {p : ℕ} (hp : p ∈ L.others) (hheap : L'.heap.structs = L.heap.structs)
    (hpay : L'.heap.payloads = L.heap.payloads)
    (hfs : L'.heap.freedStructs = L.heap.freedStructs) (hpend : L'.pending = L.pending)
    (hloan : L'.loaned = L.loaned) (hd : L'.handed = L.handed)
    (ho : ∀ q, L'.others.count q = (L.others.erase p).count q)
    (hs : ∀ q, L'.spent q = L.spent q + if q = p then 1 else 0) : L'.Sound := by
  have hget : ∀ a, L'.heap.get a = L.heap.get a := fun a => by rw [Heap.get, hheap, Heap.get]
  have hrefs : ∀ a, L'.refs a = L.refs a := fun a => by rw [refs, hpend, hloan, refs]
  have hpos := List.count_pos_iff.mpr hp
  have hle := h.spent_le_one p
  have hsum : ∀ q, L'.spent q + L'.others.count q = L.spent q + L.others.count q := by
    intro q
    rw [hs, ho, List.count_erase]
    by_cases hq : q = p
    · subst hq
      simp
      omega
    · rw [if_neg hq, if_neg (by simpa using fun e => hq e.symm)]
      omega
  have hkeep : ∀ q, L.spent q = 1 → L'.spent q = 1 := by
    intro q hq
    rw [hs]
    split
    next e =>
      subst e
      omega
    next => omega
  refine ⟨?_, hpend ▸ h.nodup, ?_, ?_, ?_, ?_, fun q hq => ?_, ?_, ?_⟩
  · simp only [hrefs, hget]
    exact h.counted
  · simp only [hpend, hget]
    exact h.open_
  · simp only [hrefs, hfs, hheap]
    exact h.freed
  · simp only [hrefs, hget, hsum, hpay]
    exact h.own
  · simp only [hrefs, hget]
    exact h.inj
  · simp only [hrefs, hget] at hq
    rw [hsum, hpay]
    exact h.rest q hq
  · intro a pc hg hr
    rw [hget] at hg
    rw [hrefs] at hr
    exact hkeep _ (h.retired a pc hg hr)
  · intro q hq
    exact hkeep q (h.handed q (hd ▸ hq))

theorem free (h : L.Sound) {p : ℕ} (hp : p ∈ L.others) :
    Sound { L with heap := L.heap.free p, others := L.others.erase p } := by
  refine h.spend hp rfl rfl rfl rfl rfl rfl (fun _ => rfl) fun q => ?_
  show (L.heap.freedPayloads ++ [p]).count q + _ = _
  rw [List.count_append, List.count_singleton, spent]
  simp only [beq_iff_eq, @eq_comm ℕ q p]
  omega

theorem give (h : L.Sound) {p : ℕ} (hp : p ∈ L.others) :
    Sound { L with copies := p :: L.copies, others := L.others.erase p } := by
  refine h.spend hp rfl rfl rfl rfl rfl rfl (fun _ => rfl) fun q => ?_
  show _ + (p :: L.copies).count q = _
  rw [List.count_cons, spent]
  simp only [beq_iff_eq, @eq_comm ℕ q p]
  omega

/-- The application gives a payload back. -/
theorem freeCopy (h : L.Sound) {p : ℕ} (hp : p ∈ L.copies) :
    Sound { L with heap := L.heap.free p, copies := L.copies.erase p } := by
  have hpos := List.count_pos_iff.mpr hp
  have hspent : ∀ q, Ledger.spent { L with heap := L.heap.free p, copies := L.copies.erase p } q =
      L.spent q := by
    intro q
    show (L.heap.freedPayloads ++ [p]).count q + (L.copies.erase p).count q = _
    rw [List.count_append, List.count_singleton, List.count_erase, spent]
    simp only [beq_iff_eq]
    split
    next e =>
      subst e
      omega
    next => omega
  refine ⟨h.counted, h.nodup, h.open_, h.freed, ?_, h.inj, ?_, ?_, ?_⟩
  · intro a pc hg hr
    rw [hspent]
    exact h.own a pc hg hr
  · intro q hq
    rw [hspent]
    exact h.rest q hq
  · intro a pc hg hr
    rw [hspent]
    exact h.retired a pc hg hr
  · intro q hq
    rw [hspent]
    exact h.handed q hq

/-! ### Samples -/

/-- A sample with a payload of its own joins the queue. -/
theorem enqueue (h : L.Sound) {pc : PendingChange} (hp : pc.data ∈ L.others)
    (hq : pc.quiesce = {}) :
    Sound { L with
      heap := (L.heap.create pc).2
      pending := L.pending ++ [L.heap.structs.length]
      others := L.others.erase pc.data } := by
  have hn : L.refs L.heap.structs.length = 0 := by
    by_contra hr
    exact lt_irrefl _ (h.lt_of_refs hr)
  have hget : ∀ a, (L.heap.create pc).2.get a =
      if a = L.heap.structs.length then some pc else L.heap.get a := by
    intro a
    show (L.heap.structs ++ [pc])[a]? = _
    split
    next e => rw [e, List.getElem?_concat_length]
    next e =>
      by_cases ha : a < L.heap.structs.length
      · rw [List.getElem?_append_left ha, Heap.get]
      · rw [Heap.get, List.getElem?_eq_none (by rw [List.length_append, List.length_singleton]; omega),
          List.getElem?_eq_none (by omega)]
  have hrefs : ∀ a, (L.pending ++ [L.heap.structs.length]).count a + L.loaned.count a =
      L.refs a + if a = L.heap.structs.length then 1 else 0 := by
    intro a
    rw [List.count_append, List.count_singleton, refs]
    simp only [beq_iff_eq, @eq_comm ℕ _ a]
    omega
  have hnot : L.heap.structs.length ∉ L.pending := by
    intro hin
    have := List.count_pos_iff.mpr hin
    rw [refs] at hn
    omega
  have hpos := List.count_pos_iff.mpr hp
  have hle := h.spent_le_one pc.data
  have hlt : pc.data < L.heap.payloads.length := by
    have hrest := h.rest pc.data fun a pa hg hr => h.ne_of_mem_others hp hg hr
    split at hrest
    · assumption
    · omega
  refine ⟨fun a ha => ?_, ?_, fun a ha pa hg => ?_, fun a => ?_, fun a pa hg hr => ?_,
    fun a b pa pb hga hgb hra hrb he => ?_, fun p hall => ?_, fun a pa hg hr => ?_, h.handed⟩
  · have ha : L.refs a + (if a = L.heap.structs.length then 1 else 0) ≠ 0 := hrefs a ▸ ha
    show ∃ pa, (L.heap.create pc).2.get a = some pa ∧ pa.quiesce.count =
      (L.pending ++ [L.heap.structs.length]).count a + L.loaned.count a
    rw [hget, hrefs]
    split
    next e =>
      refine ⟨pc, rfl, ?_⟩
      rw [hq, e, hn]
    next e =>
      rw [if_neg e] at ha
      exact h.counted a ha
  · exact List.nodup_append.mpr ⟨h.nodup, List.nodup_singleton _, by
      intro a ha b hb
      rw [List.mem_singleton.mp hb]
      rintro rfl
      exact hnot ha⟩
  · rw [hget] at hg
    split at hg
    next e =>
      cases hg
      rw [hq]
    next e =>
      refine h.open_ a ?_ pa hg
      rcases List.mem_append.mp ha with ha | ha
      · exact ha
      · exact absurd (List.mem_singleton.mp ha) e
  · show L.heap.freedStructs.count a = if a < (L.heap.structs ++ [pc]).length ∧
      (L.pending ++ [L.heap.structs.length]).count a + L.loaned.count a = 0 then 1 else 0
    rw [h.freed a, hrefs, List.length_append, List.length_singleton]
    by_cases e : a = L.heap.structs.length
    · rw [if_neg (by omega), if_neg (by rw [if_pos e]; omega)]
    · rw [if_neg e]
      exact if_congr (by omega) rfl rfl
  · have hr : L.refs a + (if a = L.heap.structs.length then 1 else 0) ≠ 0 := hrefs a ▸ hr
    rw [hget] at hg
    show pa.data < L.heap.payloads.length ∧
      L.spent pa.data + (L.others.erase pc.data).count pa.data = 0
    rw [List.count_erase]
    split at hg
    next e =>
      cases hg
      refine ⟨hlt, ?_⟩
      simp
      omega
    next e =>
      rw [if_neg e] at hr
      obtain ⟨h₁, h₂⟩ := h.own a pa hg hr
      exact ⟨h₁, by omega⟩
  · have hra : L.refs a + (if a = L.heap.structs.length then 1 else 0) ≠ 0 := hrefs a ▸ hra
    have hrb : L.refs b + (if b = L.heap.structs.length then 1 else 0) ≠ 0 := hrefs b ▸ hrb
    rw [hget] at hga hgb
    split at hga <;> split at hgb
    next ea eb => rw [ea, eb]
    next ea eb =>
      cases hga
      rw [if_neg eb] at hrb
      exact absurd he.symm (h.ne_of_mem_others hp hgb hrb)
    next ea eb =>
      cases hgb
      rw [if_neg ea] at hra
      exact absurd he (h.ne_of_mem_others hp hga hra)
    next ea eb =>
      rw [if_neg ea] at hra
      rw [if_neg eb] at hrb
      exact h.inj a b pa pb hga hgb hra hrb he
  · show L.spent p + (L.others.erase pc.data).count p = if p < L.heap.payloads.length then 1 else 0
    have hne : pc.data ≠ p := by
      refine hall L.heap.structs.length pc ?_ ?_
      · show (L.heap.create pc).2.get _ = _
        rw [hget, if_pos rfl]
      · show (L.pending ++ [L.heap.structs.length]).count _ + L.loaned.count _ ≠ 0
        rw [hrefs, if_pos rfl]
        omega
    rw [List.count_erase, if_neg (by simpa using hne), Nat.sub_zero]
    refine h.rest p fun a pa hg hr => ?_
    have ha : a ≠ L.heap.structs.length := by
      rintro rfl
      exact hr hn
    refine hall a pa ?_ ?_
    · show (L.heap.create pc).2.get _ = _
      rw [hget, if_neg ha]
      exact hg
    · show (L.pending ++ [L.heap.structs.length]).count _ + L.loaned.count _ ≠ 0
      rw [hrefs]
      omega
  · have hr : L.refs a + (if a = L.heap.structs.length then 1 else 0) = 0 := hrefs a ▸ hr
    rw [hget] at hg
    split at hg
    next e =>
      rw [if_pos e] at hr
      omega
    next e => exact h.retired a pa hg (by omega)

/-- The memories have the same payloads and samples, but for the reference count of one. -/
structure Recounted (a : ℕ) (h h' : Heap) : Prop where
  cells : ∀ b, b ≠ a → h'.get b = h.get b
  data : ∀ pc', h'.get a = some pc' → ∃ pc, h.get a = some pc ∧ pc.data = pc'.data
  structs : h'.structs.length = h.structs.length
  payloads : h'.payloads = h.payloads

theorem Recounted.cell {a b : ℕ} {h h' : Heap} (hh : Recounted a h h') {pc' : PendingChange}
    (hg : h'.get b = some pc') : ∃ pc, h.get b = some pc ∧ pc.data = pc'.data := by
  by_cases hb : b = a
  · subst hb
    exact hh.data pc' hg
  · exact ⟨pc', hh.cells b hb ▸ hg, rfl⟩

/-- A sample gets or loses a reference and keeps another. -/
theorem recount (h : L.Sound) {a : ℕ} (hh : Recounted a L.heap L'.heap) (hr : L.refs a ≠ 0)
    (hr' : L'.refs a ≠ 0) (hother : ∀ b, b ≠ a → L'.refs b = L.refs b)
    (hcell : ∃ pc, L'.heap.get a = some pc ∧ pc.quiesce.count = L'.refs a)
    (hn : L'.pending.Nodup)
    (ho : ∀ b ∈ L'.pending, ∀ pc, L'.heap.get b = some pc → pc.quiesce.tearingDown = false)
    (hfs : L'.heap.freedStructs = L.heap.freedStructs)
    (hfp : L'.heap.freedPayloads = L.heap.freedPayloads) (hc : L'.copies = L.copies)
    (hot : L'.others = L.others) (hd : L'.handed = L.handed) : L'.Sound := by
  have hspent : ∀ p, L'.spent p = L.spent p := fun p => by rw [spent, hfp, hc, spent]
  have hlive : ∀ b, L'.refs b ≠ 0 ↔ L.refs b ≠ 0 := by
    intro b
    by_cases hb : b = a
    · rw [hb]
      exact ⟨fun _ => hr, fun _ => hr'⟩
    · rw [hother b hb]
  refine ⟨fun b hb => ?_, hn, ho, fun b => ?_, fun b pc' hg hrb => ?_,
    fun b c pb pc hgb hgc hrb hrc he => ?_, fun p hall => ?_, fun b pc' hg hrb => ?_, fun p hp => ?_⟩
  · by_cases he : b = a
    · rw [he]
      exact hcell
    · rw [hh.cells b he, hother b he]
      exact h.counted b ((hlive b).mp hb)
  · rw [hfs, hh.structs, h.freed b]
    refine if_congr (and_congr_right fun _ => ?_) rfl rfl
    exact not_iff_not.mp (hlive b).symm
  · obtain ⟨pc, hpc, he⟩ := hh.cell hg
    rw [hspent, hot, hh.payloads, ← he]
    exact h.own b pc hpc ((hlive b).mp hrb)
  · obtain ⟨pb₀, hpb, heb⟩ := hh.cell hgb
    obtain ⟨pc₀, hpc, hec⟩ := hh.cell hgc
    exact h.inj b c pb₀ pc₀ hpb hpc ((hlive b).mp hrb) ((hlive c).mp hrc)
      (heb.trans (he.trans hec.symm))
  · rw [hspent, hot, hh.payloads]
    refine h.rest p fun b pc hg hrb => ?_
    by_cases hb : b = a
    · subst hb
      obtain ⟨pc', hg', -⟩ := hcell
      obtain ⟨pc₀, hpc₀, he⟩ := hh.data pc' hg'
      obtain rfl := Option.some.inj (hpc₀.symm.trans hg)
      rw [he]
      exact hall b pc' hg' hr'
    · exact hall b pc (hh.cells b hb ▸ hg) ((hlive b).mpr hrb)
  · obtain ⟨pc, hpc, he⟩ := hh.cell hg
    rw [hspent, ← he]
    exact h.retired b pc hpc (not_not.mp fun hn => (hlive b).mpr hn hrb)
  · rw [hspent]
    exact h.handed p (hd ▸ hp)

/-- A sample loses its last reference: it is given back, and its payload is given back or away. -/
theorem retire (h : L.Sound) {a : ℕ} {pc : PendingChange} (hh : Recounted a L.heap L'.heap)
    (hg : L.heap.get a = some pc) (hr : L.refs a ≠ 0) (hr' : L'.refs a = 0)
    (hother : ∀ b, b ≠ a → L'.refs b = L.refs b) (hn : L'.pending.Nodup)
    (hsub : L'.pending ⊆ L.pending)
    (hfs : L'.heap.freedStructs = L.heap.freedStructs ++ [a])
    (hs : ∀ q, L'.spent q = L.spent q + if q = pc.data then 1 else 0)
    (hot : L'.others = L.others) (hd : ∀ q ∈ L'.handed, q ∈ L.handed ∨ q = pc.data) : L'.Sound := by
  have hpc := (h.own a pc hg hr).2
  have hdata : ∀ {b : ℕ} {pb : PendingChange}, b ≠ a → L.heap.get b = some pb → L.refs b ≠ 0 →
      pb.data ≠ pc.data := fun hb hgb hrb he => hb (h.inj _ a _ pc hgb hg hrb hr he)
  have hlive : ∀ {b : ℕ}, L'.refs b ≠ 0 → b ≠ a := by
    rintro b hb rfl
    exact hb hr'
  have hmem : ∀ {b : ℕ}, b ∈ L'.pending → L'.refs b ≠ 0 := fun hb => by
    have := List.count_pos_iff.mpr hb
    rw [refs]
    omega
  have hkeep : ∀ q, L.spent q = 1 → L'.spent q = 1 := by
    intro q hq
    rw [hs]
    split
    next e =>
      subst e
      omega
    next => omega
  refine ⟨fun b hb => ?_, hn, fun b hb pb hgb => ?_, fun b => ?_, fun b pb hgb hrb => ?_,
    fun b c pb pc' hgb hgc hrb hrc he => ?_, fun p hall => ?_, fun b pb hgb hrb => ?_, fun p hp => ?_⟩
  · have hne := hlive hb
    rw [hother b hne] at hb ⊢
    rw [hh.cells b hne]
    exact h.counted b hb
  · rw [hh.cells b (hlive (hmem hb))] at hgb
    exact h.open_ b (hsub hb) pb hgb
  · rw [hfs, List.count_append, List.count_singleton, h.freed b, hh.structs]
    by_cases hb : b = a
    · subst hb
      rw [if_neg fun hc => hr hc.2, if_pos (beq_self_eq_true b), if_pos ⟨h.lt_of_refs hr, hr'⟩]
    · rw [hother b hb]
      have : ¬ (a == b) = true := by simpa using fun e => hb e.symm
      rw [if_neg this]
      omega
  · have hne := hlive hrb
    rw [hh.cells b hne] at hgb
    rw [hother b hne] at hrb
    rw [hs, hot, hh.payloads, if_neg (hdata hne hgb hrb)]
    exact h.own b pb hgb hrb
  · have hb := hlive hrb
    have hc := hlive hrc
    rw [hh.cells b hb] at hgb
    rw [hh.cells c hc] at hgc
    rw [hother b hb] at hrb
    rw [hother c hc] at hrc
    exact h.inj b c pb pc' hgb hgc hrb hrc he
  · rw [hs, hot, hh.payloads]
    by_cases hp : p = pc.data
    · subst hp
      rw [if_pos rfl, if_pos (h.own a pc hg hr).1]
      omega
    · rw [if_neg hp]
      refine h.rest p fun b pb hgb hrb => ?_
      by_cases hb : b = a
      · subst hb
        obtain rfl := Option.some.inj (hg.symm.trans hgb)
        exact fun e => hp e.symm
      · exact hall b pb (hh.cells b hb ▸ hgb) (by rw [hother b hb]; exact hrb)
  · by_cases hb : b = a
    · subst hb
      obtain ⟨pc₀, hpc₀, he⟩ := hh.data pb hgb
      obtain rfl := Option.some.inj (hpc₀.symm.trans hg)
      rw [hs, ← he, if_pos rfl]
      omega
    · rw [hh.cells b hb] at hgb
      rw [hother b hb] at hrb
      exact hkeep _ (h.retired b pb hgb hrb)
  · rcases hd p hp with hp | rfl
    · exact hkeep p (h.handed p hp)
    · rw [hs, if_pos rfl]
      omega

/-! ### References -/

theorem recounted_modify (h : Heap) (a : ℕ) (q : PendingChange → EntityQuiesce) :
    Recounted a h (h.modify a fun pc => { pc with quiesce := q pc }) := by
  refine ⟨fun b hb => ?_, fun pc' hg => ?_, List.length_modify .., rfl⟩
  · rw [Heap.get_modify, if_neg hb]
  · rw [Heap.get_modify, if_pos rfl, Option.map_eq_some_iff] at hg
    obtain ⟨pc, hpc, rfl⟩ := hg
    exact ⟨pc, hpc, rfl⟩

theorem refs_pos_of_pending {a : ℕ} (ha : a ∈ L.pending) : L.refs a ≠ 0 := by
  have := List.count_pos_iff.mpr ha
  rw [refs]
  omega

theorem refs_pos_of_loaned {a : ℕ} (ha : a ∈ L.loaned) : L.refs a ≠ 0 := by
  have := List.count_pos_iff.mpr ha
  rw [refs]
  omega

/-- A loan takes a reference to a sample of the queue. -/
theorem acquire (h : L.Sound) {a : ℕ} (ha : a ∈ L.pending) {heap : Heap}
    (he : L.heap.acquire a = some heap) :
    Sound { L with heap := heap, loaned := a :: L.loaned } := by
  have hr := refs_pos_of_pending ha
  obtain ⟨pc, hpc, hcount⟩ := h.counted a hr
  unfold Heap.acquire at he
  rw [hpc, Option.bind_some, Option.map_eq_some_iff] at he
  obtain ⟨q, hq, rfl⟩ := he
  obtain rfl : q = { pc.quiesce with count := pc.quiesce.count + 1 } := by
    unfold EntityQuiesce.acquire at hq
    split at hq
    · cases hq
    · exact (Option.some.inj hq).symm
  have hcell : (L.heap.modify a fun pc' => { pc' with
      quiesce := { pc.quiesce with count := pc.quiesce.count + 1 } }).get a = some { pc with
        quiesce := { pc.quiesce with count := pc.quiesce.count + 1 } } := by
    rw [Heap.get_modify, if_pos rfl, hpc]
    rfl
  have hrefs : ∀ b, L.pending.count b + (a :: L.loaned).count b =
      L.refs b + if b = a then 1 else 0 := by
    intro b
    rw [List.count_cons, refs]
    simp only [beq_iff_eq, @eq_comm ℕ a b]
    omega
  refine h.recount (recounted_modify L.heap a fun _ => _) hr ?_ (fun b hb => ?_) ⟨_, hcell, ?_⟩
    h.nodup (fun b hb pb hgb => ?_) rfl rfl rfl rfl rfl
  · exact refs_pos_of_loaned List.mem_cons_self
  · exact (hrefs b).trans (by rw [if_neg hb, Nat.add_zero])
  · refine (congrArg (· + 1) hcount).trans ((hrefs a).trans ?_).symm
    rw [if_pos rfl]
  · dsimp only at hb hgb
    by_cases e : b = a
    · subst e
      rw [hcell] at hgb
      cases hgb
      exact h.open_ b hb pc hpc
    · rw [Heap.get_modify, if_neg e] at hgb
      exact h.open_ b hb pb hgb

/-- A loan's reference is released; the last one gives the sample and its payload back. -/
theorem release (h : L.Sound) {a : ℕ} (ha : a ∈ L.loaned) :
    Sound { L with heap := L.heap.release a, loaned := L.loaned.erase a } := by
  have hr := refs_pos_of_loaned ha
  have hpos := List.count_pos_iff.mpr ha
  obtain ⟨pc, hpc, hcount⟩ := h.counted a hr
  have hrefs : ∀ b, L.pending.count b + (L.loaned.erase a).count b =
      L.refs b - if b = a then 1 else 0 := by
    intro b
    rw [List.count_erase, refs]
    simp only [beq_iff_eq, @eq_comm ℕ a b]
    split
    next e =>
      subst e
      omega
    next => rfl
  have hother : ∀ b, b ≠ a → L.pending.count b + (L.loaned.erase a).count b = L.refs b := by
    intro b hb
    rw [hrefs, if_neg hb, Nat.sub_zero]
  have hself : L.pending.count a + (L.loaned.erase a).count a = L.refs a - 1 := by
    rw [hrefs, if_pos rfl]
  have hcell : (L.heap.modify a fun pc => { pc with quiesce := pc.quiesce.release.1 }).get a =
      some { pc with quiesce := pc.quiesce.release.1 } := by
    rw [Heap.get_modify, if_pos rfl, hpc]
    rfl
  have hheap : L.heap.release a =
      if pc.quiesce.count = 1 then
        (((L.heap.modify a fun pc => { pc with quiesce := pc.quiesce.release.1 }).free
          pc.data).destroy a)
      else L.heap.modify a fun pc => { pc with quiesce := pc.quiesce.release.1 } := by
    unfold Heap.release
    rw [hpc]
    simp only [EntityQuiesce.release, decide_eq_true_eq]
    refine if_congr Iff.rfl ?_ rfl
    unfold Heap.reallyFree
    simp only [EntityQuiesce.release] at hcell
    rw [hcell]
  have hmod := recounted_modify L.heap a fun pc => pc.quiesce.release.1
  rw [hheap]
  split
  next hone =>
    refine h.retire ⟨hmod.cells, hmod.data, hmod.structs, hmod.payloads⟩ hpc hr ?_ hother
      h.nodup (List.Subset.refl _) rfl (fun q => ?_) rfl fun q hq => .inl hq
    · show L.pending.count a + (L.loaned.erase a).count a = 0
      omega
    · show (L.heap.freedPayloads ++ [pc.data]).count q + L.copies.count q = _
      rw [List.count_append, List.count_singleton, spent]
      simp only [beq_iff_eq, @eq_comm ℕ q]
      omega
  next hone =>
    refine h.recount hmod hr ?_ hother ⟨_, hcell, ?_⟩ h.nodup (fun b hb pb hgb => ?_) rfl rfl rfl
      rfl rfl
    · show L.pending.count a + (L.loaned.erase a).count a ≠ 0
      omega
    · show pc.quiesce.count - 1 = L.pending.count a + (L.loaned.erase a).count a
      omega
    · dsimp only at hb hgb
      by_cases e : b = a
      · subst e
        rw [hcell] at hgb
        cases hgb
        exact h.open_ b hb pc hpc
      · rw [Heap.get_modify, if_neg e] at hgb
        exact h.open_ b hb pb hgb

/-- A sample with no reference but the one in hand is destroyed, and its payload is given away. -/
theorem destroy (h : L.Sound) {a : ℕ} {pc : PendingChange} (ha : a ∈ L.loaned)
    (hone : L.refs a = 1) (hg : L.heap.get a = some pc) :
    Sound { L with
      heap := L.heap.destroy a
      loaned := L.loaned.erase a
      copies := pc.data :: L.copies
      handed := pc.data :: L.handed } := by
  have hpos := List.count_pos_iff.mpr ha
  have hsame : Recounted a L.heap (L.heap.destroy a) :=
    ⟨fun _ _ => rfl, fun pc' hg' => ⟨pc', hg', rfl⟩, rfl, rfl⟩
  refine h.retire hsame hg (by omega) ?_ (fun b hb => ?_) h.nodup (List.Subset.refl _)
    rfl (fun q => ?_) rfl fun q hq => ?_
  · show L.pending.count a + (L.loaned.erase a).count a = 0
    rw [List.count_erase_self]
    rw [refs] at hone
    omega
  · show L.pending.count b + (L.loaned.erase a).count b = L.refs b
    rw [List.count_erase_of_ne hb]
    rfl
  · show L.heap.freedPayloads.count q + (pc.data :: L.copies).count q = _
    rw [List.count_cons, spent]
    simp only [beq_iff_eq, @eq_comm ℕ q]
    omega
  · rcases List.mem_cons.mp hq with rfl | hq
    · exact .inr rfl
    · exact .inl hq

/-! ### Several samples at once -/

/-- Samples leave the queue and their references become a loan's. -/
theorem takeOut (h : L.Sound) {as kept : List ℕ} (hp : L.pending.Perm (as ++ kept)) :
    Sound { L with pending := kept, loaned := as ++ L.loaned } := by
  have hn : (as ++ kept).Nodup := hp.nodup_iff.mp h.nodup
  refine h.like (.refl _) (fun a => ?_) (List.nodup_append.mp hn).2.1 (fun a ha => ?_) (fun _ => rfl)
    (fun _ => rfl) (List.Subset.refl _)
  · show kept.count a + (as ++ L.loaned).count a = L.pending.count a + L.loaned.count a
    rw [hp.count_eq, List.count_append, List.count_append]
    omega
  · exact h.open_ a (hp.mem_iff.mpr (List.mem_append_right _ ha))

theorem pending_perm (h : L.Sound) {pending : List ℕ} (hp : L.pending.Perm pending) :
    Sound { L with pending := pending } := @takeOut _ h [] pending hp

/-- A sample leaves the queue and is retired. -/
theorem beginTeardown (h : L.Sound) {a : ℕ} {kept : List ℕ} (hp : L.pending.Perm (a :: kept)) :
    Sound { L with heap := L.heap.beginTeardown a, pending := kept } := by
  have h₁ := @takeOut _ h [a] kept hp
  have hn : (a :: kept).Nodup := hp.nodup_iff.mp h.nodup
  have hclosed : Sound { L with
      heap := L.heap.modify a fun pc => { pc with quiesce := pc.quiesce.close }
      pending := kept
      loaned := a :: L.loaned } := by
    refine h₁.like ⟨fun b => ?_, List.length_modify .., rfl, rfl, rfl⟩ (fun _ => rfl) h₁.nodup
      (fun b hb pc hg => ?_) (fun _ => rfl) (fun _ => rfl) (List.Subset.refl _)
    · show ((L.heap.modify a _).get b).map _ = _
      rw [Heap.get_modify]
      split
      · rw [Option.map_map]
        rfl
      · rfl
    · have hb' : b ≠ a := by
        rintro rfl
        exact (List.nodup_cons.mp hn).1 hb
      have hg : (L.heap.modify a fun pc => { pc with quiesce := pc.quiesce.close }).get b = some pc :=
        hg
      rw [Heap.get_modify, if_neg hb'] at hg
      exact h₁.open_ b hb pc hg
  have h₂ := hclosed.release List.mem_cons_self
  rw [List.erase_cons_head] at h₂
  exact h₂

theorem beginTeardowns {kept : List ℕ} : ∀ {as : List ℕ} {L : Ledger}, L.Sound →
    L.pending.Perm (as ++ kept) →
    Sound { L with heap := as.foldl Heap.beginTeardown L.heap, pending := kept }
  | [], _, h, hp => h.pending_perm hp
  | a :: as, L, h, hp => by
      have h₁ : Sound { L with heap := L.heap.beginTeardown a, pending := as ++ kept } :=
        h.beginTeardown hp
      have h₂ := @beginTeardowns kept as _ h₁ (List.Perm.refl _)
      exact h₂

/-- Samples that no loan has leave the queue for good, and their payloads go to the application. -/
theorem takeAway {kept : List ℕ} : ∀ {as : List ℕ} {L : Ledger}, L.Sound →
    L.pending.Perm (as ++ kept) → (∀ a ∈ as, a ∉ L.loaned) →
    Sound { L with
      heap := as.foldl Heap.destroy L.heap
      pending := kept
      copies := (as.filterMap L.heap.get).map (·.data) ++ L.copies
      handed := (as.filterMap L.heap.get).map (·.data) ++ L.handed }
  | [], L, h, hp, _ => h.pending_perm hp
  | a :: as, L, h, hp, hno => by
      have hr : L.refs a ≠ 0 := refs_pos_of_pending (hp.mem_iff.mpr List.mem_cons_self)
      obtain ⟨pc, hpc, -⟩ := h.counted a hr
      have h₁ := @takeOut _ h [a] (as ++ kept) hp
      have hn : (a :: (as ++ kept)).Nodup := hp.nodup_iff.mp h.nodup
      have hone : Ledger.refs { L with pending := as ++ kept, loaned := [a] ++ L.loaned } a = 1 := by
        show (as ++ kept).count a + (a :: L.loaned).count a = 1
        rw [List.count_cons_self, List.count_eq_zero.mpr (List.nodup_cons.mp hn).1,
          List.count_eq_zero.mpr (hno a List.mem_cons_self)]
      have h₂ := h₁.destroy List.mem_cons_self hone hpc
      have h₃ := @takeAway kept as _ h₂ (List.Perm.refl _) (by
        intro b hb
        show b ∉ (a :: L.loaned).erase a
        rw [List.erase_cons_head]
        exact hno b (List.mem_cons_of_mem a hb))
      have hfirst : (a :: as).filterMap L.heap.get = pc :: as.filterMap L.heap.get :=
        List.filterMap_cons_some hpc
      have hsub : (pc :: as.filterMap L.heap.get).map (·.data) ++ L.handed ⊆
          (as.filterMap L.heap.get).map (·.data) ++ pc.data :: L.handed :=
        List.perm_middle.symm.subset
      refine h₃.like (.refl _) (fun b => ?_) h₃.nodup h₃.open_ (fun p => ?_) (fun _ => rfl)
        (hfirst ▸ hsub)
      · show kept.count b + L.loaned.count b = kept.count b + ((a :: L.loaned).erase a).count b
        rw [List.erase_cons_head]
      · show (((a :: as).filterMap L.heap.get).map (·.data) ++ L.copies).count p =
          ((as.filterMap L.heap.get).map (·.data) ++ pc.data :: L.copies).count p
        rw [hfirst]
        exact (List.perm_middle.symm.count_eq p)

end Sound

end Ledger

end Zzdds.Dcps
