import Zzdds.Discovery.Sedp
import Zzdds.Rtps.Reader.Delivery

/-! # A stream of announcements and disposals

What a peer's built-in writer says: announcements of endpoints and, for each endpoint, at most one
disposal, which is the last it says of it (`SedpStream`).  `Converges` is what a built-in reader has
of the stream, and what was told of it, up to `next`; as in `InOrder`, the loop of
`deliverPendingLocked` moves `next`.  An endpoint is `settling` while its disposal is on its way:
the reader takes the DATA first, and the loss is told behind it. -/

namespace Zzdds.Discovery

open Zzdds.Lib Zzdds.Rtps

/-! ### What was told last -/

def EndpointData.isWriter : EndpointData → Bool
  | writer _ => true
  | reader _ => false

/-- A callback of the participant for an endpoint. -/
def DiscoveryEvent.about (isWriter : Bool) (g : Guid) : DiscoveryEvent → Bool
  | discovered ep => ep.isWriter == isWriter && ep.guid == g
  | lost w g' => w == isWriter && g' == g
  | _ => false

def lastCallback (isWriter : Bool) (g : Guid) (events : List DiscoveryEvent) :
    Option DiscoveryEvent :=
  (events.filter (·.about isWriter g)).getLast?

variable {cfg : SedpConfig} {isWriter : Bool} {g : Guid}

theorem lastCallback_append_none {told evs : List DiscoveryEvent}
    (h : ∀ ev ∈ evs, ev.about isWriter g = false) :
    lastCallback isWriter g (told ++ evs) = lastCallback isWriter g told := by
  have hnil : evs.filter (·.about isWriter g) = [] := by
    rw [List.filter_eq_nil_iff]
    intro ev hm
    simp [h ev hm]
  rw [lastCallback, List.filter_append, hnil, List.append_nil, lastCallback]

theorem lastCallback_append_last {told : List DiscoveryEvent} {ev : DiscoveryEvent}
    (h : ev.about isWriter g = true) :
    lastCallback isWriter g (told ++ [ev]) = some ev := by
  rw [lastCallback, List.filter_append, List.filter_cons_of_pos h, List.filter_nil,
    List.getLast?_concat]

theorem endpointData_isWriter {payload : List UInt8} {ep : EndpointData}
    (h : cfg.endpointData isWriter payload = some ep) : ep.isWriter = isWriter := by
  unfold SedpConfig.endpointData at h
  cases isWriter with
  | true =>
    obtain ⟨_, -, rfl⟩ := Option.map_eq_some_iff.mp h
    rfl
  | false =>
    obtain ⟨_, -, rfl⟩ := Option.map_eq_some_iff.mp h
    rfl

theorem about_discovered {payload : List UInt8} {ep : EndpointData}
    (h : cfg.endpointData isWriter payload = some ep) :
    (DiscoveryEvent.discovered ep).about isWriter g = (ep.guid == g) := by
  simp [DiscoveryEvent.about, endpointData_isWriter h]

/-! ### The stream -/

/-- What the peer says of an endpoint, with the payload it says it with. -/
inductive SedpChange where
  | announce (guid : Guid) (payload : List UInt8)
  | dispose (guid : Guid) (payload : List UInt8)
deriving DecidableEq, Repr

namespace SedpChange

def guid : SedpChange → Guid
  | announce g _ => g
  | dispose g _ => g

def payload : SedpChange → List UInt8
  | announce _ p => p
  | dispose _ p => p

end SedpChange

/-- A payload is read as an announcement of `g` only, if it is read as one. -/
def SedpConfig.Speaks (cfg : SedpConfig) (isWriter : Bool) (payload : List UInt8) (g : Guid) : Prop :=
  ∀ ep, cfg.endpointData isWriter payload = some ep → ep.guid = g

/-- A payload that is not read as an announcement of `g`. -/
def SedpConfig.Silent (cfg : SedpConfig) (isWriter : Bool) (payload : List UInt8) (g : Guid) : Prop :=
  ∀ ep, cfg.endpointData isWriter payload = some ep → ep.guid ≠ g

/-- The last callback of an endpoint is what a change says of it. -/
def SedpConfig.Shows (cfg : SedpConfig) (isWriter : Bool) (told : List DiscoveryEvent) :
    SedpChange → Prop
  | .announce g p => ∃ ep, cfg.endpointData isWriter p = some ep ∧
      lastCallback isWriter g told = some (.discovered ep)
  | .dispose g _ => lastCallback isWriter g told = some (.lost isWriter g)

/-- The changes of a peer's built-in writer.  The change with sequence number `n` is at `n - 1`. -/
structure SedpStream (cfg : SedpConfig) (isWriter : Bool) where
  changes : List SedpChange
  announced : ∀ g p, .announce g p ∈ changes → p ≠ [] ∧ cfg.Speaks isWriter p g
  /-- The payload of a disposal names its own endpoint, or no endpoint of the stream. -/
  disposed : ∀ g p, .dispose g p ∈ changes →
    cfg.Speaks isWriter p g ∨ ∀ c ∈ changes, cfg.Silent isWriter p c.guid
  /-- Nothing is said of an endpoint behind its disposal. -/
  final : ∀ (i j : ℕ) (g : Guid) (p : List UInt8) (c : SedpChange),
    changes[i]? = some (.dispose g p) → changes[j]? = some c → c.guid = g → j ≤ i

namespace SedpStream

variable (S : SedpStream cfg isWriter)

/-- The change with a sequence number. -/
def change (n : ℤ) : Option SedpChange := if 1 ≤ n then S.changes[(n - 1).toNat]? else none

/-- The last change of its endpoint. -/
def Last (n : ℤ) (c : SedpChange) : Prop :=
  S.change n = some c ∧ ∀ m c', S.change m = some c' → c'.guid = c.guid → m ≤ n

/-- Another change says something of the endpoint later, or there is no such change. -/
def Superseded (n : ℤ) : Prop := ∀ c, ¬ S.Last n c

/-- The last announcement of an endpoint that is not disposed of is in reach. -/
def InReach : Prop :=
  ∀ n g p, S.Last n (.announce g p) → (cfg.endpointData isWriter p).isSome

variable {S} {n m : ℤ} {c : SedpChange} {p : List UInt8}

theorem mem_of_change (h : S.change n = some c) : 1 ≤ n ∧ c ∈ S.changes := by
  unfold change at h
  split at h
  next h1 => exact ⟨h1, List.mem_of_getElem? h⟩
  · cases h

theorem change_of_le (h : S.change n = some c) (h1 : 1 ≤ m) (hle : m ≤ n) :
    ∃ c', S.change m = some c' := by
  unfold change at h
  split at h
  · have hlt : (n - 1).toNat < S.changes.length := (List.getElem?_eq_some_iff.mp h).1
    rw [change, if_pos h1]
    exact ⟨_, List.getElem?_eq_getElem (by omega)⟩
  · cases h

theorem last_of_dispose (h : S.change n = some (.dispose g p)) : S.Last n (.dispose g p) := by
  refine ⟨h, fun m c' hm hg => ?_⟩
  have h1 := (mem_of_change h).1
  have hm1 := (mem_of_change hm).1
  simp only [change, if_pos h1, if_pos hm1] at h hm
  have := S.final _ _ g p c' h hm hg
  omega

/-- What the payload of a change is read as is told of the change's own endpoint, or of none of the
stream. -/
theorem speaks_or_silent (h : S.change n = some c) :
    cfg.Speaks isWriter c.payload c.guid ∨ ∀ c' ∈ S.changes, cfg.Silent isWriter c.payload c'.guid := by
  have hmem := (mem_of_change h).2
  cases c with
  | announce g p => exact .inl (S.announced g p hmem).2
  | dispose g p => exact S.disposed g p hmem

/-- An endpoint of the stream that a payload of the stream is read as is the one it is about. -/
theorem guid_of_endpointData {c' : SedpChange} {ep : EndpointData} (h : S.change n = some c)
    (hep : cfg.endpointData isWriter c.payload = some ep) (h' : S.change m = some c')
    (he : ep.guid = c'.guid) : c.guid = c'.guid := by
  rcases speaks_or_silent h with hs | hs
  · rw [← hs ep hep, he]
  · exact absurd he (hs c' (mem_of_change h').2 ep hep)

end SedpStream

/-! ### The invariant -/

/-- What the built-in readers are made with. -/
structure ReadsAll (core : ReaderCore) : Prop where
  callback : core.callback.isSome = true
  reliable : core.reliable = true
  sampleProcessor : core.sampleProcessor = none

/-- A change of the stream as the reader has it. -/
structure SedpStream.Carries (S : SedpStream cfg isWriter) (writer : Guid) (ch : CacheChange) :
    Prop where
  kind : ch.kind = .alive
  writer : ch.writerGuid = writer
  data : ch.data ≠ []
  change : ∃ c, S.change ch.sequenceNumber = some c ∧ ch.data = c.payload

/-- The disposal of `g` has been told, or is being told, for good. -/
structure SedpStream.Disposed (S : SedpStream cfg isWriter) (settling : Option Guid) (next : ℤ)
    (told : List DiscoveryEvent) (n : ℤ) (g : Guid) (p : List UInt8) : Prop where
  announced : ∀ m p', S.change m = some (.announce g p') → m < next
  own : n < next ∨ cfg.Silent isWriter p g
  shown : settling ≠ some g → cfg.Shows isWriter told (.dispose g p)

/-- What the reader has of the stream, and what was told of it, up to `next`. -/
structure SedpStream.Converges (S : SedpStream cfg isWriter) (settling : Option Guid) (next : ℤ)
    (core : ReaderCore) (wp : WriterProxy) (told : List DiscoveryEvent) : Prop where
  reads : ReadsAll core
  cached : ∀ ch ∈ core.cache.changes, ch.writerGuid = wp.guid → S.Carries wp.guid ch
  nodup : (wp.pendingChanges.map (·.sequenceNumber)).Nodup
  pending : ∀ ch ∈ wp.pendingChanges, next ≤ ch.sequenceNumber ∧
    ch.sequenceNumber ∈ wp.received ∧ S.Carries wp.guid ch
  /-- A last announcement received waits for its turn. -/
  held : ∀ n g p, S.Last n (.announce g p) → n ∈ wp.received → next ≤ n →
    ∃ ch ∈ wp.pendingChanges, ch.sequenceNumber = n
  announced : ∀ n g p, S.Last n (.announce g p) → n < next →
    cfg.Shows isWriter told (.announce g p)
  disposed : ∀ n g p, S.change n = some (.dispose g p) → n ∈ wp.received →
    S.Disposed settling next told n g p

/-- The same, when what `core` handed over since `core₀` is told behind `told`. -/
def SedpStream.ConvergesFrom (S : SedpStream cfg isWriter) (settling : Option Guid)
    (core₀ : ReaderCore) (told : List DiscoveryEvent) (next : ℤ) (core : ReaderCore)
    (wp : WriterProxy) : Prop :=
  ∃ evs, core.log = core₀.log ++ evs ∧
    S.Converges settling next core wp (told ++ cfg.processed isWriter evs)

variable {S : SedpStream cfg isWriter} {settling : Option Guid} {next n : ℤ}
  {core core' : ReaderCore} {wp wp' : WriterProxy} {told : List DiscoveryEvent} {ch : CacheChange}

theorem processed_append (cfg : SedpConfig) (isWriter : Bool) (evs evs' : List ReaderEvent) :
    cfg.processed isWriter (evs ++ evs') =
      cfg.processed isWriter evs ++ cfg.processed isWriter evs' := by
  simp [SedpConfig.processed, deferred]

/-- Sending and reporting hand nothing over. -/
theorem processed_of_still (cfg : SedpConfig) (isWriter : Bool) (h : Still core core') :
    ∃ evs, core'.log = core.log ++ evs ∧ cfg.processed isWriter evs = [] := by
  obtain ⟨evs, hlog, hhanded⟩ := h.appends.log
  have hdef : deferred evs = [] := by
    rw [deferred, List.filterMap_eq_nil_iff]
    intro ev hm
    cases ev with
    | onData w ch => exact (hhanded _ hm w ch.sequenceNumber rfl).elim
    | _ => rfl
  refine ⟨evs, hlog, ?_⟩
  rw [SedpConfig.processed, hdef, List.filterMap_nil]

theorem ReadsAll.still (h : ReadsAll core) (hs : Still core core') : ReadsAll core' := by
  constructor
  · rw [hs.appends.callback]
    exact h.callback
  · rw [hs.appends.reliable]
    exact h.reliable
  · rw [hs.sampleProcessor]
    exact h.sampleProcessor

theorem SedpStream.Converges.refl (h : S.Converges settling next core wp told) :
    S.ConvergesFrom settling core told next core wp := by
  refine ⟨[], ?_, ?_⟩
  · simp
  · simpa [SedpConfig.processed, deferred] using h

theorem SedpStream.ConvergesFrom.bind {core₀ : ReaderCore} {next' : ℤ}
    (h : S.ConvergesFrom settling core₀ told next core wp)
    (hf : ∀ told', S.Converges settling next core wp told' →
      S.ConvergesFrom settling core told' next' core' wp') :
    S.ConvergesFrom settling core₀ told next' core' wp' := by
  obtain ⟨evs, hlog, hconv⟩ := h
  obtain ⟨evs', hlog', hconv'⟩ := hf _ hconv
  refine ⟨evs ++ evs', ?_, ?_⟩
  · rw [hlog', hlog, List.append_assoc]
  · rw [processed_append, ← List.append_assoc]
    exact hconv'

/-! ### One change handed over -/

theorem SedpStream.Carries.data_eq {writer : Guid} {ch ch' : CacheChange} (h : S.Carries writer ch)
    (h' : S.Carries writer ch') (hsn : ch'.sequenceNumber = ch.sequenceNumber) :
    ch'.data = ch.data := by
  obtain ⟨c, hc, hdata⟩ := h.change
  obtain ⟨c', hc', hdata'⟩ := h'.change
  have hcc : c' = c := by
    rw [hsn, hc] at hc'
    exact (Option.some.inj hc').symm
  rw [hdata, hdata', hcc]

/-- A change of the stream is handed over as it is, or as the cache has it already. -/
theorem handOver_eq (hr : ReadsAll core) (hc : S.Carries wp.guid ch)
    (hcached : ∀ ch' ∈ core.cache.changes, ch'.writerGuid = wp.guid → S.Carries wp.guid ch') :
    ∃ cached, cached.kind = .alive ∧ cached.data = ch.data ∧ core.handOver wp.guid ch =
      { core with
        cache := core.cache.addReaderChange ch
        log := core.log ++ [.onData wp.guid cached] } := by
  have hmark : isEndMarker ch = false := by
    have hne : ch.data.isEmpty = false := by simpa using hc.data
    simp [isEndMarker, hne]
  obtain ⟨cached, hget, hsn, hw⟩ := core.cache.getChangeForWriter_addReaderChange ch
  have hcc : S.Carries wp.guid cached := by
    have hmem := List.mem_of_find?_eq_some hget
    rw [hc.writer] at hw
    unfold HistoryCache.addReaderChange at hmem
    split at hmem
    · exact hcached cached hmem hw
    · rcases List.mem_append.mp hmem with hmem | hmem
      · exact hcached cached ((HistoryCache.trimForKeepLast_sublist _ _).subset hmem) hw
      · rw [List.mem_singleton.mp hmem]
        exact hc
  refine ⟨cached, hcc.kind, hc.data_eq hcc hsn, ?_⟩
  unfold ReaderCore.handOver
  simp only [hmark, Bool.false_eq_true, if_false, hr.callback, if_true, hget, ReaderCore.emit]

theorem processed_onData (hk : ch.kind = .alive) (g : Guid) :
    cfg.processed isWriter [.onData g ch] =
      ((cfg.endpointData isWriter ch.data).map DiscoveryEvent.discovered).toList := by
  simp only [SedpConfig.processed, deferred, List.filterMap_cons, hk, if_true, List.filterMap_nil]
  cases cfg.endpointData isWriter ch.data <;> rfl

/-- What is told of another endpoint, or of none, leaves the last callback. -/
theorem shows_of_silent {c : SedpChange} {p : List UInt8}
    (h : cfg.Shows isWriter told c) (hs : cfg.Silent isWriter p c.guid) :
    cfg.Shows isWriter
      (told ++ ((cfg.endpointData isWriter p).map DiscoveryEvent.discovered).toList) c := by
  have hlast : lastCallback isWriter c.guid
      (told ++ ((cfg.endpointData isWriter p).map DiscoveryEvent.discovered).toList) =
        lastCallback isWriter c.guid told := by
    refine lastCallback_append_none fun ev hm => ?_
    cases hep : cfg.endpointData isWriter p with
    | none => simp [hep] at hm
    | some ep =>
      have hev : ev = .discovered ep := by simpa [hep] using hm
      rw [hev, about_discovered hep]
      simpa using hs ep hep
  cases c with
  | announce g p' =>
    obtain ⟨ep, hep, hl⟩ := h
    exact ⟨ep, hep, hlast.trans hl⟩
  | dispose g p' => exact hlast.trans h

namespace SedpStream.Converges

/-- Hand over the change with number `next`, which is not waiting any more. -/
theorem handOver {rest : List CacheChange} (h : S.Converges settling next core wp told)
    (hreach : S.InReach) (hc : S.Carries wp.guid ch) (hsn : ch.sequenceNumber = next)
    (hsub : rest.Sublist wp.pendingChanges)
    (hfree : ∀ ch' ∈ wp.pendingChanges, ch'.sequenceNumber ≠ next → ch' ∈ rest)
    (hgone : ∀ ch' ∈ rest, ch'.sequenceNumber ≠ next) :
    S.ConvergesFrom settling core told (next + 1) (core.handOver wp.guid ch)
      { wp with pendingChanges := rest } := by
  obtain ⟨cached, hkind, hcd, hover⟩ := handOver_eq h.reads hc h.cached
  obtain ⟨c, hch, hdata⟩ := hc.change
  rw [hsn] at hch
  rw [hover]
  rw [← hcd] at hdata
  refine ⟨[.onData wp.guid cached], rfl, ⟨h.reads.1, h.reads.2, h.reads.3⟩, ?_,
    h.nodup.sublist (hsub.map _), ?_, ?_, ?_, ?_⟩
  · intro ch' hm hw
    have hm' : ch' ∈ (core.cache.addReaderChange ch).changes := hm
    unfold HistoryCache.addReaderChange at hm'
    split at hm'
    · exact h.cached ch' hm' hw
    · rcases List.mem_append.mp hm' with hm' | hm'
      · exact h.cached ch' ((HistoryCache.trimForKeepLast_sublist _ _).subset hm') hw
      · rw [List.mem_singleton.mp hm']
        exact hc
  · intro ch' hm
    have hne := hgone ch' hm
    obtain ⟨hle, hrest⟩ := h.pending ch' (hsub.subset hm)
    exact ⟨by omega, hrest⟩
  · intro n g p hl hn hle
    obtain ⟨ch', hm, he⟩ := h.held n g p hl hn (by omega)
    exact ⟨ch', hfree ch' hm (by omega), he⟩
  · intro n g p hl hlt
    rw [processed_onData hkind, hdata]
    by_cases e : n = next
    · -- the change is the last announcement of its endpoint
      subst e
      have hcc : c = .announce g p := Option.some.inj (hch.symm.trans hl.1)
      subst hcc
      obtain ⟨ep, hep⟩ := Option.isSome_iff_exists.mp (hreach n g p hl)
      have hg : ep.guid = g := (S.announced g p (mem_of_change hch).2).2 ep hep
      refine ⟨ep, hep, ?_⟩
      have hlast : ((cfg.endpointData isWriter p).map DiscoveryEvent.discovered).toList =
          [.discovered ep] := by rw [hep]; rfl
      rw [SedpChange.payload, hlast]
      refine lastCallback_append_last ?_
      rw [about_discovered hep, hg]
      exact beq_self_eq_true g
    · refine shows_of_silent (h.announced n g p hl (by omega)) fun ep hep he => ?_
      have := hl.2 next c hch (guid_of_endpointData hch hep hl.1 he)
      omega
  · intro n g p hd hn
    obtain ⟨hann, hown, hshown⟩ := h.disposed n g p hd hn
    refine ⟨fun m p' hm => ?_, ?_, fun hs => ?_⟩
    · have := hann m p' hm
      omega
    · refine hown.imp_left fun hlt => ?_
      omega
    · rw [processed_onData hkind, hdata]
      refine shows_of_silent (hshown hs) fun ep hep he => ?_
      have hcg := guid_of_endpointData hch hep hd he
      -- the change is an announcement of the endpoint, or its disposal
      cases c with
      | announce g' p' =>
        have hcg : g' = g := hcg
        subst hcg
        have := hann next p' hch
        omega
      | dispose g' p' =>
        have hcg : g' = g := hcg
        subst hcg
        have hnn := (last_of_dispose hch).2 n _ hd rfl
        have hnn' := (last_of_dispose hd).2 next _ hch rfl
        have e : n = next := by omega
        subst e
        have hpp : p' = p := by
          have := hch.symm.trans hd
          simpa using this
        subst hpp
        rcases hown with hlt | hs
        · omega
        · exact hs ep hep he

/-- No change with number `next` is waiting. -/
theorem skip (h : S.Converges settling next core wp told) (hrecv : next ∈ wp.received)
    (hfree : ∀ ch' ∈ wp.pendingChanges, ch'.sequenceNumber ≠ next) :
    S.Converges settling (next + 1) core wp told := by
  refine ⟨h.reads, h.cached, h.nodup, ?_, ?_, ?_, ?_⟩
  · intro ch' hm
    have hne := hfree ch' hm
    obtain ⟨hle, hrest⟩ := h.pending ch' hm
    exact ⟨by omega, hrest⟩
  · intro n g p hl hn hle
    exact h.held n g p hl hn (by omega)
  · intro n g p hl hlt
    by_cases e : n = next
    · subst e
      obtain ⟨ch', hm, hsn⟩ := h.held n g p hl hrecv le_rfl
      exact absurd hsn (hfree ch' hm)
    · exact h.announced n g p hl (by omega)
  · intro n g p hd hn
    obtain ⟨hann, hown, hshown⟩ := h.disposed n g p hd hn
    refine ⟨fun m p' hm => ?_, hown.imp_left fun hlt => ?_, hshown⟩
    · have := hann m p' hm
      omega
    · omega

/-- The loop of `deliverPendingLocked` moves `next` over the numbers it looks at. -/
theorem loop (hreach : S.InReach) : ∀ (k : ℕ) {next : ℤ} {core : ReaderCore} {wp : WriterProxy}
    {told : List DiscoveryEvent}, S.Converges settling next core wp told → 1 ≤ next →
      next + k ≤ wp.received.cumulativeAck + 1 →
      S.ConvergesFrom settling core told (next + k) (deliverPendingLoop k next core wp).1
        (deliverPendingLoop k next core wp).2
  | 0, next, core, wp, told, h, _, _ => by simpa [deliverPendingLoop] using h.refl
  | k + 1, next, core, wp, told, h, hpos, hle => by
      have hcast : next + ((k + 1 : ℕ) : ℤ) = next + 1 + (k : ℤ) := by
        push_cast
        omega
      have hrecv : next ∈ wp.received :=
        ReceivedSet.mem_of_le_cumulativeAck hpos (by omega)
      rw [hcast] at hle ⊢
      rw [deliverPendingLoop]
      split
      next hnone =>
        have hfree : ∀ ch' ∈ wp.pendingChanges, ch'.sequenceNumber ≠ next := by
          intro ch' hm
          simpa using List.find?_eq_none.mp hnone ch' hm
        exact loop hreach k (h.skip hrecv hfree) (by omega) hle
      next ch hsome =>
        have hsn : ch.sequenceNumber = next := by simpa using List.find?_some hsome
        obtain ⟨-, -, hc⟩ := h.pending ch (List.mem_of_find?_eq_some hsome)
        have hover := h.handOver hreach hc hsn List.eraseP_sublist
          (fun ch' hm hne => (List.mem_eraseP_of_neg (by simpa using hne)).mpr hm)
          (fun ch' hm => ne_of_mem_eraseP h.nodup hm)
        exact hover.bind fun told' h' => loop hreach k h' (by omega) hle

/-- Delivering what waits brings `next` to the number after the cumulative acknowledgment. -/
theorem deliverPending {prev : ℤ} (h : S.Converges settling (prev + 1) core wp told)
    (hreach : S.InReach) (h0 : 0 ≤ prev) (hle : prev ≤ wp.received.cumulativeAck) :
    S.ConvergesFrom settling core told
      ((deliverPendingLocked core wp prev).2.received.cumulativeAck + 1)
      (deliverPendingLocked core wp prev).1 (deliverPendingLocked core wp prev).2 := by
  have hloop := loop hreach (wp.received.cumulativeAck - prev).toNat h (by omega) (by omega)
  have hnext : prev + 1 + ((wp.received.cumulativeAck - prev).toNat : ℤ) =
      wp.received.cumulativeAck + 1 := by omega
  rw [hnext] at hloop
  rw [(deliverPendingLocked_appends core wp prev).2.2]
  exact hloop

/-! ### Numbers received -/

/-- What a proxy has received grows by numbers that leave nothing open. -/
theorem receive {received : ReceivedSet} (h : S.Converges settling next core wp told)
    (hmono : ∀ n ∈ wp.received, n ∈ received)
    (hann : ∀ n g p, S.Last n (.announce g p) → n ∈ received → next ≤ n → n ∈ wp.received)
    (hdis : ∀ n g p, S.change n = some (.dispose g p) → n ∈ received → n ∉ wp.received →
      S.Disposed settling next told n g p) :
    S.Converges settling next core { wp with received := received } told := by
  refine ⟨h.reads, h.cached, h.nodup, ?_, ?_, h.announced, ?_⟩
  · intro ch hm
    obtain ⟨hle, hrecv, hc⟩ := h.pending ch hm
    exact ⟨hle, hmono _ hrecv, hc⟩
  · intro n g p hl hn hle
    exact h.held n g p hl (hann n g p hl hn hle) hle
  · intro n g p hd hn
    by_cases hold : n ∈ wp.received
    · exact h.disposed n g p hd hold
    · exact hdis n g p hd hn hold

theorem advancePast {sns : List ℤ} {out : ReaderCore × WriterProxy × ℕ}
    (h : S.Converges settling (wp.received.cumulativeAck + 1) core wp told) (hreach : S.InReach)
    (hgone : ∀ n ∈ sns, S.Superseded n ∨ n ∈ wp.received) (ha : Rtps.advancePast core wp sns = some out) :
    (∀ n ∈ wp.received, n ∈ out.2.1.received) ∧
      S.ConvergesFrom settling core told (out.2.1.received.cumulativeAck + 1) out.1 out.2.1 := by
  obtain ⟨wp₁, rfl, -, -, hout⟩ := advancePast_eq ha
  obtain ⟨core', wp', lost⟩ := out
  simp only [h.reads.reliable, if_true] at hout
  have hmem : ∀ m, m ∈ (markGone wp.received sns).1 ↔ m ∈ wp.received ∨ (m ∈ sns ∧ 1 ≤ m) :=
    fun m => mem_markGone sns wp.received 0 m
  have hmono : ∀ n ∈ wp.received, n ∈ (markGone wp.received sns).1 :=
    fun n hn => (hmem n).mpr (.inl hn)
  -- the last change of an endpoint is not among the numbers declared gone
  have hlast : ∀ n c, S.Last n c → n ∈ (markGone wp.received sns).1 → n ∈ wp.received := by
    intro n c hl hn
    rcases (hmem n).mp hn with hn | ⟨hn, -⟩
    · exact hn
    · exact (hgone n hn).resolve_left (fun hno => hno c hl)
  have hrecv := h.receive hmono (fun n g p hl hn _ => hlast n _ hl hn)
    (fun n g p hd hn hnew => absurd (hlast n _ (last_of_dispose hd) hn) hnew)
  have hdel := hrecv.deliverPending hreach wp.received.cumulativeAck_nonneg
    (ReceivedSet.cumulativeAck_mono hmono)
  have hset := (deliverPendingLocked_appends core
    { wp with received := (markGone wp.received sns).1 } wp.received.cumulativeAck).2.2
  rw [← hout] at hdel hset
  refine ⟨fun n hn => ?_, hdel⟩
  rw [hset]
  exact hmono n hn

/-- Sending and reporting tell nothing. -/
theorem still (h : S.Converges settling next core wp told)
    (hs : Still core core') :
    S.ConvergesFrom settling core told next core' wp := by
  obtain ⟨evs, hlog, hnone⟩ := processed_of_still cfg isWriter hs
  refine ⟨evs, hlog, ?_⟩
  rw [hnone, List.append_nil]
  refine ⟨h.reads.still hs, ?_, h.nodup, h.pending, h.held, h.announced, h.disposed⟩
  rw [hs.cache]
  exact h.cached

/-- The other fields of a proxy do not matter. -/
theorem congr (h : S.Converges settling next core wp told)
    (hg : wp'.guid = wp.guid) (hr : wp'.received = wp.received)
    (hp : wp'.pendingChanges = wp.pendingChanges) :
    S.Converges settling next core wp' told := by
  obtain ⟨h1, h2, h3, h4, h5, h6, h7⟩ := h
  constructor
  · exact h1
  · rw [hg]
    exact h2
  · rw [hp]
    exact h3
  · rw [hp, hr, hg]
    exact h4
  · rw [hp, hr]
    exact h5
  · exact h6
  · rw [hr]
    exact h7

/-! ### A change received -/

/-- What lets a change in: a disposal only behind all that was announced of its endpoint, and then
in its turn, unless its payload says nothing of the endpoint. -/
def LetsIn (S : SedpStream cfg isWriter) (settling : Option Guid) (ack n : ℤ) : Prop :=
  ∀ g p, S.change n = some (.dispose g p) → settling = some g ∧
    (∀ m p', S.change m = some (.announce g p') → m ≤ ack) ∧
    (n = ack + 1 ∨ cfg.Silent isWriter p g)

theorem process_eq (hr : ReadsAll core) (ch : CacheChange) : core.process ch = some ch := by
  unfold ReaderCore.process
  split
  · rfl
  · rw [hr.sampleProcessor]

/-- The next change in turn is handed over, with what waited for it. -/
theorem deliverNext (h : S.Converges settling (wp.received.cumulativeAck + 1) core wp told)
    (hreach : S.InReach) (hc : S.Carries wp.guid ch)
    (hsn : ch.sequenceNumber = wp.received.cumulativeAck + 1)
    (hin : LetsIn S settling wp.received.cumulativeAck ch.sequenceNumber)
    {out : ReaderCore × WriterProxy}
    (hout : out = deliverPendingLocked (core.handOver wp.guid ch)
      { wp with received := wp.received.insert ch.sequenceNumber } ch.sequenceNumber) :
    S.ConvergesFrom settling core told (out.2.received.cumulativeAck + 1) out.1 out.2 := by
  have h0 := wp.received.cumulativeAck_nonneg
  have hnew := wp.received.not_mem_cumulativeAck_succ
  have hfree : ∀ ch' ∈ wp.pendingChanges, ch'.sequenceNumber ≠ wp.received.cumulativeAck + 1 := by
    intro ch' hm e
    exact hnew (e ▸ (h.pending ch' hm).2.1)
  have hover := h.handOver hreach hc hsn (List.Sublist.refl _) (fun ch' hm _ => hm) hfree
  have hle : ch.sequenceNumber ≤ (wp.received.insert ch.sequenceNumber).cumulativeAck := by
    rw [hsn]
    exact wp.received.le_cumulativeAck_insert
  rw [← hsn] at hover
  subst hout
  refine hover.bind fun told' h' => deliverPending
    (h'.receive (fun n hn => ReceivedSet.mem_insert.mpr (.inr hn)) ?_ ?_) hreach (by omega) hle
  · intro n g p hl hn hle'
    rcases ReceivedSet.mem_insert.mp hn with ⟨rfl, -⟩ | hn
    · omega
    · exact hn
  · intro n g p hd hn hold
    rcases ReceivedSet.mem_insert.mp hn with ⟨rfl, -⟩ | hn
    · obtain ⟨hset, hann, -⟩ := hin g p hd
      refine ⟨fun m p' hm => ?_, .inl (by omega), fun hs => absurd hset hs⟩
      have := hann m p' hm
      omega
    · exact absurd hn hold

/-- A change out of turn waits. -/
theorem buffer (h : S.Converges settling (wp.received.cumulativeAck + 1) core wp told)
    (hc : S.Carries wp.guid ch) (hsn : ch.sequenceNumber ≠ wp.received.cumulativeAck + 1)
    (hnew : ch.sequenceNumber ∉ wp.received)
    (hin : LetsIn S settling wp.received.cumulativeAck ch.sequenceNumber) :
    S.Converges settling ((wp.received.insert ch.sequenceNumber).cumulativeAck + 1) core
      { wp with
        pendingChanges := wp.pendingChanges ++ [ch]
        received := wp.received.insert ch.sequenceNumber } told := by
  have hpos : 1 ≤ ch.sequenceNumber := by
    obtain ⟨c, hch, -⟩ := hc.change
    exact (SedpStream.mem_of_change hch).1
  have hle : wp.received.cumulativeAck + 1 ≤ ch.sequenceNumber := by
    by_contra hlt
    exact hnew (ReceivedSet.mem_of_le_cumulativeAck hpos (by omega))
  have hmem : ∀ {n}, n ∈ wp.received.insert ch.sequenceNumber ↔
      n = ch.sequenceNumber ∨ n ∈ wp.received := by
    intro n
    rw [ReceivedSet.mem_insert]
    simp [hpos]
  rw [ReceivedSet.cumulativeAck_insert_of_ne hsn]
  refine ⟨h.reads, h.cached, ?_, ?_, ?_, h.announced, ?_⟩
  · rw [List.map_append, List.nodup_append]
    refine ⟨h.nodup, List.nodup_singleton _, ?_⟩
    rintro m hm m' hm' rfl
    obtain ⟨ch', hp, rfl⟩ := List.mem_map.mp hm
    have he : ch'.sequenceNumber = ch.sequenceNumber := by simpa using hm'
    exact hnew (he ▸ (h.pending ch' hp).2.1)
  · intro ch' hm
    rcases List.mem_append.mp hm with hm | hm
    · obtain ⟨hle', hrecv, hc'⟩ := h.pending ch' hm
      exact ⟨hle', hmem.mpr (.inr hrecv), hc'⟩
    · cases List.mem_singleton.mp hm
      exact ⟨hle, hmem.mpr (.inl rfl), hc⟩
  · intro n g p hl hn hle'
    rcases hmem.mp hn with rfl | hn
    · exact ⟨ch, List.mem_append_right _ (List.mem_singleton_self _), rfl⟩
    · obtain ⟨ch', hm, he⟩ := h.held n g p hl hn hle'
      exact ⟨ch', List.mem_append_left _ hm, he⟩
  · intro n g p hd hn
    rcases hmem.mp hn with rfl | hn
    · obtain ⟨hset, hann, hturn⟩ := hin g p hd
      refine ⟨fun m p' hm => ?_, .inr (hturn.resolve_left hsn), fun hs => absurd hset hs⟩
      have := hann m p' hm
      omega
    · exact h.disposed n g p hd hn

theorem handleData (h : S.Converges settling (wp.received.cumulativeAck + 1) core wp told)
    (hreach : S.InReach) (hc : S.Carries wp.guid ch)
    (hin : ch.sequenceNumber ∉ wp.received →
      LetsIn S settling wp.received.cumulativeAck ch.sequenceNumber)
    {out : ReaderCore × WriterProxy} (hout : handleDataLocked core wp ch = out) :
    (∀ n, n ∈ out.2.received ↔ n = ch.sequenceNumber ∨ n ∈ wp.received) ∧
      S.ConvergesFrom settling core told (out.2.received.cumulativeAck + 1) out.1 out.2 := by
  have hpos : 1 ≤ ch.sequenceNumber := by
    obtain ⟨c, hch, -⟩ := hc.change
    exact (SedpStream.mem_of_change hch).1
  unfold handleDataLocked at hout
  split at hout
  next hold =>
    subst hout
    refine ⟨fun n => ⟨.inr, ?_⟩, h.refl⟩
    rintro (rfl | hn)
    · exact hold
    · exact hn
  next hnew =>
    have hany : wp.pendingChanges.any (fun pc => pc.sequenceNumber == ch.sequenceNumber) = false := by
      rw [List.any_eq_false]
      intro ch' hm he
      exact hnew ((beq_iff_eq.mp he) ▸ (h.pending ch' hm).2.1)
    simp only [deliverChangeLocked, process_eq h.reads, h.reads.reliable, if_true, hany,
      Bool.false_eq_true, if_false] at hout
    split at hout
    next hsn =>
      refine ⟨fun n => ?_, h.deliverNext hreach hc hsn (hin hnew) hout.symm⟩
      rw [← hout, (deliverPendingLocked_appends _ _ _).2.2, ReceivedSet.mem_insert]
      simp [hpos]
    next hsn =>
      subst hout
      refine ⟨fun n => ?_, (h.buffer hc hsn hnew (hin hnew)).refl⟩
      rw [ReceivedSet.mem_insert]
      simp [hpos]

theorem handleHeartbeat {readerId : EntityId} {firstSn lastSn : ℤ} {count : Int32} {final : Bool}
    {out : ReaderCore × WriterProxy}
    (h : S.Converges settling (wp.received.cumulativeAck + 1) core wp told) (hreach : S.InReach)
    (hgone : ∀ n, n < firstSn → S.Superseded n ∨ n ∈ wp.received)
    (hout : handleHeartbeatLocked core wp readerId firstSn lastSn count final = some out) :
    (∀ n ∈ wp.received, n ∈ out.2.received) ∧
      S.ConvergesFrom settling core told (out.2.received.cumulativeAck + 1) out.1 out.2 := by
  rcases handleHeartbeatLocked_cases hout with rfl | ⟨adv, hadv, h₂, hstill⟩
  · exact ⟨fun n hn => hn, h.refl⟩
  · have hacc : S.Converges settling
        ((acceptHeartbeat core wp readerId lastSn count).received.cumulativeAck + 1) core
        (acceptHeartbeat core wp readerId lastSn count) told := h.congr rfl rfl rfl
    have hgone' : ∀ n ∈ heartbeatGone core (acceptHeartbeat core wp readerId lastSn count) firstSn,
        S.Superseded n ∨ n ∈ (acceptHeartbeat core wp readerId lastSn count).received :=
      fun n hn => hgone n (lt_of_mem_heartbeatGone hn)
    obtain ⟨hmono, hconv⟩ := hacc.advancePast hreach hgone' hadv
    rw [h₂]
    exact ⟨hmono, hconv.bind fun told' h' => h'.still hstill⟩

theorem handleGap {gapStart : ℤ} {gapList : SequenceNumberSet} {out : ReaderCore × WriterProxy}
    (h : S.Converges settling (wp.received.cumulativeAck + 1) core wp told) (hreach : S.InReach)
    (hgone : ∀ n, gapStart ≤ n ∧ n < gapList.base ∨ gapList.contains n = true →
      S.Superseded n ∨ n ∈ wp.received)
    (hout : handleGapLocked core wp gapStart gapList = some out) :
    (∀ n ∈ wp.received, n ∈ out.2.received) ∧
      S.ConvergesFrom settling core told (out.2.received.cumulativeAck + 1) out.1 out.2 := by
  obtain ⟨adv, hadv, h₂, hstill⟩ := handleGapLocked_cases hout
  obtain ⟨hmono, hconv⟩ := h.advancePast hreach (fun n hn => hgone n (mem_gapSns hn)) hadv
  rw [h₂]
  exact ⟨hmono, hconv.bind fun told' h' => h'.still hstill⟩

/-! ### What is told behind -/

theorem tell {told' : List DiscoveryEvent} (h : S.Converges settling next core wp told)
    (hkeep : ∀ c, cfg.Shows isWriter told c → cfg.Shows isWriter told' c) :
    S.Converges settling next core wp told' :=
  { h with
    announced := fun n g p hl hlt => hkeep _ (h.announced n g p hl hlt)
    disposed := fun n g p hd hn =>
      { h.disposed n g p hd hn with shown := fun hs => hkeep _ ((h.disposed n g p hd hn).shown hs) } }

theorem settle (h : S.Converges none next core wp told) (g : Guid) :
    S.Converges (some g) next core wp told :=
  { h with
    disposed := fun n g' p hd hn =>
      { h.disposed n g' p hd hn with
        shown := fun _ => (h.disposed n g' p hd hn).shown (by simp) } }

/-- The endpoint disposed of is told as lost. -/
theorem lose {g : Guid} {p : List UInt8} (h : S.Converges (some g) next core wp told)
    (hd : S.change n = some (.dispose g p)) :
    S.Converges none next core wp (told ++ [.lost isWriter g]) := by
  have hother : ∀ c : SedpChange, c.guid ≠ g → cfg.Shows isWriter told c →
      cfg.Shows isWriter (told ++ [.lost isWriter g]) c := by
    intro c hne hc
    have hlast : lastCallback isWriter c.guid (told ++ [.lost isWriter g]) =
        lastCallback isWriter c.guid told := by
      refine lastCallback_append_none fun ev hm => ?_
      rw [List.mem_singleton.mp hm]
      simp [DiscoveryEvent.about, hne.symm]
    cases c with
    | announce g' p' =>
      obtain ⟨ep, hep, hl⟩ := hc
      exact ⟨ep, hep, hlast.trans hl⟩
    | dispose g' p' => exact hlast.trans hc
  refine { h with
    announced := fun m g' p' hl hlt => hother _ (fun e => ?_) (h.announced m g' p' hl hlt)
    disposed := fun m g' p' hd' hn =>
      { h.disposed m g' p' hd' hn with shown := fun _ => ?_ } }
  · -- the disposal is the last change of its endpoint
    have hge := hl.2 n _ hd e.symm
    have hle := (SedpStream.last_of_dispose hd).2 m _ hl.1 e
    have hmn : m = n := by omega
    have := hl.1
    rw [hmn, hd] at this
    cases this
  · by_cases e : g' = g
    · subst e
      exact lastCallback_append_last (by simp [DiscoveryEvent.about])
    · exact hother (.dispose g' p') e ((h.disposed m g' p' hd' hn).shown (by simpa using Ne.symm e))

end SedpStream.Converges

end Zzdds.Discovery
