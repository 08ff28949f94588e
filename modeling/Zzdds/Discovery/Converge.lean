import Zzdds.Discovery.Stream
import Zzdds.Lib.Run

/-! # Discovery converges on what the peer last said

DATA of a stream, HEARTBEATs and GAPs of its writer reach `onReceive` in any order (`Sends`).

Two things keep discovery from converging.  A disposal without payload never reaches the built-in
reader, so its number is never received.  A disposal that comes early is told at once, and what the
peer said before it is told behind it.  Without them (`InTurn`) the last callback of each endpoint
is what the stream says of it last (`discovery_converges`). -/

namespace Zzdds.Discovery

open Zzdds.Lib Zzdds.Rtps SedpEndpoints

variable {cfg : SedpConfig} {isWriter : Bool} {srcPrefix : GuidPrefix} {now : RtpsTimestamp}
  {s s' : SedpEndpoints} {sm : SubMessage} {rs : ReceivedSet}

/-! ### What the peer sends -/

namespace SedpStream

variable (S : SedpStream cfg isWriter)

/-- A DATA of the stream; a disposal says so, and says of which endpoint. -/
def Transmits (d : DataSubmessage) : Prop :=
  ∃ c, S.change d.writerSn = some c ∧ d.serializedPayload = c.payload ∧
    match c with
    | .announce _ _ => isDisposal d = false
    | .dispose g _ => isDisposal d = true ∧ disposedGuid d = some g

/-- A submessage of the stream's writer.  HEARTBEATs and GAPs declare gone only what was superseded,
or received before. -/
def Sends (received : ReceivedSet) : SubMessage → Prop
  | .data d => d.writerEntityId = writerEntityId isWriter ∧ S.Transmits d
  | .heartbeat hb => hb.writerEntityId = writerEntityId isWriter ∧
      ∀ n, n < hb.firstSn → S.Superseded n ∨ n ∈ received
  | .gap g => g.writerEntityId = writerEntityId isWriter ∧
      ∀ n, g.gapStart ≤ n ∧ n < g.gapList.base ∨ g.gapList.contains n = true →
        S.Superseded n ∨ n ∈ received
  | _ => False

/-- A disposal not received before has a payload, and comes behind all that was announced of its
endpoint; it is the next in turn, unless its payload says nothing of the endpoint. -/
def InTurn (received : ReceivedSet) : SubMessage → Prop
  | .data d => ∀ g p, S.change d.writerSn = some (.dispose g p) → d.writerSn ∉ received →
      p ≠ [] ∧ (∀ m p', S.change m = some (.announce g p') → m ≤ received.cumulativeAck) ∧
        (d.writerSn = received.cumulativeAck + 1 ∨ cfg.Silent isWriter p g)
  | _ => True

/-- The reader follows the stream. -/
def Follows (srcPrefix : GuidPrefix) (s : SedpEndpoints) : Prop :=
  s.config = cfg ∧ ∃ wp, (s.reader isWriter).find (peer srcPrefix isWriter) = some wp ∧
    S.Converges none (wp.received.cumulativeAck + 1) (s.reader isWriter).core wp s.events

end SedpStream

/-- What the built-in reader has from the peer. -/
def SedpEndpoints.received (s : SedpEndpoints) (srcPrefix : GuidPrefix) (isWriter : Bool) :
    ReceivedSet :=
  (s.reader isWriter).receivedFrom (peer srcPrefix isWriter)

variable {S : SedpStream cfg isWriter}

/-! ### The reader -/

/-- The proxy of the peer behind one operation of the reader. -/
def SedpStream.After (S : SedpStream cfg isWriter) (srcPrefix : GuidPrefix) (settling : Option Guid)
    (core : ReaderCore) (told : List DiscoveryEvent) (received : ReceivedSet) (sm : SubMessage)
    (r' : StatefulReader) : Prop :=
  ∃ wp', r'.find (peer srcPrefix isWriter) = some wp' ∧ (∀ n ∈ received, n ∈ wp'.received) ∧
    (∀ d, sm = .data d → d.writerSn ∈ wp'.received) ∧
    S.ConvergesFrom settling core told (wp'.received.cumulativeAck + 1) r'.core wp'

/-- The outcome of an operation on a proxy that is there. -/
theorem StatefulReader.onProxy_found {r r' : StatefulReader} {wp : WriterProxy} {writer : Guid}
    {f : ReaderCore → WriterProxy → Option (ReaderCore × WriterProxy)}
    (hw : r.find writer = some wp) (hon : r.onProxy writer f = some r')
    (hguid : ∀ out, f r.core wp = some out → out.2.guid = wp.guid) :
    ∃ out, f r.core wp = some out ∧ r'.core = out.1 ∧ r'.find writer = some out.2 := by
  rcases StatefulReader.onProxy_cases hon with ⟨hnone, -⟩ | ⟨wp', out, hw', hout, rfl⟩
  · rw [hw] at hnone
    cases hnone
  · cases hw.symm.trans hw'
    have hg : out.2.guid = writer := (hguid out hout).trans (StatefulReader.find_guid hw)
    refine ⟨out, hout, rfl, ?_⟩
    subst hg
    exact StatefulReader.find_setProxy (by simp [hw])

variable {settling : Option Guid} {r r' : StatefulReader} {wp : WriterProxy}
  {told : List DiscoveryEvent}

/-- A DATA of the stream, as its reader takes it. -/
theorem carries_of_transmits {d : DataSubmessage} {writer : Guid} (h : S.Transmits d)
    (hp : d.serializedPayload ≠ []) :
    S.Carries writer (makeAliveCacheChange writer d.writerSn d.serializedPayload now) := by
  obtain ⟨c, hc, hdata, -⟩ := h
  exact ⟨rfl, rfl, hp, c, hc, hdata⟩

theorem after_data {d : DataSubmessage}
    (h : S.Converges settling (wp.received.cumulativeAck + 1) r.core wp told) (hreach : S.InReach)
    (hw : r.find (peer srcPrefix isWriter) = some wp) (ht : S.Transmits d)
    (hp : d.serializedPayload ≠ [])
    (hin : d.writerSn ∉ wp.received →
      SedpStream.Converges.LetsIn S settling wp.received.cumulativeAck d.writerSn)
    (hstep : r.step (.data (peer srcPrefix isWriter) (makeAliveCacheChange
      (peer srcPrefix isWriter) d.writerSn d.serializedPayload now)) = some r') :
    S.After srcPrefix settling r.core told wp.received (.data d) r' := by
  rw [StatefulReader.step] at hstep
  obtain ⟨out, hout, hcore, hfind⟩ := StatefulReader.onProxy_found hw hstep (fun out hout => by
    cases hout
    exact (handleDataLocked_appends _ _ _).2)
  have hc : S.Carries wp.guid (makeAliveCacheChange (peer srcPrefix isWriter) d.writerSn
      d.serializedPayload now) := by
    rw [StatefulReader.find_guid hw]
    exact carries_of_transmits ht hp
  obtain ⟨hmem, hconv⟩ := h.handleData hreach hc hin (Option.some.inj hout)
  refine ⟨out.2, hfind, fun n hn => (hmem n).mpr (.inr hn), ?_, hcore ▸ hconv⟩
  rintro d' hd
  cases hd
  exact (hmem _).mpr (.inl rfl)

theorem after_heartbeat {hb : HeartbeatSubmessage}
    (h : S.Converges settling (wp.received.cumulativeAck + 1) r.core wp told) (hreach : S.InReach)
    (hw : r.find (peer srcPrefix isWriter) = some wp)
    (hgone : ∀ n, n < hb.firstSn → S.Superseded n ∨ n ∈ wp.received)
    (hstep : r.step (.heartbeat (peer srcPrefix isWriter) hb.readerEntityId hb.firstSn hb.lastSn
      hb.count hb.isFinal) = some r') :
    S.After srcPrefix settling r.core told wp.received (.heartbeat hb) r' := by
  simp only [StatefulReader.step] at hstep
  split at hstep
  · cases hstep
    exact ⟨wp, hw, fun n hn => hn, by simp, h.refl⟩
  · obtain ⟨out, hout, hcore, hfind⟩ := StatefulReader.onProxy_found hw hstep
      (fun out hout => (handleHeartbeatLocked_appends hout).2)
    obtain ⟨hmono, hconv⟩ := h.handleHeartbeat hreach hgone hout
    exact ⟨out.2, hfind, hmono, by simp, hcore ▸ hconv⟩

theorem after_gap {gap : GapSubmessage}
    (h : S.Converges settling (wp.received.cumulativeAck + 1) r.core wp told) (hreach : S.InReach)
    (hw : r.find (peer srcPrefix isWriter) = some wp)
    (hgone : ∀ n, gap.gapStart ≤ n ∧ n < gap.gapList.base ∨ gap.gapList.contains n = true →
      S.Superseded n ∨ n ∈ wp.received)
    (hstep : r.step (.gap (peer srcPrefix isWriter) gap.gapStart gap.gapList) = some r') :
    S.After srcPrefix settling r.core told wp.received (.gap gap) r' := by
  rw [StatefulReader.step] at hstep
  obtain ⟨out, hout, hcore, hfind⟩ := StatefulReader.onProxy_found hw hstep
    (fun out hout => (handleGapLocked_appends hout).2)
  obtain ⟨hmono, hconv⟩ := h.handleGap hreach hgone hout
  exact ⟨out.2, hfind, hmono, by simp, hcore ▸ hconv⟩

/-! ### A submessage -/

/-- What the reader handed over is told, and `after` behind it. -/
theorem follows_of_told {after : List DiscoveryEvent} (hcfg : s.config = cfg)
    (hr : S.After srcPrefix settling (s.reader isWriter).core s.events rs sm r')
    (ht : Told isWriter s s' r' after)
    (hafter : ∀ next core wp told, S.Converges settling next core wp told →
      S.Converges none next core wp (told ++ after)) :
    S.Follows srcPrefix s' ∧ (∀ n ∈ rs, n ∈ s'.received srcPrefix isWriter) ∧
      ∀ d, sm = .data d → d.writerSn ∈ s'.received srcPrefix isWriter := by
  obtain ⟨wp', hfind, hmono, hdata, evs, hlog, hconv⟩ := hr
  have hrecv : s'.received srcPrefix isWriter = wp'.received := by
    rw [SedpEndpoints.received, ht.reader]
    exact receivedFrom_eq hfind
  refine ⟨⟨ht.config.trans hcfg, wp', ?_, ?_⟩, ?_, ?_⟩
  · rw [ht.reader]
    exact hfind
  · have hdrop : r'.core.log.drop (s.reader isWriter).core.log.length = evs := by
      rw [hlog, List.drop_left]
    rw [ht.reader, ht.events, hdrop, hcfg]
    exact hafter _ _ _ _ hconv
  · rw [hrecv]
    exact hmono
  · rw [hrecv]
    exact hdata

theorem shows_emit_seen {c : SedpChange} {told : List DiscoveryEvent}
    (h : cfg.Shows isWriter told c) :
    cfg.Shows isWriter (told ++ [.sedpSeen srcPrefix]) c := by
  have hlast : lastCallback isWriter c.guid (told ++ [.sedpSeen srcPrefix]) =
      lastCallback isWriter c.guid told := by
    refine lastCallback_append_none fun ev hm => ?_
    rw [List.mem_singleton.mp hm]
    rfl
  cases c with
  | announce g p =>
    obtain ⟨ep, hep, hl⟩ := h
    exact ⟨ep, hep, hlast.trans hl⟩
  | dispose g p => exact hlast.trans h

/-- A disposal is told as lost, whatever its reader made of it. -/
theorem follows_of_disposal {d : DataSubmessage} {g : Guid} {p : List UInt8}
    (hcfg : s.config = cfg) (hd : S.change d.writerSn = some (.dispose g p))
    (hr : S.After srcPrefix (some g) (s.reader isWriter).core s.events rs (.data d) r')
    (ht : Told isWriter s s' r' [.lost isWriter g]) :
    S.Follows srcPrefix s' ∧ (∀ n ∈ rs, n ∈ s'.received srcPrefix isWriter) ∧
      ∀ d', SubMessage.data d = .data d' → d'.writerSn ∈ s'.received srcPrefix isWriter :=
  follows_of_told hcfg hr ht fun _ _ _ _ h => h.lose hd

/-- A submessage of the writer keeps the reader on the stream. -/
theorem follows_step (hreach : S.InReach) (h : S.Follows srcPrefix s)
    (hsends : S.Sends (s.received srcPrefix isWriter) sm)
    (hturn : S.InTurn (s.received srcPrefix isWriter) sm)
    (hstep : s.onSubMessage srcPrefix now sm = some s') :
    S.Follows srcPrefix s' ∧
      (∀ n ∈ s.received srcPrefix isWriter, n ∈ s'.received srcPrefix isWriter) ∧
      ∀ d, sm = .data d → d.writerSn ∈ s'.received srcPrefix isWriter := by
  obtain ⟨hcfg, wp, hw, hconv⟩ := h
  have hrecv : s.received srcPrefix isWriter = wp.received := receivedFrom_eq hw
  rw [hrecv] at hsends hturn ⊢
  cases sm with
  | data d =>
    obtain ⟨hid, htr⟩ := hsends
    obtain ⟨c, hc, hdata, hform⟩ := id htr
    have hmem := (SedpStream.mem_of_change hc).2
    cases c with
    | announce g p =>
      have hp : d.serializedPayload ≠ [] := by
        rw [hdata]
        exact (S.announced g p hmem).1
      have hpay : hasPayload (.data d) = true := by simpa [hasPayload] using hp
      have hsender : senderId (.data d) = some (writerEntityId isWriter) := congrArg some hid
      obtain ⟨seen, hroute⟩ : ∃ seen, s.onSubMessage srcPrefix now (.data d) =
          s.route (.data d) srcPrefix now seen :=
        onSubMessage_eq_route hsender hpay fun d' e => by
          cases e
          exact hform
      rw [hroute] at hstep
      obtain ⟨r', hr', htold⟩ := told_route hstep hsender rfl hpay
      have hafter := after_data hconv hreach hw htr hp (fun _ g' p' hdis => by
        rw [hc] at hdis
        cases hdis) hr'
      refine follows_of_told hcfg hafter htold fun next core wp told h => ?_
      cases seen with
      | true => exact h.tell fun c hs => shows_emit_seen hs
      | false => simpa using h
    | dispose g p =>
      obtain ⟨hdis, hg⟩ := hform
      have hon : s.onDisposal d srcPrefix now = some s' := by
        rw [← hstep, onSubMessage, if_pos hdis]
      have hsettle := hconv.settle g
      by_cases hp : d.serializedPayload = []
      · -- not the first time: its number is there
        have hold : d.writerSn ∈ wp.received := by
          by_contra hnew
          exact (hturn g p hc hnew).1 (hdata.symm.trans hp)
        refine follows_of_disposal hcfg hc ⟨wp, hw, fun n hn => hn, ?_, hsettle.refl⟩
          (told_onDisposal_empty hon hid hg hp)
        rintro d' hd
        cases hd
        exact hold
      · obtain ⟨r', hr', htold⟩ := told_onDisposal hon hid hg hp
        refine follows_of_disposal hcfg hc (after_data hsettle hreach hw htr hp ?_ hr') htold
        intro hnew g' p' hdis'
        obtain ⟨rfl, rfl⟩ : g = g' ∧ p = p' := by simpa using hc.symm.trans hdis'
        obtain ⟨-, hann, hnext⟩ := hturn g p hc hnew
        exact ⟨rfl, hann, hnext⟩
  | heartbeat hb =>
    obtain ⟨hid, hgone⟩ := hsends
    have hroute : s.route (.heartbeat hb) srcPrefix now false = some s' := hstep
    obtain ⟨r', hr', htold⟩ := told_route hroute (congrArg some hid) rfl rfl
    refine follows_of_told hcfg (after_heartbeat hconv hreach hw hgone hr') htold
      fun next core wp told h => ?_
    simpa using h
  | gap gap =>
    obtain ⟨hid, hgone⟩ := hsends
    have hroute : s.route (.gap gap) srcPrefix now false = some s' := hstep
    obtain ⟨r', hr', htold⟩ := told_route hroute (congrArg some hid) rfl rfl
    refine follows_of_told hcfg (after_gap hconv hreach hw hgone hr') htold
      fun next core wp told h => ?_
    simpa using h
  | _ => cases hsends

/-! ### Runs -/

/-- A peer just matched.  What the reader's cache still has of it, of an earlier match, is of the
stream. -/
structure SedpStream.Matched (S : SedpStream cfg isWriter) (srcPrefix : GuidPrefix)
    (s : SedpEndpoints) : Prop where
  config : s.config = cfg
  reads : ReadsAll (s.reader isWriter).core
  proxy : ∃ wp, (s.reader isWriter).find (peer srcPrefix isWriter) = some wp ∧
    wp.received = ReceivedSet.empty ∧ wp.pendingChanges = []
  cached : ∀ ch ∈ (s.reader isWriter).core.cache.changes,
    ch.writerGuid = peer srcPrefix isWriter → S.Carries (peer srcPrefix isWriter) ch

theorem matchRemote_reader (s : SedpEndpoints) (isWriter : Bool) (srcPrefix : GuidPrefix)
    (locs : List Locator) : (s.matchRemote isWriter srcPrefix locs).reader isWriter =
      (s.reader isWriter).addOrRefreshMatchedWriterWith
        (s.peerWriter isWriter srcPrefix locs) none true := by
  cases isWriter <;> rfl

/-- A participant newly matched has a proxy that has received nothing. -/
theorem matchRemote_new {s : SedpEndpoints} (locs : List Locator)
    (hr : ReadsAll (s.reader isWriter).core)
    (hnew : (s.reader isWriter).find (peer srcPrefix isWriter) = none) :
    ReadsAll ((s.matchRemote isWriter srcPrefix locs).reader isWriter).core ∧
      (∃ wp, ((s.matchRemote isWriter srcPrefix locs).reader isWriter).find
          (peer srcPrefix isWriter) = some wp ∧
        wp.received = ReceivedSet.empty ∧ wp.pendingChanges = []) ∧
      ((s.matchRemote isWriter srcPrefix locs).reader isWriter).core.cache =
        (s.reader isWriter).core.cache := by
  rw [matchRemote_reader s isWriter srcPrefix locs]
  rcases addOrRefreshMatchedWriterWith_cases (s.reader isWriter)
    (s.peerWriter isWriter srcPrefix locs) none with
    ⟨wp, -, hfind, -⟩ | ⟨hnone, held, core', hheld, hstill, heq⟩
  · have hfind : (s.reader isWriter).find (peer srcPrefix isWriter) = some wp := hfind
    rw [hnew] at hfind
    cases hfind
  · have hheld : held = {} := hheld
    subst hheld
    have hcore : Still (s.reader isWriter).core core' := hstill
    have hadd : ((s.reader isWriter).appendProxy (s.peerWriter isWriter srcPrefix locs).proxy
        hnone).find (s.peerWriter isWriter srcPrefix locs).proxy.guid =
          some (s.peerWriter isWriter srcPrefix locs).proxy :=
      StatefulReader.find_appendProxy hnone
    rw [heq]
    exact ⟨hr.still hcore, ⟨(s.peerWriter isWriter srcPrefix locs).proxy,
      StatefulReader.find_setProxy (Option.isSome_of_eq_some hadd), rfl, rfl⟩, hcore.cache⟩

/-- A participant that is matched has its proxy. -/
theorem matched_matchRemote (S : SedpStream cfg isWriter) {s : SedpEndpoints} (locs : List Locator)
    (hcfg : s.config = cfg) (hr : ReadsAll (s.reader isWriter).core)
    (hnew : (s.reader isWriter).find (peer srcPrefix isWriter) = none)
    (hc : ∀ ch ∈ (s.reader isWriter).core.cache.changes,
      ch.writerGuid = peer srcPrefix isWriter → S.Carries (peer srcPrefix isWriter) ch) :
    S.Matched srcPrefix (s.matchRemote isWriter srcPrefix locs) := by
  obtain ⟨hreads, hproxy, hcache⟩ := matchRemote_new locs hr hnew
  constructor
  · rw [← hcfg]
    cases isWriter <;> rfl
  · exact hreads
  · exact hproxy
  · rw [hcache]
    exact hc

theorem follows_of_matched (h : S.Matched srcPrefix s) : S.Follows srcPrefix s := by
  obtain ⟨wp, hw, hrecv, hpend⟩ := h.proxy
  have hack : wp.received.cumulativeAck = 0 := by
    rw [hrecv]
    rfl
  refine ⟨h.config, wp, hw, h.reads, ?_, ?_, ?_, ?_, ?_, ?_⟩
  · rw [StatefulReader.find_guid hw]
    exact h.cached
  · rw [hpend]
    exact List.nodup_nil
  · rw [hpend]
    intro ch hm
    cases hm
  · intro n g p hl hn
    rw [hrecv] at hn
    exact absurd hn (ReceivedSet.not_mem_empty n)
  · intro n g p hl hlt
    have := (SedpStream.mem_of_change hl.1).1
    omega
  · intro n g p hd hn
    rw [hrecv] at hn
    exact absurd hn (ReceivedSet.not_mem_empty n)

/-- One submessage at a time, with the time of its receipt. -/
def receive (srcPrefix : GuidPrefix) (s : SedpEndpoints) (a : RtpsTimestamp × SubMessage) :
    Option SedpEndpoints :=
  s.onSubMessage srcPrefix a.1 a.2

/-- What the stream's writer sends, and each disposal in its turn. -/
def SedpStream.Ok (S : SedpStream cfg isWriter) (srcPrefix : GuidPrefix) (s : SedpEndpoints)
    (a : RtpsTimestamp × SubMessage) : Prop :=
  S.Sends (s.received srcPrefix isWriter) a.2 ∧ S.InTurn (s.received srcPrefix isWriter) a.2

/-- **Discovery converges on what the peer last said.** -/
theorem discovery_converges (hreach : S.InReach) (hm : S.Matched srcPrefix s)
    {as : List (RtpsTimestamp × SubMessage)}
    (hrun : Run (receive srcPrefix) (S.Ok srcPrefix) s as s') :
    (∀ a ∈ as, ∀ d, a.2 = .data d → d.writerSn ∈ s'.received srcPrefix isWriter) ∧
      ((∀ n c, S.change n = some c → n ∈ s'.received srcPrefix isWriter) →
        ∀ n c, S.Last n c → cfg.Shows isWriter s'.events c) := by
  have hinv : S.Follows srcPrefix s' ∧
      ∀ a ∈ as, ∀ d, a.2 = .data d → d.writerSn ∈ s'.received srcPrefix isWriter := by
    induction hrun with
    | nil => exact ⟨follows_of_matched hm, by simp⟩
    | snoc _ hok hs ih =>
      obtain ⟨hf, hall⟩ := ih
      obtain ⟨hf', hmono, hdata⟩ := follows_step hreach hf hok.1 hok.2 hs
      refine ⟨hf', fun a ha d hd => ?_⟩
      rcases List.mem_append.mp ha with ha | ha
      · exact hmono _ (hall a ha d hd)
      · rw [List.mem_singleton.mp ha] at hd
        exact hdata d hd
  obtain ⟨⟨-, wp, hw, hconv⟩, hall⟩ := hinv
  refine ⟨hall, fun hrecv n c hl => ?_⟩
  have hset : s'.received srcPrefix isWriter = wp.received := receivedFrom_eq hw
  rw [hset] at hrecv
  cases c with
  | announce g p =>
    have hack : n ≤ wp.received.cumulativeAck := by
      rw [ReceivedSet.le_cumulativeAck_iff]
      intro m h1 hle
      obtain ⟨c', hc'⟩ := SedpStream.change_of_le hl.1 h1 hle
      exact hrecv m c' hc'
    exact hconv.announced n g p hl (by omega)
  | dispose g p => exact (hconv.disposed n g p hl.1 (hrecv n _ hl.1)).shown (by simp)

/-! ### The golden writer, announced and disposed of -/

theorem helloConfig_endpointData :
    helloConfig.endpointData true helloWriterBytes = some (.writer helloWriterData) := by
  rw [SedpConfig.endpointData, if_pos rfl, helloConfig_writerData]
  rfl

theorem helloConfig_endpointData_nil : helloConfig.endpointData true [] = none := rfl

theorem helloStream_final (payload : List UInt8) (i j : ℕ) (g : Guid) (p : List UInt8)
    (c : SedpChange) :
    [SedpChange.announce (testGuid 0xa1 0x02) helloWriterBytes,
        .dispose (testGuid 0xa1 0x02) payload][i]? = some (.dispose g p) →
      [SedpChange.announce (testGuid 0xa1 0x02) helloWriterBytes,
        .dispose (testGuid 0xa1 0x02) payload][j]? = some c → c.guid = g → j ≤ i := by
  intro hi hj _
  have hj' := (List.getElem?_eq_some_iff.mp hj).1
  cases i with
  | zero => simp at hi
  | succ i =>
    simp only [List.length_cons, List.length_nil] at hj'
    omega

/-- A disposal carries nothing, or the whole announcement. -/
def helloStream (payload : List UInt8) (h : payload = [] ∨ payload = helloWriterBytes) :
    SedpStream helloConfig true where
  changes := [.announce (testGuid 0xa1 0x02) helloWriterBytes, .dispose (testGuid 0xa1 0x02) payload]
  announced := by
    intro g p hm
    have hgp : g = testGuid 0xa1 0x02 ∧ p = helloWriterBytes := by simpa using hm
    rw [hgp.1, hgp.2]
    refine ⟨by simp [helloWriterBytes], fun ep hep => ?_⟩
    rw [helloConfig_endpointData] at hep
    cases hep
    rfl
  disposed := by
    intro g p hm
    have hgp : g = testGuid 0xa1 0x02 ∧ p = payload := by simpa using hm
    rw [hgp.1, hgp.2]
    refine .inl fun ep hep => ?_
    rcases h with rfl | rfl
    · rw [helloConfig_endpointData_nil] at hep
      cases hep
    · rw [helloConfig_endpointData] at hep
      cases hep
      rfl
  final := helloStream_final payload

/-- The participant of the golden writer. -/
def helloPrefix : GuidPrefix := (testGuid 0xa1 0x02).guidPrefix

def helloStart : SedpEndpoints :=
  (SedpEndpoints.start helloConfig (testGuid 0xc3 0x07).guidPrefix false).matchRemote true helloPrefix
    [.udpV4 (Bytes.zeroes 4) 7410]

def helloDisposed : InlineQos :=
  ⟨[⟨.statusInfo, [0, 0, 0, 1]⟩, ⟨.keyHash, (guidBytes (testGuid 0xa1 0x02)).val⟩]⟩

/-- A DATA of the publications writer. -/
def helloData (sn : ℤ) (inlineQos : Option InlineQos) (payload : List UInt8) :
    RtpsTimestamp × SubMessage :=
  (⟨0, 0⟩, .data {
    flags := 0x05
    readerEntityId := EntityId.unknown
    writerEntityId := writerEntityId true
    writerSn := sn
    inlineQos := inlineQos
    serializedPayload := payload })

/-- The disposal carries the announcement. -/
def helloFull : SedpStream helloConfig true := helloStream helloWriterBytes (.inr rfl)

theorem helloStream_change {payload : List UInt8} (h : payload = [] ∨ payload = helloWriterBytes)
    {n : ℤ} {c : SedpChange} (hc : (helloStream payload h).change n = some c) :
    n = 1 ∧ c = .announce (testGuid 0xa1 0x02) helloWriterBytes ∨
      n = 2 ∧ c = .dispose (testGuid 0xa1 0x02) payload := by
  have h1 := (SedpStream.mem_of_change hc).1
  rw [SedpStream.change, if_pos h1] at hc
  obtain ⟨hlt, hget⟩ := List.getElem?_eq_some_iff.mp hc
  have hlt : (n - 1).toNat < 2 := hlt
  have hn : n = 1 ∨ n = 2 := by omega
  rcases hn with rfl | rfl
  · exact .inl ⟨rfl, hget.symm⟩
  · exact .inr ⟨rfl, hget.symm⟩

theorem helloStream_inReach {payload : List UInt8} (h : payload = [] ∨ payload = helloWriterBytes) :
    (helloStream payload h).InReach := by
  intro n g p hl
  rcases helloStream_change h hl.1 with ⟨-, hc⟩ | ⟨-, hc⟩
  · cases hc
    rw [helloConfig_endpointData]
    rfl
  · cases hc

theorem helloStart_matched (S : SedpStream helloConfig true) : S.Matched helloPrefix helloStart :=
  matched_matchRemote S _ rfl ⟨rfl, rfl, rfl⟩ rfl (fun ch hm => by cases hm)

theorem helloStream_announces {payload : List UInt8} (h : payload = [] ∨ payload = helloWriterBytes)
    (rs : ReceivedSet) : (helloStream payload h).Sends rs (helloData 1 none helloWriterBytes).2 :=
  ⟨rfl, .announce (testGuid 0xa1 0x02) helloWriterBytes, rfl, rfl, rfl⟩

theorem helloStream_disposes {payload : List UInt8} (h : payload = [] ∨ payload = helloWriterBytes)
    (rs : ReceivedSet) : (helloStream payload h).Sends rs (helloData 2 (some helloDisposed) payload).2 :=
  ⟨rfl, .dispose (testGuid 0xa1 0x02) payload, rfl, rfl, rfl, rfl⟩

/-- The last change of the stream is the disposal. -/
theorem helloStream_last {payload : List UInt8} (h : payload = [] ∨ payload = helloWriterBytes) :
    (helloStream payload h).Last 2 (.dispose (testGuid 0xa1 0x02) payload) :=
  SedpStream.last_of_dispose rfl

/-- In turn, the golden writer ends up lost. -/
theorem discovery_converges_hello : ∃ s, Run (receive helloPrefix) (helloFull.Ok helloPrefix)
    helloStart [helloData 1 none helloWriterBytes,
      helloData 2 (some helloDisposed) helloWriterBytes] s ∧
    helloConfig.Shows true s.events (.dispose (testGuid 0xa1 0x02) helloWriterBytes) := by
  obtain ⟨s, hs⟩ : ∃ s, receive helloPrefix helloStart (helloData 1 none helloWriterBytes) = some s :=
    Option.isSome_iff_exists.mp (by decide)
  have hack : (receive helloPrefix helloStart (helloData 1 none helloWriterBytes)).map
      (fun s => (s.received helloPrefix true).cumulativeAck) = some 1 := by decide
  have hend : ((receive helloPrefix helloStart (helloData 1 none helloWriterBytes)).bind fun s =>
      receive helloPrefix s (helloData 2 (some helloDisposed) helloWriterBytes)).map
        (fun s => (s.received helloPrefix true).cumulativeAck) = some 2 := by decide
  rw [hs] at hack hend
  obtain ⟨s', hs', hend⟩ := Option.map_eq_some_iff.mp hend
  have hack : (s.received helloPrefix true).cumulativeAck = 1 := Option.some.inj hack
  have hturn₁ : helloFull.InTurn (helloStart.received helloPrefix true)
      (helloData 1 none helloWriterBytes).2 := by
    intro g p hc
    cases hc
  have hturn₂ : helloFull.InTurn (s.received helloPrefix true)
      (helloData 2 (some helloDisposed) helloWriterBytes).2 := by
    intro g p hc _
    cases hc
    refine ⟨by simp [helloWriterBytes], fun m p' hm => ?_, .inl ?_⟩
    · rw [hack]
      rcases helloStream_change _ hm with ⟨rfl, -⟩ | ⟨-, hd⟩
      · exact le_rfl
      · cases hd
    · rw [hack]
      rfl
  have hrun : Run (receive helloPrefix) (helloFull.Ok helloPrefix) helloStart
      ([] ++ [helloData 1 none helloWriterBytes] ++
        [helloData 2 (some helloDisposed) helloWriterBytes]) s' :=
    .snoc (.snoc .nil ⟨helloStream_announces _ _, hturn₁⟩ hs) ⟨helloStream_disposes _ _, hturn₂⟩ hs'
  refine ⟨s', hrun, ?_⟩
  have hall := (discovery_converges (helloStream_inReach _) (helloStart_matched _) hrun).2
  refine hall (fun n c hc => ReceivedSet.mem_of_le_cumulativeAck ?_ ?_) 2 _ (helloStream_last _)
  · exact (SedpStream.mem_of_change hc).1
  · rw [hend]
    rcases helloStream_change _ hc with ⟨rfl, -⟩ | ⟨rfl, -⟩
    · decide
    · exact le_rfl

/-- What the writer sends, in whatever order. -/
def SedpStream.Sent (S : SedpStream cfg isWriter) (srcPrefix : GuidPrefix) (s : SedpEndpoints)
    (a : RtpsTimestamp × SubMessage) : Prop :=
  S.Sends (s.received srcPrefix isWriter) a.2

/-- A disposal that comes early is told first, and its endpoint ends up discovered. -/
theorem early_disposal_leaves_ghost : ∃ s, Run (receive helloPrefix) (helloFull.Sent helloPrefix)
    helloStart [helloData 2 (some helloDisposed) helloWriterBytes,
      helloData 1 none helloWriterBytes] s ∧
    (∀ n c, helloFull.change n = some c → n ∈ s.received helloPrefix true) ∧
    lastCallback true (testGuid 0xa1 0x02) s.events =
      some (.discovered (.writer helloWriterData)) := by
  have hend : ((receive helloPrefix helloStart
      (helloData 2 (some helloDisposed) helloWriterBytes)).bind fun s =>
        receive helloPrefix s (helloData 1 none helloWriterBytes)).map
          (fun s => (s.received helloPrefix true).cumulativeAck) = some 2 := by decide
  obtain ⟨s', hs', hack⟩ := Option.map_eq_some_iff.mp hend
  obtain ⟨s, hs, hs'⟩ := Option.bind_eq_some_iff.mp hs'
  have hrun : Run (receive helloPrefix) (helloFull.Sent helloPrefix) helloStart
      ([] ++ [helloData 2 (some helloDisposed) helloWriterBytes] ++
        [helloData 1 none helloWriterBytes]) s' :=
    .snoc (.snoc .nil (helloStream_disposes _ _) hs) (helloStream_announces _ _) hs'
  refine ⟨s', hrun, fun n c hc => ReceivedSet.mem_of_le_cumulativeAck ?_ ?_, ?_⟩
  · exact (SedpStream.mem_of_change hc).1
  · rw [hack]
    rcases helloStream_change _ hc with ⟨rfl, -⟩ | ⟨rfl, -⟩
    · decide
    · exact le_rfl
  · have hlast : ((receive helloPrefix helloStart
        (helloData 2 (some helloDisposed) helloWriterBytes)).bind fun s =>
          receive helloPrefix s (helloData 1 none helloWriterBytes)).map
            (fun s => lastCallback true (testGuid 0xa1 0x02) s.events) =
              some (some (.discovered (.writer helloWriterData))) := by decide +kernel
    rw [hs, Option.bind_some, hs'] at hlast
    exact Option.some.inj hlast

end Zzdds.Discovery
