import Zzdds.Transport.UdpTransport

/-! # What a failed listen or join leaves

A call that returns an error leaves the transport as it was, unless it left behind what it had made:
a map slot whose `PortEntry` there was no memory for, or sockets opened before the last allocation
failed.  `failed_calls` says exactly when. -/

namespace Zzdds.Transport

open Lib Rtps

/-- A socket whose handle is there comes to receive. -/
def SocketOutcome.receives (o : SocketOutcome) : Bool :=
  o.entry.isSome && o.capacity && o.channel && o.started

/-- A socket is created and comes to receive. -/
def SocketOutcome.opens (o : SocketOutcome) : Bool := o.fd.isSome && o.receives

namespace UdpTransport

/-- Each socket hands what it receives to a `PortEntry` that is allocated. -/
def HandlersLive (s : UdpTransport) : Prop :=
  ∀ e ∈ s.sockets, ∃ a, e.handler = some a ∧ (s.heap.lookup a).isSome

/-- A call left nothing behind. -/
structure NoTrace (s s' : UdpTransport) : Prop where
  portEntries : s'.portEntries = s.portEntries
  handlers : ∀ a, s'.heap.lookup a = s.heap.lookup a
  sockets : s'.sockets = s.sockets
  channels : s.channels.Agrees s'.channels
  mcStates : s'.mcStates = s.mcStates
  receiving : s'.receiving = s.receiving
  openFds : s'.openFds ⊆ s.openFds
  handlersLive : s.HandlersLive → s'.HandlersLive

/-- Listening on a new port opens a socket before it rebuilds the locators. -/
def Opens (s : UdpTransport) (port : ℕ) (o : ListenOutcome) : Prop :=
  match s.takeReservedFd port with
  | some _ => o.reserved.receives
  | none => ∃ i < s.unreserved.length, (o.sockets i).opens

/-- For a new port there is memory for its `PortEntry`, and no socket is opened. -/
def ListenClean (s : UdpTransport) (locator : Locator) (o : ListenOutcome) : Prop :=
  ∀ addrKind port, udpPort locator = some (addrKind, port) → s.portEntries.lookup port = none →
    o.mapSlot → o.portEntry ∧ (o.handler → ¬ s.Opens port o)

/-- A group's socket on a listened port is there already, or cannot be opened. -/
def JoinClean (s : UdpTransport) (group : Locator) (o : JoinOutcome) : Prop :=
  ∀ addrKind port, udpPort group = some (addrKind, port) → (s.portEntries.lookup port).isSome →
    (∃ e ∈ s.sockets, e.kind = .multicast ∧ e.port = port ∧ e.addrKind = addrKind) ∨
      ¬ o.socket.opens

/-! ### Opening sockets -/

/-- What opening sockets does not touch. -/
structure Keeps (s s' : UdpTransport) : Prop where
  portEntries : s'.portEntries = s.portEntries
  heap : s'.heap = s.heap
  mcStates : s'.mcStates = s.mcStates

/-- The sockets are as they were. -/
structure KeepsSockets (s s' : UdpTransport) : Prop where
  sockets : s'.sockets = s.sockets
  channels : s.channels.Agrees s'.channels
  receiving : s'.receiving = s.receiving
  openFds : s'.openFds ⊆ s.openFds

variable {s s' s'' : UdpTransport}

theorem Keeps.refl (s : UdpTransport) : s.Keeps s := ⟨rfl, rfl, rfl⟩

theorem Keeps.trans (h : s.Keeps s') (h' : s'.Keeps s'') : s.Keeps s'' :=
  ⟨h'.portEntries.trans h.portEntries, h'.heap.trans h.heap, h'.mcStates.trans h.mcStates⟩

theorem KeepsSockets.refl (s : UdpTransport) : s.KeepsSockets s :=
  ⟨rfl, .refl _, rfl, List.Subset.refl _⟩

theorem KeepsSockets.trans (h : s.KeepsSockets s') (h' : s'.KeepsSockets s'') :
    s.KeepsSockets s'' :=
  ⟨h'.sockets.trans h.sockets, h.channels.trans h'.channels, h'.receiving.trans h.receiving,
    List.Subset.trans h'.openFds h.openFds⟩

variable {fd : Fd} {kind : SocketKind} {addrKind : AddrKind} {ip : Bytes 16} {port : ℕ}
  {handler : Option Address} {o : SocketOutcome} {r : Except UdpError SocketEntry}

theorem addSocketFromFd_spec
    (h : s.addSocketFromFd fd kind addrKind ip port handler o = some (r, s')) : s.Keeps s' ∧
    if o.receives then ∃ entry, r = .ok entry ∧ s'.sockets = s.sockets ++ [entry]
    else (∃ e, r = .error e) ∧ s'.sockets = s.sockets ∧ s.channels.Agrees s'.channels ∧
      s'.receiving = s.receiving ∧ s'.openFds = s.openFds.erase fd := by
  have failed (e : UdpError) {channels : TidyTable Address} (hreceives : o.receives = false)
      (hchannels : s.channels.Agrees channels) (hr : Except.error e = r)
      (hs : { s with channels := channels, openFds := s.openFds.erase fd } = s') : s.Keeps s' ∧
      if o.receives then ∃ entry, r = .ok entry ∧ s'.sockets = s.sockets ++ [entry]
      else (∃ e, r = .error e) ∧ s'.sockets = s.sockets ∧ s.channels.Agrees s'.channels ∧
        s'.receiving = s.receiving ∧ s'.openFds = s.openFds.erase fd := by
    subst hs
    rw [hreceives, if_neg Bool.false_ne_true]
    exact ⟨⟨rfl, rfl, rfl⟩, ⟨e, hr.symm⟩, rfl, hchannels, rfl, rfl⟩
  unfold addSocketFromFd at h
  dsimp only at h
  cases hentry : o.entry with
  | none =>
    rw [hentry] at h
    obtain ⟨hr, hs⟩ := Prod.mk.inj (Option.some.inj h)
    exact failed _ (by rw [SocketOutcome.receives, hentry]; rfl) (.refl _) hr hs
  | some address =>
    rw [hentry] at h
    dsimp only at h
    split at h
    next hroom =>
      obtain ⟨hr, hs⟩ := Prod.mk.inj (Option.some.inj h)
      refine failed _ ?_ (.refl _) hr hs
      rw [SocketOutcome.receives]
      rcases (Bool.or_eq_true _ _).mp hroom with hroom | hroom
      · rw [show o.capacity = false by simpa using hroom, Bool.and_false]
        rfl
      · rw [show o.channel = false by simpa using hroom, Bool.and_false]
        rfl
    next hroom =>
      rw [Bool.not_eq_true, Bool.or_eq_false_iff, Bool.not_eq_false', Bool.not_eq_false'] at hroom
      obtain ⟨⟨channels, c⟩, hinsert, h⟩ := Option.bind_eq_some_iff.mp h
      obtain ⟨c, rfl, h⟩ := Option.bind_eq_some_iff.mp h
      split at h
      next hstarted =>
        cases h
        rw [if_pos (by rw [SocketOutcome.receives, hentry, hroom.1, hroom.2, hstarted]; rfl)]
        exact ⟨⟨rfl, rfl, rfl⟩, _, rfl, rfl⟩
      next hstarted =>
        obtain ⟨⟨channels', freed⟩, hclose, h⟩ := Option.bind_eq_some_iff.mp h
        obtain ⟨_, -, h⟩ := Option.map_eq_some_iff.mp h
        obtain ⟨hr, hs⟩ := Prod.mk.inj h
        refine failed _ ?_ (TidyTable.agrees_of_insert_close hinsert hclose) hr hs
        rw [SocketOutcome.receives, Bool.eq_false_of_not_eq_true hstarted, Bool.and_false]

/-- A socket is created, and closed again if it does not come to receive. -/
theorem addSocket_spec (hfd : o.fd = some fd)
    (h : addSocketFromFd { s with openFds := fd :: s.openFds } fd kind addrKind ip port handler o =
      some (r, s')) : s.Keeps s' ∧
    if o.opens then ∃ entry, r = .ok entry ∧ s'.sockets = s.sockets ++ [entry]
    else (∃ e, r = .error e) ∧ s.KeepsSockets s' := by
  obtain ⟨hkeeps, hspec⟩ := addSocketFromFd_spec h
  have hopens : o.opens = o.receives := by
    rw [SocketOutcome.opens, hfd]
    rfl
  refine ⟨⟨hkeeps.portEntries, hkeeps.heap, hkeeps.mcStates⟩, ?_⟩
  rw [hopens]
  split
  next hreceives =>
    rw [if_pos hreceives] at hspec
    exact hspec
  next hreceives =>
    rw [if_neg hreceives] at hspec
    obtain ⟨herror, hsockets, hchannels, hreceiving, hopen⟩ := hspec
    refine ⟨herror, hsockets, hchannels, hreceiving, ?_⟩
    rw [hopen]
    dsimp only
    rw [List.erase_cons_head]
    exact List.Subset.refl _

theorem addUnicastSocket_spec (h : s.addUnicastSocket addrKind ip port handler o = some (r, s')) :
    s.Keeps s' ∧ if o.opens then s.sockets.length < s'.sockets.length else s.KeepsSockets s' := by
  unfold addUnicastSocket at h
  split at h
  next hfd =>
    cases h
    rw [if_neg (by rw [SocketOutcome.opens, hfd]; exact Bool.false_ne_true)]
    exact ⟨.refl s, .refl s⟩
  next fd hfd =>
    obtain ⟨hkeeps, hspec⟩ := addSocket_spec hfd h
    refine ⟨hkeeps, ?_⟩
    split
    next hopens =>
      rw [if_pos hopens] at hspec
      obtain ⟨entry, -, hsockets⟩ := hspec
      rw [hsockets, List.length_append, List.length_singleton]
      exact Nat.lt_succ_self _
    next hopens =>
      rw [if_neg hopens] at hspec
      exact hspec.2

theorem addUnicastSockets_spec : ∀ {l : List (AddrKind × Bytes 16)} {o : ℕ → SocketOutcome}
    {s s' : UdpTransport}, addUnicastSockets port handler l o s = some s' → s.Keeps s' ∧
      s.sockets.length ≤ s'.sockets.length ∧
      ((∃ i < l.length, (o i).opens) → s.sockets.length < s'.sockets.length) ∧
      (¬ (∃ i < l.length, (o i).opens) → s.KeepsSockets s')
  | [], o, s, s', h => by
      cases h
      exact ⟨.refl s, le_rfl, fun ⟨_, hi, _⟩ => absurd hi (Nat.not_lt_zero _), fun _ => .refl s⟩
  | (addrKind, ip) :: rest, o, s, s', h => by
      obtain ⟨⟨r, s₁⟩, hadd, h⟩ := Option.bind_eq_some_iff.mp h
      obtain ⟨hkeeps, hfirst⟩ := addUnicastSocket_spec hadd
      obtain ⟨hkeeps', hle, hopened, hnone⟩ := addUnicastSockets_spec h
      have hle₁ : s.sockets.length ≤ s₁.sockets.length := by
        split at hfirst
        next => exact hfirst.le
        next => exact le_of_eq (congrArg List.length hfirst.sockets).symm
      refine ⟨hkeeps.trans hkeeps', hle₁.trans hle, ?_, fun hnot => ?_⟩
      · rintro ⟨i, hi, hopens⟩
        cases i with
        | zero =>
          rw [if_pos hopens] at hfirst
          exact hfirst.trans_le hle
        | succ i => exact hle₁.trans_lt (hopened ⟨i, Nat.lt_of_succ_lt_succ hi, hopens⟩)
      · rw [if_neg fun hopens => hnot ⟨0, Nat.succ_pos _, hopens⟩] at hfirst
        exact hfirst.trans (hnone fun ⟨i, hi, hopens⟩ => hnot ⟨i + 1, Nat.succ_lt_succ hi, hopens⟩)

theorem rebuildLocatorsLocked_spec (s : UdpTransport) (room : ℕ) :
    s.Keeps (s.rebuildLocatorsLocked room).2 ∧ s.KeepsSockets (s.rebuildLocatorsLocked room).2 := by
  obtain ⟨cache, hcache⟩ : ∃ cache, (s.rebuildLocatorsLocked room).2 =
      { s with locatorsCache := cache } := by
    unfold rebuildLocatorsLocked
    dsimp only
    split_ifs <;> exact ⟨_, rfl⟩
  rw [hcache]
  exact ⟨⟨rfl, rfl, rfl⟩, rfl, .refl _, rfl, List.Subset.refl _⟩

theorem takeReservedFd_spec {s₁ : UdpTransport} (h : s.takeReservedFd port = some (fd, s₁)) :
    s.Keeps s₁ ∧ s.KeepsSockets s₁ := by
  unfold takeReservedFd at h
  split_ifs at h
  · obtain ⟨_, -, h⟩ := Option.map_eq_some_iff.mp h
    cases h
    exact ⟨⟨rfl, rfl, rfl⟩, rfl, .refl _, rfl, List.Subset.refl _⟩
  · obtain ⟨_, -, h⟩ := Option.map_eq_some_iff.mp h
    cases h
    exact ⟨⟨rfl, rfl, rfl⟩, rfl, .refl _, rfl, List.Subset.refl _⟩

/-- A failed opening of a port leaves the sockets as they were, or more than there were. -/
theorem openPort_spec {pe : Address} {o : ListenOutcome} {e : UdpError}
    (h : s.openPort port pe o = some (.error e, s')) : s.Keeps s' ∧
      (s.Opens port o → s.sockets.length < s'.sockets.length) ∧
      (¬ s.Opens port o → s.KeepsSockets s') := by
  unfold openPort at h
  unfold Opens
  cases htake : s.takeReservedFd port with
  | some taken =>
    obtain ⟨fd, s₁⟩ := taken
    rw [htake] at h
    dsimp only at h ⊢
    obtain ⟨⟨r, s₂⟩, hadd, h⟩ := Option.bind_eq_some_iff.mp h
    obtain ⟨hkeeps₁, hsockets₁⟩ := takeReservedFd_spec htake
    obtain ⟨hkeeps₂, hspec⟩ := addSocketFromFd_spec hadd
    by_cases hreceives : o.reserved.receives
    · rw [if_pos hreceives] at hspec
      obtain ⟨entry, rfl, hsockets⟩ := hspec
      obtain ⟨s₃, hopen, h⟩ := Option.map_eq_some_iff.mp h
      obtain ⟨hkeeps₃, hle, -, -⟩ := addUnicastSockets_spec hopen
      obtain ⟨hkeeps₄, hsockets₄⟩ := rebuildLocatorsLocked_spec s₃ o.locators
      rw [h] at hkeeps₄ hsockets₄
      refine ⟨((hkeeps₁.trans hkeeps₂).trans hkeeps₃).trans hkeeps₄, fun _ => ?_,
        fun hnot => absurd hreceives hnot⟩
      rw [hsockets₄.sockets]
      rw [hsockets, List.length_append, List.length_singleton, hsockets₁.sockets] at hle
      exact hle
    · rw [if_neg hreceives] at hspec
      obtain ⟨⟨e', rfl⟩, hsockets, hchannels, hreceiving, hopen⟩ := hspec
      cases h
      refine ⟨hkeeps₁.trans hkeeps₂, fun hopens => absurd hopens hreceives, fun _ =>
        hsockets₁.trans ⟨hsockets, hchannels, hreceiving, ?_⟩⟩
      rw [hopen]
      exact List.erase_subset
  | none =>
    rw [htake] at h
    dsimp only at h ⊢
    obtain ⟨s₁, hopen, h⟩ := Option.map_eq_some_iff.mp h
    obtain ⟨hkeeps, -, hopened, hnone⟩ := addUnicastSockets_spec hopen
    obtain ⟨hkeeps', hsockets'⟩ := rebuildLocatorsLocked_spec s₁ o.locators
    rw [h] at hkeeps' hsockets'
    refine ⟨hkeeps.trans hkeeps', fun hopens => ?_, fun hnot => (hnone hnot).trans hsockets'⟩
    rw [hsockets'.sockets]
    exact hopened hopens

/-! ### The calls -/

theorem NoTrace.refl (s : UdpTransport) : s.NoTrace s :=
  ⟨rfl, fun _ => rfl, rfl, .refl _, rfl, rfl, List.Subset.refl _, id⟩

theorem Keeps.noTrace (h : s.Keeps s') (hsockets : s.KeepsSockets s') : s.NoTrace s' := by
  have hsame (a : Address) : s'.heap.lookup a = s.heap.lookup a := congrArg (·.lookup a) h.heap
  refine ⟨h.portEntries, hsame, hsockets.sockets, hsockets.channels, h.mcStates,
    hsockets.receiving, hsockets.openFds, fun hlive e he => ?_⟩
  obtain ⟨a, ha, hsome⟩ := hlive e (hsockets.sockets ▸ he)
  exact ⟨a, ha, by rw [hsame]; exact hsome⟩

theorem lookup_freshAddress (s : UdpTransport) : s.heap.lookup s.freshAddress = none := by
  have hle (l : List Address) : ∀ a ∈ l, a ≤ l.foldr max 0 := by
    induction l with
    | nil => exact fun a h => nomatch h
    | cons b l ih =>
      intro a ha
      rcases List.mem_cons.mp ha with rfl | ha
      · exact le_max_left _ _
      · exact (ih a ha).trans (le_max_right _ _)
  refine AList.lookup_eq_none.mpr fun hmem => ?_
  have := hle s.heap.keys s.freshAddress hmem
  exact absurd this (Nat.not_succ_le_self _)

/-- The entry of a new port is freed. -/
theorem unref_spec {pe : Address} {entry : PortEntry} (hentry : s.heap.lookup pe = some entry)
    (hrefs : entry.refs = 1) : s.unref pe = some { s with heap := s.heap.erase pe } := by
  rw [unref, hentry, Option.bind_some, hrefs]
  rfl

/-- A new port is taken back, with its entry: what is left is what its sockets left. -/
theorem noTrace_of_newPort {s₁ s₂ : UdpTransport} {pe : Address} {entry : PortEntry}
    (hunref : s₁.unref pe = some s₂) (hport : s.portEntries.lookup port = none)
    (hpe : s.heap.lookup pe = none) (hentry : entry.refs = 1)
    (hlookup : s₁.heap.lookup pe = some entry)
    (hheap : ∀ a, a ≠ pe → s₁.heap.lookup a = s.heap.lookup a)
    (hentries : s₁.portEntries = s.portEntries.insert port (some pe))
    (hmc : s₁.mcStates = s.mcStates) :
    s₂.sockets = s₁.sockets ∧ (s.KeepsSockets s₁ →
      s.NoTrace { s₂ with portEntries := s₂.portEntries.erase port }) := by
  rw [unref_spec hlookup hentry] at hunref
  cases hunref
  have hsame (a : Address) : (s₁.heap.erase pe).lookup a = s.heap.lookup a := by
    rw [Table.lookup_erase_eq]
    split
    next ha => rw [ha, hpe]
    next ha => exact hheap a ha
  refine ⟨rfl, fun hsockets => ?_⟩
  refine ⟨?_, hsame, hsockets.sockets, hsockets.channels, hmc, hsockets.receiving,
    hsockets.openFds, fun hlive e he => ?_⟩
  · dsimp only
    rw [hentries, Table.erase_insert, Table.erase_of_lookup_none hport]
  · obtain ⟨a, ha, hsome⟩ := hlive e (hsockets.sockets ▸ he)
    exact ⟨a, ha, by rw [hsame]; exact hsome⟩

/-- Which sockets a port is given does not depend on the ports there are. -/
theorem opens_newPort (s : UdpTransport) (portEntries : Table ℕ (Option Address))
    (heap : Table Address PortEntry) (port : ℕ) (o : ListenOutcome) :
    Opens { s with portEntries := portEntries, heap := heap } port o ↔ s.Opens port o := by
  unfold Opens takeReservedFd
  dsimp only
  split_ifs
  · cases s.reservedMetaFd <;> rfl
  · cases s.reservedDataFd <;> rfl
  · rfl

/-- **A failed listen leaves no trace** exactly when a new port's `PortEntry` found memory and no
socket was opened for it. -/
theorem failed_listen {locator : Locator} {h : ReceiveHandler} {o : ListenOutcome} {e : UdpError}
    (hcall : s.listenLocked locator h o = some (.error e, s')) :
    s.NoTrace s' ↔ s.ListenClean locator o := by
  unfold listenLocked at hcall
  unfold ListenClean
  cases hport : udpPort locator with
  | none =>
    rw [hport] at hcall
    cases hcall
    exact iff_of_true (.refl s) fun _ _ h => nomatch h
  | some found =>
    obtain ⟨addrKind, port⟩ := found
    rw [hport] at hcall
    dsimp only at hcall
    cases hlookup : s.portEntries.lookup port with
    | some pe =>
      rw [hlookup] at hcall
      obtain ⟨pe, rfl, hcall⟩ := Option.bind_eq_some_iff.mp hcall
      obtain ⟨entry, -, hcall⟩ := Option.map_eq_some_iff.mp hcall
      split at hcall
      next =>
        cases hcall
        refine iff_of_true (.refl s) ?_
        rintro _ _ ⟨⟩ hnone
        cases hlookup.symm.trans hnone
      next => cases hcall
    | none =>
      rw [hlookup] at hcall
      dsimp only at hcall
      split at hcall
      next hslot =>
        cases hcall
        refine iff_of_true (.refl s) ?_
        rintro _ _ ⟨⟩ - htrue
        rw [htrue] at hslot
        cases hslot
      next hslot =>
      have hslot : o.mapSlot := by simpa using hslot
      split at hcall
      next hmemory =>
        cases hcall
        refine iff_of_false (fun htrace => ?_) fun hclean => ?_
        · have hentries := congrArg (·.lookup port) htrace.portEntries
          dsimp only at hentries
          rw [AList.lookup_insert, hlookup] at hentries
          cases hentries
        · have htrue := (hclean addrKind port rfl hlookup hslot).1
          rw [htrue] at hmemory
          cases hmemory
      next hmemory =>
      have hmemory : o.portEntry := by simpa using hmemory
      obtain ⟨⟨r, s₁⟩, hwired, hcall⟩ := Option.bind_eq_some_iff.mp hcall
      cases r with
      | ok _ => cases hcall
      | error e' =>
      obtain ⟨s₂, hunref, hcall⟩ := Option.map_eq_some_iff.mp hcall
      cases hcall
      have hfresh := lookup_freshAddress s
      unfold addHandler at hwired
      rw [if_neg (by decide)] at hwired
      cases hhandler : o.handler with
      | false =>
        rw [hhandler, if_neg Bool.false_ne_true] at hwired
        cases hwired
        obtain ⟨-, htrace⟩ := noTrace_of_newPort hunref hlookup hfresh rfl (AList.lookup_insert _)
          (fun a ha => AList.lookup_insert_ne ha) rfl rfl
        refine iff_of_true (htrace ⟨rfl, .refl _, rfl, List.Subset.refl _⟩) ?_
        rintro _ _ ⟨⟩ - -
        exact ⟨hmemory, fun h => nomatch h⟩
      | true =>
        rw [hhandler, if_pos rfl] at hwired
        obtain ⟨hkeeps, hopened, hnone⟩ := openPort_spec hwired
        rw [opens_newPort] at hopened hnone
        have hentry := congrArg (·.lookup s.freshAddress) hkeeps.heap
        dsimp only at hentry
        rw [AList.lookup_insert] at hentry
        obtain ⟨hsockets, htrace⟩ := noTrace_of_newPort hunref hlookup hfresh (by rfl) hentry
          (fun a ha => by
            rw [hkeeps.heap]
            dsimp only
            rw [AList.lookup_insert_ne ha, AList.lookup_insert_ne ha])
          hkeeps.portEntries hkeeps.mcStates
        by_cases hopens : s.Opens port o
        · refine iff_of_false (fun h => ?_) fun hclean => ?_
          · have hlt := hopened hopens
            rw [← hsockets, show s₂.sockets = s.sockets from h.sockets] at hlt
            exact lt_irrefl _ hlt
          · exact (hclean addrKind port rfl hlookup hslot).2 rfl hopens
        · obtain ⟨hkept, hchannels, hreceiving, hopen⟩ := hnone hopens
          refine iff_of_true (htrace ⟨hkept, hchannels, hreceiving, hopen⟩) ?_
          rintro _ _ ⟨⟩ - -
          exact ⟨hmemory, fun _ => hopens⟩

theorem getOrCreateMulticastSocket_spec
    (h : s.getOrCreateMulticastSocket port addrKind handler o = some (r, s')) : s.Keeps s' ∧
    if (∃ e ∈ s.sockets, e.kind = .multicast ∧ e.port = port ∧ e.addrKind = addrKind) then
      (∃ entry, r = .ok entry) ∧ s' = s
    else if o.opens then ∃ entry, r = .ok entry ∧ s'.sockets = s.sockets ++ [entry]
    else (∃ e, r = .error e) ∧ s.KeepsSockets s' := by
  unfold getOrCreateMulticastSocket at h
  split at h
  next e hfind =>
    cases h
    have hmem := List.mem_of_find?_eq_some hfind
    have hkind := List.find?_some hfind
    rw [if_pos ⟨e, hmem, of_decide_eq_true hkind⟩]
    exact ⟨.refl s, ⟨e, rfl⟩, rfl⟩
  next hfind =>
    rw [if_neg fun ⟨e, he, hkind⟩ => List.find?_eq_none.mp hfind e he (decide_eq_true hkind)]
    split at h
    next hfd =>
      cases h
      rw [if_neg (by rw [SocketOutcome.opens, hfd]; exact Bool.false_ne_true)]
      exact ⟨.refl s, ⟨_, rfl⟩, .refl s⟩
    next fd hfd => exact addSocket_spec hfd h

/-- **A failed join leaves no trace** exactly when the group's socket was there already, or could
not be opened. -/
theorem failed_join {group : Locator} {o : JoinOutcome} {e : UdpError}
    (hcall : s.joinMulticast group o = some (.error e, s')) :
    s.NoTrace s' ↔ s.JoinClean group o := by
  unfold joinMulticast at hcall
  unfold JoinClean
  cases hport : udpPort group with
  | none =>
    rw [hport] at hcall
    cases hcall
    exact iff_of_true (.refl s) fun _ _ h => nomatch h
  | some found =>
    obtain ⟨addrKind, port⟩ := found
    rw [hport] at hcall
    dsimp only at hcall
    cases hlookup : s.portEntries.lookup port with
    | none =>
      rw [hlookup] at hcall
      cases hcall
      refine iff_of_true (.refl s) ?_
      rintro _ _ ⟨⟩ hsome
      rw [hlookup] at hsome
      cases hsome
    | some pe =>
      rw [hlookup] at hcall
      obtain ⟨⟨r, s₁⟩, hsocket, hcall⟩ := Option.map_eq_some_iff.mp hcall
      obtain ⟨hkeeps, hspec⟩ := getOrCreateMulticastSocket_spec hsocket
      cases r with
      | error e' =>
        cases hcall
        split at hspec
        next =>
          obtain ⟨⟨_, h⟩, -⟩ := hspec
          cases h
        next hnew =>
          split at hspec
          next =>
            obtain ⟨_, h, -⟩ := hspec
            cases h
          next hopens =>
            refine iff_of_true (hkeeps.noTrace hspec.2) ?_
            rintro _ _ ⟨⟩ -
            exact .inr hopens
      | ok entry =>
        dsimp only at hcall
        split at hcall
        next => cases hcall
        next =>
          cases hcall
          split at hspec
          next hthere =>
            obtain ⟨-, rfl⟩ := hspec
            refine iff_of_true (.refl _) ?_
            rintro _ _ ⟨⟩ -
            exact .inl hthere
          next hnew =>
            split at hspec
            next hopens =>
              obtain ⟨_, -, hsockets⟩ := hspec
              refine iff_of_false (fun htrace => ?_) fun hclean => ?_
              · have hlen := congrArg List.length (hsockets.symm.trans htrace.sockets)
                rw [List.length_append, List.length_singleton] at hlen
                exact absurd hlen (Nat.succ_ne_self _)
              · have hisSome : (s.portEntries.lookup port).isSome := by
                  rw [hlookup, Option.isSome_some]
                exact (hclean addrKind port rfl hisSome).elim hnew fun h => h hopens
            next =>
              obtain ⟨⟨_, h⟩, -⟩ := hspec
              cases h

/-- **A failed call leaves no trace** exactly under these conditions on the calls that failed. -/
theorem failed_calls (s : UdpTransport) :
    (∀ locator h o e s', s.listenLocked locator h o = some (.error e, s') →
      (s.NoTrace s' ↔ s.ListenClean locator o)) ∧
    ∀ group o e s', s.joinMulticast group o = some (.error e, s') →
      (s.NoTrace s' ↔ s.JoinClean group o) :=
  ⟨fun _ _ _ _ _ => failed_listen, fun _ _ _ _ => failed_join⟩

/-- A transport that listens on nothing, without interfaces. -/
def idle : UdpTransport where
  metaPort := 7410
  dataPort := 7411

def metaLocator : Locator := .udpV4 ⟨[0, 0, 0, 0], rfl⟩ 7410

def opened : SocketOutcome where
  fd := some 5
  entry := some 1
  capacity := true
  channel := true
  started := true

/-- There is no memory for a handler, and no port to join a group on. -/
theorem failed_calls_idle :
    (∃ s', idle.listenLocked metaLocator ⟨1⟩
      ⟨true, true, false, opened, fun _ => opened, 0⟩ = some (.error .outOfMemory, s') ∧
        idle.NoTrace s') ∧
    ∃ s', idle.joinMulticast metaLocator ⟨opened, fun _ => true, fun _ => true, true⟩ =
      some (.error .noHandlerForPort, s') ∧ idle.NoTrace s' := by
  refine ⟨⟨_, rfl, ((failed_calls idle).1 metaLocator ⟨1⟩
      ⟨true, true, false, opened, fun _ => opened, 0⟩ .outOfMemory _ rfl).mpr ?_⟩,
    _, rfl, ((failed_calls idle).2 metaLocator
      ⟨opened, fun _ => true, fun _ => true, true⟩ .noHandlerForPort _ rfl).mpr ?_⟩
  · rintro _ _ ⟨⟩ - -
    exact ⟨rfl, fun h => nomatch h⟩
  · rintro _ _ ⟨⟩ h
    cases h

/-- The locators of a new port cannot be rebuilt, and its socket goes on receiving. -/
theorem not_noTrace : ¬ ∀ (s : UdpTransport) locator h o e s',
    s.listenLocked locator h o = some (.error e, s') → s.NoTrace s' := by
  intro h
  have htrace := h idle metaLocator ⟨1⟩ ⟨true, true, true, opened, fun _ => opened, 0⟩
    .outOfMemory _ rfl
  cases htrace.receiving

end UdpTransport

end Zzdds.Transport
