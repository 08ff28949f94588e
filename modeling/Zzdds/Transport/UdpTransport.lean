import Zzdds.Lib.Table
import Zzdds.Rtps.Types
import Zzdds.Transport.TidyChannels

/-! # Listening on UDP ports

`listen` and `join_multicast` of `udp.zig`, each under the transport's lock from beginning to end.
Allocations and socket calls that can fail have their outcome among the inputs.  A `PortEntry` is
known by its address, and `heap` has those that are allocated; a map slot may be without one.
`openFds` and `receiving` are the sockets the system has open and those that something receives
on.

None is where the program stops, or reads a `PortEntry` that there is not. -/

namespace Zzdds.Transport

open Lib Rtps

abbrev Fd := ℕ

abbrev Address := ℕ

inductive AddrKind where
  | udpV4 | udpV6
deriving DecidableEq, Repr

inductive SocketKind where
  | unicast | multicast
deriving DecidableEq, Repr

inductive UdpError where
  | outOfMemory | unsupportedLocatorKind | tooManyHandlers | noHandlerForPort
  /-- A socket call failed. -/
  | socketFailed
deriving DecidableEq, Repr

structure IfAddr where
  kind : AddrKind
  ip : Bytes 16
deriving DecidableEq, Repr

/-- The IPv4 address in an address of sixteen bytes. -/
def ipv4 (ip : Bytes 16) : Bytes 4 := ⟨ip.val.drop 12, by rw [List.length_drop, ip.length_val]⟩

def wildcardIp : Bytes 16 := Bytes.zeroes 16

def loopbackIp : Bytes 16 := ⟨[0, 0, 0, 0, 0, 0, 0, 0, 0, 0, 0, 0, 127, 0, 0, 1], rfl⟩

def locatorOf (kind : AddrKind) (ip : Bytes 16) (port : UInt16) : Locator :=
  match kind with
  | .udpV4 => .udpV4 (ipv4 ip) port
  | .udpV6 => .udpV6 ip port

/-- The family and port of a locator this transport has. -/
def udpPort : Locator → Option (AddrKind × ℕ)
  | .udpV4 _ port => some (.udpV4, port.toNat)
  | .udpV6 _ port => some (.udpV6, port.toNat)
  | _ => none

/-- A handler, by what it is called with. -/
structure ReceiveHandler where
  ctx : ℕ
deriving DecidableEq, Repr

abbrev MAX_RECEIVE_HANDLERS : ℕ := 64

structure PortEntry where
  handlers : List ReceiveHandler := []
  refs : ℕ := 1
deriving DecidableEq, Repr

/-- A socket, and the address of the `PortEntry` that gets what it receives. -/
structure SocketEntry where
  address : Address
  fd : Fd
  port : ℕ
  kind : SocketKind
  addrKind : AddrKind
  boundIp : Bytes 16
  handler : Option Address
  channel : Channel
deriving DecidableEq, Repr

structure MulticastState where
  group : Locator
  v4Ifaces : List (Bytes 4) := []
  v6Joined : Bool := false
deriving DecidableEq, Repr

/-- The configuration that listening reads. -/
structure UdpConfig where
  ipv4Enabled : Bool := true
  ipv6Enabled : Bool := true
  bindWildcard : Bool := false
deriving DecidableEq, Repr

structure UdpTransport where
  config : UdpConfig := {}
  metaPort : UInt16
  dataPort : UInt16
  portEntries : Table ℕ (Option Address) := ∅
  heap : Table Address PortEntry := ∅
  sockets : List SocketEntry := []
  channels : TidyTable Address := .empty
  mcStates : List MulticastState := []
  locatorsCache : List Locator := []
  activeIfaces : List IfAddr := []
  reservedMetaFd : Option Fd := none
  reservedDataFd : Option Fd := none
  openFds : List Fd := []
  receiving : List Fd := []

def UdpConfig.enabled (config : UdpConfig) : AddrKind → Bool
  | .udpV4 => config.ipv4Enabled
  | .udpV6 => config.ipv6Enabled

/-! ### Sockets -/

/-- What the calls that open a socket give, in their order. -/
structure SocketOutcome where
  /-- The socket created and bound. -/
  fd : Option Fd
  /-- The memory of its entry. -/
  entry : Option Address
  /-- Whether `sockets` has room. -/
  capacity : Bool
  /-- Whether `channels` has a slot. -/
  channel : Bool
  /-- Whether it starts to receive. -/
  started : Bool
deriving DecidableEq, Repr

namespace UdpTransport

variable (s : UdpTransport)

/-- Receive on a socket, or close it. -/
def addSocketFromFd (fd : Fd) (kind : SocketKind) (addrKind : AddrKind) (boundIp : Bytes 16)
    (port : ℕ) (handler : Option Address) (o : SocketOutcome) :
    Option (Except UdpError SocketEntry × UdpTransport) :=
  let failed (e : UdpError) (channels : TidyTable Address) :
      Except UdpError SocketEntry × UdpTransport :=
    (.error e, { s with channels := channels, openFds := s.openFds.erase fd })
  match o.entry with
  | none => some (failed .outOfMemory s.channels)
  | some address =>
      if !o.capacity || !o.channel then some (failed .outOfMemory s.channels)
      else
        (s.channels.insert true address).bind fun (channels, c) => c.bind fun c =>
          if o.started then
            let entry : SocketEntry :=
              { address := address
                fd := fd
                port := port
                kind := kind
                addrKind := addrKind
                boundIp := boundIp
                handler := handler
                channel := c }
            some (.ok entry, { s with
              channels := channels
              sockets := s.sockets ++ [entry]
              receiving := fd :: s.receiving })
          else
            (channels.close c).bind fun (channels, freed) => freed.map fun _ =>
              failed .socketFailed channels

def addUnicastSocketFromFd (fd : Fd) (addrKind : AddrKind) (boundIp : Bytes 16) (port : ℕ)
    (handler : Option Address) (o : SocketOutcome) :
    Option (Except UdpError SocketEntry × UdpTransport) :=
  s.addSocketFromFd fd .unicast addrKind boundIp port handler o

def addUnicastSocket (addrKind : AddrKind) (boundIp : Bytes 16) (port : ℕ)
    (handler : Option Address) (o : SocketOutcome) :
    Option (Except UdpError SocketEntry × UdpTransport) :=
  match o.fd with
  | none => some (.error .socketFailed, s)
  | some fd => { s with openFds := fd :: s.openFds }.addUnicastSocketFromFd fd addrKind boundIp port
      handler o

def getOrCreateMulticastSocket (port : ℕ) (addrKind : AddrKind) (handler : Option Address)
    (o : SocketOutcome) : Option (Except UdpError SocketEntry × UdpTransport) :=
  match s.sockets.find? fun e => e.kind = .multicast ∧ e.port = port ∧ e.addrKind = addrKind with
  | some e => some (.ok e, s)
  | none =>
      match o.fd with
      | none => some (.error .socketFailed, s)
      | some fd => { s with openFds := fd :: s.openFds }.addSocketFromFd fd .multicast addrKind
          wildcardIp port handler o

/-- Open these unicast sockets, whether or not each can be. -/
def addUnicastSockets (port : ℕ) (handler : Option Address) :
    List (AddrKind × Bytes 16) → (ℕ → SocketOutcome) → UdpTransport → Option UdpTransport
  | [], _, s => some s
  | (addrKind, ip) :: rest, o, s =>
      (s.addUnicastSocket addrKind ip port handler (o 0)).bind fun (_, s) =>
        addUnicastSockets port handler rest (fun i => o (i + 1)) s

/-! ### Locators -/

/-- A socket bound to every address of a family serves the metatraffic port. -/
def hasWildcard (addrKind : AddrKind) : Bool :=
  s.sockets.any fun e => e.kind = .unicast ∧ e.port = s.metaPort.toNat ∧ e.boundIp = wildcardIp ∧
    e.addrKind = addrKind

/-- The addresses that sockets are bound to. -/
def boundLocators : List Locator :=
  s.sockets.filterMap fun e =>
    if e.kind = .unicast ∧ e.port = s.metaPort.toNat ∧ e.boundIp ≠ wildcardIp then
      some (locatorOf e.addrKind e.boundIp s.metaPort)
    else none

/-- The addresses of the interfaces, where sockets bound to every address serve them. -/
def ifaceLocators : List Locator :=
  let anyWildcard := s.hasWildcard .udpV4 || s.hasWildcard .udpV6
  s.activeIfaces.filterMap fun ia =>
    if !s.config.enabled ia.kind then none
    else if anyWildcard && !s.hasWildcard ia.kind then none
    else some (locatorOf ia.kind ia.ip s.metaPort)

/-- `room` is how many locators there is memory for; without room for it, the loopback locator is
left out. -/
def rebuildLocatorsLocked (room : ℕ) : Except UdpError Unit × UdpTransport :=
  let bound := s.boundLocators
  let fromIfaces := bound.isEmpty || s.hasWildcard .udpV4 || s.hasWildcard .udpV6
  let locators := bound ++ if fromIfaces then s.ifaceLocators else []
  if room < locators.length then
    (.error .outOfMemory, { s with locatorsCache := locators.take room })
  else
    let loopback := locatorOf .udpV4 loopbackIp s.metaPort
    (.ok (), { s with locatorsCache :=
      if s.config.ipv4Enabled ∧ loopback ∉ locators ∧ locators.length < room then
        locators ++ [loopback]
      else locators })

/-! ### Listening -/

def addHandler (pe : PortEntry) (h : ReceiveHandler) (memory : Bool) : Except UdpError PortEntry :=
  if MAX_RECEIVE_HANDLERS ≤ pe.handlers.length then .error .tooManyHandlers
  else if memory then .ok { pe with handlers := pe.handlers ++ [h] }
  else .error .outOfMemory

/-- An address that nothing is allocated at. -/
def freshAddress : Address := s.heap.keys.foldr max 0 + 1

/-- The last reference frees the entry. -/
def unref (pe : Address) : Option UdpTransport :=
  (s.heap.lookup pe).bind fun entry => (Trapping.sub entry.refs 1).map fun refs =>
    if refs = 0 then { s with heap := s.heap.erase pe }
    else { s with heap := s.heap.insert pe { entry with refs := refs } }

def takeReservedFd (port : ℕ) : Option (Fd × UdpTransport) :=
  if port = s.metaPort.toNat then
    s.reservedMetaFd.map fun fd => (fd, { s with reservedMetaFd := none })
  else if port = s.dataPort.toNat then
    s.reservedDataFd.map fun fd => (fd, { s with reservedDataFd := none })
  else none

/-- The sockets opened beside a reserved one. -/
def besideReserved : List (AddrKind × Bytes 16) :=
  if !s.config.ipv6Enabled then []
  else if s.config.bindWildcard then [(.udpV6, wildcardIp)]
  else (s.activeIfaces.filter (·.kind = .udpV6)).map fun ia => (ia.kind, ia.ip)

/-- The sockets opened for a port that none is reserved for. -/
def unreserved : List (AddrKind × Bytes 16) :=
  if s.config.bindWildcard then
    (if s.config.ipv4Enabled then [(.udpV4, wildcardIp)] else []) ++
      if s.config.ipv6Enabled then [(.udpV6, wildcardIp)] else []
  else
    (s.activeIfaces.filter fun ia => s.config.enabled ia.kind).map (fun ia => (ia.kind, ia.ip)) ++
      if s.config.ipv4Enabled then [(.udpV4, loopbackIp)] else []

/-- What the calls that listen on a port give. -/
structure ListenOutcome where
  /-- Whether the map takes a new port. -/
  mapSlot : Bool
  /-- Whether there is memory for a `PortEntry`. -/
  portEntry : Bool
  /-- Whether there is memory for a handler. -/
  handler : Bool
  reserved : SocketOutcome
  sockets : ℕ → SocketOutcome
  /-- How many locators there is memory for. -/
  locators : ℕ

/-- Open the sockets of a new port. -/
def openPort (port : ℕ) (pe : Address) (o : ListenOutcome) :
    Option (Except UdpError Unit × UdpTransport) :=
  match s.takeReservedFd port with
  | some (fd, s) =>
      (s.addUnicastSocketFromFd fd .udpV4 wildcardIp port (some pe) o.reserved).bind fun
        | (.error e, s) => some (.error e, s)
        | (.ok _, s) => (addUnicastSockets port (some pe) s.besideReserved o.sockets s).map fun s =>
            s.rebuildLocatorsLocked o.locators
  | none => (addUnicastSockets port (some pe) s.unreserved o.sockets s).map fun s =>
      s.rebuildLocatorsLocked o.locators

def listenLocked (locator : Locator) (handler : ReceiveHandler) (o : ListenOutcome) :
    Option (Except UdpError Unit × UdpTransport) :=
  match udpPort locator with
  | none => some (.error .unsupportedLocatorKind, s)
  | some (_, port) =>
      match s.portEntries.lookup port with
      | some pe => pe.bind fun pe => (s.heap.lookup pe).map fun entry =>
          match addHandler entry handler o.handler with
          | .error e => (.error e, s)
          | .ok entry => (.ok (), { s with heap := s.heap.insert pe entry })
      | none =>
          if !o.mapSlot then some (.error .outOfMemory, s)
          else if !o.portEntry then
            some (.error .outOfMemory, { s with portEntries := s.portEntries.insert port none })
          else
            let pe := s.freshAddress
            let added : UdpTransport := { s with
              portEntries := s.portEntries.insert port (some pe)
              heap := s.heap.insert pe {} }
            let wired : Option (Except UdpError Unit × UdpTransport) :=
              match addHandler {} handler o.handler with
              | .error e => some (.error e, added)
              | .ok entry => { added with heap := added.heap.insert pe entry }.openPort port pe o
            wired.bind fun
              | (.ok (), s) => some (.ok (), s)
              | (.error e, s) => (s.unref pe).map fun s =>
                  (.error e, { s with portEntries := s.portEntries.erase port })

/-! ### Joining a group -/

/-- What the calls that join a group give: for each interface, whether it joins and whether there is
memory to note it. -/
structure JoinOutcome where
  socket : SocketOutcome
  joined : ℕ → Bool
  noted : ℕ → Bool
  /-- Whether `mc_states` has room. -/
  state : Bool

def joinedState (group : Locator) (addrKind : AddrKind) (o : JoinOutcome) : MulticastState :=
  let joined := s.activeIfaces.zipIdx.filter fun (ia, i) => ia.kind = addrKind ∧ o.joined i
  { group := group
    v4Ifaces := (joined.filter fun (_, i) => addrKind = .udpV4 ∧ o.noted i).map fun (ia, _) =>
      ipv4 ia.ip
    v6Joined := addrKind = .udpV6 ∧ joined ≠ [] }

def joinMulticast (group : Locator) (o : JoinOutcome) :
    Option (Except UdpError Unit × UdpTransport) :=
  match udpPort group with
  | none => some (.error .unsupportedLocatorKind, s)
  | some (addrKind, port) =>
      match s.portEntries.lookup port with
      | none => some (.error .noHandlerForPort, s)
      | some pe => (s.getOrCreateMulticastSocket port addrKind pe o.socket).map fun
          | (.error e, s) => (.error e, s)
          | (.ok _, s) =>
              if o.state then
                (.ok (), { s with mcStates := s.mcStates ++ [s.joinedState group addrKind o] })
              else (.error .outOfMemory, s)

end UdpTransport

end Zzdds.Transport
