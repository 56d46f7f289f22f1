import CitpLib.Model.PacketCreator
import CitpLib.Model.Peer

/-!
# Discovery

Peers announce themselves by datagrams on a multicast group. The peer
information socket keeps one list of the peers it has heard of: an announcement
from a host and port that are in the list already is ignored, any other one
appends a peer. It also announces its own peer: `init` makes a packet, sends it
and starts a timer that sends it again.

Like `parsePacket`, `processPacket` casts the datagram to a packed structure and
scans it for terminators without looking at its size: it is a `Wire.Reader`. The
text of a host address, by which peers are compared, is a parameter. So is what
the calls that `init` depends on return.

## Main definitions

* `Peer.peerHost`, `Visualizer.new` — what the list is searched for and holds
* `addPeer` — the effect of an announcement
* `processPacket` — the effect of a datagram
* `processPackets`, `handleReadReady` — runs over several datagrams
* `PeerInformationSocket` — the members by which the socket announces its peer
* `PeerInformationSocket.init`, `PeerInformationSocket.transmitPLoc` — the
  announcements
* `PeerInformationSocket.announce` — a run of calls of `init` and timeouts
-/

namespace CitpLib

open Wire

variable {Host : Type}

/-- The host of a peer as a text, given the text of an address. -/
def Peer.peerHost (hostString : Host → QString) (peer : Peer Host) : QString :=
  hostString peer.host

/-- The constructor of `Visualizer`: a peer of that type. -/
def Visualizer.new (host : Host) (listeningPort : UInt16) (peerName peerState : QString) :
    Peer Host :=
  { Peer.new host listeningPort peerName peerState with peerType := .visualizerPeer }

/-- The signals of the peer information socket. -/
inductive DiscoverySignal
  | peersUpdated
  deriving DecidableEq, Repr

/-! ## Announcements -/

/-- Add a peer unless one with this host and port is known: the list afterwards
and the signals emitted. -/
def addPeer (hostString : Host → QString) (host : Host) (listeningPort : UInt16)
    (typeString name state : QString) (peerList : List (Peer Host)) :
    List (Peer Host) × List DiscoverySignal :=
  if peerList.any fun peer =>
      peer.peerHost hostString == hostString host && peer.listeningPort == listeningPort then
    (peerList, [])
  else
    let newPeer :=
      if typeString = .ofLiteral "Visualizer" then Visualizer.new host listeningPort name state
      else Peer.new host listeningPort name state
    (peerList ++ [newPeer], [.peersUpdated])

/-- Process a datagram from `address`. The size of the datagram plays no part. -/
def processPacket (order : ByteOrder) (hostString : Host → QString) (address : Host)
    (peerList : List (Peer Host)) : Reader (List (Peer Host) × List DiscoverySignal) := do
  let cookie ← Reader.field order 4 CitpHeader.cookie
  if cookie ≠ cookieCitp then
    return (peerList, [])
  else
    let versionMajor ← Reader.field order 1 CitpHeader.versionMajor
    if versionMajor ≠ 0x01 then
      return (peerList, [])
    else
      let versionMinor ← Reader.field order 1 CitpHeader.versionMinor
      if versionMinor ≠ 0x00 then
        return (peerList, [])
      else
        let contentType ← Reader.field order 4 CitpHeader.contentType
        if contentType ≠ cookiePinf then
          return (peerList, [])
        else
          let messageType ← Reader.field order 4 CitpPinfHeader.contentType
          if messageType ≠ cookiePinfPLoc then
            return (peerList, [])
          else
            -- a peer that does not listen announces port 0 and is listed too
            let listeningPort ← Reader.field order 2 CitpPinfPLoc.listeningTcpPort
            let typeOffset := CitpPinfPLoc.sizeof
            let typeChars ← Reader.cstring typeOffset
            let typeString := QString.ofChars typeChars
            let nameOffset := typeOffset + (typeString.length + 1)
            let nameChars ← Reader.cstring nameOffset
            let nameString := QString.ofChars nameChars
            let stateOffset := nameOffset + (nameString.length + 1)
            let stateChars ← Reader.cstring stateOffset
            let stateString := QString.ofChars stateChars
            return addPeer hostString address (UInt16.ofNat listeningPort) typeString nameString
              stateString peerList

/-! ## Runs -/

/-- Process datagrams, each with its sender, one after the other: the list
afterwards and all signals emitted, unless a read falls outside. -/
def processPackets (order : ByteOrder) (hostString : Host → QString)
    (datagrams : List (Host × List UInt8)) (peerList : List (Peer Host)) :
    Option (List (Peer Host) × List DiscoverySignal) :=
  Streaming.run (fun d peerList => (processPacket order hostString d.1 peerList).value d.2)
    datagrams peerList

/-- The loop over the pending datagrams, where `none` is one whose reading fails. -/
def handleReadReady (order : ByteOrder) (hostString : Host → QString) :
    List (Option (Host × List UInt8)) → List (Peer Host) →
      Option (List (Peer Host) × List DiscoverySignal)
  | [], peerList => some (peerList, [])
  | none :: pending, peerList => handleReadReady order hostString pending peerList
  | some (sender, datagram) :: pending, peerList => do
    let (peerList, signals) ← (processPacket order hostString sender peerList).value datagram
    let (peerList, later) ← handleReadReady order hostString pending peerList
    return (peerList, signals ++ later)

/-- The peers heard of so far. -/
def listPeers (peerList : List (Peer Host)) : Bool × List (Peer Host) := (true, peerList)

/-! ## The announcement of the peer itself -/

/-- What the calls that `init` depends on return. -/
structure InitResults where
  bind : Bool
  setsockopt : ℤ
  /-- Whether `createPLocPacket` returns a packet, not `NULL`. -/
  packetCreated : Bool
  deriving DecidableEq, Repr

/-- The members by which the socket announces its peer. The list of the peers heard of
is kept apart. -/
structure PeerInformationSocket where
  name : QString
  state : QString
  /-- Whether the timer runs. -/
  timerActive : Bool
  packetBuffer : Option (Buffer UInt8)
  packetBufferLen : ℕ
  /-- How often `readyRead` is connected to `handleReadReady`. -/
  readyReadConnections : ℕ
  deriving DecidableEq

namespace PeerInformationSocket

/-- The constructor. The timer is created, and not started. -/
def new : PeerInformationSocket where
  name := .ofLiteral "Unknown name"
  state := .ofLiteral "Unknown state"
  timerActive := false
  packetBuffer := none
  packetBufferLen := 0
  readyReadConnections := 0

/-- The datagrams handed to `writeDatagram`, whose result is only logged. -/
def transmitPLoc (socket : PeerInformationSocket) : List (List UInt8) :=
  match socket.packetBuffer with
  | none => []
  | some packet =>
    if socket.packetBufferLen > 0 then [packet.contents.take socket.packetBufferLen] else []

/-- The socket afterwards, the datagrams sent and the result. The timer exists since
the constructor. -/
def init (order : ByteOrder) (name state : QString) (results : InitResults)
    (socket : PeerInformationSocket) : PeerInformationSocket × List (List UInt8) × Bool :=
  let socket := { socket with timerActive := false }
  let socket := { socket with name := name, state := state }
  if results.bind = false then
    (socket, [], false)
  else if 0 ≠ results.setsockopt then
    (socket, [], false)
  -- the packet at hand has been deleted when the creation of the new one fails
  else if results.packetCreated = false then
    ({ socket with packetBuffer := none, packetBufferLen := 0 }, [], false)
  else
    let packet := createPLocPacket order .lightingConsole name state
    let socket := { socket with packetBuffer := some packet, packetBufferLen := packet.len }
    let sent := socket.transmitPLoc
    let socket := { socket with readyReadConnections := socket.readyReadConnections + 1 }
    ({ socket with timerActive := true }, sent, true)

/-- What happens to the announcing half of the socket. -/
inductive AnnouncerEvent
  | init (name state : QString) (results : InitResults)
  | timeout
  deriving DecidableEq, Repr

/-- An event and the datagrams sent. Only a timer that runs times out. -/
def step (order : ByteOrder) :
    Streaming.Transition AnnouncerEvent PeerInformationSocket (List UInt8)
  | .init name state results, socket =>
    let (socket, sent, _) := socket.init order name state results
    some (socket, sent)
  | .timeout, socket => if socket.timerActive then some (socket, socket.transmitPLoc) else none

/-- Events one after the other: the socket afterwards and all datagrams sent. -/
def announce (order : ByteOrder) (events : List AnnouncerEvent) (socket : PeerInformationSocket) :
    Option (PeerInformationSocket × List (List UInt8)) :=
  Streaming.run (step order) events socket

end PeerInformationSocket

end CitpLib
