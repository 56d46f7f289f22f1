import CitpLib.Model.PeerInformationSocket
import CitpLib.Stream.Broadcast

/-!
# The library, and a network of programs that use it

A program creates one object of the library. It holds the peer information socket,
which announces the program and keeps the list of the peers heard of, and it passes
on the calls of the program and the signals of the socket.

The socket hears nothing before `init` has connected its slot to `readyRead`. Every
call of `init` that succeeds connects the slot once more, and it is then called as often
for one signal: its first call handles what is pending, and nothing is left for the others.

On a network of such programs a datagram reaches the multicast group. A program may
receive it late, more than once or not at all.

## Main definitions

* `CITPLib` — the object, with its functions
* `PeerInformationSocket.readyRead` — what a signal of the socket leads to
* `CITPLib.step` — a call, a timeout or a signal of the socket
* `discovery` — the programs of a network
-/

namespace CitpLib

open Wire

variable {Host : Type}

/-- What a signal of the socket leads to: the slot is called once for each connection, first
with the datagrams that are pending. -/
def PeerInformationSocket.readyRead (order : ByteOrder) (hostString : Host → QString) :
    ℕ → List (Option (Host × List UInt8)) → List (Peer Host) →
      Option (List (Peer Host) × List DiscoverySignal)
  | 0, _, peerList => some (peerList, [])
  | connections + 1, pending, peerList => do
    let (peerList, signals) ← handleReadReady order hostString pending peerList
    let (peerList, later) ← readyRead order hostString connections [] peerList
    return (peerList, signals ++ later)

/-- The object that a program creates. -/
structure CITPLib (Host : Type) where
  peerSocket : PeerInformationSocket
  /-- The peers that the socket has heard of. -/
  peerList : List (Peer Host)

/-- What happens to the object. What is pending comes with its sender, and the reading of
a datagram may fail. -/
inductive CITPLibEvent (Sender : Type)
  | createPeerInformationSocket (name state : QString) (results : InitResults)
  | timeout
  | readyRead (pending : List (Option (Sender × List UInt8)))

/-- What the program and the network see of it. -/
inductive CITPLibSignal
  | returned (result : Bool)
  | sent (datagram : List UInt8)
  | peersUpdated
  deriving DecidableEq, Repr

namespace CITPLib

/-- A new object: a socket that has not been initialised, and no peer known. -/
def new : CITPLib Host where
  peerSocket := .new
  peerList := []

/-- The object afterwards, the datagrams sent and the result. -/
def createPeerInformationSocket (order : ByteOrder) (name state : QString)
    (results : InitResults) (lib : CITPLib Host) : CITPLib Host × List (List UInt8) × Bool :=
  let (peerSocket, sent, result) := lib.peerSocket.init order name state results
  ({ lib with peerSocket := peerSocket }, sent, result)

/-- The peers listed so far, and the result `true`. -/
def listPeers (lib : CITPLib Host) : Bool × List (Peer Host) := CitpLib.listPeers lib.peerList

/-- One event. The signals of the socket are passed on. -/
def step (order : ByteOrder) (hostString : Host → QString) :
    Streaming.Transition (CITPLibEvent Host) (CITPLib Host) CITPLibSignal
  | .createPeerInformationSocket name state results, lib =>
    let (lib, sent, result) := lib.createPeerInformationSocket order name state results
    some (lib, sent.map .sent ++ [.returned result])
  | .timeout, lib =>
    if lib.peerSocket.timerActive then some (lib, lib.peerSocket.transmitPLoc.map .sent) else none
  | .readyRead pending, lib =>
    (PeerInformationSocket.readyRead order hostString lib.peerSocket.readyReadConnections pending
        lib.peerList).map fun (peerList, signals) =>
      ({ lib with peerList := peerList }, signals.map fun | .peersUpdated => .peersUpdated)

end CITPLib

/-! ## Networks -/

/-- The event with the addresses of its senders. -/
def CITPLibEvent.addressed {Node : Type} (address : Node → Host) :
    CITPLibEvent Node → CITPLibEvent Host
  | createPeerInformationSocket name state results =>
    createPeerInformationSocket name state results
  | timeout => timeout
  | readyRead pending => readyRead (pending.map fun d => d.map fun d => (address d.1, d.2))

/-- Programs that use the library, on the nodes of a network, with the addresses and the
byte orders of the nodes. -/
def discovery {Node : Type} (address : Node → Host) (order : Node → ByteOrder)
    (hostString : Host → QString) :
    Streaming.Protocol Node (CITPLibEvent Node) (CITPLib Host) CITPLibSignal (List UInt8) where
  step node event := CITPLib.step (order node) hostString (event.addressed address)
  takes
    | .readyRead pending => pending.reduceOption
    | _ => []
  sends
    | .sent datagram => some datagram
    | _ => none

end CitpLib
