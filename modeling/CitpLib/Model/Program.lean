import CitpLib.Model.CitpLib

/-!
# A program and its peers

The peers that the library lists are objects, and each of them has a socket of its own.
A program connects to some of them, and bytes arrive on these connections while the
library goes on hearing announcements and announcing the program.

A peer keeps its place in the list, for the list only grows. So a socket is known by the
place of its peer. What a new connection leaves of the bytes that were still in the socket
is the business of `QTcpSocket::connectToHost`, and a parameter here.

## Main definitions

* `SocketEvent`, `Peer.socketStep` — what happens on the socket of a peer
* `Program` — the library with the sockets of the peers listed
* `Program.step` — an event of the library or of a socket
-/

namespace CitpLib

open Wire

variable {Host : Type}

/-- What happens on the socket of a peer: a connection is made, or bytes arrive. -/
inductive SocketEvent
  | connected
  | readyRead (bytes : List UInt8)

/-- An event of the socket of a peer, on the peer and the bytes that stay in the socket. -/
def Peer.socketStep (order : ByteOrder) (char : PlainChar)
    (connectToHost : List UInt8 → List UInt8) :
    Streaming.Transition SocketEvent (Peer Host × List UInt8) Signal
  | .connected, (peer, buffered) => some ((peer, connectToHost buffered), [])
  | .readyRead bytes, socket => Peer.readyRead order char bytes socket

/-- The library, and what is in the sockets of the peers that it lists. -/
structure Program (Host : Type) where
  lib : CITPLib Host
  /-- The bytes that stay in the socket of the peer at a place of the list. -/
  buffered : ℕ → List UInt8

/-- An event of the library, or of the socket of the peer at a place of the list. -/
inductive ProgramEvent (Host : Type)
  | library (event : CITPLibEvent Host)
  | socket (place : ℕ) (event : SocketEvent)

/-- A signal of the library, or of the peer at a place of the list. -/
inductive ProgramSignal
  | library (signal : CITPLibSignal)
  | peer (place : ℕ) (signal : Signal)
  deriving DecidableEq, Repr

namespace Program

/-- A program that has done nothing yet. -/
def new : Program Host where
  lib := .new
  buffered := fun _ => []

/-- The program with what has become of the peer at a place and of its socket. -/
def setPeer (program : Program Host) (place : ℕ) (peer : Peer Host) (buffered : List UInt8) :
    Program Host where
  lib := { program.lib with peerList := program.lib.peerList.set place peer }
  buffered := Function.update program.buffered place buffered

/-- One event. There are sockets of the peers that are listed. -/
def step (order : ByteOrder) (char : PlainChar) (connectToHost : List UInt8 → List UInt8)
    (hostString : Host → QString) :
    Streaming.Transition (ProgramEvent Host) (Program Host) ProgramSignal
  | .library event, program =>
    (CITPLib.step order hostString event program.lib).map fun (lib, signals) =>
      ({ program with lib := lib }, signals.map .library)
  | .socket place event, program => do
    let peer ← program.lib.peerList[place]?
    let ((peer, buffered), signals) ←
      Peer.socketStep order char connectToHost event (peer, program.buffered place)
    return (program.setPeer place peer buffered, signals.map (.peer place))

end Program

end CitpLib
