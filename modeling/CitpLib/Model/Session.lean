import CitpLib.Model.Visualizer

/-!
# Sessions

A session is one connection, over which a program calls the functions of a
visualizer and a peer at the other end receives. Between the two lies the part of
the stream that is in flight. Calls, arrivals and the end of the connection come in
any order. The library does not listen for connections, so the peer at the other end
stands for a program that receives with the same code.

What the environment decides is part of the events: what `write` returns, and how
many bytes arrive at a time. A call of `write` returns at most the length it was
given, or -1. The byte orders of the two hosts are parameters. The length of a packet
is an `int`, so a session has only calls whose packets are shorter than 2^31 bytes.

## Main definitions

* `Session` — the state of a session
* `SessionEvent`, `SessionSignal` — what happens, and what the two programs see
* `Session.step` — one event
-/

namespace CitpLib

open Wire

/-- The state of the socket that the calls use, as far as they ask for it. -/
inductive LinkState
  | unconnected
  | connected
  | disconnected
  deriving DecidableEq, Repr

/-- A connection over which one program sends, with the peer that receives at its other end. -/
structure Session (Host : Type) where
  link : LinkState
  /-- The bytes that have been taken by the sending socket and have not arrived. -/
  inFlight : List UInt8
  /-- The peer at the other end. -/
  receiver : Peer Host
  /-- The bytes that have arrived and stay in its socket. -/
  buffered : List UInt8

/-- A session before its connection, with the peer that will receive. -/
def Session.new {Host : Type} (receiver : Peer Host) : Session Host where
  link := .unconnected
  inFlight := []
  receiver := receiver
  buffered := []

/-- What happens in a session. -/
inductive SessionEvent
  | connected
  | disconnected
  | call (call : VisualizerCall) (write : ℤ)
  /-- At most so many bytes of those in flight arrive. -/
  | arrive (n : ℕ)

/-- What the programs at the two ends see. -/
inductive SessionSignal
  /-- A call has returned, and the socket has taken these bytes of its packet. -/
  | returned (call : VisualizerCall) (result : Bool) (taken : List UInt8)
  | emitted (signal : Signal)

/-- One event of a session from a host of byte order `enc` to one of byte order `dec`. There
is one connection in it. -/
def Session.step {Host : Type} (enc dec : ByteOrder) (char : PlainChar) :
    Streaming.Transition SessionEvent (Session Host) SessionSignal
  | .connected, session =>
    if session.link = .unconnected then some ({ session with link := .connected }, []) else none
  | .disconnected, session =>
    if session.link = .connected then some ({ session with link := .disconnected }, [])
    else none
  | .call call write, session =>
    if -1 ≤ write ∧ write ≤ (call.request.create enc).len ∧
        (call.request.create enc).len < 2 ^ 31 then
      let (result, taken) := call.perform enc (session.link = .connected) write
      some ({ session with inFlight := session.inFlight ++ taken },
        [.returned call result taken])
    else none
  | .arrive n, session =>
    (Peer.readyRead dec char (session.inFlight.take n)
        (session.receiver, session.buffered)).map fun after =>
      ({ session with
          inFlight := session.inFlight.drop n
          receiver := after.1.1
          buffered := after.1.2 }, after.2.map .emitted)

end CitpLib
