import CitpLib.Model.Program
import CitpLib.Theorems.FixtureTable
import CitpLib.Theorems.Library
import CitpLib.Theorems.Receiver

/-!
# A run of a program

While a program listens for announcements, bytes arrive on the connections of the peers
that it lists already. The two do not disturb each other. What the library lists, sends and
signals is what it would without the connections, and each peer is what it would be alone
with its own connections, in whatever order all of it happens.

The reason is that messages never change the host and the port of a peer, and that an
announcement looks at nothing else.

## Main definitions

* `libraryEvents`, `socketEvents` — the events of the parts
* `librarySignals`, `peerSignals` — and their signals
* `Program.Parts` — what a run has made of the parts

## Main results

* `CITPLib.step_congr` — the library looks at the hosts and the ports of peers only
* `connections_run` — what a peer makes of its connections
* `program_run` — a run is one of each part
-/

namespace CitpLib

open Wire Streaming

variable {Host : Type} {order : ByteOrder} {char : PlainChar}
  {connectToHost : List UInt8 → List UInt8} {hostString : Host → QString}
  {lib lib' after : CITPLib Host} {program : Program Host} {place : ℕ}
  {events : List (ProgramEvent Host)} {signals : List ProgramSignal}

@[simp] theorem peerList_setPeer (program : Program Host) (place : ℕ) (peer : Peer Host)
    (buffered : List UInt8) :
    (program.setPeer place peer buffered).lib.peerList = program.lib.peerList.set place peer :=
  rfl

@[simp] theorem buffered_setPeer (program : Program Host) (place : ℕ) (peer : Peer Host)
    (buffered : List UInt8) :
    (program.setPeer place peer buffered).buffered =
      Function.update program.buffered place buffered :=
  rfl

/-! ## The parts of a run -/

/-- The events of the library. -/
def libraryEvents (events : List (ProgramEvent Host)) : List (CITPLibEvent Host) :=
  events.filterMap fun
    | .library event => some event
    | .socket .. => none

/-- The events of the sockets, each with the place of its peer. -/
def socketEvents (events : List (ProgramEvent Host)) : List (ℕ × SocketEvent) :=
  events.filterMap fun
    | .library _ => none
    | .socket place event => some (place, event)

/-- The signals of the library. -/
def librarySignals (signals : List ProgramSignal) : List CITPLibSignal :=
  signals.filterMap fun
    | .library signal => some signal
    | .peer .. => none

/-- The signals of the peers, each with the place of the peer. -/
def peerSignals (signals : List ProgramSignal) : List (ℕ × Signal) :=
  signals.filterMap fun
    | .library _ => none
    | .peer place signal => some (place, signal)

theorem librarySignals_append (signals signals' : List ProgramSignal) :
    librarySignals (signals ++ signals') = librarySignals signals ++ librarySignals signals' :=
  List.filterMap_append

theorem peerSignals_append (signals signals' : List ProgramSignal) :
    peerSignals (signals ++ signals') = peerSignals signals ++ peerSignals signals' :=
  List.filterMap_append

theorem signals_map_library (emitted : List CITPLibSignal) :
    librarySignals (emitted.map .library) = emitted ∧ peerSignals (emitted.map .library) = [] := by
  induction emitted with
  | nil => exact ⟨rfl, rfl⟩
  | cons signal emitted ih => exact ⟨congrArg (signal :: ·) ih.1, ih.2⟩

theorem signals_map_peer (place : ℕ) (emitted : List Signal) :
    librarySignals (emitted.map (.peer place)) = [] ∧
      peerSignals (emitted.map (.peer place)) = emitted.map (Prod.mk place) := by
  induction emitted with
  | nil => exact ⟨rfl, rfl⟩
  | cons signal emitted ih => exact ⟨ih.1, congrArg ((place, signal) :: ·) ih.2⟩

/-! ## What the parts look at -/

theorem growth_append_eq (peerList new : List (Peer Host)) :
    growth peerList (peerList ++ new) = List.replicate new.length .peersUpdated := by
  rw [growth, List.length_append, Nat.add_sub_cancel_left]

/-- **The library looks at the hosts and the ports of peers only.** With other peers that have
the same ones, an event does the same: it appends the same peers to the list. -/
theorem CITPLib.step_congr {event : CITPLibEvent Host} {emitted : List CITPLibSignal}
    (hsocket : lib.peerSocket = lib'.peerSocket)
    (hkeys : lib.peerList.map (Peer.key hostString) = lib'.peerList.map (Peer.key hostString))
    (h : CITPLib.step order hostString event lib = some (after, emitted)) :
    ∃ new, after.peerList = lib.peerList ++ new ∧
      CITPLib.step order hostString event lib' =
        some (⟨after.peerSocket, lib'.peerList ++ new⟩, emitted) := by
  cases event with
  | createPeerInformationSocket name state results =>
    simp only [CITPLib.step, CITPLib.createPeerInformationSocket, Option.some.injEq] at h ⊢
    obtain ⟨rfl, rfl⟩ := Prod.mk.inj h
    refine ⟨[], (List.append_nil _).symm, ?_⟩
    rw [hsocket, List.append_nil]
  | timeout =>
    simp only [CITPLib.step, Option.ite_none_right_eq_some, Option.some.injEq] at h ⊢
    obtain ⟨htimer, h⟩ := h
    obtain ⟨rfl, rfl⟩ := Prod.mk.inj h
    refine ⟨[], (List.append_nil _).symm, hsocket ▸ htimer, ?_⟩
    rw [hsocket, List.append_nil]
  | readyRead pending =>
    simp only [CITPLib.step, Option.map_eq_some_iff, Prod.mk.injEq] at h
    obtain ⟨⟨peerList, handled⟩, hread, rfl, rfl⟩ := h
    rw [CITPLib.step, ← hsocket]
    by_cases hconnected : 0 < lib.peerSocket.readyReadConnections
    · rw [readyRead_connections hconnected] at hread ⊢
      obtain ⟨hlong, rfl, rfl⟩ := insertAll_of_processPackets hread
      obtain ⟨new, hnew, hnew'⟩ :=
        Table.insertAll_congr hkeys (announced order pending.reduceOption)
      refine ⟨new, hnew, ?_⟩
      rw [processPackets_eq hlong, hnew, hnew', growth_append_eq, growth_append_eq,
        Option.map_some]
    · rw [Nat.eq_zero_of_not_pos hconnected, PeerInformationSocket.readyRead] at hread ⊢
      obtain ⟨rfl, rfl⟩ := Prod.mk.inj (Option.some.inj hread)
      refine ⟨[], (List.append_nil _).symm, ?_⟩
      rw [List.append_nil, Option.map_some]

theorem key_foldl_patched (hostString : Host → QString) (peer : Peer Host)
    (fixtures : List Fixture) :
    (fixtures.foldl Peer.patched peer).key hostString = peer.key hostString := by
  induction fixtures generalizing peer with
  | nil => rfl
  | cons fix fixtures ih => exact ih (peer.patched fix)

/-- Nothing that arrives changes the host and the port of a peer. -/
theorem key_socketStep {event : SocketEvent} {peer peer' : Peer Host} {before buffered : List UInt8}
    {emitted : List Signal}
    (h : Peer.socketStep order char connectToHost event (peer, before) =
      some ((peer', buffered), emitted)) :
    peer'.key hostString = peer.key hostString := by
  cases event with
  | connected =>
    obtain ⟨rfl, rfl⟩ := Prod.mk.inj (Prod.mk.inj (Option.some.inj h)).1
    rfl
  | readyRead bytes =>
    obtain ⟨es, -, hparsed⟩ := readyRead_eq_some_iff.mp h
    rw [parsePackets_effect hparsed]
    exact key_foldl_patched hostString peer _

/-! ## Connections of one peer -/

/-- What a connection makes of a peer, given the stream that comes over it. What is incomplete
at its end is lost with the socket's bytes. -/
def Peer.connection (order : ByteOrder) (char : PlainChar) :
    Transition (List UInt8) (Peer Host) Signal := fun stream peer =>
  (Peer.readyRead order char stream (peer, [])).map fun after => (after.1.1, after.2)

/-- Connections one after the other, each with its deliveries. -/
def connectionEvents (connections : List (List (List UInt8))) : List SocketEvent :=
  connections.flatMap fun cs => .connected :: cs.map .readyRead

/-- The deliveries of one connection are one delivery to an empty socket. -/
theorem run_connection (hconnect : ∀ buffered, connectToHost buffered = []) (peer : Peer Host)
    (before : List UInt8) (cs : List (List UInt8)) :
    run (Peer.socketStep order char connectToHost) (.connected :: cs.map .readyRead)
        (peer, before) =
      Peer.readyRead order char cs.flatten (peer, []) := by
  rw [run_cons, Peer.socketStep, hconnect, Option.bind_some, run_map]
  change ((run (Peer.readyRead order char) cs (peer, [])).bind fun rest => some rest) = _
  rw [Option.bind_fun_some, run_readyRead]

/-- **What a peer makes of its connections**, if a new connection finds nothing in the socket,
depends on the streams that come over them only, and on these one by one: not on their
deliveries, and what one connection leaves incomplete plays no part in the next. -/
theorem connections_run (order : ByteOrder) (char : PlainChar)
    (connectToHost : List UInt8 → List UInt8) (hconnect : ∀ buffered, connectToHost buffered = [])
    (connections : List (List (List UInt8))) (peer : Peer Host) (before : List UInt8) :
    (run (Peer.socketStep order char connectToHost) (connectionEvents connections)
        (peer, before)).map (fun after => (after.1.1, after.2)) =
      run (Peer.connection order char) (connections.map List.flatten) peer := by
  induction connections generalizing peer before with
  | nil => rfl
  | cons cs connections ih =>
    rw [connectionEvents, List.flatMap_cons, ← connectionEvents, run_append,
      run_connection hconnect, List.map_cons, run_cons, Peer.connection]
    cases hfirst : Peer.readyRead order char cs.flatten (peer, []) with
    | none => rfl
    | some first =>
      obtain ⟨⟨after, buffered⟩, emitted⟩ := first
      rw [Option.bind_some, Option.map_some, Option.bind_some, ← ih after buffered]
      cases run (Peer.socketStep order char connectToHost) (connectionEvents connections)
        (after, buffered) <;> rfl

/-- A connection that ends within a message, and one that brings a message in two pieces. -/
theorem connections_run_cut :
    (run (Peer.socketStep .little .signed fun _ => []) (connectionEvents
        [[((Request.uPtc [7]).create .little).contents.take 20],
          [((Request.uPtc [9]).create .little).contents.take 20,
            ((Request.uPtc [9]).create .little).contents.drop 20]])
        (Peer.new () 0 [] [], [])).map (fun after => (after.1.1, after.2)) =
      some (Peer.new () 0 [] [], [.unpatchFixtures [9]]) :=
  (connections_run .little .signed (fun _ => []) (fun _ => rfl) _ _ _).trans (by decide)

/-! ## One event -/

/-- What a run has made of the parts: the library `lib` is the one without the connections. -/
structure Program.Parts (order : ByteOrder) (char : PlainChar)
    (connectToHost : List UInt8 → List UInt8) (hostString : Host → QString)
    (events : List (ProgramEvent Host)) (signals : List ProgramSignal) (program : Program Host)
    (lib : CITPLib Host) : Prop where
  runs : run (CITPLib.step order hostString) (libraryEvents events) .new =
    some (lib, librarySignals signals)
  peerSocket : program.lib.peerSocket = lib.peerSocket
  keys : program.lib.peerList.map (Peer.key hostString) =
    lib.peerList.map (Peer.key hostString)
  listed : ∀ place peer, lib.peerList[place]? = some peer →
    ∃ peer', program.lib.peerList[place]? = some peer' ∧
      run (Peer.socketStep order char connectToHost) (projected place (socketEvents events))
          (peer, []) =
        some ((peer', program.buffered place), projected place (peerSignals signals))
  unlisted : ∀ place, lib.peerList.length ≤ place →
    projected place (socketEvents events) = [] ∧ program.buffered place = [] ∧
      projected place (peerSignals signals) = []

theorem Program.Parts.length_eq
    (h : Program.Parts order char connectToHost hostString events signals program lib) :
    program.lib.peerList.length = lib.peerList.length := by
  have hlen := congrArg List.length h.keys
  rwa [List.length_map, List.length_map] at hlen

theorem Program.Parts.library
    (h : Program.Parts order char connectToHost hostString events signals program lib)
    {event : CITPLibEvent Host} {emitted : List CITPLibSignal}
    (hstep : CITPLib.step order hostString event program.lib = some (after, emitted)) :
    ∃ lib', Program.Parts order char connectToHost hostString (events ++ [.library event])
      (signals ++ emitted.map .library) { program with lib := after } lib' := by
  obtain ⟨new, hnew, halone⟩ := CITPLib.step_congr h.peerSocket h.keys hstep
  obtain ⟨hlibrary, hpeers⟩ := signals_map_library emitted
  have hlen := h.length_eq
  have hevents : socketEvents (events ++ [.library event]) = socketEvents events := by
    rw [socketEvents, List.filterMap_append]
    exact List.append_nil _
  refine ⟨⟨after.peerSocket, lib.peerList ++ new⟩, ?_, rfl, ?_, ?_, ?_⟩
  · rw [librarySignals_append, hlibrary, libraryEvents, List.filterMap_append]
    exact run_concat h.runs halone
  · rw [hnew, List.map_append, List.map_append, h.keys]
  · intro place peer hpeer
    rw [hevents, peerSignals_append, hpeers, List.append_nil, hnew]
    by_cases hplace : place < lib.peerList.length
    · rw [List.getElem?_append_left hplace] at hpeer
      rw [List.getElem?_append_left (hlen ▸ hplace)]
      exact h.listed place peer hpeer
    · have hge := Nat.le_of_not_lt hplace
      obtain ⟨hnone, hbuffered, hsignals⟩ := h.unlisted place hge
      rw [List.getElem?_append_right hge] at hpeer
      rw [List.getElem?_append_right (hlen ▸ hge), hlen, hnone, hbuffered, hsignals]
      exact ⟨peer, hpeer, rfl⟩
  · intro place hplace
    rw [List.length_append] at hplace
    rw [hevents, peerSignals_append, hpeers, List.append_nil]
    exact h.unlisted place (Nat.le_of_add_right_le hplace)

theorem Program.Parts.socket
    (h : Program.Parts order char connectToHost hostString events signals program lib)
    {event : SocketEvent} {peer peer' : Peer Host} {buffered : List UInt8} {emitted : List Signal}
    (hpeer : program.lib.peerList[place]? = some peer)
    (hstep : Peer.socketStep order char connectToHost event (peer, program.buffered place) =
      some ((peer', buffered), emitted)) :
    Program.Parts order char connectToHost hostString (events ++ [.socket place event])
      (signals ++ emitted.map (.peer place)) (program.setPeer place peer' buffered) lib := by
  obtain ⟨hlibrary, hpeers⟩ := signals_map_peer place emitted
  have hlen := h.length_eq
  have hlt : place < program.lib.peerList.length := (List.getElem?_eq_some_iff.mp hpeer).1
  have hevents : socketEvents (events ++ [.socket place event]) =
      socketEvents events ++ [(place, event)] := by
    rw [socketEvents, List.filterMap_append]
    rfl
  refine ⟨?_, h.peerSocket, ?_, ?_, ?_⟩
  · rw [librarySignals_append, hlibrary, List.append_nil, libraryEvents, List.filterMap_append]
    exact (congrArg (run _ · _) (List.append_nil _)).trans h.runs
  · rw [peerList_setPeer, Table.map_key_set hpeer (key_socketStep hstep), h.keys]
  · intro other listed hlisted
    obtain ⟨own, hown, hrun⟩ := h.listed other listed hlisted
    rw [hevents, peerSignals_append, hpeers, projected_append, projected_append,
      buffered_setPeer, peerList_setPeer]
    by_cases hother : place = other
    · subst hother
      obtain rfl := Option.some.inj (hown.symm.trans hpeer)
      rw [projected_map_mk_self, projected_singleton_self, Function.update_self]
      exact ⟨peer', List.getElem?_set_self hlt, run_concat hrun hstep⟩
    · rw [projected_map_mk_of_ne hother, projected_singleton_of_ne hother, List.append_nil,
        List.append_nil, Function.update_of_ne (Ne.symm hother)]
      exact ⟨own, (List.getElem?_set_ne hother).trans hown, hrun⟩
  · intro other hother
    have hne : place ≠ other := by omega
    obtain ⟨hnone, hbuffered, hsignals⟩ := h.unlisted other hother
    rw [hevents, peerSignals_append, hpeers, projected_append, projected_append, hnone, hsignals,
      projected_map_mk_of_ne hne, projected_singleton_of_ne hne, buffered_setPeer,
      Function.update_of_ne (Ne.symm hne)]
    exact ⟨rfl, hbuffered, rfl⟩

/-- Everything that an event of a program can do. -/
theorem Program.step_cases {event : ProgramEvent Host} {program' : Program Host}
    (h : Program.step order char connectToHost hostString event program =
      some (program', signals)) :
    (∃ own after emitted, event = .library own ∧
      CITPLib.step order hostString own program.lib = some (after, emitted) ∧
        program' = { program with lib := after } ∧ signals = emitted.map .library) ∨
    ∃ place own peer peer' buffered emitted, event = .socket place own ∧
      program.lib.peerList[place]? = some peer ∧
        Peer.socketStep order char connectToHost own (peer, program.buffered place) =
          some ((peer', buffered), emitted) ∧
        program' = program.setPeer place peer' buffered ∧ signals = emitted.map (.peer place) := by
  cases event with
  | library own =>
    simp only [Program.step, Option.map_eq_some_iff, Prod.mk.injEq] at h
    obtain ⟨⟨after, emitted⟩, hstep, rfl, rfl⟩ := h
    exact .inl ⟨own, after, emitted, rfl, hstep, rfl, rfl⟩
  | socket place own =>
    simp only [Program.step, Option.bind_eq_bind, Option.bind_eq_some_iff] at h
    obtain ⟨peer, hpeer, ⟨⟨peer', buffered⟩, emitted⟩, hstep, h⟩ := h
    obtain ⟨rfl, rfl⟩ := Prod.mk.inj (Option.some.inj h)
    exact .inr ⟨place, own, peer, peer', buffered, emitted, rfl, hpeer, hstep, rfl, rfl⟩

/-! ## Runs -/

theorem parts_run
    (h : run (Program.step order char connectToHost hostString) events .new =
      some (program, signals)) :
    ∃ lib, Program.Parts order char connectToHost hostString events signals program lib := by
  apply trace_run (P := fun events signals program =>
    ∃ lib, Program.Parts order char connectToHost hostString events signals program lib) ?_ ?_ h
  · intro events signals before event after emitted hbefore hstep
    obtain ⟨lib, hparts⟩ := hbefore
    rcases Program.step_cases hstep with ⟨own, after, emitted, rfl, hown, rfl, rfl⟩ |
      ⟨place, own, peer, peer', buffered, emitted, rfl, hpeer, hown, rfl, rfl⟩
    · exact hparts.library hown
    · exact ⟨lib, hparts.socket hpeer hown⟩
  · refine ⟨.new, rfl, rfl, rfl, fun place peer hpeer => ?_, fun place _ => ⟨rfl, rfl, rfl⟩⟩
    exact absurd hpeer (by simp [CITPLib.new])

/-- **A run of a program is one of each part.** What the library lists, sends and signals is
what it does without the connections, and whether its next event is possible does not depend on
them. The peer at a place of the list, with its socket and its signals, is what the peer listed
there would be alone with its own connections, whatever the library and the others do between. -/
theorem program_run
    (h : run (Program.step order char connectToHost hostString) events .new =
      some (program, signals)) :
    ∃ lib, run (CITPLib.step order hostString) (libraryEvents events) .new =
        some (lib, librarySignals signals) ∧
      program.lib.peerSocket = lib.peerSocket ∧
      program.lib.peerList.length = lib.peerList.length ∧
      (∀ place peer, lib.peerList[place]? = some peer →
        ∃ peer', program.lib.peerList[place]? = some peer' ∧
          run (Peer.socketStep order char connectToHost) (projected place (socketEvents events))
              (peer, []) =
            some ((peer', program.buffered place), projected place (peerSignals signals))) ∧
      ∀ event, (Program.step order char connectToHost hostString (.library event) program).isSome ↔
        (CITPLib.step order hostString event lib).isSome := by
  obtain ⟨lib, hparts⟩ := parts_run h
  refine ⟨lib, hparts.runs, hparts.peerSocket, hparts.length_eq, hparts.listed, fun event => ?_⟩
  rw [Program.step, Option.isSome_map]
  constructor
  · intro hsome
    obtain ⟨⟨after, emitted⟩, hstep⟩ := Option.isSome_iff_exists.mp hsome
    obtain ⟨new, -, halone⟩ := CITPLib.step_congr hparts.peerSocket hparts.keys hstep
    exact Option.isSome_of_eq_some halone
  · intro hsome
    obtain ⟨⟨after, emitted⟩, hstep⟩ := Option.isSome_iff_exists.mp hsome
    obtain ⟨new, -, hwith⟩ :=
      CITPLib.step_congr hparts.peerSocket.symm hparts.keys.symm hstep
    exact Option.isSome_of_eq_some hwith

/-- The desk connects to the visualizer that it has heard of, and while a fixture is being
patched there it hears of another peer. -/
def connectedEvents : List (ProgramEvent QString) :=
  deskEvents.map .library ++
    [.socket 0 .connected,
      .socket 0 (.readyRead (((Request.ptch 7 1 2 3 (.ofLiteral "A") (.ofLiteral "B")).create
        .little).contents.take 20)),
      .library (.readyRead [some (.ofLiteral "10.0.0.8", announcementBytes (List.replicate 10 0) 0
        (.ofLiteral "LightingConsole") (.ofLiteral "Other") (.ofLiteral "Idle") [])]),
      .socket 0 (.readyRead (((Request.ptch 7 1 2 3 (.ofLiteral "A") (.ofLiteral "B")).create
        .little).contents.drop 20))]

theorem isSome_run_connectedEvents :
    (run (Program.step .little .signed (fun _ => []) id) connectedEvents .new).isSome := by
  decide

/-- The program of the desk afterwards, and the signals. -/
def connectedDesk : Program QString × List ProgramSignal :=
  (run (Program.step .little .signed (fun _ => []) id) connectedEvents .new).get
    isSome_run_connectedEvents

theorem program_run_connected :
    ∃ lib, run (CITPLib.step .little id) (libraryEvents connectedEvents) .new =
        some (lib, librarySignals connectedDesk.2) ∧
      connectedDesk.1.lib.peerSocket = lib.peerSocket ∧
      connectedDesk.1.lib.peerList.length = lib.peerList.length ∧
      (∀ place peer, lib.peerList[place]? = some peer →
        ∃ peer', connectedDesk.1.lib.peerList[place]? = some peer' ∧
          run (Peer.socketStep .little .signed (fun _ => []))
              (projected place (socketEvents connectedEvents)) (peer, []) =
            some ((peer', connectedDesk.1.buffered place),
              projected place (peerSignals connectedDesk.2))) ∧
      ∀ event, (Program.step .little .signed (fun _ => []) id (.library event)
          connectedDesk.1).isSome ↔
        (CITPLib.step .little id event lib).isSome :=
  program_run (Option.some_get isSome_run_connectedEvents).symm

/-- Both peers are listed, and the fixture belongs to the first. -/
example : connectedDesk.1.lib.peerList.map (fun peer => peer.fixtureList.length) = [1, 0] := by
  decide

end CitpLib
