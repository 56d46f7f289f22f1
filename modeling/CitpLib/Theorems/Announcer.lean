import CitpLib.Model.PeerInformationSocket
import CitpLib.Theorems.WireFormat

/-!
# The announcer

A call of `init` stops the timer and takes the new name and state before anything
can fail, and only a call that succeeds starts the timer again. Nothing is undone
after a failure. What holds over every run is less than atomicity: the packet at
hand is always that of the last call that came to create one, it announces the
current name and state as long as the timer runs, and from the network the socket
is an announcer that a failed call silences.

## Main definitions

* `consoleAnnouncement` — the datagram for a name and a state
* `InitResults.Joined`, `InitResults.Succeed` — how far a call of `init` comes
* `lastPacket`, `lastResults` — what the packet at hand announces, and how the last
  call went
* `Holding` — the packet, its length and the timer agree
* `Current` — what would be sent announces the current name and state
* `Announcer.step` — the announcer as the network sees it

## Main results

* `init_eq_self_iff` — when a failed call changes nothing
* `holding_announce` — a socket holds its last packet after every run
* `current_announce` — when that packet is not stale
* `announce_refines` — a run of the socket is a run of the announcer
* `announcer_run` — what a failed `init` changes, and what is sent
-/

namespace CitpLib

open Wire PeerInformationSocket

variable {order : ByteOrder} {name state : QString} {results : InitResults}
  {socket after : PeerInformationSocket} {packet : Option (QString × QString)}
  {event : AnnouncerEvent} {events : List AnnouncerEvent} {sent : List (List UInt8)}

/-- The datagram that announces a console with this name and state. -/
def consoleAnnouncement (order : ByteOrder) (name state : QString) : List UInt8 :=
  (Request.pLoc .lightingConsole name state).wire order

/-! ## How far a call comes -/

/-- The socket is bound and has joined the multicast group. -/
def InitResults.Joined (results : InitResults) : Prop :=
  results.bind = true ∧ results.setsockopt = 0

instance (results : InitResults) : Decidable results.Joined :=
  inferInstanceAs (Decidable (_ ∧ _))

/-- No call that `init` depends on fails. -/
def InitResults.Succeed (results : InitResults) : Prop :=
  results.Joined ∧ results.packetCreated = true

instance (results : InitResults) : Decidable results.Succeed :=
  inferInstanceAs (Decidable (_ ∧ _))

/-- A call that fails leaves its arguments and a timer that does not run. The packet at
hand is gone if the creation of another one failed. -/
theorem init_of_not_succeed (h : ¬ results.Succeed) (order : ByteOrder) (name state : QString)
    (socket : PeerInformationSocket) :
    socket.init order name state results =
      ({ socket with
          name := name
          state := state
          timerActive := false
          packetBuffer := if results.Joined then none else socket.packetBuffer
          packetBufferLen := if results.Joined then 0 else socket.packetBufferLen },
        [], false) := by
  by_cases hjoined : results.Joined
  · have hcreated : results.packetCreated = false := by
      apply Bool.of_not_eq_true
      intro hcreated
      exact h ⟨hjoined, hcreated⟩
    rw [if_pos hjoined, if_pos hjoined]
    obtain ⟨hbind, hjoin⟩ := hjoined
    simp [init, hbind, hjoin, hcreated]
  · rw [if_neg hjoined, if_neg hjoined, init]
    by_cases hbind : results.bind = false
    · rw [if_pos hbind]
    · have hjoin : 0 ≠ results.setsockopt := by
        intro hjoin
        exact hjoined ⟨Bool.of_not_eq_false hbind, hjoin.symm⟩
      rw [if_neg hbind, if_pos hjoin]

/-- The packet for a name and a state is sent as a whole. -/
theorem transmitPLoc_of_packetBuffer
    (hbuffer : socket.packetBuffer = some (createPLocPacket order .lightingConsole name state))
    (hlen : socket.packetBufferLen = (createPLocPacket order .lightingConsole name state).len) :
    socket.transmitPLoc = [consoleAnnouncement order name state] := by
  have hholds := createPLocPacket_holds order .lightingConsole name state
  have hpos : 0 < (createPLocPacket order .lightingConsole name state).len := by
    simp [createPLocPacket]
  simp only [transmitPLoc, hbuffer, hlen]
  rw [if_pos hpos, List.take_of_length_le (Buffer.length_contents _).le, hholds.contents_eq,
    consoleAnnouncement]

/-- A call that succeeds sends its packet and starts the timer. -/
theorem init_of_succeed (h : results.Succeed) (order : ByteOrder) (name state : QString)
    (socket : PeerInformationSocket) :
    socket.init order name state results =
      ({ name := name
         state := state
         timerActive := true
         packetBuffer := some (createPLocPacket order .lightingConsole name state)
         packetBufferLen := (createPLocPacket order .lightingConsole name state).len
         readyReadConnections := socket.readyReadConnections + 1 },
        [consoleAnnouncement order name state], true) := by
  obtain ⟨⟨hbind, hjoin⟩, hcreated⟩ := h
  simp only [init, hbind, hjoin, hcreated, Bool.true_eq_false, ne_eq, not_true_eq_false,
    if_false]
  rw [transmitPLoc_of_packetBuffer rfl rfl]

/-- **The result of `init`.** -/
theorem result_init (order : ByteOrder) (name state : QString) (results : InitResults)
    (socket : PeerInformationSocket) :
    (socket.init order name state results).2.2 = decide results.Succeed := by
  by_cases hsucceed : results.Succeed
  · rw [init_of_succeed hsucceed, decide_eq_true hsucceed]
  · rw [init_of_not_succeed hsucceed, decide_eq_false hsucceed]

/-! ## The packet at hand -/

/-- What the packet at hand announces after an event. Only a call that has joined the
group touches it. -/
def packetAfter (packet : Option (QString × QString)) :
    AnnouncerEvent → Option (QString × QString)
  | .init name state results =>
    if results.Joined then if results.packetCreated then some (name, state) else none
    else packet
  | .timeout => packet

/-- What the packet at hand announces after a run: the arguments of the last call that
came to create one. -/
def lastPacket (events : List AnnouncerEvent) : Option (QString × QString) :=
  events.foldl packetAfter none

theorem packetAfter_of_succeed (h : results.Succeed) (packet : Option (QString × QString))
    (name state : QString) :
    packetAfter packet (.init name state results) = some (name, state) := by
  rw [packetAfter, if_pos h.1, if_pos h.2]

theorem packetAfter_of_not_succeed (h : ¬ results.Succeed)
    (packet : Option (QString × QString)) (name state : QString) :
    packetAfter packet (.init name state results) =
      if results.Joined then none else packet := by
  rw [packetAfter]
  by_cases hjoined : results.Joined
  · rw [if_pos hjoined, if_pos hjoined, if_neg fun hcreated => h ⟨hjoined, hcreated⟩]
  · rw [if_neg hjoined, if_neg hjoined]

/-- The socket holds the packet for `packet` and its length, and while the timer runs
that announces the current name and state. -/
structure Holding (order : ByteOrder) (socket : PeerInformationSocket)
    (packet : Option (QString × QString)) : Prop where
  packetBuffer_eq : socket.packetBuffer =
    packet.map fun p => createPLocPacket order .lightingConsole p.1 p.2
  packetBufferLen_eq : socket.packetBufferLen = socket.packetBuffer.elim 0 Buffer.len
  current : socket.timerActive = true → packet = some (socket.name, socket.state)

theorem holding_new (order : ByteOrder) : Holding order .new none where
  packetBuffer_eq := rfl
  packetBufferLen_eq := rfl
  current := by simp [new]

/-- What `transmitPLoc` sends is the announcement of the packet at hand. -/
theorem Holding.transmitPLoc_eq (h : Holding order socket packet) :
    socket.transmitPLoc = packet.toList.map fun p => consoleAnnouncement order p.1 p.2 := by
  have hbuffer := h.packetBuffer_eq
  cases packet with
  | none => simp [transmitPLoc, hbuffer]
  | some p =>
    have hlen := h.packetBufferLen_eq
    rw [hbuffer] at hlen
    exact transmitPLoc_of_packetBuffer hbuffer hlen

/-- While the timer runs, the current name and state are sent. -/
theorem Holding.transmitPLoc_of_timerActive (h : Holding order socket packet)
    (htimer : socket.timerActive = true) :
    socket.transmitPLoc = [consoleAnnouncement order socket.name socket.state] := by
  have hcurrent := h.current htimer
  subst hcurrent
  exact h.transmitPLoc_eq

theorem step_init_eq_some
    (h : step order (.init name state results) socket = some (after, sent)) :
    after = (socket.init order name state results).1 ∧
      sent = (socket.init order name state results).2.1 := by
  obtain ⟨hafter, hsent⟩ := Prod.mk.inj (Option.some.inj h)
  exact ⟨hafter.symm, hsent.symm⟩

/-- A timeout happens while the timer runs, sends the packet and changes nothing. -/
theorem step_timeout_eq_some (h : step order .timeout socket = some (after, sent)) :
    socket.timerActive = true ∧ after = socket ∧ sent = socket.transmitPLoc := by
  rw [step] at h
  by_cases htimer : socket.timerActive = true
  · rw [if_pos htimer] at h
    obtain ⟨rfl, rfl⟩ := Prod.mk.inj (Option.some.inj h)
    exact ⟨htimer, rfl, rfl⟩
  · rw [if_neg htimer] at h
    contradiction

theorem Holding.of_init (h : Holding order socket packet) (name state : QString)
    (results : InitResults) :
    Holding order (socket.init order name state results).1
      (packetAfter packet (.init name state results)) := by
  by_cases hsucceed : results.Succeed
  · rw [init_of_succeed hsucceed, packetAfter_of_succeed hsucceed]
    exact ⟨rfl, rfl, fun _ => rfl⟩
  · rw [init_of_not_succeed hsucceed, packetAfter_of_not_succeed hsucceed]
    by_cases hjoined : results.Joined
    · rw [if_pos hjoined, if_pos hjoined, if_pos hjoined]
      exact ⟨rfl, rfl, nofun⟩
    · rw [if_neg hjoined, if_neg hjoined, if_neg hjoined]
      exact ⟨h.packetBuffer_eq, h.packetBufferLen_eq, nofun⟩

/-- **Every event keeps** the packet, its length and the timer in agreement. -/
theorem Holding.of_step (h : Holding order socket packet)
    (hstep : step order event socket = some (after, sent)) :
    Holding order after (packetAfter packet event) := by
  cases event with
  | init name state results =>
    obtain ⟨rfl, -⟩ := step_init_eq_some hstep
    exact h.of_init name state results
  | timeout =>
    obtain ⟨-, rfl, -⟩ := step_timeout_eq_some hstep
    exact h

/-- **After every run the socket holds its last packet.** -/
theorem holding_announce (h : announce order events .new = some (socket, sent)) :
    Holding order socket (lastPacket events) := by
  apply Streaming.related_run (R := Holding order) ?_ (holding_new order) h
  intro event socket after packet emitted hholding hstep
  exact hholding.of_step hstep

/-- **When a failed call changes nothing**: called on a silent socket with the name and
state that it has, and without a packet if the call has joined the group. -/
theorem init_eq_self_iff (h : ¬ results.Succeed) (hholding : Holding order socket packet)
    (name state : QString) :
    (socket.init order name state results).1 = socket ↔
      socket.timerActive = false ∧ socket.name = name ∧ socket.state = state ∧
        (results.Joined → socket.packetBuffer = none) := by
  rw [init_of_not_succeed h]
  constructor
  · intro heq
    refine ⟨congrArg timerActive heq.symm, congrArg PeerInformationSocket.name heq.symm,
      congrArg PeerInformationSocket.state heq.symm, fun hjoined => ?_⟩
    have hbuffer := congrArg packetBuffer heq.symm
    rwa [if_pos hjoined] at hbuffer
  · intro hsame
    obtain ⟨htimer, rfl, rfl, hnone⟩ := hsame
    by_cases hjoined : results.Joined
    · have hlen := hholding.packetBufferLen_eq
      rw [hnone hjoined, Option.elim_none] at hlen
      rw [if_pos hjoined, if_pos hjoined, ← hnone hjoined, ← hlen, ← htimer]
    · rw [if_neg hjoined, if_neg hjoined, ← htimer]

/-! ## The last call -/

/-- What the calls made by the last `init` return, after an event. -/
def resultsAfter (last : Option InitResults) : AnnouncerEvent → Option InitResults
  | .init _ _ results => some results
  | .timeout => last

/-- What the calls made by the last `init` of a run return. -/
def lastResults (events : List AnnouncerEvent) : Option InitResults :=
  events.foldl resultsAfter none

/-- What the socket would send announces its current name and state. -/
def Current (order : ByteOrder) (socket : PeerInformationSocket) : Prop :=
  ∀ datagram ∈ socket.transmitPLoc,
    datagram = consoleAnnouncement order socket.name socket.state

theorem current_of_joined (h : results.Joined) (order : ByteOrder) (name state : QString)
    (socket : PeerInformationSocket) :
    Current order (socket.init order name state results).1 := by
  by_cases hsucceed : results.Succeed
  · rw [init_of_succeed hsucceed, Current, transmitPLoc_of_packetBuffer rfl rfl]
    intro datagram hdatagram
    exact List.mem_singleton.mp hdatagram
  · rw [init_of_not_succeed hsucceed, if_pos h, if_pos h]
    exact nofun

/-- **The packet at hand is stale only after a call that failed to join the group.** -/
theorem current_announce (h : announce order events .new = some (socket, sent))
    (hlast : ∀ results ∈ lastResults events, results.Joined) : Current order socket := by
  have hstep (event : AnnouncerEvent) (socket after : PeerInformationSocket)
      (last : Option InitResults) (emitted : List (List UInt8))
      (hrel : (∀ results ∈ last, results.Joined) → Current order socket)
      (hevent : step order event socket = some (after, emitted)) :
      (∀ results ∈ resultsAfter last event, results.Joined) → Current order after := by
    cases event with
    | init name state results =>
      obtain ⟨rfl, -⟩ := step_init_eq_some hevent
      intro hjoined
      exact current_of_joined (hjoined results rfl) order name state socket
    | timeout =>
      obtain ⟨-, rfl, -⟩ := step_timeout_eq_some hevent
      exact hrel
  have hnew : (∀ results ∈ (none : Option InitResults), results.Joined) →
      Current order .new := nofun
  exact Streaming.related_run hstep hnew h hlast

/-! ## The announcer on the network -/

/-- The name and the state that an announcer announces, unless it is silent. -/
abbrev Announcer := Option (QString × QString)

/-- An announcer sends its announcement when a call of `init` succeeds and at every
timeout. A call that fails silences it until one succeeds. -/
def Announcer.step (order : ByteOrder) :
    Streaming.Transition AnnouncerEvent Announcer (List UInt8)
  | .init name state results, _ =>
    if results.Succeed then some (some (name, state), [consoleAnnouncement order name state])
    else some (none, [])
  | .timeout, announcer =>
    announcer.map fun p => (some p, [consoleAnnouncement order p.1 p.2])

/-- The announcer that a socket is. -/
def PeerInformationSocket.announcer (socket : PeerInformationSocket) : Announcer :=
  if socket.timerActive then some (socket.name, socket.state) else none

/-- **An event of the socket is one of its announcer**, with the same datagrams. -/
theorem Holding.announcer_step (h : Holding order socket packet)
    (hstep : step order event socket = some (after, sent)) :
    Announcer.step order event socket.announcer = some (after.announcer, sent) := by
  cases event with
  | init name state results =>
    obtain ⟨rfl, rfl⟩ := step_init_eq_some hstep
    by_cases hsucceed : results.Succeed
    · rw [init_of_succeed hsucceed, Announcer.step, if_pos hsucceed]
      rfl
    · rw [init_of_not_succeed hsucceed, Announcer.step, if_neg hsucceed]
      rfl
  | timeout =>
    obtain ⟨htimer, rfl, rfl⟩ := step_timeout_eq_some hstep
    rw [announcer, if_pos htimer, h.transmitPLoc_of_timerActive htimer]
    rfl

/-- **A run of the socket is a run of the announcer.** -/
theorem announce_refines (h : announce order events .new = some (socket, sent)) :
    Streaming.run (Announcer.step order) events none = some (socket.announcer, sent) := by
  have hstep (event : AnnouncerEvent) (socket after : PeerInformationSocket)
      (announcer : Announcer) (emitted : List (List UInt8))
      (hrel : (∃ packet, Holding order socket packet) ∧ announcer = socket.announcer)
      (hevent : step order event socket = some (after, emitted)) :
      ∃ announcer', Announcer.step order event announcer = some (announcer', emitted) ∧
        (∃ packet, Holding order after packet) ∧ announcer' = after.announcer := by
    obtain ⟨⟨packet, hholding⟩, rfl⟩ := hrel
    exact ⟨after.announcer, hholding.announcer_step hevent,
      ⟨packetAfter packet event, hholding.of_step hevent⟩, rfl⟩
  obtain ⟨announcer, hrun, -, rfl⟩ :=
    Streaming.simulation_run hstep ⟨⟨none, holding_new order⟩, rfl⟩ h
  exact hrun

/-- **What a failed `init` changes, and what is sent.** After any run, a call of `init`
that fails sends nothing, stops the timer and leaves its arguments as the name and state.
The packet and its length stay, unless the creation of another one failed: then there is
none. Nothing at all changes exactly when the socket was silent, had that name and state,
and had no packet to lose. The packet at hand, whole, is that of the last call that came
to create one. It announces the current name and state unless the last call failed to
join the group, and always while the timer runs. The datagrams of the run are those of an
announcer that a failed call silences. -/
theorem announcer_run (order : ByteOrder) (events : List AnnouncerEvent)
    (socket : PeerInformationSocket) (sent : List (List UInt8))
    (h : announce order events .new = some (socket, sent)) :
    (∀ name state results after datagrams,
      socket.init order name state results = (after, datagrams, false) →
        datagrams = [] ∧ after.timerActive = false ∧ after.name = name ∧ after.state = state ∧
        after.packetBuffer = (if results.Joined then none else socket.packetBuffer) ∧
        after.packetBufferLen = (if results.Joined then 0 else socket.packetBufferLen) ∧
        (after = socket ↔
          socket.timerActive = false ∧ socket.name = name ∧ socket.state = state ∧
            (results.Joined → socket.packetBuffer = none))) ∧
    socket.packetBufferLen = socket.packetBuffer.elim 0 Buffer.len ∧
    socket.transmitPLoc =
      (lastPacket events).toList.map (fun p => consoleAnnouncement order p.1 p.2) ∧
    ((∀ results ∈ lastResults events, results.Joined) → ∀ datagram ∈ socket.transmitPLoc,
      datagram = consoleAnnouncement order socket.name socket.state) ∧
    (socket.timerActive = true →
      socket.transmitPLoc = [consoleAnnouncement order socket.name socket.state]) ∧
    Streaming.run (Announcer.step order) events none = some (socket.announcer, sent) := by
  have hholding := holding_announce h
  refine ⟨?_, hholding.packetBufferLen_eq, hholding.transmitPLoc_eq, current_announce h,
    hholding.transmitPLoc_of_timerActive, announce_refines h⟩
  intro name state results after datagrams hinit
  have hfail : ¬ results.Succeed := by
    have hresult := result_init order name state results socket
    rw [hinit] at hresult
    exact of_decide_eq_false hresult.symm
  have hself := init_eq_self_iff hfail hholding name state
  rw [hinit] at hself
  rw [init_of_not_succeed hfail] at hinit
  obtain ⟨rfl, hrest⟩ := Prod.mk.inj hinit
  exact ⟨(Prod.mk.inj hrest).1.symm, rfl, rfl, rfl, rfl, rfl, hself⟩

/-- A desk that announces that it is idle. -/
def idleDesk : PeerInformationSocket :=
  (PeerInformationSocket.new.init .little (.ofLiteral "Desk") (.ofLiteral "Idle")
    ⟨true, 0, true⟩).1

/-- The desk when it wants to announce that it runs, and the bind fails. -/
def unboundDesk : PeerInformationSocket :=
  (idleDesk.init .little (.ofLiteral "Desk") (.ofLiteral "Running") ⟨false, 0, true⟩).1

/-- It is silent after that, having announced twice that it is idle. -/
theorem announcer_run_unboundDesk :
    Streaming.run (Announcer.step .little)
        [.init (.ofLiteral "Desk") (.ofLiteral "Idle") ⟨true, 0, true⟩, .timeout,
          .init (.ofLiteral "Desk") (.ofLiteral "Running") ⟨false, 0, true⟩] none =
      some (none, [consoleAnnouncement .little (.ofLiteral "Desk") (.ofLiteral "Idle"),
        consoleAnnouncement .little (.ofLiteral "Desk") (.ofLiteral "Idle")]) :=
  (announcer_run .little _ unboundDesk _ (by decide)).2.2.2.2.2

/-- **A failed `init` is not undone.** The desk no longer announces anything, it has the
new state, and the packet at hand is that of the old one. If instead the creation of the
packet fails, there is none left. -/
theorem failed_init_not_undone :
    announce .little [.init (.ofLiteral "Desk") (.ofLiteral "Idle") ⟨true, 0, true⟩] .new =
      some (idleDesk, [consoleAnnouncement .little (.ofLiteral "Desk") (.ofLiteral "Idle")]) ∧
    idleDesk.init .little (.ofLiteral "Desk") (.ofLiteral "Running") ⟨false, 0, true⟩ =
      (unboundDesk, [], false) ∧
    idleDesk.timerActive = true ∧ unboundDesk.timerActive = false ∧
    unboundDesk.state ≠ idleDesk.state ∧
    (∃ datagram ∈ unboundDesk.transmitPLoc,
      datagram ≠ consoleAnnouncement .little unboundDesk.name unboundDesk.state) ∧
    ∃ after, idleDesk.init .little (.ofLiteral "Desk") (.ofLiteral "Running")
        ⟨true, 0, false⟩ = (after, [], false) ∧
      after.packetBuffer ≠ idleDesk.packetBuffer ∧
      after.packetBufferLen ≠ idleDesk.packetBufferLen := by
  refine ⟨by decide, by decide, by decide, by decide, by decide, by decide, ?_⟩
  exact ⟨_, rfl, by decide, by decide⟩

end CitpLib
