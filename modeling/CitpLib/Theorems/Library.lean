import CitpLib.Model.CitpLib
import CitpLib.Theorems.Announcer
import CitpLib.Theorems.PeerTable

/-!
# A run of the library

A program uses the library by calls of one function, and between the calls the timer and
the socket have their events. In any order of these, the library is made up of two parts
that do not disturb each other. What it sends is what the announcer sends, whatever has
been received. What it lists is the table of the datagrams heard, and these are the ones
received after the first call that succeeded: nothing that has been sent plays a part,
and a later call that fails does not stop the hearing, although it stops the sending.

## Main definitions

* `announcerEvents` — the events of the announcing half
* `listening`, `heard` — what the other half has heard
* `sentDatagrams`, `updates` — the signals of the two halves

## Main results

* `readyRead_connections` — further connections change nothing
* `isSome_citpLib_run_iff` — the runs that are possible
* `citpLib_run` — a run is one of each half
* `listed_run` — what a program lists, and what it can connect to
-/

namespace CitpLib

open Wire Streaming PeerInformationSocket

variable {Host : Type} {order : ByteOrder} {hostString : Host → QString} {lib after : CITPLib Host}
  {event : CITPLibEvent Host} {events : List (CITPLibEvent Host)} {signals : List CITPLibSignal}
  {peerList : List (Peer Host)} {n : ℕ}

/-! ## The two halves -/

/-- What an event is for the announcing half. -/
def CITPLibEvent.announcerEvent {Sender : Type} : CITPLibEvent Sender → Option AnnouncerEvent
  | createPeerInformationSocket name state results => some (.init name state results)
  | timeout => some .timeout
  | readyRead _ => none

/-- The events of the announcing half. -/
def announcerEvents {Sender : Type} (events : List (CITPLibEvent Sender)) :
    List AnnouncerEvent :=
  events.filterMap CITPLibEvent.announcerEvent

/-- The call succeeds, and from then on the socket is heard. -/
def CITPLibEvent.connects {Sender : Type} : CITPLibEvent Sender → Bool
  | createPeerInformationSocket _ _ results => results.Succeed
  | timeout | readyRead _ => false

/-- Some call has succeeded. -/
def listening {Sender : Type} (events : List (CITPLibEvent Sender)) : Bool :=
  events.any CITPLibEvent.connects

/-- The datagrams that an event brings. -/
def CITPLibEvent.datagrams {Sender : Type} :
    CITPLibEvent Sender → List (Sender × List UInt8)
  | readyRead pending => pending.reduceOption
  | createPeerInformationSocket _ _ _ | timeout => []

/-- The datagrams that are heard, given whether the socket is connected before. -/
def heardFrom {Sender : Type} :
    Bool → List (CITPLibEvent Sender) → List (Sender × List UInt8)
  | _, [] => []
  | connected, event :: events =>
    (if connected then event.datagrams else []) ++ heardFrom (connected || event.connects) events

/-- The datagrams that are heard in a run. -/
abbrev heard {Sender : Type} (events : List (CITPLibEvent Sender)) :
    List (Sender × List UInt8) :=
  heardFrom false events

/-- The datagrams among the signals. -/
def sentDatagrams (signals : List CITPLibSignal) : List (List UInt8) :=
  signals.filterMap fun
    | .sent datagram => some datagram
    | _ => none

/-- The signals that the list of peers has grown. -/
def updates (signals : List CITPLibSignal) : List DiscoverySignal :=
  signals.filterMap fun
    | .peersUpdated => some .peersUpdated
    | _ => none

theorem sentDatagrams_append (signals signals' : List CITPLibSignal) :
    sentDatagrams (signals ++ signals') = sentDatagrams signals ++ sentDatagrams signals' :=
  List.filterMap_append

theorem updates_append (signals signals' : List CITPLibSignal) :
    updates (signals ++ signals') = updates signals ++ updates signals' :=
  List.filterMap_append

/-- What is heard in two runs one behind the other. -/
theorem heardFrom_append {Sender : Type} (connected : Bool)
    (events events' : List (CITPLibEvent Sender)) :
    heardFrom connected (events ++ events') =
      heardFrom connected events ++ heardFrom (connected || listening events) events' := by
  induction events generalizing connected with
  | nil => simp [heardFrom, listening]
  | cons event events ih =>
    rw [List.cons_append, heardFrom, heardFrom, ih, List.append_assoc, listening, listening,
      List.any_cons, Bool.or_assoc]

/-! ## Signals of the socket -/

theorem readyRead_nil (connections : ℕ) (peerList : List (Peer Host)) :
    PeerInformationSocket.readyRead order hostString connections [] peerList =
      some (peerList, []) := by
  induction connections with
  | zero => rfl
  | succ connections ih =>
    rw [PeerInformationSocket.readyRead, handleReadReady]
    simp only [Option.bind_eq_bind, Option.bind_some, ih]
    rfl

/-- **Further connections change nothing**: the first call of the slot handles everything. -/
theorem readyRead_connections (h : 0 < n) (pending : List (Option (Host × List UInt8)))
    (peerList : List (Peer Host)) :
    PeerInformationSocket.readyRead order hostString n pending peerList =
      processPackets order hostString pending.reduceOption peerList := by
  obtain ⟨connections, rfl⟩ := Nat.exists_eq_succ_of_ne_zero h.ne'
  rw [← handleReadReady_eq, PeerInformationSocket.readyRead]
  cases hhandled : handleReadReady order hostString pending peerList with
  | none => rfl
  | some handled =>
    simp only [Option.bind_eq_bind, Option.bind_some, readyRead_nil, List.append_nil]
    rfl

/-! ## One event -/

theorem readyReadConnections_init (order : ByteOrder) (name state : QString)
    (results : InitResults) (socket : PeerInformationSocket) :
    (socket.init order name state results).1.readyReadConnections =
      if results.Succeed then socket.readyReadConnections + 1
      else socket.readyReadConnections := by
  by_cases hsucceed : results.Succeed
  · rw [init_of_succeed hsucceed, if_pos hsucceed]
  · rw [init_of_not_succeed hsucceed, if_neg hsucceed]

/-- What a run has made of the two halves of the library. -/
structure Halves (order : ByteOrder) (hostString : Host → QString)
    (events : List (CITPLibEvent Host)) (signals : List CITPLibSignal) (lib : CITPLib Host) :
    Prop where
  announces : announce order (announcerEvents events) .new =
    some (lib.peerSocket, sentDatagrams signals)
  lists : processPackets order hostString (heard events) [] =
    some (lib.peerList, updates signals)
  hears : 0 < lib.peerSocket.readyReadConnections ↔ listening events = true

theorem sentDatagrams_map_sent (sent : List (List UInt8)) :
    sentDatagrams (sent.map .sent) = sent ∧ updates (sent.map .sent) = [] := by
  induction sent with
  | nil => exact ⟨rfl, rfl⟩
  | cons datagram sent ih => exact ⟨congrArg (datagram :: ·) ih.1, ih.2⟩

theorem updates_map_peersUpdated (emitted : List DiscoverySignal) :
    updates (emitted.map fun | .peersUpdated => CITPLibSignal.peersUpdated) = emitted ∧
      sentDatagrams (emitted.map fun | .peersUpdated => CITPLibSignal.peersUpdated) = [] := by
  induction emitted with
  | nil => exact ⟨rfl, rfl⟩
  | cons signal emitted ih => exact ⟨congrArg (signal :: ·) ih.1, ih.2⟩

theorem announcerEvents_concat {Sender : Type} (events : List (CITPLibEvent Sender))
    (event : CITPLibEvent Sender) :
    announcerEvents (events ++ [event]) =
      announcerEvents events ++ event.announcerEvent.toList := by
  rw [announcerEvents, announcerEvents, List.filterMap_append]
  cases hone : event.announcerEvent <;> simp [hone]

theorem listening_concat {Sender : Type} (events : List (CITPLibEvent Sender))
    (event : CITPLibEvent Sender) :
    listening (events ++ [event]) = (listening events || event.connects) := by
  rw [listening, listening, List.any_append, List.any_cons, List.any_nil, Bool.or_false]

theorem heard_concat {Sender : Type} (events : List (CITPLibEvent Sender))
    (event : CITPLibEvent Sender) :
    heard (events ++ [event]) =
      heard events ++ if listening events then event.datagrams else [] := by
  rw [heard, heardFrom_append, Bool.false_or, heardFrom, heardFrom, List.append_nil]

/-- Everything that an event does: its part for the announcing half, the datagrams that are
heard, and whether the slot is connected once more. -/
theorem CITPLib.step_cases {emitted : List CITPLibSignal}
    (h : CITPLib.step order hostString event lib = some (after, emitted)) :
    announce order event.announcerEvent.toList lib.peerSocket =
        some (after.peerSocket, sentDatagrams emitted) ∧
      processPackets order hostString
          (if 0 < lib.peerSocket.readyReadConnections then event.datagrams else [])
          lib.peerList = some (after.peerList, updates emitted) ∧
      after.peerSocket.readyReadConnections =
        lib.peerSocket.readyReadConnections + if event.connects then 1 else 0 := by
  cases event with
  | createPeerInformationSocket name state results =>
    simp only [CITPLib.step, CITPLib.createPeerInformationSocket, Option.some.injEq] at h
    obtain ⟨rfl, rfl⟩ := Prod.mk.inj h
    obtain ⟨hsent, hupdates⟩ :=
      sentDatagrams_map_sent (lib.peerSocket.init order name state results).2.1
    refine ⟨?_, ?_, ?_⟩
    · rw [sentDatagrams_append, hsent]
      rfl
    · rw [updates_append, hupdates, CITPLibEvent.datagrams, ite_self]
      rfl
    · rw [readyReadConnections_init, CITPLibEvent.connects]
      by_cases hsucceed : results.Succeed <;> simp [hsucceed]
  | timeout =>
    simp only [CITPLib.step, Option.ite_none_right_eq_some, Option.some.injEq] at h
    obtain ⟨htimer, h⟩ := h
    obtain ⟨rfl, rfl⟩ := Prod.mk.inj h
    obtain ⟨hsent, hupdates⟩ := sentDatagrams_map_sent lib.peerSocket.transmitPLoc
    refine ⟨?_, ?_, rfl⟩
    · rw [hsent, CITPLibEvent.announcerEvent, Option.toList_some, announce, run_cons,
        PeerInformationSocket.step, if_pos htimer, Option.bind_some, run_nil, Option.bind_some,
        List.append_nil]
    · rw [hupdates, CITPLibEvent.datagrams, ite_self]
      rfl
  | readyRead pending =>
    simp only [CITPLib.step, Option.map_eq_some_iff, Prod.mk.injEq] at h
    obtain ⟨⟨peerList, handled⟩, hread, rfl, rfl⟩ := h
    obtain ⟨hupdates, hsent⟩ := updates_map_peersUpdated handled
    refine ⟨?_, ?_, rfl⟩
    · rw [hsent]
      rfl
    · rw [hupdates, CITPLibEvent.datagrams]
      by_cases hconnected : 0 < lib.peerSocket.readyReadConnections
      · rwa [if_pos hconnected, ← readyRead_connections hconnected]
      · rw [Nat.eq_zero_of_not_pos hconnected, PeerInformationSocket.readyRead] at hread
        rw [if_neg hconnected]
        exact hread

theorem Halves.step (h : Halves order hostString events signals lib)
    {emitted : List CITPLibSignal}
    (hstep : CITPLib.step order hostString event lib = some (after, emitted)) :
    Halves order hostString (events ++ [event]) (signals ++ emitted) after := by
  obtain ⟨hannounce, hprocess, hconnections⟩ := CITPLib.step_cases hstep
  refine ⟨?_, ?_, ?_⟩
  · have hannounces := h.announces
    rw [announce] at hannounce hannounces ⊢
    rw [announcerEvents_concat, run_append, hannounces, Option.bind_some, hannounce,
      Option.bind_some, sentDatagrams_append]
  · have hlists := h.lists
    have hheard : (if 0 < lib.peerSocket.readyReadConnections then event.datagrams else []) =
        if listening events then event.datagrams else [] := if_congr h.hears rfl rfl
    rw [hheard] at hprocess
    rw [processPackets] at hprocess hlists ⊢
    rw [heard_concat, run_append, hlists, Option.bind_some, hprocess, Option.bind_some,
      updates_append]
  · rw [hconnections, listening_concat, Bool.or_eq_true, ← h.hears]
    by_cases hconnects : event.connects = true
    · simp [hconnects]
    · simp [hconnects]

theorem halves_run
    (h : run (CITPLib.step order hostString) events .new = some (lib, signals)) :
    Halves order hostString events signals lib := by
  apply trace_run (P := fun events signals lib => Halves order hostString events signals lib)
    ?_ ?_ h
  · intro events signals lib event after emitted hhalves hstep
    exact hhalves.step hstep
  · exact ⟨rfl, rfl, iff_of_false (Nat.lt_irrefl 0) Bool.false_ne_true⟩

/-! ## Runs -/

/-- When an event is possible: each half decides about its own part. -/
theorem isSome_step_iff (h : Halves order hostString events signals lib) :
    (CITPLib.step order hostString event lib).isSome ↔
      (announce order event.announcerEvent.toList lib.peerSocket).isSome ∧
        ∀ d ∈ (if listening events then event.datagrams else []),
          DatagramLongEnough order d.2 := by
  cases event with
  | createPeerInformationSocket name state results =>
    rw [CITPLibEvent.datagrams, ite_self]
    exact iff_of_true rfl ⟨rfl, fun d hd => absurd hd List.not_mem_nil⟩
  | timeout =>
    rw [CITPLibEvent.datagrams, ite_self]
    by_cases htimer : lib.peerSocket.timerActive = true
    · refine iff_of_true ?_ ⟨?_, fun d hd => absurd hd List.not_mem_nil⟩
      · rw [CITPLib.step, if_pos htimer]
        rfl
      · rw [CITPLibEvent.announcerEvent, Option.toList_some, announce, run_cons,
          PeerInformationSocket.step, if_pos htimer]
        rfl
    · refine iff_of_false ?_ fun hboth => ?_
      · rw [CITPLib.step, if_neg htimer]
        exact Bool.false_ne_true
      · have hsome := hboth.1
        rw [CITPLibEvent.announcerEvent, Option.toList_some, announce, run_cons,
          PeerInformationSocket.step, if_neg htimer] at hsome
        exact Bool.false_ne_true hsome
  | readyRead pending =>
    have hnothing : (announce order (CITPLibEvent.readyRead pending).announcerEvent.toList
        lib.peerSocket).isSome := rfl
    rw [CITPLib.step, Option.isSome_map, CITPLibEvent.datagrams, and_iff_right hnothing]
    by_cases hconnected : 0 < lib.peerSocket.readyReadConnections
    · rw [readyRead_connections hconnected, if_pos (h.hears.mp hconnected)]
      exact processPackets_isSome_iff
    · rw [Nat.eq_zero_of_not_pos hconnected, if_neg (mt h.hears.mpr hconnected)]
      exact iff_of_true rfl fun d hd => absurd hd List.not_mem_nil

/-- **The runs that are possible**: those in which the timer runs when it times out, and every
datagram that is heard is long enough to be read within its bounds. -/
theorem isSome_citpLib_run_iff (order : ByteOrder) (hostString : Host → QString)
    (events : List (CITPLibEvent Host)) :
    (run (CITPLib.step order hostString) events .new).isSome ↔
      (announce order (announcerEvents events) .new).isSome ∧
        ∀ d ∈ heard events, DatagramLongEnough order d.2 := by
  -- the last event is decided by what the run up to it has made of the halves
  induction events using List.reverseRecOn with
  | nil => exact iff_of_true rfl ⟨rfl, fun d hd => absurd hd List.not_mem_nil⟩
  | append_singleton events event ih =>
    rw [isSome_run_append, announcerEvents_concat, announce, isSome_run_append, heard_concat,
      List.forall_mem_append]
    constructor
    · intro h
      obtain ⟨lib, signals, hrun, hevent⟩ := h
      have hhalves := halves_run hrun
      obtain ⟨hannounce, hlong⟩ :=
        (isSome_step_iff hhalves).mp (isSome_run_singleton.mp hevent)
      obtain ⟨-, hheard⟩ := ih.mp (Option.isSome_of_eq_some hrun)
      exact ⟨⟨lib.peerSocket, sentDatagrams signals, hhalves.announces, hannounce⟩, hheard,
        hlong⟩
    · intro h
      obtain ⟨⟨socket, sent, hannounces, hannounce⟩, hheard, hlong⟩ := h
      have hdefined := ih.mpr ⟨Option.isSome_of_eq_some hannounces, hheard⟩
      obtain ⟨⟨lib, signals⟩, hrun⟩ := Option.isSome_iff_exists.mp hdefined
      have hhalves := halves_run hrun
      obtain ⟨rfl, -⟩ := Prod.mk.inj (Option.some.inj (hhalves.announces.symm.trans hannounces))
      exact ⟨lib, signals, hrun,
        isSome_run_singleton.mpr ((isSome_step_iff hhalves).mpr ⟨hannounce, hlong⟩)⟩

/-- Nothing is heard before a call has succeeded. -/
theorem heard_of_not_listening {Sender : Type} {events : List (CITPLibEvent Sender)}
    (h : listening events = false) : heard events = [] := by
  induction events using List.reverseRecOn with
  | nil => rfl
  | append_singleton events event ih =>
    rw [listening_concat, Bool.or_eq_false_iff] at h
    rw [heard_concat, ih h.1, h.1]
    rfl

/-- A call of `init` with this name and state has succeeded. -/
def Initialised (events : List AnnouncerEvent) (p : QString × QString) : Prop :=
  ∃ results, .init p.1 p.2 results ∈ events ∧ results.Succeed

theorem Initialised.append {events : List AnnouncerEvent} {p : QString × QString}
    (h : Initialised events p) (later : List AnnouncerEvent) : Initialised (events ++ later) p := by
  obtain ⟨results, hmem, hsucceed⟩ := h
  exact ⟨results, List.mem_append_left _ hmem, hsucceed⟩

/-- **What is sent announces the arguments of a call that succeeded.** -/
theorem exists_initialised_of_mem_sent {events : List AnnouncerEvent}
    {socket : PeerInformationSocket} {sent : List (List UInt8)} {datagram : List UInt8}
    (h : announce order events .new = some (socket, sent)) (hdatagram : datagram ∈ sent) :
    ∃ p, Initialised events p ∧ datagram = consoleAnnouncement order p.1 p.2 := by
  have hkept := trace_run (P := fun events sent announcer =>
    (∀ p, announcer = some p → Initialised events p) ∧ ∀ datagram ∈ sent,
      ∃ p, Initialised events p ∧ datagram = consoleAnnouncement order p.1 p.2)
    ?_ ⟨fun p hp => absurd hp.symm (Option.some_ne_none p), fun _ hmem =>
      absurd hmem List.not_mem_nil⟩ (announce_refines h)
  · exact hkept.2 datagram hdatagram
  · intro events sent announcer event announcer' emitted hbefore hstep
    obtain ⟨hannouncer, hsent⟩ := hbefore
    have hcurrent : (∀ p, announcer' = some p → Initialised (events ++ [event]) p) ∧
        ∀ datagram ∈ emitted, ∃ p, announcer' = some p ∧
          datagram = consoleAnnouncement order p.1 p.2 := by
      cases event with
      | init name state results =>
        rw [Announcer.step] at hstep
        split at hstep
        · rename_i hsucceed
          obtain ⟨rfl, rfl⟩ := Prod.mk.inj (Option.some.inj hstep)
          refine ⟨fun p hp => ?_, fun datagram hmem =>
            ⟨(name, state), rfl, List.mem_singleton.mp hmem⟩⟩
          obtain rfl := Option.some.inj hp
          exact ⟨results, List.mem_append_right _ (List.mem_singleton.mpr rfl), hsucceed⟩
        · obtain ⟨rfl, rfl⟩ := Prod.mk.inj (Option.some.inj hstep)
          exact ⟨fun p hp => absurd hp.symm (Option.some_ne_none p), fun _ hmem =>
            absurd hmem List.not_mem_nil⟩
      | timeout =>
        obtain ⟨p, rfl, hpair⟩ := Option.map_eq_some_iff.mp hstep
        obtain ⟨rfl, rfl⟩ := Prod.mk.inj hpair
        exact ⟨fun q hq => (hannouncer q hq).append _, fun datagram hmem =>
          ⟨p, rfl, List.mem_singleton.mp hmem⟩⟩
    refine ⟨hcurrent.1, fun datagram hmem => ?_⟩
    rcases List.mem_append.mp hmem with hmem | hmem
    · obtain ⟨p, hp, hdatagram⟩ := hsent datagram hmem
      exact ⟨p, hp.append _, hdatagram⟩
    · obtain ⟨p, hp, hdatagram⟩ := hcurrent.2 datagram hmem
      exact ⟨p, hcurrent.1 p hp, hdatagram⟩

theorem listening_of_initialised {Sender : Type} {events : List (CITPLibEvent Sender)}
    {p : QString × QString} (h : Initialised (announcerEvents events) p) :
    listening events = true := by
  obtain ⟨results, hmem, hsucceed⟩ := h
  obtain ⟨event, hevent, hinit⟩ := List.mem_filterMap.mp hmem
  apply List.any_eq_true.mpr
  refine ⟨event, hevent, ?_⟩
  cases event with
  | createPeerInformationSocket name state results' =>
    obtain ⟨-, -, rfl⟩ := AnnouncerEvent.init.inj (Option.some.inj hinit)
    exact decide_eq_true hsucceed
  | timeout => exact absurd hinit (by simp [CITPLibEvent.announcerEvent])
  | readyRead pending => exact absurd hinit (by simp [CITPLibEvent.announcerEvent])

/-- **A run of the library is one of each of its halves.** A run is possible exactly if one of
the announcer over its own events is, and all datagrams that are heard are long enough. What is
sent is then what the announcer sends, and the list of peers is the table of the datagrams
heard: of those that have come after the first call that succeeded. The program is told of
each peer once. -/
theorem citpLib_run (order : ByteOrder) (hostString : Host → QString)
    (events : List (CITPLibEvent Host)) :
    ((run (CITPLib.step order hostString) events .new).isSome ↔
      (announce order (announcerEvents events) .new).isSome ∧
        ∀ d ∈ heard events, DatagramLongEnough order d.2) ∧
    ∀ lib signals, run (CITPLib.step order hostString) events .new = some (lib, signals) →
      announce order (announcerEvents events) .new =
          some (lib.peerSocket, sentDatagrams signals) ∧
        processPackets order hostString (heard events) [] =
          some (lib.listPeers.2, updates signals) ∧
        lib.listPeers.2.length = (updates signals).length ∧
        (listening events = false → lib.listPeers.2 = [] ∧ sentDatagrams signals = []) := by
  refine ⟨isSome_citpLib_run_iff order hostString events, fun lib signals hrun => ?_⟩
  have hhalves := halves_run hrun
  obtain ⟨-, -, hupdates⟩ := insertAll_of_processPackets hhalves.lists
  refine ⟨hhalves.announces, hhalves.lists, ?_, ?_⟩
  · rw [hupdates, growth, List.length_replicate]
    rfl
  · intro hsilent
    constructor
    · have hlists := hhalves.lists
      rw [heard_of_not_listening hsilent] at hlists
      exact (Prod.mk.inj (Option.some.inj hlists)).1.symm
    · apply List.eq_nil_iff_forall_not_mem.mpr
      intro datagram hmem
      obtain ⟨p, hp, -⟩ := exists_initialised_of_mem_sent hhalves.announces hmem
      rw [listening_of_initialised hp] at hsilent
      exact Bool.false_ne_true hsilent.symm

/-- A desk announces itself, fails to do so with a new state, and still hears of a
visualizer. -/
def deskEvents : List (CITPLibEvent QString) :=
  [.createPeerInformationSocket (.ofLiteral "Desk") (.ofLiteral "Idle") ⟨true, 0, true⟩,
    .createPeerInformationSocket (.ofLiteral "Desk") (.ofLiteral "Running") ⟨false, 0, true⟩,
    .readyRead [some (.ofLiteral "10.0.0.7", announcementBytes (List.replicate 10 0) 4011
      (.ofLiteral "Visualizer") (.ofLiteral "Capture") (.ofLiteral "Idle") [])]]

theorem isSome_run_deskEvents : (run (CITPLib.step .little id) deskEvents .new).isSome := by
  decide

/-- The library object of the desk afterwards, and the signals. -/
def desk : CITPLib QString × List CITPLibSignal :=
  (run (CITPLib.step .little id) deskEvents .new).get isSome_run_deskEvents

theorem citpLib_run_desk :
    processPackets .little id (heard deskEvents) [] =
      some (desk.1.listPeers.2, updates desk.2) :=
  ((citpLib_run .little id deskEvents).2 _ _ (Option.some_get isSome_run_deskEvents).symm).2.1

/-! ## What a program can connect to -/

/-- Each peer announced comes with a datagram. -/
theorem announced_eq_append_iff {run : List (Host × List UInt8)} {peer : Peer Host}
    {early late : List (Peer Host)} :
    announced order run = early ++ peer :: late ↔ ∃ front d back announcement,
      run = front ++ d :: back ∧ announcement? order d.2 = some announcement ∧
        peer = announcement.peer d.1 ∧ early = announced order front ∧
        late = announced order back := by
  constructor
  · intro h
    obtain ⟨front, rest, rfl, hearly, hrest⟩ := List.filterMap_eq_append_iff.mp h
    obtain ⟨skipped, d, back, rfl, hskipped, hd, hlate⟩ := List.filterMap_eq_cons_iff.mp hrest
    obtain ⟨announcement, hannouncement, hpeer⟩ := Option.map_eq_some_iff.mp hd
    refine ⟨front ++ skipped, d, back, announcement, (List.append_assoc ..).symm,
      hannouncement, hpeer.symm, ?_, hlate.symm⟩
    have hnone : announced order skipped = [] := List.filterMap_eq_nil_iff.mpr hskipped
    rw [announced_append, hnone, List.append_nil]
    exact hearly.symm
  · intro h
    obtain ⟨front, d, back, announcement, rfl, hannouncement, rfl, rfl, rfl⟩ := h
    rw [announced_append]
    congr 1
    rw [announced, List.filterMap_cons, hannouncement]
    rfl

theorem connectToPeer_peer (announcement : Announcement) (sender : Host) :
    (announcement.peer sender).connectToPeer =
      if announcement.listeningPort = 0 then (false, none)
      else (true, some (sender, announcement.listeningPort)) := by
  rw [Peer.connectToPeer, listeningPort_peer, host_peer]
  exact if_congr eq_comm rfl rfl

/-- **What a program lists, and what it can connect to.** The list holds the peers of the first
announcements heard for each host and port, and no others. A peer has the sender of its
announcement as host, and the port, the name and the state announced there; it is a visualizer
exactly if the announcement says so. A connection goes to this host and port, and it is refused
exactly if the port is 0. -/
theorem listed_run
    (h : run (CITPLib.step order hostString) events .new = some (lib, signals)) :
    (∀ peer, peer ∈ lib.listPeers.2 ↔ ∃ front d back announcement,
      heard events = front ++ d :: back ∧ announcement? order d.2 = some announcement ∧
        (hostString d.1, announcement.listeningPort) ∉ announcedKeys order hostString front ∧
        peer = announcement.peer d.1) ∧
    ∀ peer ∈ lib.listPeers.2, ∃ d ∈ heard events, ∃ announcement,
      announcement? order d.2 = some announcement ∧ peer = announcement.peer d.1 ∧
        peer.host = d.1 ∧ peer.listeningPort = announcement.listeningPort ∧
        peer.peerName = announcement.name ∧ peer.peerState = announcement.state ∧
        (peer.peerType = .visualizerPeer ↔
          announcement.typeString = .ofLiteral "Visualizer") ∧
        peer.connectToPeer = if announcement.listeningPort = 0 then (false, none)
          else (true, some (d.1, announcement.listeningPort)) := by
  have hlisted : ∀ peer, peer ∈ lib.listPeers.2 ↔ ∃ front d back announcement,
      heard events = front ++ d :: back ∧ announcement? order d.2 = some announcement ∧
        (hostString d.1, announcement.listeningPort) ∉ announcedKeys order hostString front ∧
        peer = announcement.peer d.1 := by
    intro peer
    have hlists : lib.listPeers.2 =
        Table.insertAll (Peer.key hostString) [] (announced order (heard events)) :=
      (insertAll_of_processPackets (halves_run h).lists).2.1
    rw [hlists, Table.mem_insertAll_iff]
    constructor
    · intro hmem
      rcases hmem with hmem | ⟨early, late, hsplit, -, hkey⟩
      · exact absurd hmem List.not_mem_nil
      · obtain ⟨front, d, back, announcement, hheard, hannouncement, rfl, rfl, -⟩ :=
          announced_eq_append_iff.mp hsplit
        rw [key_peer, map_key_announced] at hkey
        exact ⟨front, d, back, announcement, hheard, hannouncement, hkey, rfl⟩
    · intro hfirst
      obtain ⟨front, d, back, announcement, hheard, hannouncement, hkey, rfl⟩ := hfirst
      refine .inr ⟨announced order front, announced order back, ?_, List.not_mem_nil, ?_⟩
      · exact announced_eq_append_iff.mpr
          ⟨front, d, back, announcement, hheard, hannouncement, rfl, rfl, rfl⟩
      · rwa [key_peer, map_key_announced]
  refine ⟨hlisted, fun peer hpeer => ?_⟩
  obtain ⟨front, d, back, announcement, hheard, hannouncement, -, rfl⟩ := (hlisted peer).mp hpeer
  have hd : d ∈ heard events := by
    rw [hheard]
    exact List.mem_append_right _ List.mem_cons_self
  exact ⟨d, hd, announcement, hannouncement, rfl, host_peer announcement d.1,
    listeningPort_peer announcement d.1, peerName_peer announcement d.1,
    peerState_peer announcement d.1, peerType_peer announcement d.1,
    connectToPeer_peer announcement d.1⟩

/-- What the desk lists of the visualizer. -/
def deskVisualizer : Peer QString :=
  Visualizer.new (.ofLiteral "10.0.0.7") 4011 (.ofLiteral "Capture") (.ofLiteral "Idle")

theorem deskVisualizer_mem : deskVisualizer ∈ desk.1.listPeers.2 := by
  decide

theorem listed_run_desk :
    ∃ d ∈ heard deskEvents, ∃ announcement,
      announcement? .little d.2 = some announcement ∧
        deskVisualizer = announcement.peer d.1 ∧
        deskVisualizer.host = d.1 ∧ deskVisualizer.listeningPort = announcement.listeningPort ∧
        deskVisualizer.peerName = announcement.name ∧
        deskVisualizer.peerState = announcement.state ∧
        (deskVisualizer.peerType = .visualizerPeer ↔
          announcement.typeString = .ofLiteral "Visualizer") ∧
        deskVisualizer.connectToPeer = if announcement.listeningPort = 0 then (false, none)
          else (true, some (d.1, announcement.listeningPort)) :=
  (listed_run (Option.some_get isSome_run_deskEvents).symm).2 deskVisualizer deskVisualizer_mem

end CitpLib
