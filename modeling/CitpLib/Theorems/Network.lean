import CitpLib.Theorems.Heard
import CitpLib.Theorems.Library

/-!
# Discovery on a network

Programs that use the library run on the nodes of a network, in any order and with any
outcome of the calls they depend on. Of the datagrams that are sent each node receives
some, late, repeated or out of order. Whatever happens, a peer that a node lists has been
announced by a call that succeeded, on a node of the same byte order. No peer is listed
twice, and no datagram makes a node read outside an array.

The nodes announce port 0, for the library does not listen. So the programs find each
other, and none of them can connect to what it has found.

## Main definitions

* `Network.new` — the network before anything has happened
* `localEvents` — the events of one node, with the addresses of the senders

## Main results

* `node_run` — a node runs as the library does
* `exists_initialised_of_mem_heard` — what is heard has been announced
* `network_safety` — what a node lists, and what it does with what it receives
* `network_table` — the list of a node is that of the senders it has heard
* `network_progress` — whatever has happened, a node can still be found
-/

namespace CitpLib

open Wire Streaming PeerInformationSocket

variable {Node Host : Type} {address : Node → Host} {order : Node → ByteOrder}
  {hostString : Host → QString} {node sender : Node} {datagram : List UInt8}
  {events : List (Node × CITPLibEvent Node)} {signals : List (Node × CITPLibSignal)}
  {net : Broadcast Node (CITPLib Host) (List UInt8)}

/-! ## Addresses -/

theorem addressed_datagrams (address : Node → Host) (event : CITPLibEvent Node) :
    (event.addressed address).datagrams = event.datagrams.map fun d => (address d.1, d.2) := by
  cases event with
  | readyRead pending =>
    rw [CITPLibEvent.addressed, CITPLibEvent.datagrams, CITPLibEvent.datagrams,
      List.reduceOption_map]
  | createPeerInformationSocket name state results => rfl
  | timeout => rfl

theorem addressed_connects (address : Node → Host) (event : CITPLibEvent Node) :
    (event.addressed address).connects = event.connects := by
  cases event <;> rfl

theorem heardFrom_addressed (address : Node → Host) (connected : Bool)
    (events : List (CITPLibEvent Node)) :
    heardFrom connected (events.map (CITPLibEvent.addressed address)) =
      (heardFrom connected events).map fun d => (address d.1, d.2) := by
  induction events generalizing connected with
  | nil => rfl
  | cons event events ih =>
    rw [List.map_cons, heardFrom, heardFrom, ih, List.map_append, addressed_connects,
      addressed_datagrams]
    cases connected <;> rfl

theorem announcerEvents_addressed (address : Node → Host) (events : List (CITPLibEvent Node)) :
    announcerEvents (events.map (CITPLibEvent.addressed address)) = announcerEvents events := by
  rw [announcerEvents, announcerEvents, List.filterMap_map]
  congr 1
  funext event
  cases event <;> rfl

/-- A datagram that is heard in a run comes with one of its events. -/
theorem exists_event_of_mem_heardFrom {connected : Bool} {events : List (CITPLibEvent Node)}
    (h : (sender, datagram) ∈ heardFrom connected events) :
    ∃ event ∈ events, (sender, datagram) ∈ event.datagrams := by
  induction events generalizing connected with
  | nil => exact absurd h List.not_mem_nil
  | cons event events ih =>
    rw [heardFrom, List.mem_append] at h
    rcases h with h | h
    · cases connected with
      | false => exact absurd h List.not_mem_nil
      | true => exact ⟨event, List.mem_cons_self, h⟩
    · obtain ⟨event', hevent, hmem⟩ := ih h
      exact ⟨event', List.mem_cons_of_mem _ hevent, hmem⟩

theorem takes_eq_datagrams (address : Node → Host) (order : Node → ByteOrder)
    (hostString : Host → QString) (event : CITPLibEvent Node) :
    (discovery address order hostString).takes event = event.datagrams := by
  cases event <;> rfl

/-! ## What consoles announce -/

/-- The peer that a node hears of from the announcement of another one. -/
theorem announced_console (order order' : ByteOrder) (host : Host) (p : QString × QString) :
    announced order [(host, consoleAnnouncement order' p.1 p.2)] =
      if order = order' then [Peer.new host 0 (heardName p.1 p.2) (heardState p.1 p.2)]
      else [] := by
  rw [announced, List.filterMap_cons, List.filterMap_nil, consoleAnnouncement,
    announcement?_wire]
  by_cases horder : order = order'
  · rw [if_pos horder, if_pos horder]
    rfl
  · rw [if_neg horder, if_neg horder]
    rfl

/-- The keys that datagrams of the network announce. -/
theorem announcedKeys_console {datagrams : List (Node × List UInt8)}
    (h : ∀ d ∈ datagrams, ∃ p : QString × QString,
      d.2 = consoleAnnouncement (order d.1) p.1 p.2) (order' : ByteOrder) :
    announcedKeys order' hostString (datagrams.map fun d => (address d.1, d.2)) =
      (datagrams.filter fun d => order' = order d.1).map
        fun d => (hostString (address d.1), 0) := by
  induction datagrams with
  | nil => rfl
  | cons d datagrams ih =>
    have hrest := ih fun d' hd' => h d' (List.mem_cons_of_mem _ hd')
    obtain ⟨p, hp⟩ := h d List.mem_cons_self
    rw [announcedKeys] at hrest ⊢
    rw [List.map_cons, List.filterMap_cons, hp, consoleAnnouncement, announcement?_wire, hrest]
    by_cases horder : order' = order d.1
    · rw [if_pos horder, List.filter_cons, if_pos (decide_eq_true horder), List.map_cons]
      rfl
    · rw [if_neg horder, List.filter_cons, if_neg (by simpa using horder)]
      rfl

theorem mem_announced_iff {order' : ByteOrder} {run : List (Host × List UInt8)}
    {peer : Peer Host} :
    peer ∈ announced order' run ↔ ∃ d ∈ run, peer ∈ announced order' [d] := by
  simp [announced]

/-! ## One node -/

/-- The programs have created their objects, and nothing has been sent. -/
def Network.new : Broadcast Node (CITPLib Host) (List UInt8) where
  components _ := .new
  sent := []

variable [DecidableEq Node]

/-- The events of one node, with the addresses of the senders. -/
def localEvents (address : Node → Host) (node : Node)
    (events : List (Node × CITPLibEvent Node)) : List (CITPLibEvent Host) :=
  (projected node events).map (CITPLibEvent.addressed address)

/-- **A node runs as the library does.** -/
theorem node_run
    (h : run (discovery address order hostString).network events Network.new =
      some (net, signals)) (node : Node) :
    run (CITPLib.step (order node) hostString) (localEvents address node events) .new =
      some (net.components node, projected node signals) := by
  rw [localEvents, run_map]
  exact component_run h node

/-! ## What is heard -/

/-- **What has been sent announces what a call on the sending node asked for.** -/
theorem exists_initialised_of_mem_sent_network
    (h : run (discovery address order hostString).network events Network.new =
      some (net, signals)) (hsent : (sender, datagram) ∈ net.sent) :
    ∃ p, Initialised (announcerEvents (projected sender events)) p ∧
      datagram = consoleAnnouncement (order sender) p.1 p.2 := by
  obtain ⟨signal, hsignal, hsends⟩ := exists_signal_of_mem_sent rfl h hsent
  -- the sender runs as the library does, and its announcer has sent the datagram
  have hmem : datagram ∈ sentDatagrams (projected sender signals) :=
    List.mem_filterMap.mpr ⟨signal, hsignal, hsends⟩
  have hannounces := (halves_run (node_run h sender)).announces
  rw [localEvents, announcerEvents_addressed] at hannounces
  exact exists_initialised_of_mem_sent hannounces hmem

/-- **What is heard has been announced** by a call on the sending node. -/
theorem exists_initialised_of_mem_heard
    (h : run (discovery address order hostString).network events Network.new =
      some (net, signals)) (hheard : (sender, datagram) ∈ heard (projected node events)) :
    ∃ p, Initialised (announcerEvents (projected sender events)) p ∧
      datagram = consoleAnnouncement (order sender) p.1 p.2 := by
  obtain ⟨event, hevent, hmem⟩ := exists_event_of_mem_heardFrom hheard
  rw [← takes_eq_datagrams address order hostString] at hmem
  exact exists_initialised_of_mem_sent_network h
    (mem_sent_of_taken h (node, event) (mem_projected_iff.mp hevent) _ hmem)

/-! ## The lists -/

/-- Every datagram on the network is read within its bounds. -/
theorem datagramLongEnough_of_mem_sent
    (h : run (discovery address order hostString).network events Network.new =
      some (net, signals)) (hsent : (sender, datagram) ∈ net.sent) (order' : ByteOrder) :
    DatagramLongEnough order' datagram := by
  obtain ⟨p, -, rfl⟩ := exists_initialised_of_mem_sent_network h hsent
  exact datagramLongEnough_wire order' (order sender) .lightingConsole p.1 p.2

theorem lists_node
    (h : run (discovery address order hostString).network events Network.new =
      some (net, signals)) (node : Node) :
    (net.components node).listPeers.2 = Table.insertAll (Peer.key hostString) []
      (announced (order node) ((heard (projected node events)).map
        fun d => (address d.1, d.2))) := by
  have hlists := (halves_run (node_run h node)).lists
  rw [localEvents, heard, heardFrom_addressed] at hlists
  exact (insertAll_of_processPackets hlists).2.1

/-- A node can receive what has been sent, and nothing else. -/
theorem isSome_receive_iff
    (h : run (discovery address order hostString).network events Network.new =
      some (net, signals)) (node : Node) (pending : List (Option (Node × List UInt8))) :
    ((discovery address order hostString).network (node, .readyRead pending) net).isSome ↔
      ∀ d ∈ pending.reduceOption, d ∈ net.sent := by
  rw [isSome_network_iff]
  refine and_iff_left_of_imp fun hpending => ?_
  have hsent : ∀ d ∈ pending.reduceOption, DatagramLongEnough (order node) d.2 :=
    fun d hd => datagramLongEnough_of_mem_sent h (hpending d hd) (order node)
  change (CITPLib.step (order node) hostString
    ((CITPLibEvent.readyRead pending).addressed address) (net.components node)).isSome = true
  refine (isSome_step_iff (halves_run (node_run h node))).mpr ⟨rfl, ?_⟩
  intro d hd
  split at hd
  · rw [addressed_datagrams] at hd
    obtain ⟨d', hmem, rfl⟩ := List.mem_map.mp hd
    exact hsent d' hmem
  · exact absurd hd List.not_mem_nil

/-- **What a node lists, and what it does with what it receives.** After any run of the
network, whatever has been lost, repeated or reordered, a peer that a node lists is the one
that a call with success announced, on a node with the host of the peer and the byte order of
the listing node. It has port 0 and no connection to it is tried. No host is listed twice. A
node can receive any datagrams of the network: none makes it read outside an array. -/
theorem network_safety
    (h : run (discovery address order hostString).network events Network.new =
      some (net, signals)) (node : Node) :
    (∀ peer ∈ (net.components node).listPeers.2,
      (∃ sender p, Initialised (announcerEvents (projected sender events)) p ∧
        order sender = order node ∧
        peer = Peer.new (address sender) 0 (heardName p.1 p.2) (heardState p.1 p.2)) ∧
      peer.connectToPeer = (false, none)) ∧
    ((net.components node).listPeers.2.map (Peer.key hostString)).Nodup ∧
    ∀ pending, ((discovery address order hostString).network (node, .readyRead pending)
      net).isSome ↔ ∀ d ∈ pending.reduceOption, d ∈ net.sent := by
  have hlists := lists_node h node
  refine ⟨fun peer hpeer => ?_, ?_, fun pending => ?_⟩
  · rw [hlists] at hpeer
    obtain ⟨new, hnew, hsub⟩ := Table.insertAll_eq_append (Peer.key hostString) []
      (announced (order node) ((heard (projected node events)).map fun d => (address d.1, d.2)))
    rw [hnew, List.nil_append] at hpeer
    obtain ⟨d, hd, hannounced⟩ := mem_announced_iff.mp (hsub.subset hpeer)
    obtain ⟨⟨sender, datagram⟩, hheard, rfl⟩ := List.mem_map.mp hd
    obtain ⟨p, hp, rfl⟩ := exists_initialised_of_mem_heard h hheard
    rw [announced_console] at hannounced
    -- between hosts of different byte orders nothing is announced
    by_cases horder : order node = order sender
    · rw [if_pos horder] at hannounced
      obtain rfl := List.mem_singleton.mp hannounced
      exact ⟨⟨sender, p, hp, horder.symm, rfl⟩, rfl⟩
    · rw [if_neg horder] at hannounced
      exact absurd hannounced List.not_mem_nil
  · rw [hlists]
    exact Table.nodup_insertAll _ (l := []) List.nodup_nil _
  · rw [isSome_receive_iff h]

/-- **The list of a node is that of the senders it has heard.** After any run of the network
a node lists the hosts of the nodes of its own byte order of which it has received a datagram
since its first call that succeeded, in the order of the first one. So what has been lost or
repeated, and what else the nodes have announced, makes no difference: nodes that have heard
the same senders list the same hosts. -/
theorem network_table
    (h : run (discovery address order hostString).network events Network.new =
      some (net, signals)) (node : Node) :
    (net.components node).listPeers.2.map (Peer.key hostString) =
      (((heard (projected node events)).filter fun d => order node = order d.1).map
        fun d => (hostString (address d.1), 0)).eraseDups := by
  have hheard : ∀ d ∈ heard (projected node events), ∃ p : QString × QString,
      d.2 = consoleAnnouncement (order d.1) p.1 p.2 := by
    intro d hd
    obtain ⟨p, -, hp⟩ := exists_initialised_of_mem_heard h hd
    exact ⟨p, hp⟩
  rw [lists_node h, Table.map_key_insertAll, map_key_announced, announcedKeys_console hheard]

/-! ## Progress -/

/-- A node whose timer runs sends the announcement of its current name and state. -/
theorem network_timeout
    (h : run (discovery address order hostString).network events Network.new =
      some (net, signals)) (htimer : (net.components sender).peerSocket.timerActive = true) :
    ∃ p : QString × QString, (discovery address order hostString).network (sender, .timeout) net =
      some (⟨net.components, net.sent ++ [(sender, consoleAnnouncement (order sender) p.1 p.2)]⟩,
        [(sender, .sent (consoleAnnouncement (order sender) p.1 p.2))]) := by
  have hholding := holding_announce (halves_run (node_run h sender)).announces
  have hown : (discovery address order hostString).step sender .timeout (net.components sender) =
      some (net.components sender, [.sent (consoleAnnouncement (order sender)
        (net.components sender).peerSocket.name (net.components sender).peerSocket.state)]) := by
    change CITPLib.step (order sender) hostString .timeout (net.components sender) = _
    rw [CITPLib.step, if_pos htimer, hholding.transmitPLoc_of_timerActive htimer]
    rfl
  refine ⟨((net.components sender).peerSocket.name, (net.components sender).peerSocket.state), ?_⟩
  have htakes : ∀ d ∈ (discovery address order hostString).takes (.timeout : CITPLibEvent Node),
      d ∈ net.sent := fun d hd => absurd hd List.not_mem_nil
  rw [Protocol.network, if_pos htakes, hown, Option.map_some, Function.update_eq_self]
  rfl

/-- A node lists the senders of its own byte order that it has heard. -/
theorem mem_keys_of_heard
    (h : run (discovery address order hostString).network events Network.new =
      some (net, signals)) (hheard : (sender, datagram) ∈ heard (projected node events))
    (horder : order sender = order node) :
    (hostString (address sender), 0) ∈
      (net.components node).listPeers.2.map (Peer.key hostString) := by
  obtain ⟨p, -, rfl⟩ := exists_initialised_of_mem_heard h hheard
  rw [lists_node h, Table.mem_map_key_insertAll, map_key_announced]
  apply Or.inr
  apply List.mem_filterMap.mpr
  refine ⟨_, List.mem_map.mpr ⟨_, hheard, rfl⟩, ?_⟩
  rw [consoleAnnouncement, announcement?_wire, if_pos horder.symm]
  rfl

/-- **A node can always be found.** In every state that the network reaches, if the timer of a
node runs and another one, or itself, of the same byte order has had a call with success, then
they can go on so that the second lists the first: the timer times out and the datagram is
received. Nothing that has happened or has been lost before prevents it. -/
theorem network_progress
    (h : run (discovery address order hostString).network events Network.new =
      some (net, signals)) (htimer : (net.components sender).peerSocket.timerActive = true)
    (hlistening : listening (projected node events) = true)
    (horder : order sender = order node) :
    ∃ datagram net' signals', run (discovery address order hostString).network
        (events ++ [(sender, .timeout), (node, .readyRead [some (sender, datagram)])])
        Network.new = some (net', signals') ∧
      (hostString (address sender), 0) ∈
        (net'.components node).listPeers.2.map (Peer.key hostString) := by
  obtain ⟨p, htimeout⟩ := network_timeout h htimer
  set datagram := consoleAnnouncement (order sender) p.1 p.2
  have hsent : run (discovery address order hostString).network
      (events ++ [(sender, .timeout)]) Network.new =
        some (⟨net.components, net.sent ++ [(sender, datagram)]⟩,
          signals ++ [(sender, .sent datagram)]) := run_concat h htimeout
  have hstill : listening (projected node (events ++ [(sender, .timeout)])) = true := by
    rw [projected_append, listening, List.any_append, ← listening, hlistening, Bool.true_or]
  have hreceive : ((discovery address order hostString).network
      (node, .readyRead [some (sender, datagram)])
      ⟨net.components, net.sent ++ [(sender, datagram)]⟩).isSome := by
    apply (isSome_receive_iff hsent node _).mpr
    intro d hd
    rw [List.mem_singleton.mp hd]
    exact List.mem_append_right _ (List.mem_singleton.mpr rfl)
  obtain ⟨⟨net', emitted⟩, hstep⟩ := Option.isSome_iff_exists.mp hreceive
  have hrun := run_concat hsent hstep
  have hheard : (sender, datagram) ∈ heard (projected node
      ((events ++ [(sender, .timeout)]) ++
        [(node, CITPLibEvent.readyRead [some (sender, datagram)])])) := by
    rw [projected_append, projected_singleton_self, heard_concat, hstill]
    exact List.mem_append_right _ (List.mem_singleton.mpr rfl)
  have hlisted := mem_keys_of_heard hrun hheard horder
  rw [List.append_assoc] at hrun
  exact ⟨datagram, net', _, hrun, hlisted⟩

/-- Two consoles announce themselves, and the second receives the announcement of the first
twice, with one of its own between. -/
def consoleEvents : List (Bool × CITPLibEvent Bool) :=
  [(false, .createPeerInformationSocket (.ofLiteral "A") (.ofLiteral "Idle") ⟨true, 0, true⟩),
    (true, .createPeerInformationSocket (.ofLiteral "B") (.ofLiteral "Idle") ⟨true, 0, true⟩),
    (true, .readyRead
      [some (false, consoleAnnouncement .little (.ofLiteral "A") (.ofLiteral "Idle")), none,
        some (true, consoleAnnouncement .little (.ofLiteral "B") (.ofLiteral "Idle")),
        some (false, consoleAnnouncement .little (.ofLiteral "A") (.ofLiteral "Idle"))])]

/-- The addresses of the two consoles. -/
def consoleHost (node : Bool) : QString :=
  if node then .ofLiteral "10.0.0.2" else .ofLiteral "10.0.0.1"

theorem isSome_run_consoleEvents :
    (run (discovery consoleHost (fun _ => .little) id).network consoleEvents
      Network.new).isSome := by
  decide

/-- The network afterwards, and the signals. -/
def consoles : Broadcast Bool (CITPLib QString) (List UInt8) × List (Bool × CITPLibSignal) :=
  (run (discovery consoleHost (fun _ => .little) id).network consoleEvents Network.new).get
    isSome_run_consoleEvents

theorem network_safety_consoles :
    ((consoles.1.components true).listPeers.2.map (Peer.key id)).Nodup :=
  (network_safety (Option.some_get isSome_run_consoleEvents).symm true).2.1

theorem network_table_consoles :
    (consoles.1.components true).listPeers.2.map (Peer.key id) =
      (((heard (projected true consoleEvents)).filter fun _ => ByteOrder.little = .little).map
        fun d => (consoleHost d.1, 0)).eraseDups :=
  network_table (Option.some_get isSome_run_consoleEvents).symm true

theorem network_progress_consoles :
    ∃ datagram net' signals', run (discovery consoleHost (fun _ => .little) id).network
        (consoleEvents ++ [(false, .timeout), (true, .readyRead [some (false, datagram)])])
        Network.new = some (net', signals') ∧
      (id (consoleHost false), 0) ∈ (net'.components true).listPeers.2.map (Peer.key id) :=
  network_progress (Option.some_get isSome_run_consoleEvents).symm (by decide) (by decide) rfl

/-- The second console lists both, the first one first. -/
example : (consoles.1.components true).listPeers.2.map (Peer.key id) =
    [(.ofLiteral "10.0.0.1", 0), (.ofLiteral "10.0.0.2", 0)] := by
  decide

end CitpLib
