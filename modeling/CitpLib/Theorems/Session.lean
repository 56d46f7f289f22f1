import CitpLib.Model.Session
import CitpLib.Stream.Frames
import CitpLib.Theorems.Calls
import CitpLib.Theorems.Delivery
import CitpLib.Theorems.Receiver

/-!
# What becomes of calls

Over a connection the calls of a program should take effect at the other end, each
once and in order. This file follows them through any interleaving of calls,
arrivals and the end of the connection.

As far as the bytes go nothing can be lost: what has arrived and what is in flight
are the parts of packets that were taken, in order, whatever the byte orders of the
hosts. From a little-endian host the peer at the other end has performed a first part of
the calls, if the packets can be framed; on a big-endian host it does nothing for them.
A packet whose size is not assembled correctly stops it: it performs what was sent
before, and nothing behind it.

## Main definitions

* `accepted`, `emittedSignals`, `writtenBytes` — what the signals of a session say
* `Session.History` — where the bytes are that have been written
* `VisualizerCall.Framed` — a call whose packet is framed at the other end

## Main results

* `VisualizerCall.perform_eq` — the functions differ in their packets only
* `session_written` — what is written, and what the results of calls mean
* `session_run` — a session performs its calls in order
* `session_head` — what goes wrong later does not reach back
* `session_stalls` — it performs nothing behind a packet that cannot be framed
-/

namespace CitpLib

open Wire Streaming

variable {Host : Type} {enc dec : ByteOrder} {char : PlainChar} {receiver : Peer Host}
  {session : Session Host} {events : List SessionEvent} {signals : List SessionSignal}
  {call : VisualizerCall} {connected result : Bool} {write : ℤ} {taken m p tail : List UInt8}

/-! ## What the signals say -/

/-- The calls that have returned true, in order. -/
def accepted (signals : List SessionSignal) : List VisualizerCall :=
  signals.filterMap fun
    | .returned call true _ => some call
    | _ => none

/-- The signals of the receiving peer, in order. -/
def emittedSignals (signals : List SessionSignal) : List Signal :=
  signals.filterMap fun
    | .emitted signal => some signal
    | .returned .. => none

/-- The bytes that the socket has taken, in order. -/
def writtenBytes (signals : List SessionSignal) : List UInt8 :=
  signals.flatMap fun
    | .returned _ _ taken => taken
    | .emitted _ => []

theorem emittedSignals_append (signals signals' : List SessionSignal) :
    emittedSignals (signals ++ signals') = emittedSignals signals ++ emittedSignals signals' :=
  List.filterMap_append

theorem writtenBytes_append (signals signals' : List SessionSignal) :
    writtenBytes (signals ++ signals') = writtenBytes signals ++ writtenBytes signals' :=
  List.flatMap_append

@[simp] theorem accepted_returned_true (call : VisualizerCall) (taken : List UInt8)
    (signals : List SessionSignal) :
    accepted (.returned call true taken :: signals) = call :: accepted signals := rfl

@[simp] theorem accepted_returned_false (call : VisualizerCall) (taken : List UInt8)
    (signals : List SessionSignal) :
    accepted (.returned call false taken :: signals) = accepted signals := rfl

@[simp] theorem writtenBytes_returned (call : VisualizerCall) (result : Bool)
    (taken : List UInt8) (signals : List SessionSignal) :
    writtenBytes (.returned call result taken :: signals) = taken ++ writtenBytes signals := rfl

/-- What a peer emits is neither a result nor a byte. -/
theorem emittedSignals_map_emitted (emitted : List Signal) :
    emittedSignals (emitted.map .emitted) = emitted ∧
      writtenBytes (emitted.map .emitted) = [] := by
  induction emitted with
  | nil => exact ⟨rfl, rfl⟩
  | cons signal emitted ih => exact ⟨congrArg (signal :: ·) ih.1, ih.2⟩

/-! ## Sending -/

/-- The packet of a call. -/
def VisualizerCall.packet (order : ByteOrder) (call : VisualizerCall) : List UInt8 :=
  (call.request.create order).contents

theorem sendCreated_eq (connected : Bool) (write : ℤ) (buffer : Buffer UInt8) :
    Visualizer.sendCreated connected write buffer = sendPacket connected write buffer := by
  rw [Visualizer.sendCreated]
  rcases sendPacket connected write buffer with ⟨_ | _, taken⟩ <;> rfl

/-- **The functions of a visualizer differ in their packets only.** -/
theorem VisualizerCall.perform_eq (order : ByteOrder) (connected : Bool) (write : ℤ)
    (call : VisualizerCall) :
    call.perform order connected write =
      sendPacket connected write (call.request.create order) := by
  cases call <;> exact sendCreated_eq connected write _

theorem len_create_pos (order : ByteOrder) (r : Request) : 0 < (r.create order).len := by
  cases r <;> simp [Request.create, createPLocPacket, createUNamPacket, createChBkPacket,
    createSXSrPacket_ArtNet, createSXSrPacket_Avab, createSXSrPacket_E131,
    createSXSrPacket_ETCNet2, createSXSrPacket, createPtchPacket, createSPtcPacket,
    createUPtcPacket, createPatchListPacket, createSelePacket, createDeSePacket, apply_ite]

/-- The socket takes a first part of the packet, and the result says whether that is the
whole of it. -/
theorem sendPacket_spec {packet : Buffer UInt8} (hpos : 0 < packet.len)
    (hwrite : write ≤ packet.len) (h : sendPacket connected write packet = (result, taken)) :
    taken <+: packet.contents ∧ (result = true ↔ taken = packet.contents) := by
  have hlen : packet.contents.length = packet.len := packet.length_contents
  rw [sendPacket] at h
  split at h
  · obtain ⟨rfl, rfl⟩ := Prod.mk.inj h
    refine ⟨List.nil_prefix, ⟨fun hfalse => absurd hfalse (by decide), fun hnil => ?_⟩⟩
    rw [← hnil, List.length_nil] at hlen
    omega
  · simp only at h
    split at h
    · rename_i hne
      obtain ⟨rfl, rfl⟩ := Prod.mk.inj h
      refine ⟨List.take_prefix _ _, ⟨fun hfalse => absurd hfalse (by decide), fun hall => ?_⟩⟩
      have htaken := congrArg List.length hall
      rw [List.length_take, hlen] at htaken
      omega
    · rename_i heq
      obtain ⟨rfl, rfl⟩ := Prod.mk.inj h
      have hall : packet.contents.take write.toNat = packet.contents := by
        apply List.take_of_length_le
        omega
      exact ⟨List.take_prefix _ _, fun _ => hall, fun _ => rfl⟩

/-! ## One event -/

/-- Everything that an event of a session can do. -/
theorem Session.step_cases {event : SessionEvent} {session' : Session Host}
    (h : Session.step enc dec char event session = some (session', signals)) :
    (∃ link, session' = { session with link := link } ∧ signals = []) ∨
      (∃ call result taken,
        session' = { session with inFlight := session.inFlight ++ taken } ∧
          signals = [.returned call result taken] ∧
          taken <+: call.packet enc ∧ (result = true ↔ taken = call.packet enc)) ∨
      ∃ n peer buffered emitted,
        Peer.readyRead dec char (session.inFlight.take n)
            (session.receiver, session.buffered) = some ((peer, buffered), emitted) ∧
          session' = { session with
            inFlight := session.inFlight.drop n
            receiver := peer
            buffered := buffered } ∧
          signals = emitted.map .emitted := by
  cases event with
  | connected =>
    simp only [Session.step, Option.ite_none_right_eq_some, Option.some.injEq] at h
    obtain ⟨-, h⟩ := h
    obtain ⟨rfl, rfl⟩ := Prod.mk.inj h
    exact .inl ⟨_, rfl, rfl⟩
  | disconnected =>
    simp only [Session.step, Option.ite_none_right_eq_some, Option.some.injEq] at h
    obtain ⟨-, h⟩ := h
    obtain ⟨rfl, rfl⟩ := Prod.mk.inj h
    exact .inl ⟨_, rfl, rfl⟩
  | call call write =>
    simp only [Session.step, Option.ite_none_right_eq_some, Option.some.injEq] at h
    obtain ⟨hwrite, h⟩ := h
    obtain ⟨rfl, rfl⟩ := Prod.mk.inj h
    rw [call.perform_eq]
    obtain ⟨hpart, hresult⟩ := sendPacket_spec (len_create_pos enc call.request) hwrite.2.1 rfl
    exact .inr (.inl ⟨call, _, _, rfl, rfl, hpart, hresult⟩)
  | arrive n =>
    simp only [Session.step, Option.map_eq_some_iff] at h
    obtain ⟨⟨⟨peer, buffered⟩, emitted⟩, hread, h⟩ := h
    obtain ⟨rfl, rfl⟩ := Prod.mk.inj h
    exact .inr (.inr ⟨n, peer, buffered, emitted, hread, rfl, rfl⟩)

/-! ## The history of a session -/

/-- Where the bytes are that have been written. Those that have arrived have been framed and
parsed, but for the ones that are buffered, and the others are in flight. -/
def Session.History (dec : ByteOrder) (char : PlainChar) (receiver : Peer Host)
    (signals : List SessionSignal) (session : Session Host) : Prop :=
  ∃ arrived es, arrived ++ session.inFlight = writtenBytes signals ∧
    Drains (readyReadStep char) arrived es session.buffered ∧
      parsePackets dec (handed es) receiver =
        some (session.receiver, emittedSignals signals)

/-- What has become of each call that has returned. -/
def Answered (enc : ByteOrder) (signals : List SessionSignal) : Prop :=
  ∀ call result taken, .returned call result taken ∈ signals →
    taken <+: call.packet enc ∧ (result = true ↔ taken = call.packet enc)

theorem Session.History.step {session' : Session Host} {event : SessionEvent}
    {emitted : List SessionSignal} (hhistory : Session.History dec char receiver signals session)
    (h : Session.step enc dec char event session = some (session', emitted)) :
    Session.History dec char receiver (signals ++ emitted) session' := by
  obtain ⟨arrived, es, hstream, hdrains, hparsed⟩ := hhistory
  rw [Session.History, writtenBytes_append, emittedSignals_append]
  -- a call puts bytes behind those in flight, and an arrival takes some from the front
  rcases Session.step_cases h with ⟨link, rfl, rfl⟩ | ⟨call, result, taken, rfl, rfl, -⟩ |
    ⟨n, peer, buffered, received, hread, rfl, rfl⟩
  · refine ⟨arrived, es, ?_, hdrains, ?_⟩
    · rw [hstream]
      exact (List.append_nil _).symm
    · rw [hparsed]
      exact congrArg (fun emitted => some (session.receiver, emitted)) (List.append_nil _).symm
  · refine ⟨arrived, es, ?_, hdrains, ?_⟩
    · rw [← List.append_assoc, hstream]
      exact congrArg (writtenBytes signals ++ ·) (List.append_nil taken).symm
    · rw [hparsed]
      exact congrArg (fun emitted => some (session.receiver, emitted)) (List.append_nil _).symm
  · obtain ⟨hemitted, hwritten⟩ := emittedSignals_map_emitted received
    obtain ⟨fs, hlater, hreceived⟩ := readyRead_eq_some_iff.mp hread
    rw [hemitted, hwritten, List.append_nil]
    refine ⟨arrived ++ session.inFlight.take n, es ++ fs, ?_, ?_, ?_⟩
    · rw [List.append_assoc, List.take_append_drop, hstream]
    · exact (readyReadStep_stable char).drains_append hdrains hlater
    · rw [parsePackets] at hparsed hreceived ⊢
      rw [handed_append, run_append, hparsed, Option.bind_some, hreceived, Option.bind_some]

theorem Session.history_run
    (h : run (Session.step enc dec char) events (Session.new receiver) = some (session, signals)) :
    Session.History dec char receiver signals session := by
  apply trace_run (P := fun _ signals session => Session.History dec char receiver signals session)
    ?_ ?_ h
  · intro _ signals session event session' emitted hhistory hstep
    exact hhistory.step hstep
  · exact ⟨[], [], rfl, drains_of_step_eq_none (readyReadStep_nil char), rfl⟩

theorem Session.answered_run
    (h : run (Session.step enc dec char) events (Session.new receiver) = some (session, signals)) :
    Answered enc signals := by
  apply trace_run (P := fun _ signals _ => Answered enc signals) ?_ ?_ h
  · intro _ signals session event session' emitted hanswered hstep call result taken hmem
    rcases List.mem_append.mp hmem with hmem | hmem
    · exact hanswered call result taken hmem
    · rcases Session.step_cases hstep with ⟨link, -, rfl⟩ | ⟨_, _, _, -, rfl, htaken⟩ |
        ⟨n, peer, buffered, received, -, -, rfl⟩
      · exact absurd hmem List.not_mem_nil
      · obtain ⟨rfl, rfl, rfl⟩ := SessionSignal.returned.inj (List.mem_singleton.mp hmem)
        exact htaken
      · obtain ⟨signal, -, hsignal⟩ := List.mem_map.mp hmem
        exact absurd hsignal (by simp)
  · intro call result taken hmem
    exact absurd hmem List.not_mem_nil

/-! ## The bytes that are written -/

/-- No call that failed has left a part of its packet in the stream. -/
def NothingCut (signals : List SessionSignal) : Prop :=
  ∀ call taken, .returned call false taken ∈ signals → taken = []

theorem Answered.later {signal : SessionSignal} (h : Answered enc (signal :: signals)) :
    Answered enc signals :=
  fun call result taken hmem => h call result taken (List.mem_cons_of_mem _ hmem)

/-- The packets of the calls that have returned true are in the stream. -/
theorem Answered.length_le (h : Answered enc signals) :
    ((accepted signals).flatMap (VisualizerCall.packet enc)).length ≤
      (writtenBytes signals).length := by
  induction signals with
  | nil => exact Nat.le_refl _
  | cons signal signals ih =>
    have hle := ih h.later
    match signal with
    | .emitted _ => exact hle
    | .returned call false taken =>
      rw [accepted_returned_false, writtenBytes_returned, List.length_append]
      omega
    | .returned call true taken =>
      have htaken := (h call true taken List.mem_cons_self).2.mp rfl
      rw [accepted_returned_true, writtenBytes_returned, htaken, List.flatMap_cons,
        List.length_append, List.length_append]
      omega

/-- Nothing else is in the stream exactly when no packet has been cut. -/
theorem Answered.writtenBytes_eq_iff (h : Answered enc signals) :
    writtenBytes signals = (accepted signals).flatMap (VisualizerCall.packet enc) ↔
      NothingCut signals := by
  induction signals with
  | nil => exact iff_of_true rfl fun call taken hmem => absurd hmem List.not_mem_nil
  | cons signal signals ih =>
    have hrest := ih h.later
    match signal with
    | .emitted signal =>
      refine hrest.trans ?_
      simp [NothingCut]
    | .returned call false taken =>
      rw [accepted_returned_false, writtenBytes_returned]
      constructor
      · intro heq
        have hle := h.later.length_le
        have hlen := congrArg List.length heq
        rw [List.length_append] at hlen
        have hnil : taken = [] := List.length_eq_zero_iff.mp (by omega)
        subst hnil
        intro call' taken' hmem
        rcases List.mem_cons.mp hmem with hhead | hmem
        · exact (SessionSignal.returned.inj hhead).2.2
        · exact hrest.mp heq call' taken' hmem
      · intro hcut
        have hnil := hcut call taken List.mem_cons_self
        rw [hnil, List.nil_append]
        exact hrest.mpr fun call' taken' hmem =>
          hcut call' taken' (List.mem_cons_of_mem _ hmem)
    | .returned call true taken =>
      have htaken := (h call true taken List.mem_cons_self).2.mp rfl
      rw [accepted_returned_true, writtenBytes_returned, htaken, List.flatMap_cons,
        List.append_cancel_left_eq, hrest]
      simp [NothingCut]

/-- **What is written, and what the results of calls mean.** Whatever the byte orders of the hosts
and the order of events, and whatever `write` returns, a call puts a first part of its packet into
the stream, and it returns true exactly if that is the whole packet. What has arrived and what is
in flight are these parts in order, and the receiving peer is the one that what has arrived makes
of it. The stream consists of the packets of the calls that returned true unless a call that failed
has left a part of its packet in it. -/
theorem session_written (receiver : Peer Host)
    (h : run (Session.step enc dec char) events (Session.new receiver) = some (session, signals)) :
    Answered enc signals ∧
      (∃ arrived, arrived ++ session.inFlight = writtenBytes signals ∧
        Peer.readyRead dec char arrived (receiver, []) =
          some ((session.receiver, session.buffered), emittedSignals signals)) ∧
      (writtenBytes signals = (accepted signals).flatMap (VisualizerCall.packet enc) ↔
        NothingCut signals) := by
  have hanswered := Session.answered_run h
  obtain ⟨arrived, es, hstream, hdrains, hparsed⟩ := Session.history_run h
  refine ⟨hanswered, ⟨arrived, hstream, ?_⟩, hanswered.writtenBytes_eq_iff⟩
  exact readyRead_eq_some_iff.mpr ⟨es, hdrains, hparsed⟩

/-- A request to unpatch a fixture, of which 20 bytes have arrived. -/
def unpatchEvents : List SessionEvent :=
  [.call (.sendUnpatchMessage [7]) 32, .connected, .call (.sendUnpatchMessage [7]) 32,
    .call (.sendDeselectMessage []) (-1), .arrive 20]

/-- Only the call on the connection succeeds. -/
def unpatchSignals : List SessionSignal :=
  [.returned (.sendUnpatchMessage [7]) false [],
    .returned (.sendUnpatchMessage [7]) true ((Request.uPtc [7]).create .little).contents,
    .returned (.sendDeselectMessage []) false []]

/-- The request is on its way, and has arrived in part. -/
def unpatchSession : Session Unit where
  link := .connected
  inFlight := ((Request.uPtc [7]).create .little).contents.drop 20
  receiver := Peer.new () 0 [] []
  buffered := ((Request.uPtc [7]).create .little).contents.take 20

theorem run_unpatchEvents (char : PlainChar) :
    run (Session.step .little .little char) unpatchEvents (Session.new (Peer.new () 0 [] [])) =
      some (unpatchSession, unpatchSignals) := by
  cases char <;> rfl

theorem session_written_unpatch :
    Answered .little unpatchSignals ∧
      (∃ arrived, arrived ++ unpatchSession.inFlight = writtenBytes unpatchSignals ∧
        Peer.readyRead .little .signed arrived (Peer.new () 0 [] [], []) =
          some ((unpatchSession.receiver, unpatchSession.buffered),
            emittedSignals unpatchSignals)) ∧
      (writtenBytes unpatchSignals =
          (accepted unpatchSignals).flatMap (VisualizerCall.packet .little) ↔
        NothingCut unpatchSignals) :=
  session_written (Peer.new () 0 [] []) (run_unpatchEvents .signed)

/-! ## Framing packets -/

/-- The loop frames what it takes. -/
theorem Takes.frames (h : Takes char m) : Frames (readyReadStep char) .parsed m where
  takes := h.step
  waits p hpart hne := by
    have hlt : p.length < m.length :=
      lt_of_le_of_ne hpart.length_le fun heq => hne (hpart.eq_of_length heq)
    rw [readyReadStep_eq]
    split
    · rfl
    · rename_i hlen
      obtain ⟨q, rfl⟩ := hpart
      have hheader := h.header
      have hsize := h.size
      rw [discards_append (by omega)] at hheader
      rw [messageSize_append char (by omega)] at hsize
      rw [hheader, if_neg Bool.false_ne_true, if_pos (by omega)]

/-- Behind a header for which a larger size is assembled than ever arrives nothing is taken. -/
theorem stuck_of_lt_messageSize (hlen : 12 ≤ m.length) (hheader : discards m = false)
    (hlt : (m ++ tail).length < (messageSize char m).toNat) :
    Stuck (readyReadStep char) (m ++ tail) := by
  intro p hp
  have hle := hp.length_le
  rw [readyReadStep_eq]
  split
  · rfl
  · rename_i hlong
    obtain ⟨q, hq⟩ := hp
    -- what has arrived shows the header of `m`
    have hdiscards : discards p = discards m := by
      have happend := congrArg discards hq
      rwa [discards_append (by omega), discards_append hlen] at happend
    have hsize : messageSize char p = messageSize char m := by
      have happend := congrArg (messageSize char) hq
      rwa [messageSize_append char (by omega), messageSize_append char hlen] at happend
    rw [hdiscards, hheader, if_neg Bool.false_ne_true, hsize, if_pos (by omega)]

/-- The packet of the call is framed at the other end. -/
structure VisualizerCall.Framed (char : PlainChar) (call : VisualizerCall) : Prop where
  sendable : call.request.Sendable
  size : char = .unsigned ∨ SizeRepresentable (call.request.size .little)

theorem VisualizerCall.packet_eq (h : call.request.CountFits) :
    call.packet .little = call.request.wire .little :=
  call.request.contents_create .little h

theorem VisualizerCall.Framed.frames (h : call.Framed char) :
    Frames (readyReadStep char) .parsed (call.packet .little) := by
  apply Takes.frames
  rw [call.packet_eq h.sendable.countFits]
  exact (takes_wire_iff h.sendable.size_lt).mpr h.size

theorem frames_packets {calls : List VisualizerCall} (h : ∀ call ∈ calls, call.Framed char) :
    ∀ m ∈ calls.map (VisualizerCall.packet .little), Frames (readyReadStep char) .parsed m :=
  List.forall_mem_map.mpr fun call hcall => (h call hcall).frames

/-- A packet that is not framed has a size that the receiver takes to be huge. -/
theorem VisualizerCall.stuck_packet (hsendable : call.request.Sendable)
    (hframed : ¬ call.Framed char) (hlt : (call.packet .little ++ tail).length < 0xFF000000) :
    Stuck (readyReadStep char) (call.packet .little ++ tail) := by
  obtain ⟨hlen, hheader⟩ := call.request.header_wire
  have hpacket := call.packet_eq hsendable.countFits
  rw [hpacket] at hlt ⊢
  rcases messageSize_eq_or_ge char hlen with hsize | hge
  · have htakes : Takes char (call.request.wire .little) :=
      ⟨hlen, hheader, by
        rw [hsize, call.request.declaredSize_wire hsendable.size_lt, Request.length_wire]⟩
    exact absurd ⟨hsendable, (takes_wire_iff hsendable.size_lt).mp htakes⟩ hframed
  · exact stuck_of_lt_messageSize hlen hheader (by omega)

/-! ## The effects of calls -/

/-- What a call makes the other side do. -/
def VisualizerCall.effect (order : ByteOrder) : Transition VisualizerCall (Peer Host) Signal :=
  fun call peer => some (call.request.effect order peer)

/-- To parse the packets of calls is to perform the calls. -/
theorem parsePackets_packets {calls : List VisualizerCall}
    (h : ∀ call ∈ calls, call.request.CountFits) (peer : Peer Host) :
    parsePackets dec (calls.map (VisualizerCall.packet .little)) peer =
      run (VisualizerCall.effect dec) calls peer := by
  induction calls generalizing peer with
  | nil => rfl
  | cons call calls ih =>
    have hfirst : (parsePacket dec peer).value (call.packet .little) =
        some (call.request.effect dec peer) :=
      parse_value_create dec call.request (h call List.mem_cons_self) peer
    unfold parsePackets at ih ⊢
    rw [List.map_cons, run_cons, run_cons, hfirst, VisualizerCall.effect, Option.bind_some,
      Option.bind_some, ih fun call' hmem => h call' (List.mem_cons_of_mem _ hmem)]

theorem handed_map_parsed (msgs : List (List UInt8)) : handed (msgs.map .parsed) = msgs := by
  simp [handed, List.filterMap_map]

/-- What is buffered of the packets of calls that are waiting, with `tail` behind them. -/
def BufferedPart (waiting : List VisualizerCall) (tail buffered : List UInt8) : Prop :=
  (waiting = [] ∧ buffered <+: tail) ∨ ∃ call later, waiting = call :: later ∧
    buffered <+: call.packet .little ∧ buffered ≠ call.packet .little

section Performed

variable {before : List VisualizerCall}
  (hhistory : Session.History dec char receiver signals session)
  (hbefore : ∀ call ∈ before, call.Framed char) (htail : Stuck (readyReadStep char) tail)
  (hstream : writtenBytes signals = before.flatMap (VisualizerCall.packet .little) ++ tail)

include hhistory hbefore htail hstream

/-- What a session has performed of the calls `before`, if nothing is ever taken of what
follows their packets. -/
theorem Session.History.performed :
    ∃ performed waiting, before = performed ++ waiting ∧
      run (VisualizerCall.effect dec) performed receiver =
        some (session.receiver, emittedSignals signals) ∧
      session.buffered ++ session.inFlight =
        waiting.flatMap (VisualizerCall.packet .little) ++ tail ∧
      (session.inFlight = [] → waiting = []) ∧ BufferedPart waiting tail session.buffered := by
  obtain ⟨arrived, es, harrived, hdrains, hparsed⟩ := hhistory
  have hframes := frames_packets hbefore
  rw [hstream, List.flatMap_def] at harrived
  obtain ⟨front, back, hmsgs, rfl, hrest, hnone, hnext⟩ :=
    drains_inFlight hframes htail harrived hdrains
  obtain ⟨performed, waiting, rfl, rfl, rfl⟩ := List.map_eq_append_iff.mp hmsgs
  rw [handed_map_parsed, parsePackets_packets fun call hcall =>
    (hbefore call (List.mem_append_left _ hcall)).sendable.countFits] at hparsed
  refine ⟨performed, waiting, rfl, hparsed, hrest, fun hflight => ?_, ?_⟩
  · exact List.map_eq_nil_iff.mp (hnone hflight)
  · rcases hnext with ⟨hback, htaken⟩ | ⟨m, later, hback, hpart, hne⟩
    · exact .inl ⟨List.map_eq_nil_iff.mp hback, htaken⟩
    · obtain ⟨call, calls, rfl, rfl, rfl⟩ := List.map_eq_cons_iff.mp hback
      exact .inr ⟨call, calls, rfl, hpart, hne⟩

/-- The peer at the other end gets through whatever arrives next. -/
theorem Session.History.isSome_arrive (n : ℕ) :
    (Session.step .little dec char (.arrive n) session).isSome := by
  obtain ⟨arrived, es, harrived, hdrains, hparsed⟩ := hhistory
  have hframes := frames_packets hbefore
  have hpart : arrived ++ session.inFlight.take n <+:
      (before.map (VisualizerCall.packet .little)).flatten ++ tail := by
    rw [hstream, List.flatMap_def] at harrived
    rw [← harrived]
    exact (List.prefix_append_right_inj arrived).mpr (List.take_prefix n _)
  obtain ⟨front, back, rest, hmsgs, -, hall, -, -⟩ := drains_prefix hframes htail hpart
  obtain ⟨performed, waiting, rfl, rfl, -⟩ := List.map_eq_append_iff.mp hmsgs
  -- what was taken before is the first part of it
  obtain ⟨fs, hfs, hlater⟩ := ((readyReadStep_stable char).steps hdrains.1).drains_iff.mp hall
  have hdefined : (parsePackets dec (handed (es ++ fs)) receiver).isSome := by
    rw [← hfs, handed_map_parsed, parsePackets_packets fun call hcall =>
      (hbefore call (List.mem_append_left _ hcall)).sendable.countFits]
    exact (isSome_run_iff (P := fun _ => True) fun _ _ => iff_of_true rfl trivial).mpr
      fun _ _ => trivial
  rw [handed_append, parsePackets, isSome_run_append] at hdefined
  obtain ⟨peer, emitted, hfirst, hsecond⟩ := hdefined
  obtain ⟨rfl, -⟩ := Prod.mk.inj (Option.some.inj (hfirst.symm.trans hparsed))
  obtain ⟨⟨peer', emitted'⟩, hsecond⟩ := Option.isSome_iff_exists.mp hsecond
  have hread := readyRead_eq_some_iff.mpr ⟨fs, hlater, hsecond⟩
  rw [Session.step, Option.isSome_map, hread]
  rfl

end Performed

/-- **A session performs its calls in order.** Where the packets of the calls that returned true on
a little-endian host can be framed, and no other call has left a part of its packet in the stream,
the peer at the other end has performed a first part of the calls that returned true, each once and
in order; its state and the signals it has emitted are theirs. What is buffered there and what is
in flight are the packets of the others, of which the first is buffered in part. Whatever arrives
next, the peer gets through it. Once everything has arrived, all are performed. -/
theorem session_run (receiver : Peer Host)
    (h : run (Session.step .little dec char) events (Session.new receiver) =
      some (session, signals))
    (hframed : ∀ call ∈ accepted signals, call.Framed char) (hcut : NothingCut signals) :
    (∃ performed waiting, accepted signals = performed ++ waiting ∧
      run (VisualizerCall.effect dec) performed receiver =
        some (session.receiver, emittedSignals signals) ∧
      session.buffered ++ session.inFlight = waiting.flatMap (VisualizerCall.packet .little) ∧
      (session.inFlight = [] → waiting = []) ∧ BufferedPart waiting [] session.buffered) ∧
    ∀ n, (Session.step .little dec char (.arrive n) session).isSome := by
  have hstream := (Session.answered_run h).writtenBytes_eq_iff.mpr hcut
  rw [← List.append_nil (List.flatMap _ _)] at hstream
  have hhistory := Session.history_run h
  have hnothing := stuck_nil (readyReadStep_nil char)
  refine ⟨?_, fun n => hhistory.isSome_arrive hframed hnothing hstream n⟩
  have hperformed := hhistory.performed hframed hnothing hstream
  simpa only [List.append_nil] using hperformed

theorem nothingCut_unpatch : NothingCut unpatchSignals := by
  intro call taken hmem
  simp only [unpatchSignals, List.mem_cons, SessionSignal.returned.injEq, Bool.false_eq_true,
    List.not_mem_nil, or_false, false_and, and_false, false_or] at hmem
  rcases hmem with ⟨-, -, htaken⟩ | ⟨-, -, htaken⟩
  · exact htaken
  · exact htaken

theorem session_run_unpatch :
    (∃ performed waiting, accepted unpatchSignals = performed ++ waiting ∧
      run (VisualizerCall.effect .little) performed (Peer.new () 0 [] []) =
        some (unpatchSession.receiver, emittedSignals unpatchSignals) ∧
      unpatchSession.buffered ++ unpatchSession.inFlight =
        waiting.flatMap (VisualizerCall.packet .little) ∧
      (unpatchSession.inFlight = [] → waiting = []) ∧
      BufferedPart waiting [] unpatchSession.buffered) ∧
    ∀ n, (Session.step .little .little .signed (.arrive n) unpatchSession).isSome :=
  session_run (Peer.new () 0 [] []) (run_unpatchEvents .signed)
    (List.forall_mem_singleton.mpr ⟨⟨by decide, by decide⟩, by decide⟩) nothingCut_unpatch

theorem Answered.front {later : List SessionSignal} (h : Answered enc (signals ++ later)) :
    Answered enc signals :=
  fun call result taken hmem => h call result taken (List.mem_append_left later hmem)

/-- **What goes wrong later does not reach back.** Take the calls that returned true before
the first failed call that left a part of its packet in the stream, or before any earlier
moment, and let their packets be framed. The peer at the other end has performed a first part
of them, each once and in order, and nothing else before or between them. It has done nothing
more unless all of them are performed. Once everything has arrived, they are. -/
theorem session_head (receiver : Peer Host) {later : List SessionSignal}
    (h : run (Session.step .little dec char) events (Session.new receiver) =
      some (session, signals ++ later))
    (hframed : ∀ call ∈ accepted signals, call.Framed char) (hcut : NothingCut signals) :
    ∃ performed waiting peer emitted more, accepted signals = performed ++ waiting ∧
      run (VisualizerCall.effect dec) performed receiver = some (peer, emitted) ∧
      emittedSignals (signals ++ later) = emitted ++ more ∧
      (waiting ≠ [] → session.receiver = peer ∧ more = []) ∧
      (session.inFlight = [] → waiting = []) := by
  obtain ⟨arrived, es, harrived, hdrains, hparsed⟩ := Session.history_run h
  have hframes := frames_packets hframed
  -- the stream begins with the packets of these calls
  have hstream : writtenBytes (signals ++ later) =
      ((accepted signals).map (VisualizerCall.packet .little)).flatten ++ writtenBytes later := by
    rw [writtenBytes_append, (Session.answered_run h).front.writtenBytes_eq_iff.mpr hcut,
      List.flatMap_def]
  rw [hstream] at harrived
  obtain ⟨front, back, rest, hmsgs, -, hsteps, hall, hnext⟩ :=
    steps_prefix hframes ⟨session.inFlight, harrived⟩
  obtain ⟨performed, waiting, haccepted, rfl, rfl⟩ := List.map_eq_append_iff.mp hmsgs
  obtain ⟨fs, rfl, hrest⟩ := hsteps.drains_iff.mp hdrains
  have hcounts : ∀ call ∈ performed, call.request.CountFits := by
    intro call hcall
    apply (hframed call ?_).sendable.countFits
    rw [haccepted]
    exact List.mem_append_left _ hcall
  rw [handed_append, handed_map_parsed] at hparsed
  obtain ⟨peer, emitted, more, hperformed, hmore, hsignals⟩ := run_append_eq_some hparsed
  rw [← parsePackets, parsePackets_packets hcounts] at hperformed
  refine ⟨performed, waiting, peer, emitted, more, haccepted, hperformed, hsignals,
    fun hwaiting => ?_, fun hflight => ?_⟩
  · rcases hnext with ⟨hback, -⟩ | ⟨m, msgs, hback, hpart, hne⟩
    · exact absurd (List.map_eq_nil_iff.mp hback) hwaiting
    · have hm : m ∈ (accepted signals).map (VisualizerCall.packet .little) := by
        rw [hmsgs, hback]
        exact List.mem_append_right _ List.mem_cons_self
      obtain ⟨rfl, -⟩ :=
        (drains_iff_of_step_eq_none ((hframes m hm).waits rest hpart hne)).mp hrest
      obtain ⟨rfl, rfl⟩ := Prod.mk.inj (Option.some.inj hmore)
      exact ⟨rfl, rfl⟩
  · rw [hflight, List.append_nil] at harrived
    exact List.map_eq_nil_iff.mp (hall harrived)

/-- Of a request to deselect all fixtures five bytes are written before it fails. -/
def cutEvents : List SessionEvent :=
  [.connected, .call (.sendUnpatchMessage [7]) 32, .call (.sendDeselectMessage []) 5,
    .call (.sendUnpatchMessage [8]) 32, .arrive 69]

/-- What is seen before a call fails in part. -/
def cutSignals : List SessionSignal :=
  [.returned (.sendUnpatchMessage [7]) true ((Request.uPtc [7]).create .little).contents]

/-- What is seen from then on. -/
def cutLater : List SessionSignal :=
  [.returned (.sendDeselectMessage []) false (((Request.deSe []).create .little).contents.take 5),
    .returned (.sendUnpatchMessage [8]) true ((Request.uPtc [8]).create .little).contents,
    .emitted (.unpatchFixtures [7])]

/-- The part that was written and the last request stay in the socket. -/
def cutSession : Session Unit where
  link := .connected
  inFlight := []
  receiver := Peer.new () 0 [] []
  buffered := ((Request.deSe []).create .little).contents.take 5 ++
    ((Request.uPtc [8]).create .little).contents

theorem run_cutEvents :
    run (Session.step .little .little .signed) cutEvents (Session.new (Peer.new () 0 [] [])) =
      some (cutSession, cutSignals ++ cutLater) := by
  rfl

theorem nothingCut_cutSignals : NothingCut cutSignals := by
  intro call taken hmem
  simp [cutSignals] at hmem

/-- The first request is performed. The last one stays in the socket, behind the part of the
one that failed. -/
theorem session_head_cut :
    ∃ performed waiting peer emitted more, accepted cutSignals = performed ++ waiting ∧
      run (VisualizerCall.effect .little) performed (Peer.new () 0 [] []) =
        some (peer, emitted) ∧
      emittedSignals (cutSignals ++ cutLater) = emitted ++ more ∧
      (waiting ≠ [] → cutSession.receiver = peer ∧ more = []) ∧
      (cutSession.inFlight = [] → waiting = []) :=
  session_head (Peer.new () 0 [] []) run_cutEvents
    (List.forall_mem_singleton.mpr ⟨⟨by decide, by decide⟩, by decide⟩) nothingCut_cutSignals

/-- **A session performs nothing behind a packet that cannot be framed.** The peer at the other
end performs the calls before it, and then waits for a message of which the rest never comes:
it emits nothing more, as long as less than 0xFF000000 bytes are written from that packet on.
All of these stay in its socket. -/
theorem session_stalls (receiver : Peer Host) {before after : List VisualizerCall}
    (h : run (Session.step .little dec char) events (Session.new receiver) =
      some (session, signals))
    (hcut : NothingCut signals) (haccepted : accepted signals = before ++ call :: after)
    (hbefore : ∀ call ∈ before, call.Framed char) (hsendable : call.request.Sendable)
    (hstalls : ¬ call.Framed char)
    (hlt : ((call :: after).flatMap (VisualizerCall.packet .little)).length < 0xFF000000) :
    (∃ performed waiting, before = performed ++ waiting ∧
      run (VisualizerCall.effect dec) performed receiver =
        some (session.receiver, emittedSignals signals) ∧
      session.buffered ++ session.inFlight =
        (waiting ++ call :: after).flatMap (VisualizerCall.packet .little) ∧
      (session.inFlight = [] → waiting = [] ∧
        session.buffered = (call :: after).flatMap (VisualizerCall.packet .little))) ∧
    ∀ n, (Session.step .little dec char (.arrive n) session).isSome := by
  have hstream := (Session.answered_run h).writtenBytes_eq_iff.mpr hcut
  rw [haccepted, List.flatMap_append] at hstream
  -- from the packet that is not framed on, the loop takes nothing
  have hstuck : Stuck (readyReadStep char)
      ((call :: after).flatMap (VisualizerCall.packet .little)) := by
    rw [List.flatMap_cons] at hlt ⊢
    exact VisualizerCall.stuck_packet hsendable hstalls hlt
  have hhistory := Session.history_run h
  refine ⟨?_, fun n => hhistory.isSome_arrive hbefore hstuck hstream n⟩
  obtain ⟨performed, waiting, heq, hperformed, hrest, hnone, -⟩ :=
    hhistory.performed hbefore hstuck hstream
  refine ⟨performed, waiting, heq, hperformed, ?_, fun hflight => ⟨hnone hflight, ?_⟩⟩
  · rw [hrest, List.flatMap_append]
  · rw [hnone hflight, hflight, List.append_nil] at hrest
    exact hrest

/-- A request to unpatch a fixture, one to unpatch 49 of them, and all of it has arrived. -/
def stallEvents : List SessionEvent :=
  [.connected, .call (.sendUnpatchMessage [7]) 32,
    .call (.sendUnpatchMessage (List.replicate 49 1)) 128, .arrive 160]

/-- Both calls succeed, and the first is performed. -/
def stallSignals : List SessionSignal :=
  [.returned (.sendUnpatchMessage [7]) true ((Request.uPtc [7]).create .little).contents,
    .returned (.sendUnpatchMessage (List.replicate 49 1)) true
      ((Request.uPtc (List.replicate 49 1)).create .little).contents,
    .emitted (.unpatchFixtures [7])]

/-- The second request stays in the socket. -/
def stallSession : Session Unit where
  link := .connected
  inFlight := []
  receiver := Peer.new () 0 [] []
  buffered := ((Request.uPtc (List.replicate 49 1)).create .little).contents

set_option maxRecDepth 8000 in
theorem run_stallEvents :
    run (Session.step .little .little .signed) stallEvents (Session.new (Peer.new () 0 [] [])) =
      some (stallSession, stallSignals) := by
  rfl

theorem not_framed_of_49_identifiers :
    ¬ (VisualizerCall.sendUnpatchMessage (List.replicate 49 1)).Framed .signed := by
  intro hframed
  have hsize := hframed.size
  revert hsize
  decide

theorem nothingCut_stall : NothingCut stallSignals := by
  intro call taken hmem
  simp [stallSignals] at hmem

theorem accepted_stallSignals :
    accepted stallSignals = [.sendUnpatchMessage [7]] ++
      .sendUnpatchMessage (List.replicate 49 1) :: [] := rfl

theorem sendable_of_49_identifiers :
    (VisualizerCall.sendUnpatchMessage (List.replicate 49 1)).request.Sendable :=
  ⟨by decide, by decide⟩

theorem length_of_49_identifiers :
    ([VisualizerCall.sendUnpatchMessage (List.replicate 49 1)].flatMap
      (VisualizerCall.packet .little)).length = 128 := by
  rw [List.flatMap_cons, VisualizerCall.packet_eq (by decide), List.length_append,
    List.flatMap_nil, List.length_nil, Request.length_wire]
  decide

/-- The second request is never performed. -/
theorem session_stalls_unpatch :
    (∃ performed waiting : List VisualizerCall,
      [.sendUnpatchMessage [7]] = performed ++ waiting ∧
      run (VisualizerCall.effect .little) performed (Peer.new () 0 [] []) =
        some (stallSession.receiver, emittedSignals stallSignals) ∧
      stallSession.buffered ++ stallSession.inFlight =
        (waiting ++ [VisualizerCall.sendUnpatchMessage (List.replicate 49 1)]).flatMap
          (VisualizerCall.packet .little) ∧
      (stallSession.inFlight = [] → waiting = [] ∧
        stallSession.buffered =
          [VisualizerCall.sendUnpatchMessage (List.replicate 49 1)].flatMap
            (VisualizerCall.packet .little))) ∧
    ∀ n, (Session.step .little .little .signed (.arrive n) stallSession).isSome :=
  session_stalls (Peer.new () 0 [] []) run_stallEvents nothingCut_stall accepted_stallSignals
    (List.forall_mem_singleton.mpr ⟨⟨by decide, by decide⟩, by decide⟩)
    sendable_of_49_identifiers not_framed_of_49_identifiers
    (length_of_49_identifiers.trans_lt (by decide))

end CitpLib
