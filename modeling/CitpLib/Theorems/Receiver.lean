import CitpLib.Theorems.Bounds

/-!
# A peer that receives

The framing loop of a peer parses each message before it goes on to the next one.
The signals that come of a stream, and the fixtures, are nevertheless a function of
the stream: they do not depend on how it was cut into deliveries. They are those of
parsing the framed messages one after the other.

A stream can also bring the peer to a halt. It hangs at a header of declared size 0,
and it reads outside an array that is shorter than its own fields say. Nothing else
in a stream stops it. Where it does not hang, the number of iterations is less than
the number of bytes.

## Main definitions

* `Endured` — no header that the loop meets has size 0, and all messages are long enough

## Main results

* `readyRead_run` — the outcome of a stream, however it was cut
* `readyRead_run_isSome_iff` — the streams that a peer endures
* `handleReadyRead_iterations` — how many iterations a stream takes
-/

namespace CitpLib

open Wire Streaming

variable {Host : Type} {order : ByteOrder} {char : PlainChar} {peer peer' : Peer Host}
  {es fs : List Event} {content buffered bytes rest : List UInt8} {signals : List Signal}
  {cs : List (List UInt8)}

/-! ## Signals of a stream -/

/-- To act on the events of a run is to parse the messages that are handed over. -/
theorem run_handleEvent (order : ByteOrder) (es : List Event) (peer : Peer Host) :
    run (handleEvent order) es peer = parsePackets order (handed es) peer := by
  induction es generalizing peer with
  | nil => rfl
  | cons e es ih =>
    rw [run_cons]
    cases e with
    | discarded b =>
      simp only [handleEvent, Option.bind_some, ih, List.nil_append]
      exact Option.bind_fun_some _
    | parsed byteArray =>
      simp only [handleEvent, ih]
      rfl

/-- A delivery to a peer is one of the framing loop, which acts on what it takes. -/
theorem readyRead_eq_deliver (order : ByteOrder) (char : PlainChar) :
    (Peer.readyRead order char : _ → Peer Host × _ → _) =
      deliver (readyReadStep char) (handleEvent order) := rfl

theorem readyRead_eq_some_iff :
    Peer.readyRead order char bytes (peer, buffered) = some ((peer', rest), signals) ↔
      ∃ es, Drains (readyReadStep char) (buffered ++ bytes) es rest ∧
        parsePackets order (handed es) peer = some (peer', signals) := by
  rw [readyRead_eq_deliver, deliver_eq_some_iff (readyReadStep_cuts char)]
  simp only [run_handleEvent]

/-- All deliveries of a stream do what one delivery of everything does. -/
theorem run_readyRead (order : ByteOrder) (char : PlainChar) (peer : Peer Host)
    (cs : List (List UInt8)) :
    run (Peer.readyRead order char) cs (peer, []) =
      Peer.readyRead order char cs.flatten (peer, []) := by
  rw [readyRead_eq_deliver]
  exact run_deliver (readyReadStep_stable char) (readyReadStep_cuts char)
    (readyReadStep_nil char) cs peer

/-- They do what parsing the framed messages does, one after the other. -/
theorem run_readyRead_eq_some_iff :
    run (Peer.readyRead order char) cs (peer, []) = some ((peer', buffered), signals) ↔
      ∃ es, Received char cs es buffered ∧
        parsePackets order (handed es) peer = some (peer', signals) := by
  rw [run_readyRead, readyRead_eq_some_iff, List.nil_append]
  simp only [received_iff]

/-- **What a peer makes of a stream** does not depend on how it was cut into deliveries: the
peer, the signals in order and the bytes that stay in the socket are those of one delivery of
everything. They come of parsing the framed messages, one after the other. -/
theorem readyRead_run (order : ByteOrder) (char : PlainChar) (peer : Peer Host)
    (cs : List (List UInt8)) :
    run (Peer.readyRead order char) cs (peer, []) =
        Peer.readyRead order char cs.flatten (peer, []) ∧
      ∀ peer' buffered signals,
        run (Peer.readyRead order char) cs (peer, []) = some ((peer', buffered), signals) ↔
          ∃ es, Received char cs es buffered ∧
            parsePackets order (handed es) peer = some (peer', signals) :=
  ⟨run_readyRead order char peer cs, fun _ _ _ => run_readyRead_eq_some_iff⟩

/-! ## Streams that stop a peer -/

/-- No header that the loop meets on its way through the stream declares size 0, and every
array that it hands over is long enough for its own fields. -/
def Endured (order : ByteOrder) (char : PlainChar) (stream : List UInt8) : Prop :=
  (∀ t, Reaches char stream t → ¬ ZeroHeader t) ∧
    ∀ es rest, Steps (readyReadStep char) stream es rest → ∀ a ∈ handed es, LongEnough order a

theorem handed_append (es fs : List Event) : handed (es ++ fs) = handed es ++ handed fs :=
  List.filterMap_append

/-- What has been handed over on the way is handed over in the end. -/
theorem mem_handed_of_steps (hdrains : Drains (readyReadStep char) content fs rest)
    {t : List UInt8} (hsteps : Steps (readyReadStep char) content es t) {a : List UInt8}
    (ha : a ∈ handed es) : a ∈ handed fs := by
  obtain ⟨gs, rfl, -⟩ := hsteps.drains_iff.mp hdrains
  rw [handed_append]
  exact List.mem_append_left _ ha

/-- **The streams that a peer endures.** Whatever deliveries a stream comes in, the peer gets
through it, without hanging and without reading outside an array, exactly when it meets no
header of size 0 and every array that is handed over is long enough for its own fields. -/
theorem readyRead_run_isSome_iff (order : ByteOrder) (char : PlainChar) (peer : Peer Host)
    (cs : List (List UInt8)) :
    (run (Peer.readyRead order char) cs (peer, [])).isSome ↔ Endured order char cs.flatten := by
  have hdefined : (run (Peer.readyRead order char) cs (peer, [])).isSome ↔
      ∃ es rest, Drains (readyReadStep char) cs.flatten es rest ∧
        ∀ a ∈ handed es, LongEnough order a := by
    rw [Option.isSome_iff_exists]
    constructor
    · intro h
      obtain ⟨⟨⟨peer', buffered⟩, signals⟩, hrun⟩ := h
      obtain ⟨es, hreceived, hparsed⟩ := run_readyRead_eq_some_iff.mp hrun
      exact ⟨es, buffered, received_iff.mp hreceived,
        parsePackets_isSome_iff.mp (Option.isSome_of_eq_some hparsed)⟩
    · intro h
      obtain ⟨es, rest, hdrains, hlong⟩ := h
      have hsome : (parsePackets order (handed es) peer).isSome :=
        parsePackets_isSome_iff.mpr hlong
      obtain ⟨⟨peer', signals⟩, hparsed⟩ := Option.isSome_iff_exists.mp hsome
      exact ⟨((peer', rest), signals),
        run_readyRead_eq_some_iff.mpr ⟨es, received_iff.mpr hdrains, hparsed⟩⟩
  rw [hdefined]
  constructor
  · intro h
    obtain ⟨es, rest, hdrains, hlong⟩ := h
    exact ⟨exists_drains_iff.mp ⟨es, rest, hdrains⟩, fun fs t hsteps a ha =>
      hlong a (mem_handed_of_steps hdrains hsteps ha)⟩
  · intro h
    obtain ⟨hzero, hlong⟩ := h
    obtain ⟨es, rest, hdrains⟩ := exists_drains_iff.mpr hzero
    exact ⟨es, rest, hdrains, hlong es rest hdrains.1⟩

/-! ## Work -/

/-- An iteration needs twelve bytes, so eleven more than are removed before the last one. -/
theorem length_lt_of_drains (h : Drains (readyReadStep char) content es rest) :
    es.length < content.length - 11 + 1 := by
  have hcuts := readyReadStep_cuts char
  rcases List.eq_nil_or_concat es with rfl | ⟨front, e, rfl⟩
  · exact Nat.succ_pos _
  · rw [List.concat_eq_append] at h ⊢
    obtain ⟨t, r, hfront, hstep, -⟩ := h.1.split_event
    have hlen := (readyReadStep_cases hstep).1
    have hcount : front.length ≤ (front.flatMap Event.bytes).length :=
      length_le_length_flatMap fun e' he' =>
        hcuts.carried_ne_nil h (List.mem_append_left _ he')
    have hcontent := congrArg List.length (hcuts.eq_append hfront)
    simp only [List.length_append, List.length_singleton] at hcontent ⊢
    omega

/-- **How many iterations a stream takes.** The loop ends on a buffer exactly when it ends
within as many iterations as there are bytes behind the first eleven. Over any deliveries of a
stream together it takes no more than that, and no iteration for a byte that stays. -/
theorem handleReadyRead_iterations (char : PlainChar) :
    (∀ content, (∃ fuel, (handleReadyRead char fuel content).isSome) ↔
      (handleReadyRead char (content.length - 11 + 1) content).isSome) ∧
    ∀ cs es rest, Received char cs es rest →
      es.length ≤ cs.flatten.length - 11 ∧ es.length + rest.length ≤ cs.flatten.length := by
  constructor
  · intro content
    constructor
    · intro h
      obtain ⟨es, rest, hdrains⟩ := exists_drain_isSome_iff.mp h
      exact Option.isSome_of_eq_some
        (drain_eq_some_iff.mpr ⟨hdrains, length_lt_of_drains hdrains⟩)
    · exact fun h => ⟨_, h⟩
  · intro cs es rest h
    have hdrains := received_iff.mp h
    exact ⟨Nat.le_of_lt_succ (length_lt_of_drains hdrains),
      (readyReadStep_cuts char).length_le hdrains⟩

theorem received_headerMessage :
    Received .signed [headerMessage.take 5, headerMessage.drop 5] [.parsed headerMessage] [] := by
  have hloop : handleReadyRead .signed 21 headerMessage =
      some ([.parsed headerMessage], []) := by
    decide
  exact received_iff.mpr (drain_eq_some_iff.mp hloop).1

/-- A bare header takes one iteration. -/
theorem handleReadyRead_iterations_headerMessage :
    1 ≤ headerMessage.length - 11 ∧ 1 + 0 ≤ headerMessage.length :=
  (handleReadyRead_iterations .signed).2 _ _ _ received_headerMessage

end CitpLib
