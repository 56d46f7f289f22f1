import CitpLib.Stream.Consumer

/-!
# Framed streams

A stream is often the concatenation of messages, and a consumer is meant to find
them again. It frames a message if it takes exactly the message at its start,
whatever follows, and waits while only a part of the message is there. What a
consumer has made of such a stream is then known as soon as it is known how much
of the stream has arrived: the messages that are complete have been taken, one by
one, and the part of the next one is buffered.

A stream may go on with elements from which the consumer never takes anything.
The messages in front of them are framed all the same.

## Main definitions

* `Streaming.Frames` — a message that a consumer frames
* `Streaming.Stuck` — elements from which it never takes anything

## Main results

* `steps_prefix` — what a consumer takes first, whatever follows the messages
* `drains_prefix` — what it makes of the part of a stream that has arrived
* `drains_inFlight` — and how it goes on with what is still in flight
-/

namespace Streaming

variable {α ε : Type*} {step : Consumer α ε} {event : List α → ε} {m p tail : List α}
  {msgs : List (List α)}

/-- The consumer takes the message `m` as soon as it is complete, and with nothing of what
follows. -/
structure Frames (step : Consumer α ε) (event : List α → ε) (m : List α) : Prop where
  takes : ∀ rest, step (m ++ rest) = some (event m, rest)
  waits : ∀ p, p <+: m → p ≠ m → step p = none

/-- The consumer takes nothing from these elements, however many of them have arrived. -/
def Stuck (step : Consumer α ε) (tail : List α) : Prop := ∀ p, p <+: tail → step p = none

theorem stuck_nil (h : step [] = none) : Stuck step [] := by
  intro p hp
  rwa [List.prefix_nil.mp hp]

/-- A prefix of a message and its continuation is a part of the message, or it is the
message and a prefix of the continuation. -/
theorem isPart_or_whole {more : List α} (h : p <+: m ++ more) :
    (p <+: m ∧ p ≠ m) ∨ ∃ q, p = m ++ q ∧ q <+: more := by
  rcases List.prefix_or_prefix_of_prefix h (List.prefix_append m more) with hpm | hmp
  · by_cases heq : p = m
    · exact .inr ⟨[], by rw [heq, List.append_nil], List.nil_prefix⟩
    · exact .inl ⟨hpm, heq⟩
  · obtain ⟨q, rfl⟩ := hmp
    exact .inr ⟨q, rfl, (List.prefix_append_right_inj m).mp h⟩

/-- What a consumer takes first of a stream that begins with framed messages, whatever
follows them: of what has arrived it takes the complete messages, one by one. -/
theorem steps_prefix (hmsgs : ∀ m ∈ msgs, Frames step event m) (h : p <+: msgs.flatten ++ tail) :
    ∃ front back rest, msgs = front ++ back ∧ p = front.flatten ++ rest ∧
      Steps step p (front.map event) rest ∧ (p = msgs.flatten ++ tail → back = []) ∧
        ((back = [] ∧ rest <+: tail) ∨
          ∃ m later, back = m :: later ∧ rest <+: m ∧ rest ≠ m) := by
  induction msgs generalizing p with
  | nil => exact ⟨[], [], p, rfl, rfl, .refl p, fun _ => rfl, .inl ⟨rfl, h⟩⟩
  | cons m msgs ih =>
    rw [List.flatten_cons, List.append_assoc] at h ⊢
    have hframes := hmsgs m List.mem_cons_self
    rcases isPart_or_whole h with hpart | hwhole
    · obtain ⟨hpm, hne⟩ := hpart
      refine ⟨[], m :: msgs, p, rfl, rfl, .refl p, fun hall => ?_, .inr ⟨m, msgs, rfl, hpm, hne⟩⟩
      have hmp : m <+: p := by
        rw [hall]
        exact List.prefix_append m _
      exact absurd (hpm.eq_of_length_le hmp.length_le) hne
    · obtain ⟨q, rfl, hq⟩ := hwhole
      obtain ⟨front, back, rest, rfl, rfl, hsteps, hall, hnext⟩ :=
        ih (fun m' hm' => hmsgs m' (List.mem_cons_of_mem _ hm')) hq
      refine ⟨m :: front, back, rest, rfl, ?_, ?_, fun heq => ?_, hnext⟩
      · rw [List.flatten_cons, List.append_assoc]
      · exact .cons (hframes.takes _) hsteps
      · exact hall (List.append_cancel_left heq)

/-- **What a consumer has made of a framed stream** is determined by how much has arrived:
it has taken the complete messages, and a part of what comes next is buffered. -/
theorem drains_prefix (hmsgs : ∀ m ∈ msgs, Frames step event m) (htail : Stuck step tail)
    (h : p <+: msgs.flatten ++ tail) :
    ∃ front back rest, msgs = front ++ back ∧ p = front.flatten ++ rest ∧
      Drains step p (front.map event) rest ∧ (p = msgs.flatten ++ tail → back = []) ∧
        ((back = [] ∧ rest <+: tail) ∨
          ∃ m later, back = m :: later ∧ rest <+: m ∧ rest ≠ m) := by
  obtain ⟨front, back, rest, rfl, hp, hsteps, hall, hnext⟩ := steps_prefix hmsgs h
  refine ⟨front, back, rest, rfl, hp, ⟨hsteps, ?_⟩, hall, hnext⟩
  rcases hnext with ⟨-, hrest⟩ | ⟨m, later, rfl, hpart, hne⟩
  · exact htail rest hrest
  · exact (hmsgs m (List.mem_append_right _ List.mem_cons_self)).waits rest hpart hne

/-- **What a consumer has made of a framed stream in flight.** Of what has arrived it has
taken a part of the messages; the others are what is buffered and what is still in flight.
What is buffered is a part of the next one. Once nothing is in flight, it has taken them
all. -/
theorem drains_inFlight {arrived inFlight buffered : List α} {es : List ε}
    (hmsgs : ∀ m ∈ msgs, Frames step event m) (htail : Stuck step tail)
    (hstream : arrived ++ inFlight = msgs.flatten ++ tail)
    (h : Drains step arrived es buffered) :
    ∃ front back, msgs = front ++ back ∧ es = front.map event ∧
      buffered ++ inFlight = back.flatten ++ tail ∧ (inFlight = [] → back = []) ∧
        ((back = [] ∧ buffered <+: tail) ∨
          ∃ m later, back = m :: later ∧ buffered <+: m ∧ buffered ≠ m) := by
  have hpart : arrived <+: msgs.flatten ++ tail := ⟨inFlight, hstream⟩
  obtain ⟨front, back, rest, rfl, harrived, hdrains, hall, hnext⟩ :=
    drains_prefix hmsgs htail hpart
  obtain ⟨rfl, rfl⟩ := h.unique hdrains
  refine ⟨front, back, rfl, rfl, ?_, fun hnone => ?_, hnext⟩
  · rw [harrived, List.flatten_append, List.append_assoc, List.append_assoc] at hstream
    exact List.append_cancel_left hstream
  · rw [hnone, List.append_nil] at hstream
    exact hall hstream

end Streaming
