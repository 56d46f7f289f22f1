import CitpLib.Stream.Run

/-!
# Components that broadcast

Components of a system take steps in any order. What one of them sends reaches a
common medium, and any component may take from the medium what has been sent, as
often as it likes, in any order or not at all. So messages can be lost, duplicated
and reordered, but not made up.

Seen from one component, a run of the system is a run of the component over its
own inputs. Where the messages come from is known from the medium.

## Main definitions

* `Streaming.Protocol` — the components, what their inputs take and their signals send
* `Streaming.Broadcast` — the state of the system
* `Protocol.network` — one step of one component
* `Streaming.projected` — what concerns one component

## Main results

* `component_run` — a run of the system is one of each component
* `mem_sent_of_taken` — what is taken has been sent
* `exists_signal_of_mem_sent` — what has been sent comes from a signal of the sender
-/

namespace Streaming

/-- Components with inputs that take messages, each with its sender, from the medium, and
with signals that may send a message. -/
structure Protocol (ι α σ ε μ : Type*) where
  step : ι → Transition α σ ε
  takes : α → List (ι × μ)
  sends : ε → Option μ

/-- The states of the components and the messages that have been sent. -/
structure Broadcast (ι σ μ : Type*) where
  components : ι → σ
  sent : List (ι × μ)

/-- What concerns one component. -/
def projected {ι β : Type*} [DecidableEq ι] (i : ι) (l : List (ι × β)) : List β :=
  l.filterMap fun x => if x.1 = i then some x.2 else none

section Projected

variable {ι β : Type*} [DecidableEq ι] {i j : ι} {l l' : List (ι × β)} {b : β}

theorem mem_projected_iff : b ∈ projected i l ↔ (i, b) ∈ l := by
  rw [projected, List.mem_filterMap]
  constructor
  · intro h
    obtain ⟨⟨j, c⟩, hmem, hsome⟩ := h
    obtain ⟨rfl, hval⟩ := Option.ite_none_right_eq_some.mp hsome
    rwa [← Option.some.inj hval]
  · exact fun h => ⟨(i, b), h, if_pos rfl⟩

theorem projected_append (i : ι) (l l' : List (ι × β)) :
    projected i (l ++ l') = projected i l ++ projected i l' :=
  List.filterMap_append

theorem projected_map_mk_self (i : ι) (l : List β) : projected i (l.map (Prod.mk i)) = l := by
  have hcomp : (fun x : ι × β => if x.1 = i then some x.2 else none) ∘ Prod.mk i = some :=
    funext fun b => if_pos rfl
  rw [projected, List.filterMap_map, hcomp, List.filterMap_some]

theorem projected_singleton_self (i : ι) (b : β) : projected i [(i, b)] = [b] :=
  projected_map_mk_self i [b]

theorem projected_map_mk_of_ne (h : j ≠ i) (l : List β) :
    projected i (l.map (Prod.mk j)) = [] := by
  simp [projected, h]

theorem projected_singleton_of_ne (h : j ≠ i) (b : β) : projected i [(j, b)] = [] :=
  projected_map_mk_of_ne h [b]

end Projected

variable {ι α σ ε μ : Type*} {p : Protocol ι α σ ε μ} {net net' : Broadcast ι σ μ}
  {events : List (ι × α)} {signals : List (ι × ε)}

/-- The messages of signals, each with its sender. -/
def Protocol.messages (p : Protocol ι α σ ε μ) (signals : List (ι × ε)) : List (ι × μ) :=
  signals.filterMap fun x => (p.sends x.2).map (Prod.mk x.1)

theorem messages_append (p : Protocol ι α σ ε μ) (signals signals' : List (ι × ε)) :
    p.messages (signals ++ signals') = p.messages signals ++ p.messages signals' :=
  List.filterMap_append

variable [DecidableEq ι] [DecidableEq μ]

/-- One step of one component. Its input takes only what has been sent. -/
def Protocol.network (p : Protocol ι α σ ε μ) :
    Transition (ι × α) (Broadcast ι σ μ) (ι × ε) := fun event net =>
  if ∀ m ∈ p.takes event.2, m ∈ net.sent then
    (p.step event.1 event.2 (net.components event.1)).map fun after =>
      (⟨Function.update net.components event.1 after.1,
        net.sent ++ p.messages (after.2.map (Prod.mk event.1))⟩, after.2.map (Prod.mk event.1))
  else none

/-- Everything that a step does. -/
theorem network_eq_some {event : ι × α} (h : p.network event net = some (net', signals)) :
    (∀ m ∈ p.takes event.2, m ∈ net.sent) ∧ ∃ state emitted,
      p.step event.1 event.2 (net.components event.1) = some (state, emitted) ∧
        net'.components = Function.update net.components event.1 state ∧
        signals = emitted.map (Prod.mk event.1) ∧
        net'.sent = net.sent ++ p.messages signals := by
  rw [Protocol.network, Option.ite_none_right_eq_some] at h
  obtain ⟨htakes, h⟩ := h
  obtain ⟨⟨state, emitted⟩, hstep, h⟩ := Option.map_eq_some_iff.mp h
  obtain ⟨rfl, rfl⟩ := Prod.mk.inj h
  exact ⟨htakes, state, emitted, hstep, rfl, rfl, rfl⟩

theorem isSome_network_iff {event : ι × α} :
    (p.network event net).isSome ↔ (∀ m ∈ p.takes event.2, m ∈ net.sent) ∧
      (p.step event.1 event.2 (net.components event.1)).isSome := by
  rw [Protocol.network]
  split
  · rename_i htakes
    rw [Option.isSome_map, and_iff_right htakes]
  · rename_i htakes
    exact iff_of_false Bool.false_ne_true fun h => htakes h.1

/-- **A run of the system is one of each component**, over the inputs of the component and
with its signals. -/
theorem component_run (h : run p.network events net = some (net', signals)) (i : ι) :
    run (p.step i) (projected i events) (net.components i) =
      some (net'.components i, projected i signals) := by
  apply trace_run (P := fun events signals net' =>
    run (p.step i) (projected i events) (net.components i) =
      some (net'.components i, projected i signals)) ?_ rfl h
  intro events signals before event after emitted hbefore hnetwork
  obtain ⟨-, state, own, hstep, hcomponents, rfl, -⟩ := network_eq_some hnetwork
  obtain ⟨j, a⟩ := event
  rw [projected_append, projected_append, hcomponents]
  by_cases hij : j = i
  · subst hij
    rw [projected_map_mk_self, projected_singleton_self, Function.update_self]
    exact run_concat hbefore hstep
  · rw [projected_map_mk_of_ne hij, projected_singleton_of_ne hij,
      Function.update_of_ne (Ne.symm hij), List.append_nil, List.append_nil]
    exact hbefore

/-! ## Where messages come from -/

/-- The medium holds the messages of the signals, in order. -/
theorem sent_run (h : run p.network events net = some (net', signals)) :
    net'.sent = net.sent ++ p.messages signals := by
  apply trace_run (P := fun _ signals net' => net'.sent = net.sent ++ p.messages signals) ?_
    (List.append_nil _).symm h
  intro _ signals before event after emitted hbefore hnetwork
  obtain ⟨-, state, own, -, -, -, hsent⟩ := network_eq_some hnetwork
  rw [hsent, hbefore, messages_append, List.append_assoc]

/-- **What is taken has been sent.** -/
theorem mem_sent_of_taken (h : run p.network events net = some (net', signals)) :
    ∀ event ∈ events, ∀ m ∈ p.takes event.2, m ∈ net'.sent := by
  apply trace_run (P := fun events _ net' =>
    ∀ event ∈ events, ∀ m ∈ p.takes event.2, m ∈ net'.sent) ?_ ?_ h
  · intro events _ before event after emitted hbefore hnetwork event' hmem m hm
    obtain ⟨htakes, state, own, -, -, -, hsent⟩ := network_eq_some hnetwork
    rw [hsent]
    apply List.mem_append_left
    rcases List.mem_append.mp hmem with hmem | hmem
    · exact hbefore event' hmem m hm
    · rw [List.mem_singleton.mp hmem] at hm
      exact htakes m hm
  · intro event hmem
    exact absurd hmem List.not_mem_nil

/-- **What has been sent comes from a signal of the sender.** -/
theorem exists_signal_of_mem_sent {i : ι} {m : μ} (hnet : net.sent = [])
    (h : run p.network events net = some (net', signals)) (hm : (i, m) ∈ net'.sent) :
    ∃ s ∈ projected i signals, p.sends s = some m := by
  rw [sent_run h, hnet, List.nil_append, Protocol.messages, List.mem_filterMap] at hm
  obtain ⟨⟨j, s⟩, hmem, hsome⟩ := hm
  obtain ⟨m', hsends, heq⟩ := Option.map_eq_some_iff.mp hsome
  obtain ⟨rfl, rfl⟩ := Prod.mk.inj heq
  exact ⟨s, mem_projected_iff.mpr hmem, hsends⟩

end Streaming
