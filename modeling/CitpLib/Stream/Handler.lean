import CitpLib.Stream.Consumer
import CitpLib.Stream.Run

/-!
# Consumers that act on what they take

A receiver does not only cut its input: it acts on every event as soon as its loop
reports it, in the middle of the loop. As long as acting does not touch the buffer
this amounts to cutting first and acting afterwards. So what the receiver does
depends on the stream alone, and not on the pieces in which it arrived.

The loop may go on for ever. Where an event carries what it removes, a loop that
ends has removed something with each event, and so many iterations are enough to
find out.

## Main definitions

* `Streaming.drainHandling` — the loop that acts on each event
* `Streaming.deliver` — a piece of the stream arrives, and the loop runs

## Main results

* `drainHandling_eq` — acting in the loop is acting after the loop
* `Cuts.length_le` — a loop that ends has at most as many iterations as elements
* `deliver_eq_some_iff`, `run_deliver` — any deliveries amount to one delivery
-/

namespace Streaming

variable {α ε σ ο : Type*} {step : Consumer α ε} {handle : Transition ε σ ο} {b b' c u : List α}
  {e : ε} {es : List ε} {s s' : σ} {out : List ο} {fuel : ℕ} {cs : List (List α)}
  {carried : ε → List α}

/-- The loop that acts on each event before it goes on: the state afterwards, what was
emitted and the elements that stay in the buffer. -/
def drainHandling (step : Consumer α ε) (handle : Transition ε σ ο) :
    ℕ → List α → σ → Option (σ × List ο × List α)
  | 0, _, _ => none
  | fuel + 1, b, s =>
    match step b with
    | none => some (s, [], b)
    | some (e, rest) =>
      (handle e s).bind fun first =>
        (drainHandling step handle fuel rest first.1).bind fun later =>
          some (later.1, first.2 ++ later.2.1, later.2.2)

/-- **Acting in the loop is acting after the loop.** -/
theorem drainHandling_eq (step : Consumer α ε) (handle : Transition ε σ ο) (fuel : ℕ)
    (b : List α) (s : σ) :
    drainHandling step handle fuel b s =
      (drain step fuel b).bind fun drained =>
        (run handle drained.1 s).map fun acted => (acted.1, acted.2, drained.2) := by
  induction fuel generalizing b s with
  | zero => rfl
  | succ fuel ih =>
    rw [drainHandling, drain]
    cases hstep : step b with
    | none => rfl
    | some cut =>
      obtain ⟨e, rest⟩ := cut
      simp only [ih]
      -- acting may fail, and the loop may not end: both sides are undefined then
      cases hdrain : drain step fuel rest with
      | none => cases hfirst : handle e s <;> rfl
      | some drained =>
        simp only [Option.map_some, Option.bind_some, run_cons]
        cases hfirst : handle e s with
        | none => rfl
        | some first =>
          simp only [Option.bind_some]
          cases run handle drained.1 first.1 <;> rfl

theorem drainHandling_eq_some_iff :
    drainHandling step handle fuel b s = some (s', out, u) ↔
      ∃ es, (Drains step b es u ∧ es.length < fuel) ∧ run handle es s = some (s', out) := by
  simp only [drainHandling_eq, Option.bind_eq_some_iff, Option.map_eq_some_iff, Prod.exists,
    drain_eq_some_iff, Prod.mk.injEq]
  constructor
  · intro h
    obtain ⟨es, _, hdrains, _, _, hrun, rfl, rfl, rfl⟩ := h
    exact ⟨es, hdrains, hrun⟩
  · intro h
    obtain ⟨es, hdrains, hrun⟩ := h
    exact ⟨es, u, hdrains, s', out, hrun, rfl, rfl, rfl⟩

/-! ### How many iterations are enough -/

/-- In a loop that ends no iteration leaves the buffer as it is, so each event carries
something. -/
theorem Cuts.carried_ne_nil (hcuts : Cuts step carried) (h : Drains step b es u) (he : e ∈ es) :
    carried e ≠ [] := by
  obtain ⟨before, after, rfl⟩ := List.append_of_mem he
  obtain ⟨t, r, hbefore, hstep, -⟩ := h.1.split_event
  intro hnil
  -- an iteration that removes nothing would be repeated for ever
  have hsame : t = r := by rw [hcuts t e r hstep, hnil, List.nil_append]
  subst hsame
  exact not_drains_of_loop hbefore hstep h

/-- Events that all carry something are no more than what they carry. -/
theorem length_le_length_flatMap (h : ∀ e ∈ es, carried e ≠ []) :
    es.length ≤ (es.flatMap carried).length := by
  induction es with
  | nil => exact Nat.zero_le _
  | cons e es ih =>
    obtain ⟨hhead, htail⟩ := List.forall_mem_cons.mp h
    have hpos := List.length_pos_iff.mpr hhead
    have hrest := ih htail
    rw [List.flatMap_cons, List.length_append, List.length_cons]
    omega

/-- **A loop that ends has at most as many iterations as it removes elements.** -/
theorem Cuts.length_le (hcuts : Cuts step carried) (h : Drains step b es u) :
    es.length + u.length ≤ b.length := by
  have hle : es.length ≤ (es.flatMap carried).length :=
    length_le_length_flatMap fun e he => hcuts.carried_ne_nil h he
  rw [hcuts.eq_append h.1, List.length_append]
  omega

/-! ### Deliveries -/

/-- A run of the loop and one over what stays with what arrives then are one run. -/
theorem Stable.drains_append (hstable : Stable step) {fs : List ε} (h : Drains step b es b')
    (hlater : Drains step (b' ++ c) fs u) : Drains step (b ++ c) (es ++ fs) u := by
  rw [(hstable.steps h.1).drains_iff]
  exact ⟨fs, rfl, hlater⟩

/-- A piece of the stream arrives behind the buffer, and the loop runs: the state and the
buffer afterwards, and what was emitted. It is undefined if the loop does not end or
cannot act on an event. -/
def deliver (step : Consumer α ε) (handle : Transition ε σ ο) :
    Transition (List α) (σ × List α) ο := fun c receiver =>
  (drainHandling step handle ((receiver.2 ++ c).length + 1) (receiver.2 ++ c) receiver.1).map
    fun after => ((after.1, after.2.2), after.2.1)

theorem deliver_eq_some_iff (hcuts : Cuts step carried) :
    deliver step handle c (s, b) = some ((s', b'), out) ↔
      ∃ es, Drains step (b ++ c) es b' ∧ run handle es s = some (s', out) := by
  simp only [deliver, Option.map_eq_some_iff, Prod.exists, Prod.mk.injEq,
    drainHandling_eq_some_iff]
  constructor
  · intro h
    obtain ⟨_, _, _, ⟨es, ⟨hdrains, -⟩, hrun⟩, ⟨rfl, rfl⟩, rfl⟩ := h
    exact ⟨es, hdrains, hrun⟩
  · intro h
    obtain ⟨es, hdrains, hrun⟩ := h
    have hle := hcuts.length_le hdrains
    exact ⟨s', out, b', ⟨es, ⟨hdrains, by omega⟩, hrun⟩, ⟨rfl, rfl⟩, rfl⟩

/-- A run of deliveries cuts as `Deliveries` do, and acts on all events in order. -/
theorem run_deliver_eq_some_iff (hcuts : Cuts step carried) :
    run (deliver step handle) cs (s, b) = some ((s', b'), out) ↔
      ∃ es, Deliveries step b cs es b' ∧ run handle es s = some (s', out) := by
  induction cs generalizing s b out with
  | nil =>
    rw [run_nil]
    constructor
    · intro h
      obtain ⟨hstate, rfl⟩ := Prod.mk.inj (Option.some.inj h)
      obtain ⟨rfl, rfl⟩ := Prod.mk.inj hstate
      exact ⟨[], .nil b, rfl⟩
    · intro h
      obtain ⟨es, hdeliveries, hrun⟩ := h
      cases hdeliveries with
      | nil =>
        obtain ⟨rfl, rfl⟩ := Prod.mk.inj (Option.some.inj hrun)
        rfl
  | cons c cs ih =>
    constructor
    · intro h
      obtain ⟨⟨middle, buffered⟩, first, later, hfirst, hrest, rfl⟩ := run_cons_eq_some h
      obtain ⟨es, hdrains, hacted⟩ := (deliver_eq_some_iff hcuts).mp hfirst
      obtain ⟨fs, hdeliveries, hlater⟩ := ih.mp hrest
      refine ⟨es ++ fs, .cons hdrains hdeliveries, ?_⟩
      rw [run_append, hacted, Option.bind_some, hlater, Option.bind_some]
    · intro h
      obtain ⟨gs, hdeliveries, hrun⟩ := h
      cases hdeliveries with
      | cons hdrains hrest =>
        -- the events of the first piece are acted on before the later ones arrive
        obtain ⟨middle, first, later, hacted, hlater, rfl⟩ := run_append_eq_some hrun
        rw [run_cons, (deliver_eq_some_iff hcuts).mpr ⟨_, hdrains, hacted⟩, Option.bind_some,
          ih.mpr ⟨_, hrest, hlater⟩, Option.bind_some]

/-- **Any deliveries amount to one delivery** of everything: the state, what was emitted and
what stays in the buffer are the same, and the one is defined if the other is. -/
theorem run_deliver (hstable : Stable step) (hcuts : Cuts step carried) (hb : step b = none)
    (cs : List (List α)) (s : σ) :
    run (deliver step handle) cs (s, b) = deliver step handle cs.flatten (s, b) := by
  apply Option.ext
  intro after
  obtain ⟨⟨s', b'⟩, out⟩ := after
  rw [run_deliver_eq_some_iff hcuts, deliver_eq_some_iff hcuts]
  simp only [hstable.deliveries_iff hb]

end Streaming
