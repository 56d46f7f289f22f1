import Mathlib.Data.List.Basic

/-!
# Incremental consumers of a stream

A receiver buffers the part of a stream that has arrived and loops over it:
each iteration either asks for more input or removes a prefix and reports an
event. This file treats such a loop in general, as a partial step function on
the buffered elements, and compares a run after every delivery with one run
over the whole stream.

## Main definitions

* `Streaming.Consumer` — one iteration of the loop
* `Streaming.Steps` — some iterations, with the events they report
* `Streaming.Drains` — iterations until the loop asks for more
* `Streaming.Deliveries` — the loop run after each arriving chunk
* `Streaming.drain` — the loop as a computation with a bound on iterations
* `Streaming.Stable`, `Streaming.Cuts` — iterations are unaffected by further
  input; the elements they remove are the ones their event carries

## Main results

* `Drains.unique` — a run of the loop is determined by the buffer
* `Stable.deliveries_iff` — deliveries of any sizes amount to one run over
  their concatenation
* `Cuts.eq_append` — events and remaining buffer make up the original input
* `exists_drains_of_progress`, `not_drains_of_loop` — when the loop ends
-/

namespace Streaming

/-- One iteration over the buffered elements: `none` asks for more input,
`some (e, rest)` reports `e` and leaves `rest` in the buffer. -/
abbrev Consumer (α ε : Type*) := List α → Option (ε × List α)

variable {α ε : Type*} {step : Consumer α ε} {s t u r b more : List α} {e : ε}
  {es fs : List ε} {cs : List (List α)}

/-- Iterations from one buffer to another and the events they report. -/
inductive Steps (step : Consumer α ε) : List α → List ε → List α → Prop
  | refl (s : List α) : Steps step s [] s
  | cons {s t u : List α} {e : ε} {es : List ε} :
      step s = some (e, t) → Steps step t es u → Steps step s (e :: es) u

/-- The loop iterates from `s` until it asks for more input, at `u`. -/
def Drains (step : Consumer α ε) (s : List α) (es : List ε) (u : List α) : Prop :=
  Steps step s es u ∧ step u = none

/-- The loop runs after each chunk that arrives behind the buffer `b`. -/
inductive Deliveries (step : Consumer α ε) :
    List α → List (List α) → List ε → List α → Prop
  | nil (b : List α) : Deliveries step b [] [] b
  | cons {b b' u c : List α} {cs : List (List α)} {es fs : List ε} :
      Drains step (b ++ c) es b' → Deliveries step b' cs fs u →
        Deliveries step b (c :: cs) (es ++ fs) u

/-- The loop as a computation: `none` if it has not ended within the given
number of iterations. -/
def drain (step : Consumer α ε) : ℕ → List α → Option (List ε × List α)
  | 0, _ => none
  | fuel + 1, s =>
    match step s with
    | none => some ([], s)
    | some (e, t) => (drain step fuel t).map fun (es, u) => (e :: es, u)

/-! ### Runs of the loop -/

theorem Steps.split (h : Steps step s (es ++ fs) u) :
    ∃ t, Steps step s es t ∧ Steps step t fs u := by
  induction es generalizing s with
  | nil => exact ⟨s, .refl s, h⟩
  | cons e es ih =>
    cases h with
    | cons hstep hrest =>
      obtain ⟨t, hleft, hright⟩ := ih hrest
      exact ⟨t, .cons hstep hleft, hright⟩

/-- The iteration that reported a given event of a run. -/
theorem Steps.split_event (h : Steps step s (es ++ e :: fs) u) :
    ∃ t r, Steps step s es t ∧ step t = some (e, r) ∧ Steps step r fs u := by
  obtain ⟨t, hleft, hright⟩ := h.split
  cases hright with
  | cons hstep hrest => exact ⟨t, _, hleft, hstep, hrest⟩

theorem drains_of_step_eq_none (h : step s = none) : Drains step s [] s := ⟨.refl s, h⟩

theorem Drains.cons (hstep : step s = some (e, t)) (h : Drains step t es u) :
    Drains step s (e :: es) u :=
  ⟨.cons hstep h.1, h.2⟩

theorem drains_iff_of_step_eq_none (h : step s = none) :
    Drains step s es u ↔ es = [] ∧ u = s := by
  constructor
  · rintro ⟨hsteps, -⟩
    cases hsteps with
    | refl => exact ⟨rfl, rfl⟩
    | cons hstep => simp [h] at hstep
  · rintro ⟨rfl, rfl⟩
    exact drains_of_step_eq_none h

theorem drains_iff_of_step_eq_some (h : step s = some (e, t)) :
    Drains step s es u ↔ ∃ fs, es = e :: fs ∧ Drains step t fs u := by
  constructor
  · rintro ⟨hsteps, hend⟩
    cases hsteps with
    | refl => simp [h] at hend
    | cons hstep hrest =>
      obtain ⟨rfl, rfl⟩ := Prod.mk.inj (Option.some.inj (h.symm.trans hstep))
      exact ⟨_, rfl, hrest, hend⟩
  · rintro ⟨fs, rfl, hrest⟩
    exact hrest.cons h

/-- A run to the end passes through every buffer that iterations reach. -/
theorem Steps.drains_iff (h : Steps step s es t) :
    Drains step s fs u ↔ ∃ gs, fs = es ++ gs ∧ Drains step t gs u := by
  -- each iteration of the first run is forced on the second
  induction h generalizing fs with
  | refl => simp
  | cons hstep _ ih => simp only [drains_iff_of_step_eq_some hstep, ih]; simp

/-- The buffer determines the run: the events and what remains. -/
theorem Drains.unique (h : Drains step s es t) (h' : Drains step s fs u) :
    es = fs ∧ t = u := by
  obtain ⟨gs, rfl, hrest⟩ := h.1.drains_iff.mp h'
  obtain ⟨rfl, rfl⟩ := (drains_iff_of_step_eq_none h.2).mp hrest
  simp

theorem drain_eq_some_iff {fuel : ℕ} :
    drain step fuel s = some (es, u) ↔ Drains step s es u ∧ es.length < fuel := by
  induction fuel generalizing s es with
  | zero => simp [drain]
  | succ fuel ih =>
    cases hstep : step s with
    | none =>
      rw [drains_iff_of_step_eq_none hstep]
      simp only [drain, hstep, Option.some.injEq, Prod.mk.injEq]
      constructor
      · rintro ⟨rfl, rfl⟩
        simp
      · rintro ⟨⟨rfl, rfl⟩, -⟩
        simp
    | some et =>
      obtain ⟨e, t⟩ := et
      rw [drains_iff_of_step_eq_some hstep]
      simp only [drain, hstep, Option.map_eq_some_iff, Prod.exists, Prod.mk.injEq]
      constructor
      · rintro ⟨fs, v, hrest, rfl, rfl⟩
        obtain ⟨hdrains, hlt⟩ := ih.mp hrest
        exact ⟨⟨fs, rfl, hdrains⟩, by simpa using hlt⟩
      · rintro ⟨⟨fs, rfl, hdrains⟩, hlt⟩
        exact ⟨fs, u, ih.mpr ⟨hdrains, by simpa using hlt⟩, rfl, rfl⟩

/-- The loop ends within some number of iterations iff it drains the buffer. -/
theorem exists_drain_isSome_iff :
    (∃ fuel, (drain step fuel s).isSome) ↔ ∃ es u, Drains step s es u := by
  simp only [Option.isSome_iff_exists, Prod.exists, drain_eq_some_iff]
  constructor
  · rintro ⟨_, es, u, h, -⟩
    exact ⟨es, u, h⟩
  · rintro ⟨es, u, h⟩
    exact ⟨es.length + 1, es, u, h, Nat.lt_succ_self _⟩

/-! ### Whether the loop ends -/

/-- A loop whose iterations all shorten the buffer ends. -/
theorem exists_drains_of_progress
    (h : ∀ es t e r, Steps step s es t → step t = some (e, r) → r.length < t.length) :
    ∃ es u, Drains step s es u := by
  -- the length of the buffer is the measure
  induction hn : s.length using Nat.strongRecOn generalizing s with
  | ind n ih =>
    cases hstep : step s with
    | none => exact ⟨[], s, drains_of_step_eq_none hstep⟩
    | some et =>
      obtain ⟨e, t⟩ := et
      have hlt : t.length < n := hn ▸ h [] s e t (.refl s) hstep
      obtain ⟨es, u, hrest⟩ := ih t.length hlt
        (fun es' t' e' r' hsteps => h (e :: es') t' e' r' (.cons hstep hsteps)) rfl
      exact ⟨e :: es, u, hrest.cons hstep⟩

/-- A loop that reaches an iteration which leaves the buffer as it is never
ends. -/
theorem not_drains_of_loop (h : Steps step s es t) (hloop : step t = some (e, t)) :
    ¬ Drains step s fs u := by
  intro hdrains
  obtain ⟨gs, -, hrest⟩ := h.drains_iff.mp hdrains
  -- a run to the end from `t` has a shorter one after its first iteration
  induction gs with
  | nil =>
    obtain ⟨ks, hks, -⟩ := (drains_iff_of_step_eq_some hloop).mp hrest
    exact absurd hks (List.cons_ne_nil _ _).symm
  | cons g gs ih =>
    obtain ⟨ks, hks, hrest⟩ := (drains_iff_of_step_eq_some hloop).mp hrest
    obtain ⟨-, rfl⟩ := List.cons.inj hks
    exact ih hrest

/-! ### Deliveries -/

/-- An iteration that is possible stays possible, and does the same, when more
input has arrived. -/
def Stable (step : Consumer α ε) : Prop :=
  ∀ s e r more, step s = some (e, r) → step (s ++ more) = some (e, r ++ more)

/-- A run to the end stops on the way where the part of the input that had
arrived was used up. -/
theorem Stable.split (hstable : Stable step) (h : Drains step (b ++ more) es u) :
    ∃ es₁ b' es₂, Drains step b es₁ b' ∧ Drains step (b' ++ more) es₂ u ∧
      es = es₁ ++ es₂ := by
  induction es generalizing b with
  | nil =>
    -- an iteration on `b` alone would still be possible on `b ++ more`
    have hend : step b = none := by
      by_contra hne
      obtain ⟨⟨e, r⟩, hstep⟩ := Option.ne_none_iff_exists'.mp hne
      simp [drains_iff_of_step_eq_some (hstable b e r more hstep)] at h
    exact ⟨[], b, [], drains_of_step_eq_none hend, h, rfl⟩
  | cons e es ih =>
    cases hstep : step b with
    | none => exact ⟨[], b, e :: es, drains_of_step_eq_none hstep, h, rfl⟩
    | some er =>
      obtain ⟨e', r⟩ := er
      obtain ⟨fs, hfs, hrest⟩ :=
        (drains_iff_of_step_eq_some (hstable b e' r more hstep)).mp h
      obtain ⟨rfl, rfl⟩ := List.cons.inj hfs
      obtain ⟨es₁, b', es₂, hfirst, hsecond, rfl⟩ := ih hrest
      exact ⟨e :: es₁, b', es₂, hfirst.cons hstep, hsecond, rfl⟩

theorem Stable.steps (hstable : Stable step) (h : Steps step s es t) :
    Steps step (s ++ more) es (t ++ more) := by
  induction h with
  | refl => exact .refl _
  | cons hstep _ ih => exact .cons (hstable _ _ _ more hstep) ih

/-- Running the loop after every delivery amounts to one run over everything
delivered, however it was cut. -/
theorem Stable.deliveries_iff (hstable : Stable step) (hb : step b = none) :
    Deliveries step b cs es u ↔ Drains step (b ++ cs.flatten) es u := by
  induction cs generalizing b es with
  | nil =>
    simp only [List.flatten_nil, List.append_nil, drains_iff_of_step_eq_none hb]
    constructor
    · rintro ⟨⟩
      exact ⟨rfl, rfl⟩
    · rintro ⟨rfl, rfl⟩
      exact .nil _
  | cons c cs ih =>
    rw [List.flatten_cons, ← List.append_assoc]
    constructor
    · rintro (_ | ⟨hfirst, hrest⟩)
      -- the iterations after the first chunk are also those on all of the input
      rw [(hstable.steps hfirst.1).drains_iff]
      exact ⟨_, rfl, (ih hfirst.2).mp hrest⟩
    · intro h
      obtain ⟨es₁, b', es₂, hfirst, hsecond, rfl⟩ := hstable.split h
      exact .cons hfirst ((ih hfirst.2).mpr hsecond)

/-! ### Events that carry what they remove -/

/-- An iteration removes exactly the elements its event carries. -/
def Cuts (step : Consumer α ε) (carried : ε → List α) : Prop :=
  ∀ s e r, step s = some (e, r) → s = carried e ++ r

/-- Nothing is lost, duplicated or reordered. -/
theorem Cuts.eq_append {carried : ε → List α} (hcuts : Cuts step carried)
    (h : Steps step s es t) : s = es.flatMap carried ++ t := by
  induction h with
  | refl => simp
  | cons hstep _ ih => rw [hcuts _ _ _ hstep, ih]; simp

/-- No event carries more than the buffer holds. -/
theorem Cuts.length_carried_le {carried : ε → List α} (hcuts : Cuts step carried)
    (h : Steps step s es t) (he : e ∈ es) : (carried e).length ≤ s.length := by
  obtain ⟨before, after, rfl⟩ := List.append_of_mem he
  rw [hcuts.eq_append h, List.flatMap_append, List.flatMap_cons]
  simp only [List.length_append]
  omega

/-- The buffer at an iteration is what follows the events before it. -/
theorem Cuts.eq_drop {carried : ε → List α} (hcuts : Cuts step carried)
    (h : Steps step s es t) : t = s.drop (es.flatMap carried).length := by
  conv_rhs => rw [hcuts.eq_append h]
  rw [List.drop_left]

end Streaming
