import Mathlib.Data.Option.Basic

/-!
# Runs over a list of inputs

A transition takes an input and a state to the next state and emits signals, or
it is undefined there. A run takes one input after the other and collects the
signals; it is undefined if one of its transitions is.

## Main definitions

* `Streaming.Transition` — one input
* `Streaming.run` — one input after the other

## Main results

* `isSome_run_iff` — a run is defined iff each of its inputs is, where the state
  plays no part in that
* `run_append` — a run over two lists is one run behind the other
* `isSome_run_append` — and it is defined if both are
* `trace_run` — what each transition keeps of the inputs and signals so far
* `related_run` — a relation kept by each transition holds after a run
* `state_run` — the state after a run is that of its transitions one by one
* `simulation_run` — what simulates each transition simulates a run
-/

namespace Streaming

/-- What an input does to a state, and the signals emitted, if it is defined. -/
abbrev Transition (α σ ε : Type*) := α → σ → Option (σ × List ε)

variable {α σ τ ε : Type*} {step : Transition α σ ε} {spec : Transition α τ ε} {a : α}
  {l : List α} {s s' : σ} {t : τ} {signals : List ε}

/-- The transitions of several inputs: the state afterwards and all signals. -/
def run (step : Transition α σ ε) : List α → σ → Option (σ × List ε)
  | [], s => some (s, [])
  | a :: l, s =>
    (step a s).bind fun first => (run step l first.1).bind fun rest =>
      some (rest.1, first.2 ++ rest.2)

@[simp] theorem run_nil (step : Transition α σ ε) (s : σ) : run step [] s = some (s, []) := rfl

theorem run_cons (step : Transition α σ ε) (a : α) (l : List α) (s : σ) :
    run step (a :: l) s =
      (step a s).bind fun first => (run step l first.1).bind fun rest =>
        some (rest.1, first.2 ++ rest.2) := rfl

/-- A run is its first transition and the run from there. -/
theorem run_cons_eq_some (h : run step (a :: l) s = some (s', signals)) :
    ∃ next emitted later, step a s = some (next, emitted) ∧
      run step l next = some (s', later) ∧ signals = emitted ++ later := by
  rw [run_cons, Option.bind_eq_some_iff] at h
  obtain ⟨⟨next, emitted⟩, hfirst, h⟩ := h
  obtain ⟨⟨last, later⟩, hrest, h⟩ := Option.bind_eq_some_iff.mp h
  obtain ⟨rfl, rfl⟩ := Prod.mk.inj (Option.some.inj h)
  exact ⟨next, emitted, later, hfirst, hrest, rfl⟩

/-- **When a run is defined**, if that depends on its inputs only. -/
theorem isSome_run_iff {P : α → Prop} (h : ∀ a s, (step a s).isSome ↔ P a) :
    (run step l s).isSome ↔ ∀ a ∈ l, P a := by
  induction l generalizing s with
  | nil => simp
  | cons a l ih =>
    rw [List.forall_mem_cons, ← h a s]
    cases hfirst : step a s with
    | none => simp [run_cons, hfirst]
    | some first =>
      rw [← ih (s := first.1)]
      cases hrest : run step l first.1 <;> simp [run_cons, hfirst, hrest]

/-- A run over inputs that are translated. -/
theorem run_map {β : Type*} (step : Transition α σ ε) (f : β → α) (l : List β) (s : σ) :
    run step (l.map f) s = run (fun b => step (f b)) l s := by
  induction l generalizing s with
  | nil => rfl
  | cons b l ih => rw [List.map_cons, run_cons, run_cons]; simp only [ih]

/-- A run over two lists is a run over the first and one over the second from there. -/
theorem run_append (step : Transition α σ ε) (l l' : List α) (s : σ) :
    run step (l ++ l') s =
      (run step l s).bind fun first => (run step l' first.1).bind fun rest =>
        some (rest.1, first.2 ++ rest.2) := by
  induction l generalizing s with
  | nil => cases hrest : run step l' s <;> simp [hrest]
  | cons a l ih =>
    rw [List.cons_append, run_cons, run_cons]
    cases hfirst : step a s with
    | none => rfl
    | some first =>
      rw [Option.bind_some, Option.bind_some, ih]
      cases hmiddle : run step l first.1 with
      | none => rfl
      | some middle =>
        simp only [Option.bind_some]
        cases hrest : run step l' middle.1 with
        | none => rfl
        | some rest => simp only [Option.bind_some, List.append_assoc]

/-- The first part of a run and the one from there. -/
theorem run_append_eq_some {l' : List α} (h : run step (l ++ l') s = some (s', signals)) :
    ∃ middle emitted later, run step l s = some (middle, emitted) ∧
      run step l' middle = some (s', later) ∧ signals = emitted ++ later := by
  rw [run_append, Option.bind_eq_some_iff] at h
  obtain ⟨⟨middle, emitted⟩, hfirst, h⟩ := h
  obtain ⟨⟨last, later⟩, hrest, h⟩ := Option.bind_eq_some_iff.mp h
  obtain ⟨rfl, rfl⟩ := Prod.mk.inj (Option.some.inj h)
  exact ⟨middle, emitted, later, hfirst, hrest, rfl⟩

/-- A run goes on with one more input. -/
theorem run_concat {s'' : σ} {emitted : List ε} (h : run step l s = some (s', signals))
    (hstep : step a s' = some (s'', emitted)) :
    run step (l ++ [a]) s = some (s'', signals ++ emitted) := by
  rw [run_append, h, Option.bind_some, run_cons, hstep, Option.bind_some, run_nil,
    Option.bind_some, Option.bind_some, List.append_nil]

theorem isSome_run_append {l' : List α} :
    (run step (l ++ l') s).isSome ↔
      ∃ s' signals, run step l s = some (s', signals) ∧ (run step l' s').isSome := by
  rw [run_append]
  cases hfirst : run step l s with
  | none => simp
  | some first =>
    obtain ⟨middle, emitted⟩ := first
    rw [Option.bind_some]
    cases hrest : run step l' middle <;> simp [hrest]

theorem isSome_run_singleton : (run step [a] s).isSome ↔ (step a s).isSome := by
  rw [run_cons]
  cases step a s <;> rfl

/-! ## Relations over a run -/

/-- **An invariant of the history**: it speaks of the inputs taken and the signals emitted
so far besides the state, and each transition keeps it. -/
theorem trace_run {P : List α → List ε → σ → Prop}
    (hstep : ∀ l signals s a s' emitted, P l signals s → step a s = some (s', emitted) →
      P (l ++ [a]) (signals ++ emitted) s')
    (hnil : P [] [] s) (h : run step l s = some (s', signals)) : P l signals s' := by
  have hextend : ∀ (before : List α) (emitted : List ε), P before emitted s →
      P (before ++ l) (emitted ++ signals) s' := by
    clear hnil
    induction l generalizing s signals with
    | nil =>
      obtain ⟨rfl, rfl⟩ := Prod.mk.inj (Option.some.inj h)
      intro before emitted hbefore
      rwa [List.append_nil, List.append_nil]
    | cons a l ih =>
      obtain ⟨middle, first, later, hfirst, hrest, rfl⟩ := run_cons_eq_some h
      intro before emitted hbefore
      have hmiddle := hstep before emitted s a middle first hbefore hfirst
      simpa using ih hrest (before ++ [a]) (emitted ++ first) hmiddle
  exact hextend [] [] hnil

/-- **A relation over a run** between the state and what is computed from the inputs
alone: each transition keeps it, so a run does. -/
theorem related_run {R : σ → τ → Prop} {next : τ → α → τ}
    (hstep : ∀ a s s' t emitted, R s t → step a s = some (s', emitted) → R s' (next t a))
    (hrel : R s t) (h : run step l s = some (s', signals)) : R s' (l.foldl next t) := by
  induction l generalizing s t signals with
  | nil =>
    obtain ⟨rfl, -⟩ := Prod.mk.inj (Option.some.inj h)
    exact hrel
  | cons a l ih =>
    obtain ⟨middle, emitted, later, hfirst, hrest, -⟩ := run_cons_eq_some h
    exact ih (hstep a s middle t emitted hrel hfirst) hrest

/-- **The state after a run**, from the states after its transitions. -/
theorem state_run {next : σ → α → σ}
    (hstep : ∀ a s s' emitted, step a s = some (s', emitted) → s' = next s a)
    (h : run step l s = some (s', signals)) : s' = l.foldl next s := by
  apply related_run (R := (· = ·)) ?_ rfl h
  rintro a s s' t emitted rfl hfirst
  exact hstep a s s' emitted hfirst

/-- **Simulation over a run.** Where each transition is one of the specification with
the same signals, from a related state to a related state, a run is one too. -/
theorem simulation_run {R : σ → τ → Prop}
    (hstep : ∀ a s s' t emitted, R s t → step a s = some (s', emitted) →
      ∃ t', spec a t = some (t', emitted) ∧ R s' t')
    (hrel : R s t) (h : run step l s = some (s', signals)) :
    ∃ t', run spec l t = some (t', signals) ∧ R s' t' := by
  induction l generalizing s t signals with
  | nil =>
    obtain ⟨rfl, rfl⟩ := Prod.mk.inj (Option.some.inj h)
    exact ⟨t, rfl, hrel⟩
  | cons a l ih =>
    obtain ⟨middle, emitted, later, hfirst, hrest, rfl⟩ := run_cons_eq_some h
    obtain ⟨t₁, hspec, hmiddle⟩ := hstep a s middle t emitted hrel hfirst
    obtain ⟨t₂, hrun, hlast⟩ := ih hmiddle hrest
    refine ⟨t₂, ?_, hlast⟩
    rw [run_cons, hspec, Option.bind_some, hrun, Option.bind_some]

end Streaming
