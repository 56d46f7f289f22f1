import Mathlib.Data.List.Induction

/-!
# Logs of keyed entries

Events put entries and remove keys. Over a run they describe a map from keys to
entries: a key has the entry that was put for it last, unless it was removed
afterwards. A log lists every entry that was put, in order, and forgets none.

The log shows the map only as long as no event touches a key that has an entry
already: an entry put again is listed twice, and one that is removed stays.

## Main definitions

* `Table.Events` — what events put and remove
* `Events.log`, `Events.current` — the log and the map of a run
* `Events.Shows` — a list of entries is a map
* `Events.Untouched` — no event touches an entry put before it

## Main results

* `getLast?_entriesFor` — the last entry for a key of the map is its current one
* `shows_current_iff` — when the log shows the map
-/

namespace Table

/-- What events say: the entry that an event puts, if any, and the keys that it removes. -/
structure Events (ε α κ : Type*) where
  put : ε → Option α
  key : α → κ
  removes : ε → κ → Bool

namespace Events

variable {ε α κ : Type*} {events : Events ε α κ} {es : List ε} {e : ε} {l : List α} {x : α} {k : κ}

/-- The entries that were put, in order. -/
def log (events : Events ε α κ) (es : List ε) : List α := es.filterMap events.put

theorem log_concat (events : Events ε α κ) (es : List ε) (e : ε) :
    events.log (es ++ [e]) = events.log es ++ (events.put e).toList := by
  cases hput : events.put e <;> simp [log, hput]

/-! ## The map and the log -/

variable [DecidableEq κ]

/-- The entry that an event puts for one key. -/
def putFor (events : Events ε α κ) (e : ε) (k : κ) : Option α :=
  (events.put e).filter fun x => events.key x = k

/-- The map after an event. -/
def receive (events : Events ε α κ) (m : κ → Option α) (e : ε) : κ → Option α := fun k =>
  (events.putFor e k).or (if events.removes e k then none else m k)

/-- The map after a run. -/
def current (events : Events ε α κ) (es : List ε) : κ → Option α :=
  es.foldl events.receive fun _ => none

/-- The entries of a list for one key. -/
def entriesFor (events : Events ε α κ) (l : List α) (k : κ) : List α :=
  l.filter fun x => events.key x = k

/-- The list is the map: one entry for each key that has one, and no other. -/
def Shows (events : Events ε α κ) (l : List α) (m : κ → Option α) : Prop :=
  ∀ k, events.entriesFor l k = (m k).toList

/-- The event puts an entry for the key, or it removes the key. -/
def Touches (events : Events ε α κ) (e : ε) (k : κ) : Prop :=
  (events.putFor e k).isSome ∨ events.removes e k

/-- No event touches the key of an entry that was put before it. -/
def Untouched (events : Events ε α κ) (es : List ε) : Prop :=
  ∀ front e back, es = front ++ e :: back →
    ∀ x ∈ events.log front, ¬ events.Touches e (events.key x)

/-! ## One event -/

theorem current_concat (events : Events ε α κ) (es : List ε) (e : ε) (k : κ) :
    events.current (es ++ [e]) k =
      (events.putFor e k).or (if events.removes e k then none else events.current es k) := by
  rw [current, List.foldl_append]
  rfl

theorem entriesFor_log_concat (events : Events ε α κ) (es : List ε) (e : ε) (k : κ) :
    events.entriesFor (events.log (es ++ [e])) k =
      events.entriesFor (events.log es) k ++ (events.putFor e k).toList := by
  rw [log_concat, entriesFor, List.filter_append, entriesFor, putFor]
  cases events.put e with
  | none => rfl
  | some x => by_cases hkey : events.key x = k <;> simp [hkey, Option.filter_some]

theorem entriesFor_ne_nil_iff :
    events.entriesFor l k ≠ [] ↔ ∃ x ∈ l, events.key x = k := by
  simp [entriesFor, List.filter_eq_nil_iff]

/-- **The last entry for a key is its current one**, as long as it has one. -/
theorem getLast?_entriesFor (h : events.current es k = some x) :
    (events.entriesFor (events.log es) k).getLast? = some x := by
  induction es using List.reverseRecOn with
  | nil => simp [current] at h
  | append_singleton es e ih =>
    rw [current_concat] at h
    rw [entriesFor_log_concat]
    cases hput : events.putFor e k with
    | some y =>
      rw [hput, Option.some_or] at h
      rw [Option.toList_some, List.getLast?_concat, h]
    | none =>
      rw [hput, Option.none_or, Option.ite_none_left_eq_some] at h
      rw [Option.toList_none, List.append_nil]
      exact ih h.2

/-- A key without entries is not in the map. -/
theorem current_eq_none (h : events.entriesFor (events.log es) k = []) :
    events.current es k = none := by
  rw [Option.eq_none_iff_forall_ne_some]
  intro x hx
  have hlast := getLast?_entriesFor hx
  rw [h] at hlast
  simp at hlast

/-- An event leaves a key shown as it should be unless it touches an entry for it. -/
theorem entriesFor_log_concat_eq_iff :
    events.entriesFor (events.log (es ++ [e])) k = (events.current (es ++ [e]) k).toList ↔
      events.entriesFor (events.log es) k = (events.current es k).toList ∧
        (events.entriesFor (events.log es) k ≠ [] → ¬ events.Touches e k) := by
  have hempty (h : events.entriesFor (events.log es) k = []) :
      events.entriesFor (events.log es) k = (events.current es k).toList := by
    rw [h, current_eq_none h, Option.toList_none]
  rw [entriesFor_log_concat, current_concat, Touches]
  cases hput : events.putFor e k with
  | some y => simpa using hempty
  | none =>
    by_cases hremoves : events.removes e k
    · simpa [hremoves] using hempty
    · simp [hremoves]

/-! ## Runs -/

theorem shows_log_concat_iff :
    events.Shows (events.log (es ++ [e])) (events.current (es ++ [e])) ↔
      events.Shows (events.log es) (events.current es) ∧
        ∀ x ∈ events.log es, ¬ events.Touches e (events.key x) := by
  constructor
  · intro h
    have hstep := fun k => entriesFor_log_concat_eq_iff.mp (h k)
    exact ⟨fun k => (hstep k).1,
      fun x hx => (hstep _).2 (entriesFor_ne_nil_iff.mpr ⟨x, hx, rfl⟩)⟩
  · intro h k
    obtain ⟨hshows, huntouched⟩ := h
    apply entriesFor_log_concat_eq_iff.mpr
    refine ⟨hshows k, fun hne => ?_⟩
    obtain ⟨x, hx, rfl⟩ := entriesFor_ne_nil_iff.mp hne
    exact huntouched x hx

theorem untouched_concat_iff :
    events.Untouched (es ++ [e]) ↔ events.Untouched es ∧
      ∀ x ∈ events.log es, ¬ events.Touches e (events.key x) := by
  constructor
  · intro h
    refine ⟨fun front e' back hsplit => h front e' (back ++ [e]) ?_, h es e [] rfl⟩
    rw [hsplit, List.append_assoc, List.cons_append]
  · intro h front e' back hsplit
    obtain ⟨hfront, hlast⟩ := h
    rcases List.eq_nil_or_concat back with rfl | ⟨back, e'', rfl⟩
    · obtain ⟨rfl, he⟩ := List.append_inj' hsplit rfl
      obtain rfl := List.singleton_inj.mp he
      exact hlast
    · rw [List.concat_eq_append, ← List.cons_append, ← List.append_assoc] at hsplit
      exact hfront front e' back (List.append_inj' hsplit rfl).1

/-- **When the log shows the map**: exactly as long as no event touches an entry. -/
theorem shows_current_iff :
    events.Shows (events.log es) (events.current es) ↔ events.Untouched es := by
  induction es using List.reverseRecOn with
  | nil => simp [Shows, Untouched, current, log, entriesFor]
  | append_singleton es e ih => rw [shows_log_concat_iff, untouched_concat_iff, ih]

end Events

end Table
