import CitpLib.Theorems.MessageSize

/-!
# Framing the byte stream

The framing loop of a peer decides from the first twelve buffered bytes
whether to discard one byte, to wait, or to take a message. This file proves
what a whole run of the loop does on any bytes: its decisions do not depend on
how the stream was cut into deliveries, it keeps every byte in its place, and
it ends unless it meets a header that declares size 0.

## Main definitions

* `Reaches` — the buffers at which the loop looks
* `ZeroHeader` — the buffer begins with a header of declared size 0
* `Received` — the loop run after every delivery, from an empty buffer

## Main results

* `readyReadStep_stable` — an iteration is not changed by further input
* `received_chunking_independent` — neither is the outcome of the deliveries
* `handleReadyRead_returns_iff` — the loop ends iff it meets no zero header
* `readyRead_framing` — what a run removes, and how it sizes the messages
-/

namespace CitpLib

open Streaming

variable {char : PlainChar} {available content more rest a : List UInt8} {es : List Event}
  {cs : List (List UInt8)}

/-! ## One iteration -/

theorem getD_append_of_lt {i : ℕ} (h : i < available.length) :
    (available ++ more).getD i 0 = available.getD i 0 := by
  simp [List.getD_eq_getElem?_getD, List.getElem?_append_left h]

theorem discards_take : discards (available.take 12) = discards available := by
  simp [discards]

theorem messageSize_take : messageSize char (available.take 12) = messageSize char available := by
  simp [messageSize]

theorem discards_append (h : 12 ≤ available.length) :
    discards (available ++ more) = discards available := by
  simp only [discards]
  rw [getD_append_of_lt (by omega), getD_append_of_lt (by omega), getD_append_of_lt (by omega),
    getD_append_of_lt (by omega)]

theorem messageSize_append (char : PlainChar) (h : 12 ≤ available.length) :
    messageSize char (available ++ more) = messageSize char available := by
  simp only [messageSize]
  rw [getD_append_of_lt (by omega), getD_append_of_lt (by omega), getD_append_of_lt (by omega),
    getD_append_of_lt (by omega)]

/-- An iteration in terms of the bytes available. -/
theorem readyReadStep_eq (char : PlainChar) (available : List UInt8) :
    readyReadStep char available =
      if available.length < 12 then none
      else if discards available then
        some (.discarded (available.getD 0 0), available.drop 1)
      else if available.length < (messageSize char available).toNat then none
      else some (.parsed (available.take (messageSize char available).toNat),
        available.drop (messageSize char available).toNat) := by
  simp only [readyReadStep, discards_take, messageSize_take, List.length_take]
  by_cases h : available.length < 12
  · simp [h, Nat.min_eq_right h.le, h.ne]
  · rw [if_neg (by omega), if_neg (by omega), if_neg h]

theorem readyReadStep_of_discards (char : PlainChar) (h : 12 ≤ available.length)
    (hd : discards available = true) :
    readyReadStep char available =
      some (.discarded (available.getD 0 0), available.drop 1) := by
  simp [readyReadStep_eq, hd, show ¬ available.length < 12 by omega]

theorem readyReadStep_of_parses (char : PlainChar) (h : 12 ≤ available.length)
    (hd : discards available = false)
    (hsize : (messageSize char available).toNat ≤ available.length) :
    readyReadStep char available =
      some (.parsed (available.take (messageSize char available).toNat),
        available.drop (messageSize char available).toNat) := by
  simp [readyReadStep_eq, hd, show ¬ available.length < 12 by omega, hsize]

/-- Everything an iteration that does not return can do. -/
theorem readyReadStep_cases {e : Event} (h : readyReadStep char available = some (e, rest)) :
    12 ≤ available.length ∧
      ((discards available = true ∧ e = .discarded (available.getD 0 0) ∧
          rest = available.drop 1) ∨
        (discards available = false ∧
          (messageSize char available).toNat ≤ available.length ∧
          e = .parsed (available.take (messageSize char available).toNat) ∧
          rest = available.drop (messageSize char available).toNat)) := by
  rw [readyReadStep_eq] at h
  split at h
  · simp at h
  · rename_i hlen
    refine ⟨by omega, ?_⟩
    split at h
    · rename_i hd
      obtain ⟨rfl, rfl⟩ := Prod.mk.inj (Option.some.inj h)
      exact .inl ⟨hd, rfl, rfl⟩
    · rename_i hd
      split at h
      · simp at h
      · obtain ⟨rfl, rfl⟩ := Prod.mk.inj (Option.some.inj h)
        exact .inr ⟨by simpa using hd, by omega, rfl, rfl⟩

/-- The bytes that an iteration removes. -/
def Event.bytes : Event → List UInt8
  | discarded b => [b]
  | parsed byteArray => byteArray

/-- **Further input does not change what an iteration does.** -/
theorem readyReadStep_stable (char : PlainChar) : Stable (readyReadStep char) := by
  intro s e r more h
  obtain ⟨hlen, ⟨hd, rfl, rfl⟩ | ⟨hd, hsize, rfl, rfl⟩⟩ := readyReadStep_cases h
  · rw [readyReadStep_of_discards char (by simp; omega) (by rw [discards_append hlen, hd]),
      getD_append_of_lt (by omega), List.drop_append_of_le_length (by omega)]
  · rw [readyReadStep_of_parses char (by simp; omega) (by rw [discards_append hlen, hd])
        (by rw [messageSize_append char hlen]; simp; omega),
      messageSize_append char hlen, List.take_append_of_le_length hsize,
      List.drop_append_of_le_length hsize]

/-- An iteration removes exactly the bytes of its event. -/
theorem readyReadStep_cuts (char : PlainChar) : Cuts (readyReadStep char) Event.bytes := by
  intro s e r h
  obtain ⟨hlen, ⟨-, rfl, rfl⟩ | ⟨-, -, rfl, rfl⟩⟩ := readyReadStep_cases h
  · cases s with
    | nil => simp at hlen
    | cons b s => rfl
  · exact (List.take_append_drop _ s).symm

theorem readyReadStep_nil (char : PlainChar) : readyReadStep char [] = none := rfl

/-! ## Deliveries -/

/-- The loop run after every delivery, on a socket that was empty. -/
def Received (char : PlainChar) (deliveries : List (List UInt8)) (es : List Event)
    (buffered : List UInt8) : Prop :=
  Deliveries (readyReadStep char) [] deliveries es buffered

/-- Deliveries amount to one run of the loop over all of the stream. -/
theorem received_iff :
    Received char cs es rest ↔ Drains (readyReadStep char) cs.flatten es rest := by
  rw [Received, (readyReadStep_stable char).deliveries_iff (readyReadStep_nil char),
    List.nil_append]

/-- The loop looks at the buffer `t` on its way from `s`. -/
def Reaches (char : PlainChar) (s t : List UInt8) : Prop :=
  ∃ es, Steps (readyReadStep char) s es t

/-- The buffer begins with a header, and the header declares size 0. -/
def ZeroHeader (available : List UInt8) : Prop :=
  12 ≤ available.length ∧ discards available = false ∧ declaredSize available = 0

instance (available : List UInt8) : Decidable (ZeroHeader available) :=
  inferInstanceAs (Decidable (_ ∧ _))

/-- At a zero header the loop hands over an empty message and removes nothing. -/
theorem readyReadStep_of_zeroHeader (h : ZeroHeader available) :
    readyReadStep char available = some (.parsed [], available) := by
  obtain ⟨hlen, hd, hzero⟩ := h
  have hsize := (messageSize_eq_zero_iff char hlen).mpr hzero
  simpa [hsize] using readyReadStep_of_parses char hlen hd (by omega)

/-- Anywhere else an iteration returns or shortens the buffer. -/
theorem readyReadStep_progress_iff (char : PlainChar) :
    (∀ e r, readyReadStep char available = some (e, r) → r.length < available.length) ↔
      ¬ ZeroHeader available := by
  constructor
  · intro h hzero
    exact Nat.lt_irrefl _ (h _ _ (readyReadStep_of_zeroHeader hzero))
  · intro hzero e r hstep
    obtain ⟨hlen, ⟨-, -, rfl⟩ | ⟨hd, -, -, rfl⟩⟩ := readyReadStep_cases hstep
    · simp only [List.length_drop]
      omega
    · have hne : declaredSize available ≠ 0 := fun hsize => hzero ⟨hlen, hd, hsize⟩
      have hsize := mt (messageSize_eq_zero_iff char hlen).mp hne
      simp only [List.length_drop]
      omega

/-- The loop drains a buffer exactly when no zero header lies on its way. -/
theorem exists_drains_iff :
    (∃ es rest, Drains (readyReadStep char) content es rest) ↔
      ∀ t, Reaches char content t → ¬ ZeroHeader t := by
  constructor
  · rintro ⟨es, rest, hdrains⟩ t ⟨fs, hsteps⟩ hzero
    exact not_drains_of_loop hsteps (readyReadStep_of_zeroHeader hzero) hdrains
  · intro h
    exact exists_drains_of_progress fun es t e r hsteps hstep =>
      (readyReadStep_progress_iff char).mpr (h t ⟨es, hsteps⟩) e r hstep

/-- **Chunking independence.** If no zero header lies on the loop's way through
the stream, the deliveries of any two cuttings have one and the same outcome:
the same discarded bytes and messages in the same order, and the same bytes
left in the buffer. -/
theorem received_chunking_independent (char : PlainChar) (stream : List UInt8)
    (hzero : ∀ t, Reaches char stream t → ¬ ZeroHeader t) (cs₁ cs₂ : List (List UInt8))
    (h₁ : cs₁.flatten = stream) (h₂ : cs₂.flatten = stream) :
    ∃ es rest, (∀ fs u, Received char cs₁ fs u ↔ fs = es ∧ u = rest) ∧
      ∀ fs u, Received char cs₂ fs u ↔ fs = es ∧ u = rest := by
  obtain ⟨es, rest, hdrains⟩ := exists_drains_iff.mpr hzero
  have houtcome (cs : List (List UInt8)) (hcs : cs.flatten = stream) (fs : List Event)
      (u : List UInt8) : Received char cs fs u ↔ fs = es ∧ u = rest := by
    rw [received_iff, hcs]
    constructor
    · exact fun h => h.unique hdrains
    · rintro ⟨rfl, rfl⟩
      exact hdrains
  exact ⟨es, rest, houtcome cs₁ h₁, houtcome cs₂ h₂⟩

/-- A stray byte before a bare header, delivered at once and cut inside the
header. -/
theorem received_chunking_independent_bareHeader :
    ∃ es rest,
      (∀ fs u, Received .signed [[0x00, 0x43, 0x49, 0x54, 0x50, 0x01, 0x00, 0x00, 0x00, 0x0c,
        0x00, 0x00, 0x00]] fs u ↔ fs = es ∧ u = rest) ∧
      ∀ fs u, Received .signed [[0x00, 0x43, 0x49], [0x54, 0x50, 0x01, 0x00, 0x00, 0x00, 0x0c,
        0x00, 0x00, 0x00]] fs u ↔ fs = es ∧ u = rest :=
  received_chunking_independent .signed
    [0x00, 0x43, 0x49, 0x54, 0x50, 0x01, 0x00, 0x00, 0x00, 0x0c, 0x00, 0x00, 0x00]
    (exists_drains_iff.mp ⟨_, _, (drain_eq_some_iff.mp
      (show drain (readyReadStep .signed) 3 _ = some (_, _) from rfl)).1⟩) _ _ rfl rfl

/-! ## Termination -/

/-- **The loop returns exactly when it meets no header that declares size 0**, and
exactly at such a header does an iteration neither return nor remove a byte. -/
theorem handleReadyRead_returns_iff (char : PlainChar) (content : List UInt8) :
    ((∃ fuel, (handleReadyRead char fuel content).isSome) ↔
        ∀ t, Reaches char content t → ¬ ZeroHeader t) ∧
      ∀ t, (readyReadStep char t = none ∨
          ∃ e r, readyReadStep char t = some (e, r) ∧ r.length < t.length) ↔ ¬ ZeroHeader t := by
  refine ⟨exists_drain_isSome_iff.trans exists_drains_iff, fun t => ?_⟩
  rw [← readyReadStep_progress_iff char]
  rcases hstep : readyReadStep char t with _ | ⟨e, r⟩ <;> simp

/-- A header of size 0 alone in the buffer keeps the loop going for ever. -/
theorem handleReadyRead_not_returns :
    ¬ ∃ fuel, (handleReadyRead .signed fuel
      [0x43, 0x49, 0x54, 0x50, 0x01, 0x00, 0x00, 0x00, 0x00, 0x00, 0x00, 0x00]).isSome := by
  intro h
  exact exists_drains_iff.mp (exists_drain_isSome_iff.mp h) _ ⟨[], .refl _⟩ (by decide)

/-! ## What a run removes -/

/-- The four characters that begin every message. -/
def cookieBytes : List UInt8 := [0x43, 0x49, 0x54, 0x50]

theorem discards_eq_false_of_cookie (h : cookieBytes <+: available) :
    discards available = false := by
  obtain ⟨more, rfl⟩ := h
  rfl

/-- **Framing keeps every byte in its place.** After any number of iterations over
fewer than `2 ^ 31` bytes, what was removed and what is buffered make up the
content; every message is as long as the size field in its header says; and no
discarded byte begins a cookie. -/
theorem readyRead_framing (char : PlainChar) (content : List UInt8)
    (hlt : content.length < 2 ^ 31) (es : List Event) (rest : List UInt8)
    (h : Steps (readyReadStep char) content es rest) :
    content = es.flatMap Event.bytes ++ rest ∧
      (∀ before byteArray after, es = before ++ .parsed byteArray :: after →
        12 ≤ (content.drop (before.flatMap Event.bytes).length).length ∧
          byteArray.length = declaredSize (content.drop (before.flatMap Event.bytes).length)) ∧
      ∀ before b after, es = before ++ .discarded b :: after →
        ¬ cookieBytes <+: content.drop (before.flatMap Event.bytes).length := by
  have hcuts := readyReadStep_cuts char
  refine ⟨hcuts.eq_append h, ?_, ?_⟩
  · rintro before byteArray after rfl
    obtain ⟨t, r, hbefore, hstep, -⟩ := h.split_event
    rw [← hcuts.eq_drop hbefore]
    obtain ⟨hlen, ⟨-, he, -⟩ | ⟨-, hsize, he, -⟩⟩ := readyReadStep_cases hstep
    · cases he
    · obtain rfl := Event.parsed.inj he
      refine ⟨hlen, ?_⟩
      have htlen : t.length ≤ content.length := by
        rw [hcuts.eq_append hbefore, List.length_append]
        exact Nat.le_add_left _ _
      rcases messageSize_eq_or_ge char hlen with heq | hge
      · rw [List.length_take, Nat.min_eq_left hsize, heq]
      · omega
  · rintro before b after rfl hcookie
    obtain ⟨t, r, hbefore, hstep, -⟩ := h.split_event
    rw [← hcuts.eq_drop hbefore] at hcookie
    -- at a cookie the skip test fails already at its first letter
    obtain ⟨-, ⟨hd, -, -⟩ | ⟨-, -, he, -⟩⟩ := readyReadStep_cases hstep
    · simp [discards_eq_false_of_cookie hcookie] at hd
    · cases he

/-- A bare header is taken with the size it declares. -/
theorem readyRead_framing_bareHeader :
    [0x43, 0x49, 0x54, 0x50, 0x01, 0x00, 0x00, 0x00, 0x0c, 0x00, 0x00, 0x00].length =
      declaredSize [0x43, 0x49, 0x54, 0x50, 0x01, 0x00, 0x00, 0x00, 0x0c, 0x00, 0x00, 0x00] :=
  ((readyRead_framing .signed
    [0x43, 0x49, 0x54, 0x50, 0x01, 0x00, 0x00, 0x00, 0x0c, 0x00, 0x00, 0x00] (by decide)
    [.parsed [0x43, 0x49, 0x54, 0x50, 0x01, 0x00, 0x00, 0x00, 0x0c, 0x00, 0x00, 0x00]] []
    (.cons rfl (.refl []))).2.1 [] _ [] rfl).2

end CitpLib
