import CitpLib.Theorems.Framing

/-!
# Resynchronisation after garbage

A receiver that starts in the middle of a stream should skip the bytes before
the first message. The framing loop discards a byte only if none of the four
bytes at hand equals its letter of the cookie, where one difference would do.
So garbage is skipped exactly when that holds at each of its bytes; the first
byte at which it does not is taken for the start of a header.

## Main definitions

* `discardedBytes`, `handed` — what a run threw away and what it handed over
* `Takes` — the loop takes a message with its own length
* `WellFormedMessage` — a message that begins with the cookie and declares its
  length in bytes below 0x80

## Main results

* `handed_iff_takes` — a stream of messages is framed as such exactly when the loop
  takes each with its length
* `resynchronises_iff` — garbage is skipped exactly when every window that
  begins in it differs from the cookie in all four bytes
-/

namespace CitpLib

open Streaming

variable {char : PlainChar} {m g rest : List UInt8} {msgs : List (List UInt8)} {es : List Event}

/-- The bytes thrown away in a run. -/
def discardedBytes (es : List Event) : List UInt8 :=
  es.filterMap fun
    | .discarded b => some b
    | .parsed _ => none

/-- The messages handed to `parsePacket` in a run. -/
def handed (es : List Event) : List (List UInt8) :=
  es.filterMap fun
    | .discarded _ => none
    | .parsed byteArray => some byteArray

@[simp] theorem handed_parsed (a : List UInt8) (es : List Event) :
    handed (.parsed a :: es) = a :: handed es := rfl

/-! ## A stream of messages -/

/-- At the start of `m` the loop sees a header and assembles the length of `m`. -/
structure Takes (char : PlainChar) (m : List UInt8) : Prop where
  length_ge : 12 ≤ m.length
  header : discards m = false
  size : (messageSize char m).toNat = m.length

theorem Takes.step (h : Takes char m) (rest : List UInt8) :
    readyReadStep char (m ++ rest) = some (.parsed m, rest) := by
  have hlen := h.length_ge
  have hlen' : 12 ≤ (m ++ rest).length := by rw [List.length_append]; omega
  have hsize : messageSize char (m ++ rest) = messageSize char m := messageSize_append char hlen
  have hstep := readyReadStep_of_parses char hlen' (by rw [discards_append hlen, h.header])
    (by rw [hsize, h.size, List.length_append]; omega)
  rwa [hsize, h.size, List.take_left, List.drop_left] at hstep

theorem drains_messages (h : ∀ m ∈ msgs, Takes char m) :
    Drains (readyReadStep char) msgs.flatten (msgs.map .parsed) [] := by
  induction msgs with
  | nil => exact drains_of_step_eq_none (readyReadStep_nil char)
  | cons m msgs ih =>
    exact (ih fun m' hm' => h m' (List.mem_cons_of_mem _ hm')).cons
      ((h m List.mem_cons_self).step msgs.flatten)

/-- At a header, a run that uses up the buffer hands over what it takes there. -/
theorem exists_parsed_of_drains {s : List UInt8} (hlen : 12 ≤ s.length)
    (hd : discards s = false) (h : Drains (readyReadStep char) s es []) :
    ∃ fs, es = .parsed (s.take (messageSize char s).toNat) :: fs ∧
      (messageSize char s).toNat ≤ s.length ∧
        Drains (readyReadStep char) (s.drop (messageSize char s).toNat) fs [] := by
  have hne : s ≠ [] := by rintro rfl; simp at hlen
  by_cases hsize : (messageSize char s).toNat ≤ s.length
  · obtain ⟨fs, rfl, hrest⟩ :=
      (drains_iff_of_step_eq_some (readyReadStep_of_parses char hlen hd hsize)).mp h
    exact ⟨fs, rfl, hsize, hrest⟩
  · have hnone : readyReadStep char s = none := by
      rw [readyReadStep_eq, if_neg (by omega), hd, if_neg (by simp), if_pos (by omega)]
    exact absurd ((drains_iff_of_step_eq_none hnone).mp h).2.symm hne

/-- A run that hands over the messages of a stream took each with its length. -/
theorem takes_of_handed (hmsgs : ∀ m ∈ msgs, 12 ≤ m.length ∧ discards m = false)
    (h : Drains (readyReadStep char) msgs.flatten es []) (hhanded : handed es = msgs) :
    ∀ m ∈ msgs, Takes char m := by
  induction msgs generalizing es with
  | nil => simp
  | cons m msgs ih =>
    obtain ⟨hlen, hd⟩ := hmsgs m List.mem_cons_self
    rw [List.flatten_cons] at h
    obtain ⟨fs, rfl, hsize, hrest⟩ := exists_parsed_of_drains
      (by rw [List.length_append]; omega) (by rw [discards_append hlen, hd]) h
    rw [handed_parsed] at hhanded
    obtain ⟨hm, hfs⟩ := List.cons.inj hhanded
    have heq : (messageSize char (m ++ msgs.flatten)).toNat = m.length := by
      rw [← congrArg List.length hm, List.length_take, Nat.min_eq_left hsize]
    rw [heq, List.drop_left] at hrest
    have htakes : Takes char m := ⟨hlen, hd, by rwa [messageSize_append char hlen] at heq⟩
    rintro m' (_ | ⟨_, hm'⟩)
    · exact htakes
    · exact ih (fun m' hm' => hmsgs m' (List.mem_cons_of_mem _ hm')) hrest hfs m' hm'

/-- **Messages that begin with a header are handed over**, for any deliveries, exactly when the
loop takes each with its length. -/
theorem handed_iff_takes (hmsgs : ∀ m ∈ msgs, 12 ≤ m.length ∧ discards m = false)
    {cs : List (List UInt8)} (hcs : cs.flatten = msgs.flatten) :
    (∃ es, Received char cs es [] ∧ handed es = msgs) ↔ ∀ m ∈ msgs, Takes char m := by
  simp only [received_iff, hcs]
  constructor
  · intro h
    obtain ⟨es, hdrains, hhanded⟩ := h
    exact takes_of_handed hmsgs hdrains hhanded
  · intro htakes
    refine ⟨_, drains_messages htakes, ?_⟩
    simp [handed, List.filterMap_map]

/-! ## Garbage in front -/

/-- A message as a peer sends it: it begins with the cookie, it is long enough
for the base layer header, and it declares its length in bytes below 0x80. -/
structure WellFormedMessage (m : List UInt8) : Prop where
  cookie : cookieBytes <+: m
  length_ge : 20 ≤ m.length
  declared : declaredSize m = m.length
  bytes_lt : ∀ b ∈ (m.drop 8).take 4, b < 0x80

instance (m : List UInt8) : Decidable (WellFormedMessage m) :=
  -- over the list: the bytes there are not enumerated
  letI : Decidable (∀ b ∈ (m.drop 8).take 4, b < 0x80) := List.decidableBAll _ _
  decidable_of_iff
    (cookieBytes <+: m ∧ 20 ≤ m.length ∧ declaredSize m = m.length ∧
      ∀ b ∈ (m.drop 8).take 4, b < 0x80)
    ⟨fun ⟨h₁, h₂, h₃, h₄⟩ => ⟨h₁, h₂, h₃, h₄⟩, fun ⟨h₁, h₂, h₃, h₄⟩ => ⟨h₁, h₂, h₃, h₄⟩⟩

theorem WellFormedMessage.takes (h : WellFormedMessage m) : Takes char m := by
  have hlen : 12 ≤ m.length := le_trans (by decide) h.length_ge
  have hbyte (i : ℕ) (hi : 8 ≤ i) (hi' : i < 12) : (m.getD i 0).toNat < 0x80 := by
    refine UInt8.lt_iff_toNat_lt.mp (h.bytes_lt _ ?_)
    rw [List.mem_iff_getElem?]
    refine ⟨i - 8, ?_⟩
    rw [List.getElem?_take_of_lt (by omega), List.getElem?_drop, Nat.add_sub_cancel' hi,
      List.getD_eq_getElem?_getD, List.getElem?_eq_getElem (by omega), Option.getD_some]
  refine ⟨hlen, discards_eq_false_of_cookie h.cookie, ?_⟩
  rw [messageSize_eq_of_lt hlen (hbyte 8 (by omega) (by omega)) (hbyte 9 (by omega) (by omega))
    (hbyte 10 (by omega) (by omega)), h.declared]

/-- Skipped garbage is discarded byte by byte, and framing goes on behind it. -/
theorem drains_garbage (hlen : 12 ≤ rest.length)
    (hg : ∀ i < g.length, discards ((g ++ rest).drop i) = true)
    (h : Drains (readyReadStep char) rest es []) :
    Drains (readyReadStep char) (g ++ rest) (g.map .discarded ++ es) [] := by
  induction g with
  | nil => exact h
  | cons b g ih =>
    have hlen' : 12 ≤ (b :: g ++ rest).length := by simp; omega
    have hstep := readyReadStep_of_discards char hlen' (hg 0 (by simp))
    exact (ih fun i hi => by simpa using hg (i + 1) (by simpa using hi)).cons hstep

/-- A run that hands over messages behind garbage skipped each byte of it: a
message taken inside the garbage would begin with a cookie there. -/
theorem discards_of_handed (g rest : List UInt8) (hlen : 12 ≤ rest.length)
    (hg : ∀ i < g.length, ¬ cookieBytes <+: (g ++ rest).drop i)
    (hmsgs : ∀ m ∈ handed es, cookieBytes <+: m)
    (h : Drains (readyReadStep char) (g ++ rest) es []) :
    ∀ i < g.length, discards ((g ++ rest).drop i) = true := by
  induction g generalizing es with
  | nil => simp
  | cons b g ih =>
    have hlen' : 12 ≤ (b :: g ++ rest).length := by simp; omega
    by_cases hd : discards (b :: g ++ rest) = true
    · obtain ⟨fs, rfl, hrest⟩ :=
        (drains_iff_of_step_eq_some (readyReadStep_of_discards char hlen' hd)).mp h
      rintro (_ | i) hi
      · exact hd
      · have hg' : ∀ i < g.length, ¬ cookieBytes <+: (g ++ rest).drop i :=
          fun i hi => by simpa using hg (i + 1) (by simpa using hi)
        have hmsgs' : ∀ m ∈ handed fs, cookieBytes <+: m := hmsgs
        exact ih hg' hmsgs' hrest i (by simpa using hi)
    · obtain ⟨fs, rfl, -, -⟩ := exists_parsed_of_drains hlen' (by simpa using hd) h
      rw [handed_parsed] at hmsgs
      have hprefix := (hmsgs _ List.mem_cons_self).trans (List.take_prefix _ _)
      exact absurd hprefix (hg 0 (by simp))

/-- **When the receiver resynchronises.** Before well-formed messages, and with no
cookie beginning inside it, garbage is discarded and the messages are handed
over, for any deliveries, exactly when every four bytes that begin in the
garbage differ from the cookie in each of their places. -/
theorem resynchronises_iff (char : PlainChar) (g : List UInt8) (msgs : List (List UInt8))
    (hne : msgs ≠ []) (hmsgs : ∀ m ∈ msgs, WellFormedMessage m)
    (hg : ∀ i < g.length, ¬ cookieBytes <+: (g ++ msgs.flatten).drop i)
    (cs : List (List UInt8)) (hcs : cs.flatten = g ++ msgs.flatten) :
    (∃ es, Received char cs es [] ∧ discardedBytes es = g ∧ handed es = msgs) ↔
      ∀ i < g.length, discards ((g ++ msgs.flatten).drop i) = true := by
  have hlen : 12 ≤ msgs.flatten.length := by
    obtain ⟨m, msgs', rfl⟩ := List.exists_cons_of_ne_nil hne
    have hm := (hmsgs m List.mem_cons_self).length_ge
    rw [List.flatten_cons, List.length_append]
    omega
  simp only [received_iff, hcs]
  constructor
  · rintro ⟨es, hdrains, -, hhanded⟩
    exact discards_of_handed g _ hlen hg (fun m hm => (hmsgs m (hhanded ▸ hm)).cookie) hdrains
  · intro hdiscards
    refine ⟨_, drains_garbage hlen hdiscards (drains_messages fun m hm => (hmsgs m hm).takes),
      ?_, ?_⟩
    · simp [discardedBytes, List.filterMap_map]
    · simp [handed, List.filterMap_map]

/-- A message that consists of the base layer header alone. -/
def headerMessage : List UInt8 :=
  [0x43, 0x49, 0x54, 0x50, 0x01, 0x00, 0x00, 0x00, 0x14, 0x00, 0x00, 0x00,
    0x01, 0x00, 0x01, 0x00, 0x50, 0x49, 0x4e, 0x46]

/-- A zero byte in front of a message is skipped. -/
theorem resynchronises_zeroByte :
    ∃ es, Received .signed [[0x00], headerMessage] es [] ∧ discardedBytes es = [0x00] ∧
      handed es = [headerMessage] :=
  (resynchronises_iff .signed [0x00] [headerMessage] (by decide) (by decide) (by decide) _
    rfl).mpr (by decide)

/-- A letter C in front of a message is taken for the start of a header, and the
message behind it is not delivered. -/
theorem not_resynchronises_letterC :
    (∀ m ∈ [headerMessage], WellFormedMessage m) ∧
      (∀ i < [0x43].length, ¬ cookieBytes <+: ([0x43] ++ [headerMessage].flatten).drop i) ∧
      ¬ ∃ es, Received .signed [[0x43], headerMessage] es [] ∧ discardedBytes es = [0x43] ∧
        handed es = [headerMessage] := by
  refine ⟨by decide, by decide, ?_⟩
  rintro ⟨es, hreceived, -, hhanded⟩
  have hdiscards := discards_of_handed [0x43] headerMessage (by decide)
    (by decide) (by rw [hhanded]; decide) (received_iff.mp hreceived)
  exact absurd (hdiscards 0 (by decide)) (by decide)

end CitpLib
