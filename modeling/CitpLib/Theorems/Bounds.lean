import CitpLib.Theorems.Parsing
import CitpLib.Theorems.Resynchronisation

/-!
# Bounds of the receive path

The framing loop hands over arrays whose size the sender chose, and the parsing
functions follow counts and terminators that the sender chose too; nothing
relates the two. This file gives the size that an array must have for every
read of it to stay inside: it is the condition under which a run of the loop
reads nothing but the arrays it hands over and the NUL behind each.

## Main definitions

* `LongEnough` — the array reaches to the end of what its fields announce
* `ParsedInBounds` — no message of a run is read outside

## Main results

* `parsePacket_inBounds_iff` — an array is parsed in bounds iff it is long enough
* `receivePath_inBounds_iff` — the same for all arrays of all runs
-/

namespace CitpLib

open Wire Reader Streaming

variable {Host : Type} {order : ByteOrder} {peer : Peer Host} {a : List UInt8}
  {es : List Event}

/-! ## One array -/

/-- The array reaches to the end of each field that its fields before select, the
NUL behind it included: of the cookie, of the version, of the cookies of layer and
message, and of the body. -/
structure LongEnough (order : ByteOrder) (a : List UInt8) : Prop where
  cookie : 3 ≤ a.length
  versionMajor : fieldAt order 4 0 a = cookieCitp → 4 ≤ a.length
  layer : fieldAt order 4 0 a = cookieCitp → fieldAt order 1 4 a = 0x01 → 19 ≤ a.length
  message : IsLayer order cookieFptc a ∨ IsLayer order cookieFsel a → 23 ≤ a.length
  /-- The terminator of the make lies in the array. -/
  patch : IsMessage order cookieFptc cookieFptcPtch a → 0 ∈ a.drop 36
  unpatch : IsMessage order cookieFptc cookieFptcUPtc a →
    29 + 2 * fieldAt order 2 28 a ≤ a.length
  sendPatch : IsMessage order cookieFptc cookieFptcSPtc a →
    29 + 2 * fieldAt order 2 28 a ≤ a.length
  select : IsMessage order cookieFsel cookieFselSele a →
    27 + 2 * fieldAt order 2 26 a ≤ a.length
  deselect : IsMessage order cookieFsel cookieFselDeSe a →
    25 + 2 * fieldAt order 2 24 a ≤ a.length

theorem longEnough_of_value_isSome (h : ((parsePacket order peer).value a).isSome) :
    LongEnough order a where
  cookie := by
    by_contra hlt
    simp [parsePacket_value, hlt] at h
  versionMajor hcookie := by
    by_contra hlt
    simp [parsePacket_value, hcookie, hlt] at h
  layer hcookie hversion := by
    by_contra hlt
    simp [parsePacket_value, hcookie, hversion, hlt] at h
  message hlayer := by
    by_contra hlt
    rcases hlayer with hlayer | hlayer
    · simp [parsePacket_value_of_fptc peer hlayer, parseFPTCPacket_value, hlt] at h
    · simp [parsePacket_value_of_fsel peer hlayer, parseFSELPacket_value, hlt] at h
  patch hmessage := by
    rw [parsePacket_value_of_kind .ptch peer hmessage, parsePTCHPacket_value] at h
    exact Option.isSome_ite.mp h
  unpatch hmessage := by
    rw [parsePacket_value_of_kind .uPtc peer hmessage, parseUPTCPacket_value] at h
    have hfit := Option.isSome_ite.mp h
    omega
  sendPatch hmessage := by
    rw [parsePacket_value_of_kind .sPtc peer hmessage, parseSPTCPacket_value] at h
    have hfit := Option.isSome_ite.mp h
    omega
  select hmessage := by
    rw [parsePacket_value_of_kind .sele peer hmessage, parseSELEPacket_value] at h
    have hfit := Option.isSome_ite.mp h
    omega
  deselect hmessage := by
    rw [parsePacket_value_of_kind .deSe peer hmessage, parseDESEPacket_value] at h
    have hfit := Option.isSome_ite.mp h
    omega

theorem LongEnough.fptc (h : LongEnough order a) (hlayer : IsLayer order cookieFptc a) :
    ((parseFPTCPacket order peer).value a).isSome := by
  have hlen := h.message (.inl hlayer)
  rw [parseFPTCPacket_value, if_pos (by omega)]
  by_cases hptch : fieldAt order 4 20 a = cookieFptcPtch
  · rw [if_pos hptch, parsePTCHPacket_value, if_pos (h.patch ⟨hlayer, hptch⟩)]
    rfl
  by_cases huptc : fieldAt order 4 20 a = cookieFptcUPtc
  · have hbody := h.unpatch ⟨hlayer, huptc⟩
    rw [if_neg hptch, if_pos huptc, parseUPTCPacket_value, if_pos (by omega)]
    rfl
  by_cases hsptc : fieldAt order 4 20 a = cookieFptcSPtc
  · have hbody := h.sendPatch ⟨hlayer, hsptc⟩
    rw [if_neg hptch, if_neg huptc, if_pos hsptc, parseSPTCPacket_value, if_pos (by omega)]
    rfl
  · rw [if_neg hptch, if_neg huptc, if_neg hsptc]
    rfl

theorem LongEnough.fsel (h : LongEnough order a) (hlayer : IsLayer order cookieFsel a) :
    ((parseFSELPacket order peer).value a).isSome := by
  have hlen := h.message (.inr hlayer)
  rw [parseFSELPacket_value, if_pos (by omega)]
  by_cases hsele : fieldAt order 4 20 a = cookieFselSele
  · have hbody := h.select ⟨hlayer, hsele⟩
    rw [if_pos hsele, parseSELEPacket_value, if_pos (by omega)]
    rfl
  by_cases hdese : fieldAt order 4 20 a = cookieFselDeSe
  · have hbody := h.deselect ⟨hlayer, hdese⟩
    rw [if_neg hsele, if_pos hdese, parseDESEPacket_value, if_pos (by omega)]
    rfl
  · rw [if_neg hsele, if_neg hdese]
    rfl

theorem LongEnough.value_isSome (peer : Peer Host) (h : LongEnough order a) :
    ((parsePacket order peer).value a).isSome := by
  rw [parsePacket_value, if_pos (Nat.succ_le_succ h.cookie)]
  by_cases hcookie : fieldAt order 4 0 a = cookieCitp
  swap
  · rw [if_pos hcookie]
    rfl
  rw [if_neg (not_not.mpr hcookie), if_pos (Nat.succ_le_succ (h.versionMajor hcookie))]
  by_cases hversion : fieldAt order 1 4 a = 0x01
  swap
  · rw [if_pos hversion]
    rfl
  rw [if_neg (not_not.mpr hversion), if_pos (Nat.succ_le_succ (h.layer hcookie hversion))]
  split_ifs with hpinf hfptc hfsel
  · rfl
  · exact h.fptc ⟨hcookie, hversion, hfptc⟩
  · exact h.fsel ⟨hcookie, hversion, hfsel⟩
  · rfl

/-- **An array is parsed in bounds exactly when it is long enough.** -/
theorem parsePacket_inBounds_iff :
    (parsePacket order peer).InBounds a ↔ LongEnough order a := by
  rw [← value_isSome_iff]
  exact ⟨longEnough_of_value_isSome, LongEnough.value_isSome peer⟩

/-- **A run of messages is read in bounds** exactly when each of them is long enough. -/
theorem parsePackets_isSome_iff {messages : List (List UInt8)} :
    (parsePackets order messages peer).isSome ↔ ∀ a ∈ messages, LongEnough order a := by
  apply isSome_run_iff
  intro a peer
  exact (value_isSome_iff _ _).trans parsePacket_inBounds_iff

/-! ## All arrays of a run -/

/-- No message of a run is read outside its array, whatever the messages before
it have done to the peer. -/
def ParsedInBounds (order : ByteOrder) : Peer Host → List Event → Prop
  | _, [] => True
  | peer, .discarded _ :: es => ParsedInBounds order peer es
  | peer, .parsed byteArray :: es =>
    (parsePacket order peer).InBounds byteArray ∧
      ∀ peer' signals, (parsePacket order peer).value byteArray = some (peer', signals) →
        ParsedInBounds order peer' es

theorem parsedInBounds_iff :
    ParsedInBounds order peer es ↔ ∀ a ∈ handed es, LongEnough order a := by
  induction es generalizing peer with
  | nil => simp [ParsedInBounds, handed]
  | cons e es ih =>
    cases e with
    | discarded b => exact ih
    | parsed byteArray =>
      simp only [ParsedInBounds, parsePacket_inBounds_iff, handed_parsed, List.forall_mem_cons, ih]
      refine and_congr_right fun hlong => ?_
      obtain ⟨⟨peer', signals⟩, hvalue⟩ :=
        Option.isSome_iff_exists.mp (hlong.value_isSome peer)
      exact ⟨fun h => h peer' signals hvalue, fun h _ _ _ => h⟩

/-- **Bounds of the receive path.** Whatever the buffer holds, the messages that
the framing loop hands over are read within their bounds in every run exactly
when, in every run, each of them is long enough for its own fields. -/
theorem receivePath_inBounds_iff (char : PlainChar) (order : ByteOrder) (peer : Peer Host)
    (content : List UInt8) :
    (∀ es rest, Steps (readyReadStep char) content es rest → ParsedInBounds order peer es) ↔
      ∀ es rest, Steps (readyReadStep char) content es rest →
        ∀ a ∈ handed es, LongEnough order a := by
  constructor
  · intro h es rest hsteps
    exact parsedInBounds_iff.mp (h es rest hsteps)
  · intro h es rest hsteps
    exact parsedInBounds_iff.mpr (h es rest hsteps)

/-- A message of 12 bytes is handed over, and its content type is read behind
its end. -/
theorem receivePath_not_inBounds :
    ¬ ∀ es rest, Steps (readyReadStep .signed)
        [0x43, 0x49, 0x54, 0x50, 0x01, 0x00, 0x00, 0x00, 0x0c, 0x00, 0x00, 0x00] es rest →
      ParsedInBounds .little (Peer.new () 0 [] []) es := by
  intro h
  obtain ⟨hin, -⟩ := h [.parsed [0x43, 0x49, 0x54, 0x50, 0x01, 0x00, 0x00, 0x00, 0x0c, 0x00,
    0x00, 0x00]] [] (.cons rfl (.refl []))
  exact absurd ((value_isSome_iff _ _).mpr hin) (by decide)

end CitpLib
