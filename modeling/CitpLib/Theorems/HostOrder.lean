import CitpLib.Theorems.Delivery
import CitpLib.Theorems.RoundTrip

/-!
# Hosts of either byte order

A creator stores the header of a packet and its count in the byte order of its host, and the
identifiers with explicit shifts, low byte first. The receiving peer assembles the message
size with explicit shifts, and it casts everything else in its own byte order. So the packet
of a list of identifiers arrives only between little-endian hosts: hosts of different order
write different packets, and a big-endian host writes a header that no peer takes for one.

## Main definitions

* `Request.identifiers` — the list that a request sends
* `HostIndependent` — what a packet should be, whatever the hosts

## Main results

* `wire_order_inj` — a packet tells the byte order of the host that wrote it
* `not_handed_create_big` — the packet of a big-endian host is not handed over
* `hostIndependent_iff` — when a packet is host-independent
-/

namespace CitpLib

open Wire Reader Streaming

variable {Host : Type} {enc dec : ByteOrder} {char : PlainChar} {peer : Peer Host} {r : Request}
  {ids : List UInt16} {es : List Event}

/-- The identifiers that a request sends, if it sends a list of them. -/
def Request.identifiers : Request → Option (List UInt16)
  | sPtc ids | uPtc ids | sele ids _ | deSe ids => some ids
  | _ => none

/-- A packet that host `enc` sends and host `dec` receives, with `char` its plain `char`, does
not depend on the hosts: both write the same bytes, the receiver takes them as they were sent,
and all that it announces is the request. -/
structure HostIndependent (enc dec : ByteOrder) (char : PlainChar) (peer : Peer Host)
    (r : Request) : Prop where
  same : (r.create dec).contents = (r.create enc).contents
  framed : ∀ cs, cs.flatten = (r.create enc).contents →
    ∃ es, Received char cs es [] ∧ handed es = [(r.create enc).contents]
  announced : ∃ signals, (parsePacket dec peer).value (r.create enc).contents =
      some (peer, signals) ∧
    signals ≠ [] ∧ ∀ signal ∈ signals, signal.request = some r

theorem Request.countFits_of_identifiers (hr : r.identifiers = some ids)
    (hids : ids.length ≤ 65535) : r.CountFits := by
  cases r <;> simp_all [identifiers, CountFits] <;> omega

/-- A packet of identifiers is far from the largest size. -/
theorem Request.size_lt_of_identifiers (hr : r.identifiers = some ids)
    (hids : ids.length ≤ 65535) : r.size .little < 2 ^ 31 := by
  cases r <;> simp_all [identifiers, size, body, patchListBody] <;> omega

/-! ## Packets of big-endian hosts -/

theorem take_wire_four (order : ByteOrder) (r : Request) :
    (r.wire order).take 4 = order.encode 4 cookieCitp := by
  simp [Request.wire, citpHeader]

/-- **A packet tells the byte order of the host that wrote it**, by its cookie. -/
theorem wire_order_inj (h : r.wire dec = r.wire enc) : dec = enc := by
  have hcookie := congrArg (List.take 4) h
  rw [take_wire_four, take_wire_four] at hcookie
  cases dec <;> cases enc <;> first | rfl | exact absurd hcookie (by decide)

/-- The cookie of a big-endian host differs from the one looked for in every place. -/
theorem discards_wire_big (r : Request) : discards (r.wire .big) = true := rfl

theorem mem_handed {m : List UInt8} : m ∈ handed es ↔ .parsed m ∈ es := by
  rw [handed, List.mem_filterMap]
  constructor
  · intro h
    obtain ⟨e, he, hm⟩ := h
    cases e with
    | discarded b => cases hm
    | parsed byteArray =>
      obtain rfl := Option.some.inj hm
      exact he
  · intro he
    exact ⟨_, he, rfl⟩

/-- **The packet of a big-endian host is not handed over**: its first byte is thrown away, and
what is left is too short to be the packet. -/
theorem not_handed_create_big (char : PlainChar) (h : r.CountFits) :
    ¬ ∃ es, Received char [(r.create .big).contents] es [] ∧
      handed es = [(r.create .big).contents] := by
  rw [r.contents_create .big h]
  intro hframed
  obtain ⟨es, hreceived, hhanded⟩ := hframed
  have hlen : 12 ≤ (r.wire .big).length := by
    rw [Request.length_wire]
    exact le_trans (by decide) (r.size_ge .big)
  have hdrains := received_iff.mp hreceived
  rw [List.flatten_singleton] at hdrains
  have hstep := readyReadStep_of_discards char hlen (discards_wire_big r)
  obtain ⟨fs, rfl, hrest⟩ := (drains_iff_of_step_eq_some hstep).mp hdrains
  have hmem : .parsed (r.wire .big) ∈ fs := mem_handed.mp (hhanded ▸ List.mem_cons_self)
  have hle := (readyReadStep_cuts char).length_carried_le hrest.1 hmem
  rw [Event.bytes, List.length_drop] at hle
  omega

/-! ## Packets of little-endian hosts -/

/-- What is announced of the packet of a request to unpatch, to send, to select or to deselect
is that request, and something is announced. -/
theorem announced_create (peer : Peer Host) (hr : r.identifiers = some ids)
    (hids : ids.length ≤ 65535) :
    ∃ signals, (parsePacket .little peer).value (r.create .little).contents =
        some (peer, signals) ∧
      signals ≠ [] ∧ ∀ signal ∈ signals, signal.request = some r := by
  have hlt := Nat.lt_succ_of_le hids
  cases r with
  | sPtc ids' =>
    obtain rfl := Option.some.inj hr
    exact ⟨_, parse_createSPtcPacket peer hlt, by simp, by simpa using request_sendPatch _⟩
  | uPtc ids' =>
    obtain rfl := Option.some.inj hr
    exact ⟨_, parse_createUPtcPacket peer hlt, by simp, by simpa using request_unpatch _⟩
  | sele ids' complete =>
    obtain rfl := Option.some.inj hr
    exact ⟨_, parse_createSelePacket peer complete hlt, by simp, by simp [Signal.request]⟩
  | deSe ids' =>
    obtain rfl := Option.some.inj hr
    refine ⟨_, parse_createDeSePacket peer hlt, by simp, ?_⟩
    by_cases hnil : ids' = [] <;> simp [hnil, Signal.request]
  | _ => cases hr

/-- **When a packet is host-independent.** For up to 65535 identifiers, the bytes written are
the same on both hosts, framed as they were sent and parsed as the original identifiers,
exactly when both hosts are little-endian and the receiver assembles the size of the packet:
its plain `char` is unsigned, or the three low bytes of the size are below 0x80. -/
theorem hostIndependent_iff (enc dec : ByteOrder) (char : PlainChar) (peer : Peer Host)
    (r : Request) (ids : List UInt16) (hr : r.identifiers = some ids)
    (hids : ids.length ≤ 65535) :
    HostIndependent enc dec char peer r ↔ enc = .little ∧ dec = .little ∧
      (char = .unsigned ∨ SizeRepresentable (r.size .little)) := by
  have hfits := r.countFits_of_identifiers hr hids
  have hcontents (order : ByteOrder) := r.contents_create order hfits
  have hsize := r.size_lt_of_identifiers hr hids
  constructor
  · intro h
    have hsame := h.same
    rw [hcontents, hcontents] at hsame
    obtain rfl := wire_order_inj hsame
    have hframed := h.framed [(r.create dec).contents] (List.flatten_singleton ..)
    cases dec with
    | little =>
      rw [hcontents] at hframed
      have htakes := (handed_iff_takes (List.forall_mem_singleton.mpr r.header_wire) rfl).mp
        hframed _ List.mem_cons_self
      exact ⟨rfl, rfl, (takes_wire_iff hsize).mp htakes⟩
    | big => exact absurd hframed (not_handed_create_big char hfits)
  · intro h
    obtain ⟨rfl, rfl, htakes⟩ := h
    refine ⟨rfl, fun cs hcs => ?_, announced_create peer hr hids⟩
    rw [hcontents] at hcs ⊢
    have hflatten := hcs.trans (List.flatten_singleton ..).symm
    apply (handed_iff_takes (List.forall_mem_singleton.mpr r.header_wire) hflatten).mpr
    exact List.forall_mem_singleton.mpr ((takes_wire_iff hsize).mpr htakes)

/-- A request to unpatch two fixtures, between little-endian hosts. -/
theorem hostIndependent_unpatch :
    HostIndependent .little .little .signed (Peer.new () 0 [] []) (.uPtc [7, 513]) :=
  (hostIndependent_iff .little .little .signed (Peer.new () 0 [] []) (.uPtc [7, 513]) [7, 513]
    rfl (by decide)).mpr ⟨rfl, rfl, .inr (by decide)⟩

/-- Not even two big-endian hosts understand one another. -/
theorem not_hostIndependent_big :
    ¬ HostIndependent .big .big .signed (Peer.new () 0 [] []) (.uPtc [7]) := by
  intro h
  have hframed := h.framed [((Request.uPtc [7]).create .big).contents] rfl
  exact not_handed_create_big .signed (by decide) hframed

end CitpLib
