import CitpLib.Theorems.WireFormat
import CitpLib.Theorems.Resynchronisation

/-!
# End-to-end delivery

Packets sent one behind the other over the TCP stream, and cut anywhere, should
reach `parsePacket` as they were sent. Where plain `char` is signed, the framing
loop assembles the size of a packet correctly exactly when its three low bytes
are below 0x80; so a sequence of packets is delivered exactly when all of its
sizes are of that kind. The first packet whose size is not stays in the buffer,
and everything behind it too.

## Main results

* `takes_wire_iff` — the loop takes a packet iff its size is representable
* `delivered_iff` — a sequence of packets is delivered iff it takes all of them
-/

namespace CitpLib

open Wire Streaming

/-- A call within the limits of the wire format: the count of its list and the
size of its packet can be expressed. -/
structure Request.Sendable (r : Request) : Prop where
  countFits : r.CountFits
  size_lt : r.size .little < 2 ^ 31

theorem Request.size_ge (order : ByteOrder) (r : Request) : 20 ≤ r.size order :=
  Nat.le_add_right _ _

theorem Request.cookie_wire (r : Request) : cookieBytes <+: r.wire .little :=
  ⟨_, rfl⟩

theorem Request.declaredSize_wire (r : Request) (h : r.size .little < 2 ^ 31) :
    declaredSize (r.wire .little) = r.size .little := by
  have hfield : ((r.wire .little).drop 8).take 4 =
      ByteOrder.little.encode 4 (r.size .little) := by
    simp [Request.wire, citpHeader, List.drop_append, List.take_append]
  rw [declaredSize, hfield, ByteOrder.decode_encode _ (by omega)]

/-- At a packet the loop sees a header. -/
theorem Request.header_wire (r : Request) :
    12 ≤ (r.wire .little).length ∧ discards (r.wire .little) = false := by
  rw [length_wire]
  exact ⟨le_trans (by decide) (r.size_ge .little), discards_eq_false_of_cookie r.cookie_wire⟩

/-- **The loop takes a packet exactly when its size is representable**, unless plain `char` is
unsigned. -/
theorem takes_wire_iff {char : PlainChar} {r : Request} (h : r.size .little < 2 ^ 31) :
    Takes char (r.wire .little) ↔
      char = .unsigned ∨ SizeRepresentable (r.size .little) := by
  obtain ⟨hlen, hheader⟩ := r.header_wire
  have hdeclared := r.declaredSize_wire h
  rw [← hdeclared, ← messageSize_eq_iff char hlen (by rw [hdeclared]; exact h)]
  constructor
  · intro htakes
    rw [htakes.size, hdeclared, Request.length_wire]
  · intro hsize
    refine ⟨hlen, hheader, ?_⟩
    rw [hsize, hdeclared, Request.length_wire]

/-- **End-to-end delivery.** The packets of any sequence of calls, cut into any
deliveries, are handed over byte for byte, in order and once each, with nothing
left behind, exactly when the three low bytes of every packet size are below
0x80. -/
theorem delivered_iff (requests : List Request) (h : ∀ r ∈ requests, r.Sendable)
    (cs : List (List UInt8))
    (hcs : cs.flatten = (requests.map fun r => (r.create .little).contents).flatten) :
    (∃ es, Received .signed cs es [] ∧
        handed es = requests.map fun r => (r.create .little).contents) ↔
      ∀ r ∈ requests, SizeRepresentable (r.size .little) := by
  have hcontents : (requests.map fun r => (r.create .little).contents) =
      requests.map (Request.wire .little) :=
    List.map_congr_left fun r hr => r.contents_create .little (h r hr).countFits
  rw [hcontents] at hcs ⊢
  rw [handed_iff_takes (List.forall_mem_map.mpr fun r _ => r.header_wire) hcs,
    List.forall_mem_map]
  refine forall₂_congr fun r hr => ?_
  rw [takes_wire_iff (h r hr).size_lt]
  simp

/-- Two requests to unpatch, with the second cut in its header. -/
theorem delivered_unpatch :
    ∃ es, Received .signed
        [(createUPtcPacket .little []).contents ++
            (createUPtcPacket .little [7]).contents.take 5,
          (createUPtcPacket .little [7]).contents.drop 5] es [] ∧
      handed es = [Request.uPtc [], Request.uPtc [7]].map
        fun r => (r.create .little).contents :=
  (delivered_iff [.uPtc [], .uPtc [7]]
    (by
      rintro r (_ | ⟨_, _ | ⟨_, ⟨⟩⟩⟩)
      · exact ⟨by decide, by decide⟩
      · exact ⟨by decide, by decide⟩) _
    (by decide)).mpr (by decide)

/-- A request to unpatch 49 fixtures is a packet of 128 bytes. It stays in the
buffer, for its size is taken to be 4294967168. -/
theorem not_delivered_of_49_identifiers :
    ¬ ∃ es, Received .signed [((Request.uPtc (List.replicate 49 1)).create .little).contents]
        es [] ∧
      handed es = [((Request.uPtc (List.replicate 49 1)).create .little).contents] := by
  rw [Request.contents_create .little _ (by decide)]
  rintro ⟨es, hreceived, hhanded⟩
  have hheader : ∀ m ∈ [(Request.uPtc (List.replicate 49 1)).wire .little],
      12 ≤ m.length ∧ discards m = false :=
    List.forall_mem_singleton.mpr (Request.header_wire _)
  have htakes := takes_of_handed hheader (received_iff.mp hreceived) hhanded _
    List.mem_cons_self
  exact absurd ((takes_wire_iff (by decide)).mp htakes) (by decide)

end CitpLib
