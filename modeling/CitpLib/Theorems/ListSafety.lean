import CitpLib.Theorems.WireFormat
import CitpLib.Wire.Reader

/-!
# When the list creators are safe

The four creators that take a list of identifiers compute the count of the
packet, and from it the size of the buffer, in 16 bits, while the loop writes
every identifier of the list. Up to 65535 identifiers the two agree; from 65536
on the loop leaves the buffer and the count is not the number of identifiers.

## Main definitions

* `Faithful` — all stores in bounds and the stored count that of the list

## Main results

* `listCreators_faithful_iff` — each creator is faithful up to 65535 identifiers
  and for no longer list
-/

namespace CitpLib

open Wire

variable {order : ByteOrder} {ids : List UInt16} {b : Buffer UInt8} {o : ℕ}

/-- Every byte was written inside the buffer, and the count stored at
`countOffset` is the number of identifiers. -/
def Faithful (order : ByteOrder) (countOffset : ℕ) (buffer : Buffer UInt8)
    (ids : List UInt16) : Prop :=
  buffer.InBounds ∧ Reader.fieldAt order 2 countOffset buffer.contents = ids.length

/-- A buffer sized by the 16-bit count has room for no more identifiers than the
count can express. -/
theorem length_lt_of_inBounds (hlen : b.len = o + (fixtureCount ids).toNat * 2)
    (h : (storeIdentifiers o ids b).InBounds) : ids.length < 65536 := by
  by_contra hge
  have hne : ids ≠ [] := by rintro rfl; simp at hge
  have hfit := (inBounds_storeIdentifiers.mp h).2 hne
  have hcount := (fixtureCount ids).toNat_lt
  omega

/-- A creator whose buffer is sized by the count, and which is correct where
the count is, is faithful exactly there. -/
theorem faithful_iff (pre post : List UInt8) {buffer : Buffer UInt8} {countOffset : ℕ}
    (hbuffer : buffer = storeIdentifiers o ids b)
    (hlen : b.len = o + (fixtureCount ids).toNat * 2)
    (hholds : ids.length < 65536 →
      buffer.Holds (pre ++ order.encode 2 ids.length ++ post))
    (hoffset : countOffset = pre.length) :
    Faithful order countOffset buffer ids ↔ ids.length ≤ 65535 := by
  constructor
  · rintro ⟨hin, -⟩
    exact Nat.le_of_lt_succ (length_lt_of_inBounds hlen (hbuffer ▸ hin))
  · intro hle
    have h := hholds (Nat.lt_succ_of_le hle)
    refine ⟨h.inBounds, ?_⟩
    rw [h.contents_eq]
    exact Reader.fieldAt_append order _ _ hoffset (by omega)

/-- **Each list creator is faithful exactly for the lists that a 16-bit count can
describe.** -/
theorem listCreators_faithful_iff (order : ByteOrder) (ids : List UInt16) (complete : Bool) :
    (Faithful order CitpFptcSPtc.fixtureCount (createSPtcPacket order ids) ids ↔
        ids.length ≤ 65535) ∧
      (Faithful order CitpFptcUPtc.fixtureCount (createUPtcPacket order ids) ids ↔
        ids.length ≤ 65535) ∧
      (Faithful order CitpFselSele.fixtureCount (createSelePacket order ids complete) ids ↔
        ids.length ≤ 65535) ∧
      (Faithful order CitpFselDeSe.fixtureCount (createDeSePacket order ids) ids ↔
        ids.length ≤ 65535) := by
  have hpatch (contentType : ℕ) :
      Faithful order 28 (createPatchListPacket order contentType 30 28 ids) ids ↔
        ids.length ≤ 65535 := by
    refine faithful_iff
      (citpHeader order (30 + 2 * ids.length) cookieFptc ++
        (order.encode 4 contentType ++ order.encode 4 0))
      (identifierBytes ids) rfl rfl (fun hids => ?_) (by simp)
    have h := createPatchListPacket_holds order contentType hids
    simpa [Request.patchListBody] using h
  refine ⟨hpatch _, hpatch _, ?_, ?_⟩
  · refine faithful_iff
      (citpHeader order ((Request.sele ids complete).size order) cookieFsel ++
        (order.encode 4 cookieFselSele ++ [if complete then 0xFF else 0x00, 0]))
      (identifierBytes ids) rfl rfl (fun hids => ?_) (by simp)
    have h := createSelePacket_holds order complete hids
    simpa [Request.wire, Request.body, Request.layer] using h
  · refine faithful_iff
      (citpHeader order ((Request.deSe ids).size order) cookieFsel ++
        order.encode 4 cookieFselDeSe)
      (identifierBytes ids) rfl rfl (fun hids => ?_) (by simp)
    have h := createDeSePacket_holds order hids
    simpa [Request.wire, Request.body, Request.layer] using h

theorem length_lt_of_createUPtcPacket_inBounds (h : (createUPtcPacket order ids).InBounds) :
    ids.length < 65536 :=
  length_lt_of_inBounds (o := CitpFptcUPtc.sizeof) rfl h

/-- The identifiers of a list of 65536 are written behind the buffer of a packet
that announces none. -/
theorem createUPtcPacket_not_faithful :
    ¬ Faithful .little CitpFptcUPtc.fixtureCount
      (createUPtcPacket .little (List.replicate 65536 1)) (List.replicate 65536 1) := by
  rintro ⟨hin, -⟩
  have hlt := length_lt_of_createUPtcPacket_inBounds hin
  rw [List.length_replicate] at hlt
  exact Nat.lt_irrefl _ hlt

end CitpLib
