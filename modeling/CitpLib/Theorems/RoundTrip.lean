import CitpLib.Theorems.Grammar
import CitpLib.Theorems.WireFormat

/-!
# Round trips of the list messages

The four messages that list identifiers are written by one peer and parsed by
another. On a little-endian host the two agree in both directions: what is
parsed is what was requested, and a message in the form the creators give it
comes back when what it asks for is requested again.

## Main definitions

* `Signal.request` — the call that requests what a signal announces
* `CanonicalPatchList`, `CanonicalSele`, `CanonicalDeSe` — messages in the form
  that the creators give them

## Main results

* `parse_createUPtcPacket` and its siblings — parsing undoes creating
* `CanonicalHeader.eq_append` — a canonical header is the one that is created
* `listMessages_roundTrip` — both directions
-/

namespace CitpLib

open Wire Reader

variable {Host : Type} {peer : Peer Host} {a : List UInt8} {ids : List UInt16} {n o : ℕ}

/-! ## Fields of a packet -/

theorem isMessage_citpHeader {layerCookie messageCookie : ℕ} (order : ByteOrder) (size : ℕ)
    (hlayer : layerCookie < 256 ^ 4) (hmessage : messageCookie < 256 ^ 4) (rest : List UInt8) :
    IsMessage order layerCookie messageCookie
      (citpHeader order size layerCookie ++ (order.encode 4 messageCookie ++ rest)) where
  cookie := by
    simp [citpHeader, fieldAt_encode_append, cookieCitp]
  versionMajor := by
    simp [citpHeader, fieldAt_append_right, fieldAt_one_eq_iff]
  layer := by
    simp [citpHeader, fieldAt_append_right, fieldAt_cons_succ, fieldAt_encode_append hlayer]
  message := by
    simp [fieldAt_append_right, fieldAt_encode_append hmessage]

theorem fieldAt_encode_uint16 (order : ByteOrder) (v : UInt16) (rest : List UInt8) :
    fieldAt order 2 0 (order.encode 2 v.toNat ++ rest) = v.toNat :=
  fieldAt_encode_append v.toNat_lt rest

/-- Identifiers are read back from behind whatever precedes them. -/
theorem identifiersAt_identifierBytes (pre : List UInt8) (ids : List UInt16) :
    identifiersAt .little ids.length pre.length (pre ++ identifierBytes ids) = ids := by
  induction ids generalizing pre with
  | nil => rfl
  | cons fixId ids ih =>
    have hrest := ih (pre ++ ByteOrder.little.encode 2 fixId.toNat)
    rw [List.length_append, ByteOrder.length_encode] at hrest
    rw [List.length_cons, identifiersAt_succ, identifierBytes_cons, ← List.append_assoc, hrest,
      fieldAt_append .little _ _ rfl fixId.toNat_lt, UInt16.ofNat_toNat]

/-! ## Parsing what was created -/

section PatchList

variable {size contentType : ℕ}

theorem fieldAt_patchListBody (hids : ids.length < 65536) :
    fieldAt .little 2 28 (citpHeader .little size cookieFptc ++
      Request.patchListBody .little contentType ids) = ids.length := by
  simp [Request.patchListBody, fieldAt_append_right, fieldAt_encode_append, hids]

theorem identifiersAt_patchListBody :
    identifiersAt .little ids.length 30 (citpHeader .little size cookieFptc ++
      Request.patchListBody .little contentType ids) = ids := by
  rw [Request.patchListBody, ← List.append_assoc]
  exact identifiersAt_identifierBytes _ ids

theorem isMessage_patchListBody (hcookie : contentType < 256 ^ 4) :
    IsMessage .little cookieFptc contentType (citpHeader .little size cookieFptc ++
      Request.patchListBody .little contentType ids) := by
  simp only [Request.patchListBody, List.append_assoc]
  exact isMessage_citpHeader .little size (by decide) hcookie _

theorem length_patchListBody : (citpHeader .little size cookieFptc ++
    Request.patchListBody .little contentType ids).length = 30 + 2 * ids.length := by
  simp [Request.patchListBody]
  omega

/-- Unpatch and send-patch messages are parsed alike. -/
theorem parsePatchListPacket_patchListBody {all : Signal} {listed : List UInt16 → Signal}
    (peer : Peer Host) (hids : ids.length < 65536) :
    (parsePatchListPacket .little 28 30 all listed peer).value
        (citpHeader .little size cookieFptc ++ Request.patchListBody .little contentType ids) =
      some (peer, [if ids = [] then all else listed ids]) := by
  rw [parsePatchListPacket_value .little 28, fieldAt_patchListBody hids,
    identifiersAt_patchListBody, length_patchListBody, if_pos (Nat.le_succ _)]
  simp only [List.length_eq_zero_iff]

end PatchList

theorem parse_createUPtcPacket (peer : Peer Host) (hids : ids.length < 65536) :
    (parsePacket .little peer).value (createUPtcPacket .little ids).contents =
      some (peer, [if ids = [] then .unpatchAllFixtures else .unpatchFixtures ids]) := by
  have hcontents : (createUPtcPacket .little ids).contents = citpHeader .little _ cookieFptc ++
      Request.patchListBody .little cookieFptcUPtc ids :=
    Request.contents_create .little (.uPtc ids) hids
  rw [hcontents]
  exact (parsePacket_value_of_kind .uPtc peer (isMessage_patchListBody (by decide))).trans
    (parsePatchListPacket_patchListBody peer hids)

theorem parse_createSPtcPacket (peer : Peer Host) (hids : ids.length < 65536) :
    (parsePacket .little peer).value (createSPtcPacket .little ids).contents =
      some (peer, [if ids = [] then .sendPatchAllFixtures else .sendPatchFixtures ids]) := by
  have hcontents : (createSPtcPacket .little ids).contents = citpHeader .little _ cookieFptc ++
      Request.patchListBody .little cookieFptcSPtc ids :=
    Request.contents_create .little (.sPtc ids) hids
  rw [hcontents]
  exact (parsePacket_value_of_kind .sPtc peer (isMessage_patchListBody (by decide))).trans
    (parsePatchListPacket_patchListBody peer hids)

theorem parse_createSelePacket (peer : Peer Host) (complete : Bool)
    (hids : ids.length < 65536) :
    (parsePacket .little peer).value (createSelePacket .little ids complete).contents =
      some (peer, [.selectFixtures complete ids]) := by
  have hcontents : (createSelePacket .little ids complete).contents =
      (Request.sele ids complete).wire .little :=
    Request.contents_create .little (.sele ids complete) hids
  have hmessage : IsMessage .little cookieFsel cookieFselSele
      ((Request.sele ids complete).wire .little) := by
    simp only [Request.wire, Request.body, List.append_assoc]
    exact isMessage_citpHeader .little _ (by decide) (by decide) _
  have hflag : decide (fieldAt .little 1 24 ((Request.sele ids complete).wire .little) ≠ 0) =
      complete := by
    cases complete <;>
      simp [Request.wire, Request.body, fieldAt_append_right, fieldAt_one_eq_iff]
  have hcount : fieldAt .little 2 26 ((Request.sele ids complete).wire .little) = ids.length := by
    simp [Request.wire, Request.body, fieldAt_append_right, fieldAt_cons_succ,
      fieldAt_encode_append, hids]
  have hread : identifiersAt .little ids.length 28 ((Request.sele ids complete).wire .little) =
      ids := by
    rw [Request.wire, Request.body, ← List.append_assoc]
    exact identifiersAt_identifierBytes _ ids
  have hlen : ((Request.sele ids complete).wire .little).length = 28 + 2 * ids.length := by
    simp [Request.wire, Request.body]
    omega
  rw [hcontents, parsePacket_value_of_kind .sele peer hmessage, parseSELEPacket_value, hcount,
    hread, hlen, if_pos (Nat.le_succ _), hflag]

theorem parse_createDeSePacket (peer : Peer Host) (hids : ids.length < 65536) :
    (parsePacket .little peer).value (createDeSePacket .little ids).contents =
      some (peer, (if ids = [] then [.deselectAllFixtures] else []) ++
        [.deselectFixtures ids]) := by
  have hcontents : (createDeSePacket .little ids).contents =
      (Request.deSe ids).wire .little :=
    Request.contents_create .little (.deSe ids) hids
  have hmessage : IsMessage .little cookieFsel cookieFselDeSe
      ((Request.deSe ids).wire .little) := by
    simp only [Request.wire, Request.body, List.append_assoc]
    exact isMessage_citpHeader .little _ (by decide) (by decide) _
  have hcount : fieldAt .little 2 24 ((Request.deSe ids).wire .little) = ids.length := by
    simp [Request.wire, Request.body, fieldAt_append_right, fieldAt_encode_append, hids]
  have hread : identifiersAt .little ids.length 26 ((Request.deSe ids).wire .little) = ids := by
    rw [Request.wire, Request.body, ← List.append_assoc]
    exact identifiersAt_identifierBytes _ ids
  have hlen : ((Request.deSe ids).wire .little).length = 26 + 2 * ids.length := by
    simp [Request.wire, Request.body]
    omega
  rw [hcontents, parsePacket_value_of_kind .deSe peer hmessage, parseDESEPacket_value, hcount,
    hread, hlen, if_pos (Nat.le_succ _)]
  simp only [List.length_eq_zero_iff]

/-- The identifiers to deselect come alone if there are any. -/
theorem parse_createDeSePacket_of_ne_nil (peer : Peer Host) (hne : ids ≠ [])
    (hids : ids.length < 65536) :
    (parsePacket .little peer).value (createDeSePacket .little ids).contents =
      some (peer, [.deselectFixtures ids]) := by
  rw [parse_createDeSePacket peer hids, if_neg hne, List.nil_append]

/-! ## Messages in canonical form -/

/-- The call that requests what a signal announces. -/
def Signal.request : Signal → Option Request
  | unpatchAllFixtures => some (.uPtc [])
  | unpatchFixtures ids => some (.uPtc ids)
  | sendPatchAllFixtures => some (.sPtc [])
  | sendPatchFixtures ids => some (.sPtc ids)
  | selectFixtures complete ids => some (.sele ids complete)
  | deselectFixtures ids => some (.deSe ids)
  | deselectAllFixtures => some (.deSe [])
  | updatedFixtureList => none

theorem request_unpatch (ids : List UInt16) :
    (if ids = [] then Signal.unpatchAllFixtures else .unpatchFixtures ids).request =
      some (.uPtc ids) := by
  by_cases hids : ids = [] <;> simp [hids, Signal.request]

theorem request_sendPatch (ids : List UInt16) :
    (if ids = [] then Signal.sendPatchAllFixtures else .sendPatchFixtures ids).request =
      some (.sPtc ids) := by
  by_cases hids : ids = [] <;> simp [hids, Signal.request]

/-- The base layer header as the creators write it: version 1.0, no reserved bit
set, the size of the message and its only part. -/
structure CanonicalHeader (layer message : String) (a : List UInt8) : Prop
    extends HasHeader layer message a where
  versionMinor : a.getD 5 0 = 0
  reserved : a.getD 6 0 = 0 ∧ a.getD 7 0 = 0
  messageSize : fieldAt .little 4 8 a = a.length
  messagePartCount : fieldAt .little 2 12 a = 1
  messagePart : fieldAt .little 2 14 a = 1

/-- An unpatch or send-patch message in canonical form. -/
structure CanonicalPatchList (message : String) (a : List UInt8) : Prop
    extends CanonicalHeader "FPTC" message a where
  contentHint : fieldAt .little 4 24 a = 0
  length_eq : a.length = 30 + 2 * fieldAt .little 2 28 a

/-- A selection message in canonical form. -/
structure CanonicalSele (a : List UInt8) : Prop extends CanonicalHeader "FSEL" "Sele" a where
  complete : a.getD 24 0 = 0x00 ∨ a.getD 24 0 = 0xFF
  spare : a.getD 25 0 = 0
  length_eq : a.length = 28 + 2 * fieldAt .little 2 26 a

/-- A deselection message in canonical form, of some fixtures. -/
structure CanonicalDeSe (a : List UInt8) : Prop extends CanonicalHeader "FSEL" "DeSe" a where
  count_pos : 0 < fieldAt .little 2 24 a
  length_eq : a.length = 26 + 2 * fieldAt .little 2 24 a

/-- A canonical header is the header that the creators write. -/
theorem CanonicalHeader.eq_append {layer message : String} {layerCookie messageCookie : ℕ}
    (h : CanonicalHeader layer message a) (hlayer : IsCookie layerCookie layer)
    (hmessage : IsCookie messageCookie message) (hlen : 24 ≤ a.length) :
    a = citpHeader .little a.length layerCookie ++
      (ByteOrder.little.encode 4 messageCookie ++ a.drop 24) := by
  have hfields := (isMessage_iff_hasHeader hlayer hmessage).mpr h.toHasHeader
  have hcookie : a.drop 0 = ByteOrder.little.encode 4 cookieCitp ++ a.drop 4 :=
    drop_eq_encode_append (by omega) hfields.cookie
  have hmajor : a.drop 4 = 1 :: a.drop 5 := by
    rw [drop_eq_getD_cons (by omega), h.versionMajor]
  have hminor : a.drop 5 = 0 :: a.drop 6 := by
    rw [drop_eq_getD_cons (by omega), h.versionMinor]
  have hreserved : a.drop 6 = 0 :: 0 :: a.drop 8 := by
    rw [drop_eq_getD_cons (by omega), h.reserved.1, drop_eq_getD_cons (by omega), h.reserved.2]
  have hsize : a.drop 8 = ByteOrder.little.encode 4 a.length ++ a.drop 12 :=
    drop_eq_encode_append (by omega) h.messageSize
  have hcount : a.drop 12 = ByteOrder.little.encode 2 1 ++ a.drop 14 :=
    drop_eq_encode_append (by omega) h.messagePartCount
  have hpart : a.drop 14 = ByteOrder.little.encode 2 1 ++ a.drop 16 :=
    drop_eq_encode_append (by omega) h.messagePart
  have htype : a.drop 16 = ByteOrder.little.encode 4 layerCookie ++ a.drop 20 :=
    drop_eq_encode_append (by omega) hfields.layer
  have hkind : a.drop 20 = ByteOrder.little.encode 4 messageCookie ++ a.drop 24 :=
    drop_eq_encode_append (by omega) hfields.message
  calc a = a.drop 0 := rfl
    _ = citpHeader .little a.length layerCookie ++
        (ByteOrder.little.encode 4 messageCookie ++ a.drop 24) := by
      rw [hcookie, hmajor, hminor, hreserved, hsize, hcount, hpart, htype, hkind]
      simp [citpHeader]

theorem fieldAt_two_lt (order : ByteOrder) (o : ℕ) (a : List UInt8) :
    fieldAt order 2 o a < 65536 :=
  (order.decode_lt _).trans_le (Nat.pow_le_pow_right (by decide) (length_window_le a o 2))

/-- The rest of an array is the list of identifiers that is read from it. -/
theorem drop_eq_identifierBytes (h : a.length = o + 2 * n) :
    a.drop o = identifierBytes (identifiersAt .little n o a) := by
  induction n generalizing o with
  | zero => simp [identifiersAt, List.drop_eq_nil_of_le, h]
  | succ n ih =>
    have hlt := fieldAt_two_lt .little o a
    have hrest := ih (o := o + 2) (by omega)
    rw [identifiersAt_succ, identifierBytes_cons, ← hrest, UInt16.toNat_ofNat_of_lt' hlt]
    exact drop_eq_encode_append (by omega) rfl

@[simp] theorem length_identifiersAt (order : ByteOrder) (n o : ℕ) (a : List UInt8) :
    (identifiersAt order n o a).length = n := by
  simp [identifiersAt]

/-- An array of the right size, header and body is the packet of its request. -/
theorem Request.wire_eq {order : ByteOrder} {r : Request}
    (h : a = citpHeader order a.length r.layer ++ r.body order) : r.wire order = a := by
  have hsize : r.size order = a.length := by
    rw [h, List.length_append, length_citpHeader, Request.size]
  rw [Request.wire, hsize, ← h]

theorem CanonicalPatchList.eq_append {message : String} {messageCookie : ℕ}
    (h : CanonicalPatchList message a) (hmessage : IsCookie messageCookie message) :
    a = citpHeader .little a.length cookieFptc ++ Request.patchListBody .little messageCookie
      (identifiersAt .little (fieldAt .little 2 28 a) 30 a) := by
  have hlen := h.length_eq
  have heq := h.toCanonicalHeader.eq_append MessageKind.uPtc.isCookie_layer hmessage (by omega)
  have hhint : a.drop 24 = ByteOrder.little.encode 4 0 ++ a.drop 28 :=
    drop_eq_encode_append (by omega) h.contentHint
  have hcount : a.drop 28 =
      ByteOrder.little.encode 2 (fieldAt .little 2 28 a) ++ a.drop 30 :=
    drop_eq_encode_append (by omega) rfl
  rw [hhint, hcount, drop_eq_identifierBytes hlen] at heq
  simp only [Request.patchListBody, length_identifiersAt, List.append_assoc]
  exact heq

theorem CanonicalSele.eq_append (h : CanonicalSele a) :
    a = citpHeader .little a.length cookieFsel ++
      (Request.sele (identifiersAt .little (fieldAt .little 2 26 a) 28 a)
        (a.getD 24 0 ≠ 0)).body .little := by
  have hlen := h.length_eq
  have heq := h.toCanonicalHeader.eq_append MessageKind.sele.isCookie_layer
    MessageKind.sele.isCookie (by omega)
  have hflag : a.getD 24 0 = if a.getD 24 0 ≠ 0 then 0xFF else 0x00 := by
    rcases h.complete with hzero | hfull
    · rw [hzero, if_neg (by simp)]
    · rw [hfull, if_pos (by decide)]
  have hcount : a.drop 26 =
      ByteOrder.little.encode 2 (fieldAt .little 2 26 a) ++ a.drop 28 :=
    drop_eq_encode_append (by omega) rfl
  rw [drop_eq_getD_cons (by omega), hflag, drop_eq_getD_cons (by omega), h.spare, hcount,
    drop_eq_identifierBytes hlen] at heq
  simpa [Request.body, MessageKind.layer, MessageKind.cookie] using heq

theorem CanonicalDeSe.eq_append (h : CanonicalDeSe a) :
    a = citpHeader .little a.length cookieFsel ++
      (Request.deSe (identifiersAt .little (fieldAt .little 2 24 a) 26 a)).body .little := by
  have hlen := h.length_eq
  have heq := h.toCanonicalHeader.eq_append MessageKind.deSe.isCookie_layer
    MessageKind.deSe.isCookie (by omega)
  have hcount : a.drop 24 =
      ByteOrder.little.encode 2 (fieldAt .little 2 24 a) ++ a.drop 26 :=
    drop_eq_encode_append (by omega) rfl
  rw [hcount, drop_eq_identifierBytes hlen] at heq
  simpa [Request.body, MessageKind.layer, MessageKind.cookie] using heq

/-! ## Both directions -/

/-- A signal that is announced by the packet of its request is announced by an
array alike. -/
theorem exists_signal_of_wire {r : Request} {s : Signal} (hfits : r.CountFits)
    (hwire : r.wire .little = a) (hrequest : s.request = some r)
    (hvalue : (parsePacket .little peer).value (r.create .little).contents = some (peer, [s])) :
    ∃ s r, (parsePacket .little peer).value a = some (peer, [s]) ∧ s.request = some r ∧
      (r.create .little).contents = a := by
  have hcontents := (r.contents_create .little hfits).trans hwire
  exact ⟨s, r, hcontents ▸ hvalue, hrequest, hcontents⟩

/-- **Round trip of the list messages.** On a little-endian host, parsing what was
created for up to 65535 identifiers announces exactly these, or all fixtures
where an empty list stands for them. A message in canonical form announces a
request whose packet is that message again. -/
theorem listMessages_roundTrip (peer : Peer Host) :
    (∀ ids : List UInt16, ids.length ≤ 65535 →
      (parsePacket .little peer).value (createUPtcPacket .little ids).contents =
          some (peer, [if ids = [] then .unpatchAllFixtures else .unpatchFixtures ids]) ∧
        (parsePacket .little peer).value (createSPtcPacket .little ids).contents =
          some (peer, [if ids = [] then .sendPatchAllFixtures else .sendPatchFixtures ids]) ∧
        (∀ complete,
          (parsePacket .little peer).value (createSelePacket .little ids complete).contents =
            some (peer, [.selectFixtures complete ids])) ∧
        (ids ≠ [] → (parsePacket .little peer).value (createDeSePacket .little ids).contents =
          some (peer, [.deselectFixtures ids]))) ∧
      ∀ a, CanonicalPatchList "UPtc" a ∨ CanonicalPatchList "SPtc" a ∨ CanonicalSele a ∨
          CanonicalDeSe a →
        ∃ s r, (parsePacket .little peer).value a = some (peer, [s]) ∧ s.request = some r ∧
          (r.create .little).contents = a := by
  refine ⟨fun ids hids => ?_, fun a hcanonical => ?_⟩
  · have hlt := Nat.lt_succ_of_le hids
    exact ⟨parse_createUPtcPacket peer hlt, parse_createSPtcPacket peer hlt,
      fun complete => parse_createSelePacket peer complete hlt,
      fun hne => parse_createDeSePacket_of_ne_nil peer hne hlt⟩
  · have hfits (o : ℕ) : (identifiersAt .little (fieldAt .little 2 o a) (o + 2) a).length <
        65536 := by
      rw [length_identifiersAt]
      exact fieldAt_two_lt .little o a
    rcases hcanonical with h | h | h | h
    · exact exists_signal_of_wire (r := .uPtc _) (hfits 28)
        (Request.wire_eq (h.eq_append MessageKind.uPtc.isCookie)) (request_unpatch _)
        (parse_createUPtcPacket peer (hfits 28))
    · exact exists_signal_of_wire (r := .sPtc _) (hfits 28)
        (Request.wire_eq (h.eq_append MessageKind.sPtc.isCookie)) (request_sendPatch _)
        (parse_createSPtcPacket peer (hfits 28))
    · exact exists_signal_of_wire (r := .sele _ _) (hfits 26) (Request.wire_eq h.eq_append) rfl
        (parse_createSelePacket peer _ (hfits 26))
    · have hne : identifiersAt .little (fieldAt .little 2 24 a) 26 a ≠ [] := by
        rw [← List.length_pos_iff, length_identifiersAt]
        exact h.count_pos
      exact exists_signal_of_wire (r := .deSe _) (hfits 24) (Request.wire_eq h.eq_append) rfl
        (parse_createDeSePacket_of_ne_nil peer hne (hfits 24))

/-- A list with a repetition, and a canonical message that selects fixture 7. -/
theorem listMessages_roundTrip_selection :
    (parsePacket .little (Peer.new () 0 [] [])).value
        (createDeSePacket .little [7, 513, 7]).contents =
      some (Peer.new () 0 [] [], [.deselectFixtures [7, 513, 7]]) ∧
    ∃ s r, (parsePacket .little (Peer.new () 0 [] [])).value
        (chars "CITP" ++ [1, 0, 0, 0, 30, 0, 0, 0, 1, 0, 1, 0] ++ chars "FSEL" ++
          chars "Sele" ++ [0xFF, 0, 1, 0, 7, 0]) = some (Peer.new () 0 [] [], [s]) ∧
      s.request = some r ∧ (r.create .little).contents =
        chars "CITP" ++ [1, 0, 0, 0, 30, 0, 0, 0, 1, 0, 1, 0] ++ chars "FSEL" ++
          chars "Sele" ++ [0xFF, 0, 1, 0, 7, 0] :=
  ⟨((listMessages_roundTrip (Peer.new () 0 [] [])).1 [7, 513, 7] (by decide)).2.2.2 (by decide),
    (listMessages_roundTrip (Peer.new () 0 [] [])).2 _ (.inr (.inr (.inl
      ⟨⟨⟨by decide, by decide, by decide, by decide⟩, by decide, by decide, by decide, by decide,
        by decide⟩, by decide, by decide, by decide⟩)))⟩

end CitpLib
