import CitpLib.Theorems.PatchRoundTrip

/-!
# What a call makes the other side do

Every packet that a little-endian host creates is understood by a little-endian peer
that receives it, in the sense that it is read within its bounds and has a definite
effect. A packet of the base layers for peers and for DMX data has none. A list message
announces its list. A patch message appends one fixture with the numbers that were sent,
whatever its strings are; of the strings it has what is found between terminators.

Between hosts of different byte orders no packet has an effect: the receiver finds
another cookie than the one it looks for.

## Main definitions

* `receivedFixture` — the fixture that arrives for given arguments
* `Request.effect` — what the packet of a call makes a peer do

## Main results

* `parse_create` — parsing the packet of a call has that effect
-/

namespace CitpLib

open Wire Reader

variable {Host : Type} {order order' : ByteOrder} {peer : Peer Host} {chars : List UInt8}

/-! ## The fixture of a patch message -/

/-- The strings of a patch message, behind its fields. -/
def ptchStrings (fixtureMake fixtureName : QString) : List UInt8 :=
  (if fixtureMake.isEmpty then []
    else terminated ((fixtureMake.constData .little).take fixtureMake.length)) ++
      terminated ((fixtureName.constData .little).take fixtureName.length)

/-- The fixture that arrives when the message for these arguments is sent. -/
def receivedFixture (fixtureIdentifier : UInt16) (universeIndex : UInt8)
    (channelIndex channelCount : UInt16) (fixtureMake fixtureName : QString) : Fixture where
  fixtureIdentifier := fixtureIdentifier
  patchUniverse := universeIndex
  channel := channelIndex
  channelCount := channelCount
  fixtureMake := .ofChars (firstString (ptchStrings fixtureMake fixtureName))
  fixtureName := .ofChars (secondString (ptchStrings fixtureMake fixtureName))

theorem zero_mem_ptchStrings (fixtureMake fixtureName : QString) :
    0 ∈ ptchStrings fixtureMake fixtureName := by
  apply List.mem_append_right
  rw [terminated]
  exact List.mem_append_right _ (List.mem_singleton.mpr rfl)

theorem wire_ptch (fixtureIdentifier : UInt16) (universeIndex : UInt8)
    (channelIndex channelCount : UInt16) (fixtureMake fixtureName : QString) :
    (Request.ptch fixtureIdentifier universeIndex channelIndex channelCount fixtureMake
      fixtureName).wire .little =
      citpHeader .little ((Request.ptch fixtureIdentifier universeIndex channelIndex channelCount
          fixtureMake fixtureName).size .little) cookieFptc ++
        Request.ptchFields .little fixtureIdentifier universeIndex channelIndex channelCount ++
        ptchStrings fixtureMake fixtureName := by
  rw [Request.wire, Request.body, Request.ptchBody, ptchStrings]
  simp only [Request.layer, List.append_assoc]

/-- **A patch message appends one fixture** with the numbers that were sent, whatever its
strings are. -/
theorem parse_ptch (fixtureIdentifier : UInt16) (universeIndex : UInt8)
    (channelIndex channelCount : UInt16) (fixtureMake fixtureName : QString)
    (peer : Peer Host) :
    (parsePacket .little peer).value ((Request.ptch fixtureIdentifier universeIndex channelIndex
        channelCount fixtureMake fixtureName).wire .little) =
      some (peer.patched (receivedFixture fixtureIdentifier universeIndex channelIndex
        channelCount fixtureMake fixtureName), [.updatedFixtureList]) := by
  have hwire := wire_ptch fixtureIdentifier universeIndex channelIndex channelCount fixtureMake
    fixtureName
  have hdrop := drop_of_ptchFields hwire
  have hmake : cstringAt ((Request.ptch fixtureIdentifier universeIndex channelIndex channelCount
      fixtureMake fixtureName).wire .little) 36 =
        firstString (ptchStrings fixtureMake fixtureName) := by
    rw [cstringAt, hdrop, firstString]
  have hname : cstringAt ((Request.ptch fixtureIdentifier universeIndex channelIndex channelCount
      fixtureMake fixtureName).wire .little) (nameOffset ((Request.ptch fixtureIdentifier
        universeIndex channelIndex channelCount fixtureMake fixtureName).wire .little)) =
          secondString (ptchStrings fixtureMake fixtureName) := by
    rw [nameOffset, hmake, cstringAt, ← List.drop_drop, hdrop, secondString, firstString,
      firstString]
  rw [parsePacket_value_of_kind .ptch peer (isMessage_of_ptchFields hwire), parsePTCHPacket_value,
    hdrop, if_pos (zero_mem_ptchStrings fixtureMake fixtureName), fixtureAt_of_ptchFields hwire,
    hmake, hname, receivedFixture]

/-! ## All packets -/

/-- What the packet of a call on a little-endian host makes a peer do that receives it, on a
host of either byte order. -/
def Request.effect (order : ByteOrder) (peer : Peer Host) (r : Request) :
    Peer Host × List Signal :=
  match order, r with
  | .big, _ => (peer, [])
  | .little, .ptch fixtureIdentifier universeIndex channelIndex channelCount fixtureMake
      fixtureName =>
    (peer.patched (receivedFixture fixtureIdentifier universeIndex channelIndex channelCount
      fixtureMake fixtureName), [.updatedFixtureList])
  | .little, .uPtc ids => (peer, [if ids = [] then .unpatchAllFixtures else .unpatchFixtures ids])
  | .little, .sPtc ids =>
    (peer, [if ids = [] then .sendPatchAllFixtures else .sendPatchFixtures ids])
  | .little, .sele ids complete => (peer, [.selectFixtures complete ids])
  | .little, .deSe ids =>
    (peer, (if ids = [] then [.deselectAllFixtures] else []) ++ [.deselectFixtures ids])
  | .little, .pLoc .. | .little, .uNam .. | .little, .chBk .. | .little, .sXSrArtNet ..
  | .little, .sXSrAvab .. | .little, .sXSrE131 .. | .little, .sXSrETCNet2 .. => (peer, [])

/-- A host of the other byte order finds another cookie. -/
theorem fieldAt_wire_ne (h : order ≠ order') (r : Request) :
    fieldAt order 4 0 (r.wire order') ≠ cookieCitp := by
  have hcookie : order.decode (order'.encode 4 cookieCitp) ≠ cookieCitp := by
    cases order <;> cases order' <;> first | exact absurd rfl h | decide
  rw [Request.wire, citpHeader]
  simp only [List.append_assoc]
  rwa [fieldAt, window_append_left (order'.length_encode 4 cookieCitp)]

/-- It ignores the packet. -/
theorem parse_wire_of_ne (h : order ≠ order') (r : Request) (peer : Peer Host) :
    (parsePacket order peer).value (r.wire order') = some (peer, []) := by
  have hlen : 20 ≤ (r.wire order').length := by
    rw [Request.length_wire, Request.size]
    exact Nat.le_add_right _ _
  rw [parsePacket_value, if_pos (by omega), if_pos (fieldAt_wire_ne h r)]

theorem Request.isLayer_wire (order : ByteOrder) (r : Request) :
    IsLayer order r.layer (r.wire order) := by
  have hlayer : r.layer < 256 ^ 4 := by
    cases r <;> simp only [Request.layer] <;> decide
  refine ⟨?_, ?_, ?_⟩
  · simp [Request.wire, citpHeader, fieldAt_encode_append, cookieCitp]
  · simp [Request.wire, citpHeader, fieldAt_append_right, fieldAt_one_eq_iff]
  · simp [Request.wire, citpHeader, fieldAt_append_right, fieldAt_cons_succ,
      fieldAt_encode_append hlayer]

/-- The layers for peers and for DMX data are ignored. -/
theorem parse_wire_of_layer {r : Request} (peer : Peer Host)
    (h : r.layer = cookiePinf ∨ r.layer = cookieSdmx) :
    (parsePacket .little peer).value (r.wire .little) = some (peer, []) := by
  have hlayer := r.isLayer_wire .little
  rcases h with h | h
  · rw [h] at hlayer
    rw [hlayer.parsePacket_value (by decide), if_pos rfl]
  · rw [h] at hlayer
    rw [hlayer.parsePacket_value (by decide), if_neg (by decide), if_neg (by decide),
      if_neg (by decide)]

/-- Parsing the packet of a call has the effect of the call. -/
theorem parse_value_create (order : ByteOrder) (r : Request) (h : r.CountFits)
    (peer : Peer Host) :
    (parsePacket order peer).value (r.create .little).contents = some (r.effect order peer) := by
  cases order with
  | big =>
    rw [Request.contents_create .little _ h]
    exact parse_wire_of_ne (by decide) r peer
  | little =>
    cases r with
    | ptch fixtureIdentifier universeIndex channelIndex channelCount fixtureMake fixtureName =>
      rw [Request.contents_create .little _ h]
      exact parse_ptch _ _ _ _ _ _ peer
    | uPtc ids => exact parse_createUPtcPacket peer h
    | sPtc ids => exact parse_createSPtcPacket peer h
    | sele ids complete => exact parse_createSelePacket peer complete h
    | deSe ids => exact parse_createDeSePacket peer h
    | pLoc plocType name state =>
      rw [Request.contents_create .little _ h]
      exact parse_wire_of_layer peer (.inl rfl)
    | _ =>
      rw [Request.contents_create .little _ h]
      exact parse_wire_of_layer peer (.inr rfl)

/-- **What a call makes the other side do.** The packet of every call whose list can be
counted is read within its bounds by a peer that receives it, and has the effect of the
call, which is none on a big-endian host. The packet that a big-endian host creates is read
within its bounds by a little-endian peer, and is ignored. -/
theorem parse_create (r : Request) (h : r.CountFits) (peer : Peer Host) :
    (∀ order, (parsePacket order peer).InBounds (r.create .little).contents ∧
      (parsePacket order peer).value (r.create .little).contents =
        some (r.effect order peer)) ∧
    (parsePacket .little peer).InBounds (r.create .big).contents ∧
      (parsePacket .little peer).value (r.create .big).contents = some (peer, []) := by
  have hignored : (parsePacket .little peer).value (r.create .big).contents =
      some (peer, []) := by
    rw [Request.contents_create .big r h]
    exact parse_wire_of_ne (by decide) r peer
  refine ⟨fun order => ?_, inBounds_of_value hignored, hignored⟩
  have hvalue := parse_value_create order r h peer
  exact ⟨inBounds_of_value hvalue, hvalue⟩

/-- A fixture named Spot without a make arrives with the make S. -/
theorem parse_create_spot :
    (parsePacket .little (Peer.new () 0 [] [])).InBounds
        ((Request.ptch 7 1 2 3 [] (.ofLiteral "Spot")).create .little).contents ∧
      (parsePacket .little (Peer.new () 0 [] [])).value
          ((Request.ptch 7 1 2 3 [] (.ofLiteral "Spot")).create .little).contents =
        some ((Peer.new () 0 [] []).patched ⟨7, 1, 2, 3, .ofLiteral "S", .ofLiteral "p"⟩,
          [.updatedFixtureList]) :=
  (parse_create (.ptch 7 1 2 3 [] (.ofLiteral "Spot")) trivial (Peer.new () 0 [] [])).1 .little

end CitpLib
