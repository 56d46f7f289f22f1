import CitpLib.Theorems.Latin1
import CitpLib.Theorems.RoundTrip

/-!
# Round trip of the fixture patch message

The creator of the patch message copies as many bytes of each string as the
string has characters, but from code units of two bytes each. On a
little-endian host every other byte copied is the zero high byte of a Latin-1
character, where the parser sees a terminator. Of the make and of the name one
character survives.

## Main results

* `takeWhile_constData` — of a copy of code units the first character is read
* `parse_createPtchPacket` — the fixture that arrives
* `ptch_roundTrip_iff` — it is the one that was sent iff the strings are no
  longer than one character
* `not_omittedMake_roundTrip` — without a make it never is
-/

namespace CitpLib

open Wire Reader

variable {Host : Type} {peer : Peer Host} {s : QString} {pre post : List UInt8} {o : ℕ}

/-! ## Strings copied from code units -/

theorem encode_of_latin1 {c : UInt16} (h : c.toNat ≤ 0xFF) :
    ByteOrder.little.encode 2 c.toNat = [c.toUInt8, 0] := by
  simp [ByteOrder.encode, leBytes, Nat.div_eq_of_lt (Nat.lt_succ_of_le h)]

/-- As many bytes of a Latin-1 string in memory as it has characters: the first
character and, from the second on, its zero high byte. -/
theorem take_constData_cons {c : UInt16} (hc : c.toNat ≤ 0xFF) (s : QString) :
    ∃ more, terminated ((QString.constData .little (c :: s)).take (c :: s).length) =
      c.toUInt8 :: 0 :: more := by
  rw [QString.constData, List.flatMap_cons, encode_of_latin1 hc]
  cases s with
  | nil => exact ⟨[], rfl⟩
  | cons d s => exact ⟨_, rfl⟩

/-- **Of a terminated copy of code units a parser reads the first character.** -/
theorem takeWhile_constData (hs : Latin1 s) (post : List UInt8) :
    (terminated ((s.constData .little).take s.length) ++ post).takeWhile (· ≠ 0) =
      (s.take 1).map UInt16.toUInt8 := by
  cases s with
  | nil => rfl
  | cons c s =>
    obtain ⟨hpos, hle⟩ := hs c List.mem_cons_self
    obtain ⟨more, hmore⟩ := take_constData_cons hle s
    rw [hmore]
    simp [toUInt8_ne_zero_of_latin1 hpos hle]

/-- What arrives of a Latin-1 string is decoded as it was. -/
theorem ofChars_take_one (hs : Latin1 s) :
    QString.ofChars ((s.take 1).map UInt16.toUInt8) = s.take 1 :=
  ofChars_map_toUInt8 fun c hc => hs c (List.mem_of_mem_take hc)

/-! ## The patch message -/

section Patch

variable (fixtureIdentifier : UInt16) (universeIndex : UInt8) (channelIndex channelCount : UInt16)
  {fixtureMake fixtureName : QString}

theorem contents_createPtchPacket (fixtureName : QString) (hne : fixtureMake ≠ []) :
    (createPtchPacket .little fixtureIdentifier universeIndex channelIndex channelCount
      fixtureMake fixtureName).contents =
      citpHeader .little ((Request.ptch fixtureIdentifier universeIndex channelIndex channelCount
          fixtureMake fixtureName).size .little) cookieFptc ++
        Request.ptchFields .little fixtureIdentifier universeIndex channelIndex channelCount ++
        (terminated ((fixtureMake.constData .little).take fixtureMake.length) ++
          terminated ((fixtureName.constData .little).take fixtureName.length)) := by
  rw [(createPtchPacket_holds .little fixtureIdentifier universeIndex channelIndex channelCount
    fixtureMake fixtureName).contents_eq, Request.wire, Request.body, Request.ptchBody,
    if_neg (by simpa using hne)]
  simp [Request.layer]

section Fields

variable {fixtureIdentifier universeIndex channelIndex channelCount} {a rest : List UInt8}
  {size : ℕ}
  (ha : a = citpHeader .little size cookieFptc ++ Request.ptchFields .little fixtureIdentifier
    universeIndex channelIndex channelCount ++ rest)

include ha

theorem isMessage_of_ptchFields : IsMessage .little cookieFptc cookieFptcPtch a := by
  rw [ha]
  simp only [Request.ptchFields, List.append_assoc]
  exact isMessage_citpHeader .little size (by decide) (by decide) _

/-- The numbers of the fixture are the ones in the fields of its message. -/
theorem fixtureAt_of_ptchFields : fixtureAt .little a =
    ⟨fixtureIdentifier, universeIndex, channelIndex, channelCount, .ofChars (cstringAt a 36),
      .ofChars (cstringAt a (nameOffset a))⟩ := by
  have hid : fieldAt .little 2 28 a = fixtureIdentifier.toNat := by
    simp [ha, Request.ptchFields, fieldAt_append_right, fieldAt_encode_uint16]
  have huniverse : UInt8.ofNat (fieldAt .little 1 30 a) = universeIndex := by
    rw [ofNat_fieldAt_one]
    simp [ha, Request.ptchFields, List.getElem?_append_right]
  have hchannel : fieldAt .little 2 32 a = channelIndex.toNat := by
    simp [ha, Request.ptchFields, fieldAt_append_right, fieldAt_cons_succ, fieldAt_encode_uint16]
  have hcount : fieldAt .little 2 34 a = channelCount.toNat := by
    simp [ha, Request.ptchFields, fieldAt_append_right, fieldAt_cons_succ, fieldAt_encode_uint16]
  rw [fixtureAt, hid, huniverse, hchannel, hcount, UInt16.ofNat_toNat, UInt16.ofNat_toNat,
    UInt16.ofNat_toNat]

theorem drop_of_ptchFields : a.drop 36 = rest := by
  rw [ha]
  exact List.drop_left' (by simp)

end Fields

/-- **The fixture that arrives**, where a string follows the fields: it has the numbers that
were sent, and the first character of the string is its make. Its name starts behind that
character's terminator. -/
theorem parse_of_ptchFields {a rest : List UInt8} {size : ℕ} (peer : Peer Host)
    (ha : a = citpHeader .little size cookieFptc ++ Request.ptchFields .little fixtureIdentifier
      universeIndex channelIndex channelCount ++
        (terminated ((s.constData .little).take s.length) ++ rest))
    (hne : s ≠ []) (hs : Latin1 s) :
    (parsePacket .little peer).value a =
      some (peer.patched ⟨fixtureIdentifier, universeIndex, channelIndex, channelCount, s.take 1,
        .ofChars (cstringAt a 38)⟩, [.updatedFixtureList]) := by
  have hchars : cstringAt a 36 = (s.take 1).map UInt16.toUInt8 := by
    rw [cstringAt, drop_of_ptchFields ha, takeWhile_constData hs]
  have hnul : 0 ∈ a.drop 36 := by
    rw [drop_of_ptchFields ha]
    simp [terminated]
  have hoffset : nameOffset a = 38 := by
    have hpos := List.length_pos_iff.mpr hne
    rw [nameOffset, hchars, List.length_map, List.length_take]
    omega
  rw [parsePacket_value_of_kind .ptch peer (isMessage_of_ptchFields ha), parsePTCHPacket_value,
    if_pos hnul, fixtureAt_of_ptchFields ha, hoffset, hchars, ofChars_take_one hs]

/-- Of the make that was sent the first character arrives. -/
theorem parse_createPtchPacket (fixtureName : QString) (peer : Peer Host) (hne : fixtureMake ≠ [])
    (hmake : Latin1 fixtureMake) :
    (parsePacket .little peer).value (createPtchPacket .little fixtureIdentifier universeIndex
        channelIndex channelCount fixtureMake fixtureName).contents =
      some (peer.patched ⟨fixtureIdentifier, universeIndex, channelIndex, channelCount,
        fixtureMake.take 1, .ofChars (cstringAt (createPtchPacket .little fixtureIdentifier
          universeIndex channelIndex channelCount fixtureMake fixtureName).contents 38)⟩,
        [.updatedFixtureList]) :=
  parse_of_ptchFields _ _ _ _ peer
    (contents_createPtchPacket fixtureIdentifier universeIndex channelIndex channelCount
      fixtureName hne) hne hmake

/-- Behind a make of one character the name is found where it was written. -/
theorem name_createPtchPacket (hmake : fixtureMake.length = 1) (hname : Latin1 fixtureName) :
    QString.ofChars (cstringAt (createPtchPacket .little fixtureIdentifier universeIndex
        channelIndex channelCount fixtureMake fixtureName).contents 38) =
      fixtureName.take 1 := by
  have hne : fixtureMake ≠ [] := by rintro rfl; simp at hmake
  have hname' := takeWhile_constData hname []
  rw [List.append_nil] at hname'
  rw [contents_createPtchPacket _ _ _ _ _ hne, ← List.append_assoc, cstringAt,
    List.drop_left' (by simp [hmake]), hname', ofChars_take_one hname]

/-- **When a fixture patch message makes the round trip.** For Latin-1 strings, the
make not empty, the fixture appended is the one that was sent exactly when the
make has one character and the name at most one. -/
theorem ptch_roundTrip_iff (peer : Peer Host) (hne : fixtureMake ≠ [])
    (hmake : Latin1 fixtureMake) (hname : Latin1 fixtureName) :
    (∃ peer' signals, (parsePacket .little peer).value (createPtchPacket .little
        fixtureIdentifier universeIndex channelIndex channelCount fixtureMake
          fixtureName).contents = some (peer', signals) ∧
      peer'.fixtureList = peer.fixtureList ++ [⟨fixtureIdentifier, universeIndex, channelIndex,
        channelCount, fixtureMake, fixtureName⟩]) ↔
      fixtureMake.length = 1 ∧ fixtureName.length ≤ 1 := by
  have hvalue := parse_createPtchPacket fixtureIdentifier universeIndex channelIndex channelCount
    fixtureName peer hne hmake
  have harrives (hone : fixtureMake.length = 1) := name_createPtchPacket fixtureIdentifier
    universeIndex channelIndex channelCount hone hname
  rw [hvalue]
  constructor
  · rintro ⟨peer', signals, hparsed, hlist⟩
    obtain ⟨rfl, -⟩ := Prod.mk.inj (Option.some.inj hparsed)
    have hfixture := List.singleton_inj.mp (List.append_cancel_left hlist)
    simp only [Fixture.mk.injEq, true_and] at hfixture
    obtain ⟨hmakeSame, hnameSame⟩ := hfixture
    have hone : fixtureMake.length = 1 := by
      have hpos := List.length_pos_iff.mpr hne
      have hlen := congrArg List.length hmakeSame
      rw [List.length_take] at hlen
      omega
    have hle : fixtureName.length ≤ 1 := by
      have hlen := congrArg List.length ((harrives hone).symm.trans hnameSame)
      rw [List.length_take] at hlen
      omega
    exact ⟨hone, hle⟩
  · rintro ⟨hone, hle⟩
    refine ⟨_, _, rfl, ?_⟩
    rw [harrives hone, List.take_of_length_le hone.le, List.take_of_length_le hle]
    rfl

end Patch

/-- A fixture named B of make A. -/
theorem ptch_roundTrip_oneLetter :
    ∃ peer' signals, (parsePacket .little (Peer.new () 0 [] [])).value
        (createPtchPacket .little 7 1 2 3 (.ofLiteral "A") (.ofLiteral "B")).contents =
          some (peer', signals) ∧
      peer'.fixtureList = (Peer.new () 0 [] []).fixtureList ++
        [⟨7, 1, 2, 3, .ofLiteral "A", .ofLiteral "B"⟩] :=
  (ptch_roundTrip_iff 7 1 2 3 (Peer.new () 0 [] []) (by decide) (by decide) (by decide)).mpr
    ⟨by decide, by decide⟩

/-- Of a make of two letters the second is lost. -/
theorem not_ptch_roundTrip_twoLetters :
    ¬ ∃ peer' signals, (parsePacket .little (Peer.new () 0 [] [])).value
        (createPtchPacket .little 7 1 2 3 (.ofLiteral "AB") (.ofLiteral "C")).contents =
          some (peer', signals) ∧
      peer'.fixtureList = (Peer.new () 0 [] []).fixtureList ++
        [⟨7, 1, 2, 3, .ofLiteral "AB", .ofLiteral "C"⟩] := by
  rintro ⟨peer', signals, hparsed, hlist⟩
  rw [parse_createPtchPacket 7 1 2 3 _ _ (by decide) (by decide)] at hparsed
  obtain ⟨rfl, -⟩ := Prod.mk.inj (Option.some.inj hparsed)
  have hfixture := List.singleton_inj.mp (List.append_cancel_left hlist)
  exact absurd (congrArg Fixture.fixtureMake hfixture) (by decide)

/-! ## The make left out -/

section OmittedMake

variable (fixtureIdentifier : UInt16) (universeIndex : UInt8) (channelIndex channelCount : UInt16)
  {fixtureName : QString}

/-- Without a make the name stands in its place, and nothing stands for the make. -/
theorem contents_createPtchPacket_omitted (fixtureName : QString) :
    (createPtchPacket .little fixtureIdentifier universeIndex channelIndex channelCount
      [] fixtureName).contents =
      citpHeader .little ((Request.ptch fixtureIdentifier universeIndex channelIndex channelCount
          [] fixtureName).size .little) cookieFptc ++
        Request.ptchFields .little fixtureIdentifier universeIndex channelIndex channelCount ++
        (terminated ((fixtureName.constData .little).take fixtureName.length) ++ []) := by
  rw [(createPtchPacket_holds .little fixtureIdentifier universeIndex channelIndex channelCount
    [] fixtureName).contents_eq, Request.wire, Request.body, Request.ptchBody,
    if_pos List.isEmpty_nil]
  simp [Request.layer]

/-- **Of a fixture without a make the name arrives as the make**, as much of it as arrives. -/
theorem parse_createPtchPacket_omitted (peer : Peer Host) (hne : fixtureName ≠ [])
    (hname : Latin1 fixtureName) :
    (parsePacket .little peer).value (createPtchPacket .little fixtureIdentifier universeIndex
        channelIndex channelCount [] fixtureName).contents =
      some (peer.patched ⟨fixtureIdentifier, universeIndex, channelIndex, channelCount,
        fixtureName.take 1, .ofChars (cstringAt (createPtchPacket .little fixtureIdentifier
          universeIndex channelIndex channelCount [] fixtureName).contents 38)⟩,
        [.updatedFixtureList]) :=
  parse_of_ptchFields _ _ _ _ peer
    (contents_createPtchPacket_omitted fixtureIdentifier universeIndex channelIndex channelCount
      fixtureName) hne hname

/-- **A make left out never makes the round trip.** The creator writes nothing in its place,
not even a terminator, and the parser takes the first string for the make. -/
theorem not_omittedMake_roundTrip (peer : Peer Host) (hne : fixtureName ≠ [])
    (hname : Latin1 fixtureName) :
    ¬ ∃ peer' signals, (parsePacket .little peer).value (createPtchPacket .little
        fixtureIdentifier universeIndex channelIndex channelCount [] fixtureName).contents =
          some (peer', signals) ∧
      peer'.fixtureList = peer.fixtureList ++ [⟨fixtureIdentifier, universeIndex, channelIndex,
        channelCount, [], fixtureName⟩] := by
  rw [parse_createPtchPacket_omitted _ _ _ _ peer hne hname]
  intro h
  obtain ⟨peer', signals, hparsed, hlist⟩ := h
  obtain ⟨rfl, -⟩ := Prod.mk.inj (Option.some.inj hparsed)
  have hfixture := List.singleton_inj.mp (List.append_cancel_left hlist)
  have hmake : fixtureName.take 1 = [] := congrArg Fixture.fixtureMake hfixture
  exact hne ((List.take_eq_nil_iff.mp hmake).resolve_left Nat.one_ne_zero)

end OmittedMake

/-- A fixture named Spot without a make. -/
theorem not_omittedMake_roundTrip_spot :
    ¬ ∃ peer' signals, (parsePacket .little (Peer.new () 0 [] [])).value
        (createPtchPacket .little 7 1 2 3 [] (.ofLiteral "Spot")).contents =
          some (peer', signals) ∧
      peer'.fixtureList = (Peer.new () 0 [] []).fixtureList ++
        [⟨7, 1, 2, 3, [], .ofLiteral "Spot"⟩] :=
  not_omittedMake_roundTrip 7 1 2 3 (Peer.new () 0 [] []) (by decide) (by decide)

/-- Named B without a make, it arrives as a fixture of make B without a name. -/
theorem omittedMake_becomes_name :
    (parsePacket .little (Peer.new () 0 [] [])).value
        (createPtchPacket .little 7 1 2 3 [] (.ofLiteral "B")).contents =
      some ((Peer.new () 0 [] []).patched ⟨7, 1, 2, 3, .ofLiteral "B", []⟩,
        [.updatedFixtureList]) := by
  decide

theorem not_omittedMake_roundTrip_letterB :
    ¬ ∃ peer' signals, (parsePacket .little (Peer.new () 0 [] [])).value
        (createPtchPacket .little 7 1 2 3 [] (.ofLiteral "B")).contents =
          some (peer', signals) ∧
      peer'.fixtureList = (Peer.new () 0 [] []).fixtureList ++
        [⟨7, 1, 2, 3, [], .ofLiteral "B"⟩] := by
  intro h
  obtain ⟨peer', signals, hparsed, hlist⟩ := h
  rw [omittedMake_becomes_name] at hparsed
  obtain ⟨rfl, -⟩ := Prod.mk.inj (Option.some.inj hparsed)
  exact absurd hlist (by decide)

end CitpLib
