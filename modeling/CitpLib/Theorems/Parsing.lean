import CitpLib.Model.Peer
import Mathlib.Tactic.SplitIfs

/-!
# What the parsing functions compute

Each parsing function reads some fields and a body whose length they determine.
This file gives, for each of them, the value it computes from the bytes and the
size the array must have for that.

## Main definitions

* `identifiersAt` — the identifiers that stand at an offset
* `Peer.patched` — a peer after a fixture patch message
* `MessageKind` — the kinds of messages, with their cookies

## Main results

* `parsePacket_value` and one lemma for each function it dispatches to
* `parsePacket_value_of_kind` — the cookies of a message decide what parses it
-/

namespace CitpLib

open Wire Reader

variable {Host : Type} {order : ByteOrder} {peer : Peer Host} {a : List UInt8} {n o : ℕ}

/-- The `n` identifiers that stand one behind the other from offset `o` on. -/
def identifiersAt (order : ByteOrder) (n o : ℕ) (a : List UInt8) : List UInt16 :=
  (List.range n).map fun i => UInt16.ofNat (fieldAt order 2 (o + 2 * i) a)

theorem identifiersAt_succ (order : ByteOrder) (n o : ℕ) (a : List UInt8) :
    identifiersAt order (n + 1) o a =
      UInt16.ofNat (fieldAt order 2 o a) :: identifiersAt order n (o + 2) a := by
  simp [identifiersAt, List.range_succ_eq_map, Function.comp_def, Nat.mul_add, Nat.add_assoc,
    Nat.add_comm 2]

theorem readIdentifiers_value (order : ByteOrder) (n : ℕ) (a : List UInt8)
    (ho : o ≤ a.length + 1) :
    (readIdentifiers order n o).value a =
      if o + 2 * n ≤ a.length + 1 then some (identifiersAt order n o a) else none := by
  induction n generalizing o with
  | zero => simp [readIdentifiers, identifiersAt, ho]
  | succ n ih =>
    rw [readIdentifiers, value_field_bind order o _ (by decide)]
    by_cases hfirst : o + 2 ≤ a.length + 1
    · rw [if_pos hfirst, value_bind, ih hfirst, identifiersAt_succ]
      by_cases hrest : o + 2 + 2 * n ≤ a.length + 1
      · rw [if_pos hrest, if_pos (by omega), Option.bind_some, value_pure]
      · rw [if_neg hrest, if_neg (by omega), Option.bind_none]
    · rw [if_neg hfirst, if_neg (by omega)]

/-- A reader that has read its count at an array's end has room for the
identifiers only if the array goes on. -/
theorem readIdentifiers_bind_value {β : Type} (order : ByteOrder) (n : ℕ) (a : List UInt8)
    (f : List UInt16 → Reader β) :
    (if o ≤ a.length + 1 then (readIdentifiers order n o >>= f).value a else none) =
      if o + 2 * n ≤ a.length + 1 then (f (identifiersAt order n o a)).value a else none := by
  by_cases ho : o ≤ a.length + 1
  · rw [if_pos ho, value_bind, readIdentifiers_value order n a ho]
    split <;> rfl
  · rw [if_neg ho, if_neg (by omega)]

theorem parsePatchListPacket_value (order : ByteOrder) (o : ℕ) (all : Signal)
    (listed : List UInt16 → Signal) (peer : Peer Host) (a : List UInt8) :
    (parsePatchListPacket order o (o + 2) all listed peer).value a =
      if o + 2 + 2 * fieldAt order 2 o a ≤ a.length + 1 then
        some (peer, [if fieldAt order 2 o a = 0 then all
          else listed (identifiersAt order (fieldAt order 2 o a) (o + 2) a)])
      else none := by
  rw [parsePatchListPacket, value_field_bind order o _ (by decide), value_ite]
  by_cases hzero : fieldAt order 2 o a = 0
  · simp [hzero]
  · rw [if_neg hzero, if_neg hzero, readIdentifiers_bind_value, value_pure]

theorem parseUPTCPacket_value (order : ByteOrder) (peer : Peer Host) (a : List UInt8) :
    (parseUPTCPacket order peer).value a =
      if 30 + 2 * fieldAt order 2 28 a ≤ a.length + 1 then
        some (peer, [if fieldAt order 2 28 a = 0 then .unpatchAllFixtures
          else .unpatchFixtures (identifiersAt order (fieldAt order 2 28 a) 30 a)])
      else none :=
  parsePatchListPacket_value order 28 _ _ peer a

theorem parseSPTCPacket_value (order : ByteOrder) (peer : Peer Host) (a : List UInt8) :
    (parseSPTCPacket order peer).value a =
      if 30 + 2 * fieldAt order 2 28 a ≤ a.length + 1 then
        some (peer, [if fieldAt order 2 28 a = 0 then .sendPatchAllFixtures
          else .sendPatchFixtures (identifiersAt order (fieldAt order 2 28 a) 30 a)])
      else none :=
  parsePatchListPacket_value order 28 _ _ peer a

theorem parseSELEPacket_value (order : ByteOrder) (peer : Peer Host) (a : List UInt8) :
    (parseSELEPacket order peer).value a =
      if 28 + 2 * fieldAt order 2 26 a ≤ a.length + 1 then
        some (peer, [.selectFixtures (fieldAt order 1 24 a ≠ 0)
          (identifiersAt order (fieldAt order 2 26 a) 28 a)])
      else none := by
  simp only [parseSELEPacket, CitpFselSele.fixtureCount, CitpFselSele.complete,
    CitpFselSele.sizeof, CitpFselHeader.sizeof, CitpHeader.sizeof, Nat.reduceAdd,
    value_field_bind, Nat.reduceLT]
  by_cases hcount : 28 ≤ a.length + 1
  · have hflag : 25 ≤ a.length + 1 := by omega
    rw [if_pos hflag, readIdentifiers_bind_value, value_pure]
  · rw [if_neg hcount, if_neg (by omega)]

theorem parseDESEPacket_value (order : ByteOrder) (peer : Peer Host) (a : List UInt8) :
    (parseDESEPacket order peer).value a =
      if 26 + 2 * fieldAt order 2 24 a ≤ a.length + 1 then
        some (peer, (if fieldAt order 2 24 a = 0 then [.deselectAllFixtures] else []) ++
          [.deselectFixtures (identifiersAt order (fieldAt order 2 24 a) 26 a)])
      else none := by
  rw [parseDESEPacket, value_field_bind order _ _ (by decide)]
  exact readIdentifiers_bind_value (o := 26) order _ a _

/-! ## The fixture patch message -/

/-- Where the name of a patched fixture starts: behind the terminator of its
make. -/
def nameOffset (a : List UInt8) : ℕ := 36 + ((cstringAt a 36).length + 1)

/-- The fixture that a patch message describes. -/
def fixtureAt (order : ByteOrder) (a : List UInt8) : Fixture where
  fixtureIdentifier := UInt16.ofNat (fieldAt order 2 28 a)
  patchUniverse := UInt8.ofNat (fieldAt order 1 30 a)
  channel := UInt16.ofNat (fieldAt order 2 32 a)
  channelCount := UInt16.ofNat (fieldAt order 2 34 a)
  fixtureMake := .ofChars (cstringAt a 36)
  fixtureName := .ofChars (cstringAt a (nameOffset a))

/-- A peer with one more fixture, in its list and in the table model. -/
def Peer.patched (peer : Peer Host) (fix : Fixture) : Peer Host :=
  { peer with
    fixtureList := peer.fixtureList ++ [fix]
    fixtureModel := ⟨peer.fixtureModel.fixtureList ++ [fix]⟩ }

@[simp] theorem length_ofChars (bs : List UInt8) :
    (QString.ofChars bs).length = bs.length := by
  simp [QString.ofChars]

/-- The make is terminated inside the array exactly when a NUL follows offset
36, and then the name starts inside or at the guarding NUL. -/
theorem length_cstringAt_lt_iff {o : ℕ} (ho : o ≤ a.length) :
    o + ((cstringAt a o).length + 1) ≤ a.length ↔ 0 ∈ a.drop o := by
  have hlen : (a.drop o).length = a.length - o := List.length_drop
  have hiff : (cstringAt a o).length < (a.drop o).length ↔ 0 ∈ a.drop o := by
    rw [cstringAt]
    induction a.drop o with
    | nil => simp
    | cons b bs ih =>
      by_cases hb : b = 0
      · simp [hb]
      · simpa [hb, eq_comm (a := (0 : UInt8))] using ih
  rw [← hiff, hlen]
  omega

theorem parsePTCHPacket_value (order : ByteOrder) (peer : Peer Host) (a : List UInt8) :
    (parsePTCHPacket order peer).value a =
      if 0 ∈ a.drop 36 then some (peer.patched (fixtureAt order a), [.updatedFixtureList])
      else none := by
  simp only [parsePTCHPacket, CitpFptcPtch.fixtureIdentifier, CitpFptcPtch.patchUniverse,
    CitpFptcPtch.channel, CitpFptcPtch.channelCount, CitpFptcPtch.sizeof, CitpFptcHeader.sizeof,
    CitpHeader.sizeof, Nat.reduceAdd, value_field_bind, value_cstring_bind, value_pure,
    length_ofChars, Nat.reduceLT]
  by_cases hlen : 36 ≤ a.length
  · rw [if_pos (by omega), if_pos (by omega), if_pos (by omega), if_pos (by omega),
      if_pos hlen]
    -- the name starts inside if the make ended inside, and then its scan stays there
    exact if_congr (length_cstringAt_lt_iff hlen) rfl rfl
  · have hdrop : a.drop 36 = [] := List.drop_eq_nil_of_le (by omega)
    simp [hlen, hdrop]

/-! ## Dispatch -/

theorem parseFPTCPacket_value (order : ByteOrder) (peer : Peer Host) (a : List UInt8) :
    (parseFPTCPacket order peer).value a =
      if 24 ≤ a.length + 1 then
        if fieldAt order 4 20 a = cookieFptcPtch then (parsePTCHPacket order peer).value a
        else if fieldAt order 4 20 a = cookieFptcUPtc then (parseUPTCPacket order peer).value a
        else if fieldAt order 4 20 a = cookieFptcSPtc then (parseSPTCPacket order peer).value a
        else some (peer, [])
      else none := by
  simp only [parseFPTCPacket, CitpFptcHeader.contentType, CitpHeader.sizeof, value_field_bind,
    value_ite, value_pure, Nat.reduceAdd, Nat.reduceLT]

theorem parseFSELPacket_value (order : ByteOrder) (peer : Peer Host) (a : List UInt8) :
    (parseFSELPacket order peer).value a =
      if 24 ≤ a.length + 1 then
        if fieldAt order 4 20 a = cookieFselSele then (parseSELEPacket order peer).value a
        else if fieldAt order 4 20 a = cookieFselDeSe then (parseDESEPacket order peer).value a
        else some (peer, [])
      else none := by
  simp only [parseFSELPacket, CitpFselHeader.contentType, CitpHeader.sizeof, value_field_bind,
    value_ite, value_pure, Nat.reduceAdd, Nat.reduceLT]

theorem parsePacket_value (order : ByteOrder) (peer : Peer Host) (a : List UInt8) :
    (parsePacket order peer).value a =
      if 4 ≤ a.length + 1 then
        if fieldAt order 4 0 a ≠ cookieCitp then some (peer, [])
        else if 5 ≤ a.length + 1 then
          if fieldAt order 1 4 a ≠ 0x01 then some (peer, [])
          else if 20 ≤ a.length + 1 then
            if fieldAt order 4 16 a = cookiePinf then some (peer, [])
            else if fieldAt order 4 16 a = cookieFptc then (parseFPTCPacket order peer).value a
            else if fieldAt order 4 16 a = cookieFsel then (parseFSELPacket order peer).value a
            else some (peer, [])
          else none
        else none
      else none := by
  simp only [parsePacket, CitpHeader.cookie, CitpHeader.versionMajor, CitpHeader.contentType,
    value_field_bind, value_ite, value_pure, Nat.reduceAdd, Nat.reduceLT]

/-! ## Kinds of messages -/

/-- The kinds of messages that are created or parsed. -/
inductive MessageKind
  | pLoc
  | uNam
  | chBk
  | sXSr
  | ptch
  | sPtc
  | uPtc
  | sele
  | deSe
  deriving DecidableEq, Repr

/-- The characters of the family cookie. -/
def MessageKind.family : MessageKind → String
  | pLoc => "PINF"
  | uNam | chBk | sXSr => "SDMX"
  | ptch | sPtc | uPtc => "FPTC"
  | sele | deSe => "FSEL"

/-- The characters of the message cookie. -/
def MessageKind.message : MessageKind → String
  | pLoc => "PLoc"
  | uNam => "UNam"
  | chBk => "ChBk"
  | sXSr => "SXSr"
  | ptch => "Ptch"
  | sPtc => "SPtc"
  | uPtc => "UPtc"
  | sele => "Sele"
  | deSe => "DeSe"

/-- The number of the family cookie. -/
def MessageKind.layer : MessageKind → ℕ
  | pLoc => cookiePinf
  | uNam | chBk | sXSr => cookieSdmx
  | ptch | sPtc | uPtc => cookieFptc
  | sele | deSe => cookieFsel

/-- The number of the message cookie. -/
def MessageKind.cookie : MessageKind → ℕ
  | pLoc => cookiePinfPLoc
  | uNam => cookieSdmxUNam
  | chBk => cookieSdmxChBk
  | sXSr => cookieSdmxSXSr
  | ptch => cookieFptcPtch
  | sPtc => cookieFptcSPtc
  | uPtc => cookieFptcUPtc
  | sele => cookieFselSele
  | deSe => cookieFselDeSe

/-- The size of the packed structure in front of the variable-length data. -/
def MessageKind.sizeof : MessageKind → ℕ
  | pLoc => CitpPinfPLoc.sizeof
  | uNam => CitpSdmxUNam.sizeof
  | chBk => CitpSdmxChBk.sizeof
  | sXSr => CitpSdmxSXSr.sizeof
  | ptch => CitpFptcPtch.sizeof
  | sPtc => CitpFptcSPtc.sizeof
  | uPtc => CitpFptcUPtc.sizeof
  | sele => CitpFselSele.sizeof
  | deSe => CitpFselDeSe.sizeof

/-! ## Messages by their cookies -/

/-- The header of a message of version 1 with this cookie of its layer. -/
structure IsLayer (order : ByteOrder) (layerCookie : ℕ) (a : List UInt8) : Prop where
  cookie : fieldAt order 4 0 a = cookieCitp
  versionMajor : fieldAt order 1 4 a = 0x01
  layer : fieldAt order 4 16 a = layerCookie

/-- The header of a message of version 1 with these cookies of its layer and of
its own. -/
structure IsMessage (order : ByteOrder) (layerCookie messageCookie : ℕ) (a : List UInt8) : Prop
    extends IsLayer order layerCookie a where
  message : fieldAt order 4 20 a = messageCookie

theorem isMessage_iff {layerCookie messageCookie : ℕ} :
    IsMessage order layerCookie messageCookie a ↔ fieldAt order 4 0 a = cookieCitp ∧
      fieldAt order 1 4 a = 0x01 ∧ fieldAt order 4 16 a = layerCookie ∧
        fieldAt order 4 20 a = messageCookie :=
  ⟨fun h => ⟨h.cookie, h.versionMajor, h.layer, h.message⟩,
    fun h => ⟨⟨h.1, h.2.1, h.2.2.1⟩, h.2.2.2⟩⟩

instance {layerCookie messageCookie : ℕ} :
    Decidable (IsMessage order layerCookie messageCookie a) :=
  decidable_of_iff _ isMessage_iff.symm

theorem IsLayer.le_length {layerCookie : ℕ} (h : IsLayer order layerCookie a)
    (hcookie : 256 ^ 3 ≤ layerCookie) : 20 ≤ a.length + 1 :=
  have hfield : 256 ^ 3 ≤ fieldAt order 4 16 a := h.layer.symm ▸ hcookie
  le_of_le_fieldAt (w := 4) (by decide) hfield

theorem IsMessage.le_length {layerCookie messageCookie : ℕ}
    (h : IsMessage order layerCookie messageCookie a) (hcookie : 256 ^ 3 ≤ messageCookie) :
    24 ≤ a.length + 1 :=
  have hfield : 256 ^ 3 ≤ fieldAt order 4 20 a := h.message.symm ▸ hcookie
  le_of_le_fieldAt (w := 4) (by decide) hfield

/-- The cookie of its layer decides which function a message goes to. -/
theorem IsLayer.parsePacket_value {layerCookie : ℕ} (h : IsLayer order layerCookie a)
    (hcookie : 256 ^ 3 ≤ layerCookie) (peer : Peer Host) :
    (parsePacket order peer).value a =
      if layerCookie = cookiePinf then some (peer, [])
      else if layerCookie = cookieFptc then (parseFPTCPacket order peer).value a
      else if layerCookie = cookieFsel then (parseFSELPacket order peer).value a
      else some (peer, []) := by
  have hlen := h.le_length hcookie
  rw [CitpLib.parsePacket_value, if_pos (by omega), if_neg (not_not.mpr h.cookie),
    if_pos (by omega), if_neg (not_not.mpr h.versionMajor), if_pos hlen, h.layer]

theorem parsePacket_value_of_fptc (peer : Peer Host) (h : IsLayer order cookieFptc a) :
    (parsePacket order peer).value a = (parseFPTCPacket order peer).value a := by
  rw [h.parsePacket_value (by decide), if_neg (by decide), if_pos rfl]

theorem parsePacket_value_of_fsel (peer : Peer Host) (h : IsLayer order cookieFsel a) :
    (parsePacket order peer).value a = (parseFSELPacket order peer).value a := by
  rw [h.parsePacket_value (by decide), if_neg (by decide), if_neg (by decide), if_pos rfl]

/-- The function that parses a message of a kind. A peer ignores announcements and DMX data. -/
abbrev MessageKind.parse (order : ByteOrder) :
    MessageKind → Peer Host → Reader (Peer Host × List Signal)
  | ptch => parsePTCHPacket order
  | uPtc => parseUPTCPacket order
  | sPtc => parseSPTCPacket order
  | sele => parseSELEPacket order
  | deSe => parseDESEPacket order
  | pLoc | uNam | chBk | sXSr => fun peer => pure (peer, [])

/-- **The cookies of a message decide what parses it.** -/
theorem parsePacket_value_of_kind (kind : MessageKind) (peer : Peer Host)
    (h : IsMessage order kind.layer kind.cookie a) :
    (parsePacket order peer).value a = (kind.parse order peer).value a := by
  have hlayer : 256 ^ 3 ≤ kind.layer := by cases kind <;> decide
  have hcookie : 256 ^ 3 ≤ kind.cookie := by cases kind <;> decide
  have hlen := h.le_length hcookie
  rw [h.toIsLayer.parsePacket_value hlayer, parseFPTCPacket_value, parseFSELPacket_value,
    if_pos hlen, if_pos hlen, h.message]
  cases kind <;> rfl

/-- The five kinds of messages that a peer acts upon. -/
def Recognised (order : ByteOrder) (a : List UInt8) : Prop :=
  IsMessage order cookieFptc cookieFptcPtch a ∨ IsMessage order cookieFptc cookieFptcUPtc a ∨
    IsMessage order cookieFptc cookieFptcSPtc a ∨ IsMessage order cookieFsel cookieFselSele a ∨
    IsMessage order cookieFsel cookieFselDeSe a

/-- Each of them is of a kind. -/
theorem Recognised.exists_kind (h : Recognised order a) :
    ∃ kind : MessageKind, IsMessage order kind.layer kind.cookie a := by
  rcases h with hptch | huptc | hsptc | hsele | hdese
  · exact ⟨.ptch, hptch⟩
  · exact ⟨.uPtc, huptc⟩
  · exact ⟨.sPtc, hsptc⟩
  · exact ⟨.sele, hsele⟩
  · exact ⟨.deSe, hdese⟩

/-- A message of no kind has no effect. -/
theorem parsePacket_value_of_not_recognised (h : ¬ Recognised order a)
    (hin : (parsePacket order peer).InBounds a) :
    (parsePacket order peer).value a = some (peer, []) := by
  obtain ⟨x, hx⟩ := hin.exists_value
  simp only [Recognised, not_or] at h
  obtain ⟨hptch, huptc, hsptc, hsele, hdese⟩ := h
  rw [hx]
  rw [parsePacket_value] at hx
  split_ifs at hx with h1 hcookie h2 hversion h3 hpinf hfptc hfsel
  all_goals try exact hx.symm
  · have hlayer : IsLayer order cookieFptc a := ⟨not_not.mp hcookie, not_not.mp hversion, hfptc⟩
    rw [parseFPTCPacket_value, if_neg fun hm => hptch ⟨hlayer, hm⟩,
      if_neg fun hm => huptc ⟨hlayer, hm⟩, if_neg fun hm => hsptc ⟨hlayer, hm⟩] at hx
    exact (Option.ite_none_right_eq_some.mp hx).2.symm
  · have hlayer : IsLayer order cookieFsel a := ⟨not_not.mp hcookie, not_not.mp hversion, hfsel⟩
    rw [parseFSELPacket_value, if_neg fun hm => hsele ⟨hlayer, hm⟩,
      if_neg fun hm => hdese ⟨hlayer, hm⟩] at hx
    exact (Option.ite_none_right_eq_some.mp hx).2.symm

end CitpLib
