import CitpLib.Model.PacketCreator

/-!
# The bytes of every packet

On the wire every packet is the base layer header followed by the body of its
message. This file states the body of each request and proves that the creator
of the request lays out exactly that: no store outside the buffer, no byte left
over, and the size of the whole in the header.

## Main definitions

* `citpHeader` — the bytes of the base layer header
* `Request.body`, `Request.wire` — the bytes of a message and of its packet

## Main results

* `Request.create_holds` — a creator lays out the packet of its request
* `Request.contents_create` — the buffer it returns
-/

namespace CitpLib

open Wire

variable {order : ByteOrder} {b : Buffer UInt8} {pre : List UInt8} {o : ℕ}
  {ids : List UInt16}

/-! ## Header and identifiers -/

/-- The base layer header of a packet of `size` bytes. -/
def citpHeader (order : ByteOrder) (size contentType : ℕ) : List UInt8 :=
  order.encode 4 cookieCitp ++ [0x01, 0x00, 0x00, 0x00] ++ order.encode 4 size ++
    order.encode 2 0x01 ++ order.encode 2 0x01 ++ order.encode 4 contentType

@[simp] theorem length_citpHeader (order : ByteOrder) (size contentType : ℕ) :
    (citpHeader order size contentType).length = 20 := by
  simp [citpHeader]

@[simp] theorem len_allocPacket (order : ByteOrder) (n contentType : ℕ) :
    (allocPacket order n contentType).len = n := rfl

@[simp] theorem fill_allocPacket (order : ByteOrder) (n contentType : ℕ) :
    (allocPacket order n contentType).fill = 0 := rfl

theorem filled_allocPacket (order : ByteOrder) (n contentType : ℕ) (hn : 20 ≤ n) :
    (allocPacket order n contentType).Filled (citpHeader order n contentType) := by
  have halloc := Buffer.filled_alloc n (0 : UInt8)
  have hcookie := halloc.storeField order 4 0 cookieCitp rfl (by simp; omega)
  have hmajor := hcookie.storeField order 1 4 0x01 (by simp) (by simp; omega)
  have hminor := hmajor.storeField order 1 5 0x00 (by simp) (by simp; omega)
  have hreserved := hminor.storeField order 1 6 0x00 (by simp) (by simp; omega)
  have hreserved' := hreserved.storeField order 1 7 0x00 (by simp) (by simp; omega)
  have hsize := hreserved'.storeField order 4 8 n (by simp) (by simp; omega)
  have hpartCount := hsize.storeField order 2 12 0x01 (by simp) (by simp; omega)
  have hpart := hpartCount.storeField order 2 14 0x01 (by simp) (by simp; omega)
  have hlayer := hpart.storeField order 4 16 contentType (by simp) (by simp; omega)
  simpa [citpHeader, allocPacket, storeCitpHeader] using hlayer

/-- The bytes of an identifier list, low byte first on every host. -/
def identifierBytes (ids : List UInt16) : List UInt8 :=
  ids.flatMap fun fixId => ByteOrder.little.encode 2 fixId.toNat

@[simp] theorem identifierBytes_nil : identifierBytes [] = [] := rfl

theorem identifierBytes_cons (fixId : UInt16) (ids : List UInt16) :
    identifierBytes (fixId :: ids) =
      ByteOrder.little.encode 2 fixId.toNat ++ identifierBytes ids := rfl

@[simp] theorem length_identifierBytes (ids : List UInt16) :
    (identifierBytes ids).length = 2 * ids.length := by
  induction ids with
  | nil => rfl
  | cons fixId ids ih =>
    simp only [identifierBytes_cons, List.length_append, ByteOrder.length_encode, ih,
      List.length_cons]
    omega

/-- The masks and the shift of the loop pick the two bytes of an identifier. -/
theorem encode_identifier (fixId : UInt16) :
    ByteOrder.little.encode 2 fixId.toNat =
      [(fixId &&& 0xFF).toUInt8] ++ [((fixId >>> 8) &&& 0xFF).toUInt8] := by
  have hmask (n : ℕ) : n &&& 0xFF = n % 256 := Nat.and_two_pow_sub_one_eq_mod n 8
  have hlow : (fixId &&& 0xFF).toUInt8 = UInt8.ofNat fixId.toNat := by
    apply UInt8.toNat_inj.mp
    simp [hmask]
  have hhigh : ((fixId >>> 8) &&& 0xFF).toUInt8 = UInt8.ofNat (fixId.toNat / 256) := by
    apply UInt8.toNat_inj.mp
    simp [hmask, Nat.shiftRight_eq_div_pow]
  rw [hlow, hhigh]
  rfl

@[simp] theorem len_storeIdentifiers (o : ℕ) (ids : List UInt16) (b : Buffer UInt8) :
    (storeIdentifiers o ids b).len = b.len := by
  induction ids generalizing o b with
  | nil => rfl
  | cons fixId ids ih => exact ih _ _

theorem filled_storeIdentifiers (h : b.Filled pre) (o : ℕ) (ids : List UInt16)
    (ho : o = pre.length) (hfit : o + 2 * ids.length ≤ b.len) :
    (storeIdentifiers o ids b).Filled (pre ++ identifierBytes ids) := by
  induction ids generalizing o b pre with
  | nil => simpa [storeIdentifiers] using h
  | cons fixId ids ih =>
    simp only [List.length_cons] at hfit
    have hlow := h.storeNext o [(fixId &&& 0xFF).toUInt8] ho (by simp; omega)
    have hboth := hlow.storeNext (o + 1) [((fixId >>> 8) &&& 0xFF).toUInt8] (by simp [ho])
      (by simp; omega)
    have hrest := ih hboth (o + 2) (by simp [ho]) (by simp; omega)
    rw [identifierBytes_cons, encode_identifier]
    simpa [storeIdentifiers] using hrest

/-- The loop stays inside the buffer exactly when all the identifiers fit. -/
theorem inBounds_storeIdentifiers :
    (storeIdentifiers o ids b).InBounds ↔
      b.InBounds ∧ (ids ≠ [] → o + 2 * ids.length ≤ b.len) := by
  induction ids generalizing o b with
  | nil => simp [storeIdentifiers]
  | cons fixId ids ih =>
    simp only [storeIdentifiers, ih, Buffer.inBounds_store, Buffer.len_store, ne_eq,
      List.cons_ne_nil, not_false_eq_true, forall_const, List.length_cons, List.length_nil]
    constructor
    · rintro ⟨⟨⟨hb, hlow⟩, hhigh⟩, hrest⟩
      refine ⟨hb, ?_⟩
      cases ids with
      | nil =>
        simp only [List.length_nil]
        omega
      | cons fixId' ids =>
        have := hrest (List.cons_ne_nil _ _)
        simp only [List.length_cons] at this ⊢
        omega
    · rintro ⟨hb, hfit⟩
      exact ⟨⟨⟨hb, by omega⟩, by omega⟩, fun _ => by omega⟩

/-! ## Bodies -/

/-- A NUL-terminated string of 8-bit characters. -/
def terminated (bs : List UInt8) : List UInt8 := bs ++ [0]

@[simp] theorem length_terminated (bs : List UInt8) :
    (terminated bs).length = bs.length + 1 := by
  simp [terminated]

namespace Request

/-- The first layer cookie of a request. -/
def layer : Request → ℕ
  | pLoc .. => cookiePinf
  | uNam .. | chBk .. | sXSrArtNet .. | sXSrAvab .. | sXSrE131 .. | sXSrETCNet2 .. => cookieSdmx
  | ptch .. | sPtc .. | uPtc .. => cookieFptc
  | sele .. | deSe .. => cookieFsel

/-- The part of a connection string message behind the base layer header. -/
def connectionBody (order : ByteOrder) (str : QString) : List UInt8 :=
  order.encode 4 cookieSdmxSXSr ++ terminated str.toAscii

/-- The fields of a patch message between the base layer header and the strings. -/
def ptchFields (order : ByteOrder) (fixtureIdentifier : UInt16) (universeIndex : UInt8)
    (channelIndex channelCount : UInt16) : List UInt8 :=
  order.encode 4 cookieFptcPtch ++ order.encode 4 0 ++ order.encode 2 fixtureIdentifier.toNat ++
    [universeIndex, 0] ++ order.encode 2 channelIndex.toNat ++ order.encode 2 channelCount.toNat

@[simp] theorem length_ptchFields (order : ByteOrder) (fixtureIdentifier : UInt16)
    (universeIndex : UInt8) (channelIndex channelCount : UInt16) :
    (ptchFields order fixtureIdentifier universeIndex channelIndex channelCount).length = 16 := by
  simp [ptchFields]

/-- The patch message carries as many bytes of each string as the string has
characters, taken from the code units in memory. -/
def ptchBody (order : ByteOrder) (fixtureIdentifier : UInt16) (universeIndex : UInt8)
    (channelIndex channelCount : UInt16) (fixtureMake fixtureName : QString) : List UInt8 :=
  ptchFields order fixtureIdentifier universeIndex channelIndex channelCount ++
    (if fixtureMake.isEmpty then []
      else terminated ((fixtureMake.constData order).take fixtureMake.length)) ++
        terminated ((fixtureName.constData order).take fixtureName.length)

/-- The part of a patch list message behind the base layer header. -/
def patchListBody (order : ByteOrder) (contentType : ℕ) (ids : List UInt16) : List UInt8 :=
  order.encode 4 contentType ++ order.encode 4 0 ++ order.encode 2 ids.length ++
    identifierBytes ids

/-- The bytes of a request behind the base layer header. -/
def body (order : ByteOrder) : Request → List UInt8
  | pLoc plocType name state =>
    order.encode 4 cookiePinfPLoc ++ order.encode 2 0 ++
      terminated plocType.typeString.toAscii ++ terminated name.toAscii ++
        terminated state.toAscii
  | uNam universeIndex name =>
    order.encode 4 cookieSdmxUNam ++ [universeIndex] ++ terminated name.toAscii
  | chBk blind universeIndex firstChannelIndex channelCount channelLevels =>
    order.encode 4 cookieSdmxChBk ++ [if blind then 0x01 else 0x00, universeIndex] ++
      order.encode 2 firstChannelIndex.toNat ++ order.encode 2 channelCount.toNat ++
        channelLevels.toList
  | sXSrArtNet network universeNo channel =>
    connectionBody order (((artnetString.arg network).arg universeNo).arg channel)
  | sXSrAvab network universeNo channel =>
    connectionBody order (((avabString.arg network).arg universeNo).arg channel)
  | sXSrE131 universeNo channel => connectionBody order ((e131String.arg universeNo).arg channel)
  | sXSrETCNet2 channel => connectionBody order (etcnet2String.arg channel)
  | ptch fixtureIdentifier universeIndex channelIndex channelCount fixtureMake fixtureName =>
    ptchBody order fixtureIdentifier universeIndex channelIndex channelCount fixtureMake
      fixtureName
  | sPtc ids => patchListBody order cookieFptcSPtc ids
  | uPtc ids => patchListBody order cookieFptcUPtc ids
  | sele ids complete =>
    order.encode 4 cookieFselSele ++ [if complete then 0xFF else 0x00, 0] ++
      order.encode 2 ids.length ++ identifierBytes ids
  | deSe ids => order.encode 4 cookieFselDeSe ++ order.encode 2 ids.length ++ identifierBytes ids

/-- The size of the packet of a request. -/
def size (order : ByteOrder) (r : Request) : ℕ := 20 + (r.body order).length

/-- The packet of a request. -/
def wire (order : ByteOrder) (r : Request) : List UInt8 :=
  citpHeader order (r.size order) r.layer ++ r.body order

/-- The 16-bit count of the message can express the number of identifiers. -/
def CountFits : Request → Prop
  | sPtc ids | uPtc ids | sele ids _ | deSe ids => ids.length < 65536
  | _ => True

instance : DecidablePred CountFits
  | sPtc ids | uPtc ids | sele ids _ | deSe ids =>
    inferInstanceAs (Decidable (ids.length < 65536))
  | pLoc .. | uNam .. | chBk .. | sXSrArtNet .. | sXSrAvab .. | sXSrE131 .. | sXSrETCNet2 ..
  | ptch .. => isTrue trivial

end Request

/-! ## What the creators lay out -/

theorem createPLocPacket_holds (order : ByteOrder) (plocType : PLocType)
    (name state : QString) :
    (createPLocPacket order plocType name state).Holds
      ((Request.pLoc plocType name state).wire order) := by
  have hheader := filled_allocPacket order
    (26 + plocType.typeString.length + 1 + name.length + 1 + state.length + 1) cookiePinf
    (by omega)
  have hkind := hheader.storeField order 4 20 cookiePinfPLoc (by simp) (by simp; omega)
  have hport := hkind.storeField order 2 24 0 (by simp) (by simp; omega)
  have htype := hport.memcpy 26 plocType.typeString.length 0 plocType.typeString.toAscii
    (by simp) (by simp) (by simp; omega)
  have hname := htype.memcpy (26 + (plocType.typeString.length + 1)) name.length 1 name.toAscii
    (by simp) (by simp; omega) (by simp; omega)
  have hstate := hname.memcpy (26 + (plocType.typeString.length + 1) + (name.length + 1))
    state.length 1 state.toAscii (by simp) (by simp; omega) (by simp; omega)
  have hpacket := hstate.holds (n := 1) (by simp; omega)
  have hsize : (Request.pLoc plocType name state).size order =
      26 + plocType.typeString.length + 1 + name.length + 1 + state.length + 1 := by
    simp [Request.size, Request.body]; omega
  rw [Request.wire, hsize]
  simpa [createPLocPacket, Request.body, Request.layer, terminated, List.take_of_length_le]
    using hpacket

theorem createUNamPacket_holds (order : ByteOrder) (universeIndex : UInt8) (name : QString) :
    (createUNamPacket order universeIndex name).Holds
      ((Request.uNam universeIndex name).wire order) := by
  have hheader := filled_allocPacket order (25 + name.length + 1) cookieSdmx (by omega)
  have hkind := hheader.storeField order 4 20 cookieSdmxUNam (by simp) (by simp; omega)
  have huniverse := hkind.storeField order 1 24 universeIndex.toNat (by simp) (by simp; omega)
  have hname := huniverse.memcpy 25 name.length 0 name.toAscii (by simp) (by simp) (by simp)
  have hpacket := hname.holds (n := 1) (by simp; omega)
  have hsize : (Request.uNam universeIndex name).size order = 25 + name.length + 1 := by
    simp [Request.size, Request.body]; omega
  rw [Request.wire, hsize]
  simpa [createUNamPacket, Request.body, Request.layer, terminated, List.take_of_length_le]
    using hpacket

theorem createChBkPacket_holds (order : ByteOrder) (blind : Bool) (universeIndex : UInt8)
    (firstChannelIndex channelCount : UInt16)
    (channelLevels : Vector UInt8 channelCount.toNat) :
    (createChBkPacket order blind universeIndex firstChannelIndex channelCount
      channelLevels).Holds ((Request.chBk blind universeIndex firstChannelIndex channelCount
        channelLevels).wire order) := by
  have hheader := filled_allocPacket order (30 + channelCount.toNat) cookieSdmx (by omega)
  have hkind := hheader.storeField order 4 20 cookieSdmxChBk (by simp) (by simp; omega)
  have hflag := hkind.storeField order 1 24 (if blind then 0x01 else 0x00) (by simp)
    (by simp; omega)
  have huniverse := hflag.storeField order 1 25 universeIndex.toNat (by simp) (by simp; omega)
  have hfirst := huniverse.storeField order 2 26 firstChannelIndex.toNat (by simp)
    (by simp; omega)
  have hcount := hfirst.storeField order 2 28 channelCount.toNat (by simp) (by simp)
  have hlevels := hcount.memcpy 30 channelCount.toNat 0 channelLevels.toList (by simp) (by simp)
    (by simp)
  have hpacket := hlevels.holds (n := 0) (by simp; omega)
  have hsize : (Request.chBk blind universeIndex firstChannelIndex channelCount
      channelLevels).size order = 30 + channelCount.toNat := by
    simp [Request.size, Request.body]; omega
  have hblind : UInt8.ofNat (if blind then 0x01 else 0x00) = if blind then 0x01 else 0x00 := by
    cases blind <;> rfl
  rw [Request.wire, hsize]
  simpa [createChBkPacket, Request.body, Request.layer, List.take_of_length_le, hblind]
    using hpacket

theorem createSXSrPacket_holds (order : ByteOrder) (str : QString) :
    (createSXSrPacket order str).Holds
      (citpHeader order (24 + str.length + 1) cookieSdmx ++
        Request.connectionBody order str) := by
  have hheader := filled_allocPacket order (24 + str.length + 1) cookieSdmx (by omega)
  have hkind := hheader.storeField order 4 20 cookieSdmxSXSr (by simp) (by simp; omega)
  have hstr := hkind.memcpy 24 str.length 0 str.toAscii (by simp) (by simp) (by simp)
  have hpacket := hstr.holds (n := 1) (by simp; omega)
  simpa [createSXSrPacket, Request.connectionBody, terminated, List.take_of_length_le]
    using hpacket

theorem createPtchPacket_holds (order : ByteOrder) (fixtureIdentifier : UInt16)
    (universeIndex : UInt8) (channelIndex channelCount : UInt16)
    (fixtureMake fixtureName : QString) :
    (createPtchPacket order fixtureIdentifier universeIndex channelIndex channelCount
      fixtureMake fixtureName).Holds ((Request.ptch fixtureIdentifier universeIndex channelIndex
        channelCount fixtureMake fixtureName).wire order) := by
  set makeSize := if fixtureMake.isEmpty then 0 else fixtureMake.length + 1 with hmakeSize
  have hheader := filled_allocPacket order (36 + (makeSize + (fixtureName.length + 1))) cookieFptc
    (by omega)
  have hkind := hheader.storeField order 4 20 cookieFptcPtch (by simp) (by simp; omega)
  have hhint := hkind.storeField order 4 24 0 (by simp) (by simp; omega)
  have hfixture := hhint.storeField order 2 28 fixtureIdentifier.toNat (by simp) (by simp; omega)
  have huniverse := hfixture.storeField order 1 30 universeIndex.toNat (by simp) (by simp; omega)
  have hchannel := huniverse.store 32 (order.encode 2 channelIndex.toNat) (by simp)
    (by simp; omega)
  have hcount := hchannel.storeField order 2 34 channelCount.toNat (by simp) (by simp)
  have hsize : (Request.ptch fixtureIdentifier universeIndex channelIndex channelCount
      fixtureMake fixtureName).size order = 36 + (makeSize + (fixtureName.length + 1)) := by
    by_cases hmake : fixtureMake.isEmpty <;>
      simp [Request.size, Request.body, Request.ptchBody, hmakeSize, hmake] <;> omega
  rw [Request.wire, hsize]
  by_cases hmake : fixtureMake.isEmpty
  · have hname := hcount.memcpy 36 fixtureName.length 0 (fixtureName.constData order)
      (by simp; omega) (by simp) (by simp; omega)
    have hpacket := hname.holds (n := 1) (by simp [hmakeSize, hmake]; omega)
    simpa [createPtchPacket, Request.body, Request.layer, Request.ptchBody, Request.ptchFields,
      terminated, hmake, hmakeSize, Buffer.storeField] using hpacket
  · have hmakeBytes := hcount.memcpy 36 fixtureMake.length 0 (fixtureMake.constData order)
      (by simp; omega) (by simp) (by simp [hmakeSize, hmake]; omega)
    have hname := hmakeBytes.memcpy (36 + (fixtureMake.length + 1)) fixtureName.length 1
      (fixtureName.constData order) (by simp; omega) (by simp; omega)
      (by simp [hmakeSize, hmake]; omega)
    have hpacket := hname.holds (n := 1) (by simp [hmakeSize, hmake]; omega)
    simpa [createPtchPacket, Request.body, Request.layer, Request.ptchBody, Request.ptchFields,
      terminated, hmake, hmakeSize, Buffer.storeField] using hpacket

theorem toNat_fixtureCount (h : ids.length < 65536) : (fixtureCount ids).toNat = ids.length :=
  UInt16.toNat_ofNat_of_lt' h

theorem createPatchListPacket_holds (order : ByteOrder) (contentType : ℕ)
    (hids : ids.length < 65536) :
    (createPatchListPacket order contentType 30 28 ids).Holds
      (citpHeader order (30 + 2 * ids.length) cookieFptc ++
        Request.patchListBody order contentType ids) := by
  have hheader := filled_allocPacket order (30 + ids.length * 2) cookieFptc (by omega)
  have hkind := hheader.storeField order 4 20 contentType (by simp) (by simp; omega)
  have hhint := hkind.storeField order 4 24 0 (by simp) (by simp; omega)
  have hcount := hhint.storeField order 2 28 ids.length (by simp) (by simp)
  have hids' := filled_storeIdentifiers hcount 30 ids (by simp) (by simp; omega)
  have hpacket := hids'.holds (n := 0) (by simp; omega)
  simpa [createPatchListPacket, toNat_fixtureCount hids, Request.patchListBody,
    Nat.mul_comm] using hpacket

theorem createSelePacket_holds (order : ByteOrder) (complete : Bool)
    (hids : ids.length < 65536) :
    (createSelePacket order ids complete).Holds ((Request.sele ids complete).wire order) := by
  have hheader := filled_allocPacket order (28 + ids.length * 2) cookieFsel (by omega)
  have hkind := hheader.storeField order 4 20 cookieFselSele (by simp) (by simp; omega)
  have hflag := hkind.storeField order 1 24 (if complete then 0xFF else 0x00) (by simp)
    (by simp; omega)
  have hcount := hflag.store 26 (order.encode 2 ids.length) (by simp) (by simp)
  have hids' := filled_storeIdentifiers hcount 28 ids (by simp) (by simp; omega)
  have hpacket := hids'.holds (n := 0) (by simp; omega)
  have hsize : (Request.sele ids complete).size order = 28 + ids.length * 2 := by
    simp [Request.size, Request.body]; omega
  have hcomplete : UInt8.ofNat (if complete then 0xFF else 0x00) =
      if complete then 0xFF else 0x00 := by
    cases complete <;> rfl
  rw [Request.wire, hsize]
  simpa [createSelePacket, toNat_fixtureCount hids, Request.body, Request.layer,
    Buffer.storeField, hcomplete] using hpacket

theorem createDeSePacket_holds (order : ByteOrder) (hids : ids.length < 65536) :
    (createDeSePacket order ids).Holds ((Request.deSe ids).wire order) := by
  have hheader := filled_allocPacket order (26 + ids.length * 2) cookieFsel (by omega)
  have hkind := hheader.storeField order 4 20 cookieFselDeSe (by simp) (by simp; omega)
  have hcount := hkind.storeField order 2 24 ids.length (by simp) (by simp)
  have hids' := filled_storeIdentifiers hcount 26 ids (by simp) (by simp; omega)
  have hpacket := hids'.holds (n := 0) (by simp; omega)
  have hsize : (Request.deSe ids).size order = 26 + ids.length * 2 := by
    simp [Request.size, Request.body]; omega
  rw [Request.wire, hsize]
  simpa [createDeSePacket, toNat_fixtureCount hids, Request.body, Request.layer] using hpacket

/-- **Every creator lays out the packet of its request**, inside its buffer and
up to its end. -/
theorem Request.create_holds (order : ByteOrder) (r : Request) (h : r.CountFits) :
    (r.create order).Holds (r.wire order) := by
  have hsxsr (str : QString) : (createSXSrPacket order str).Holds
      (citpHeader order (20 + (connectionBody order str).length) cookieSdmx ++
        connectionBody order str) := by
    have hlen : 20 + (connectionBody order str).length = 24 + str.length + 1 := by
      simp [connectionBody]; omega
    rw [hlen]
    exact createSXSrPacket_holds order str
  have hlist (contentType : ℕ) (ids : List UInt16) (hids : ids.length < 65536) :
      (createPatchListPacket order contentType 30 28 ids).Holds
        (citpHeader order (20 + (patchListBody order contentType ids).length) cookieFptc ++
          patchListBody order contentType ids) := by
    have hlen : 20 + (patchListBody order contentType ids).length = 30 + 2 * ids.length := by
      simp [patchListBody]; omega
    rw [hlen]
    exact createPatchListPacket_holds order contentType hids
  cases r with
  | pLoc plocType name state => exact createPLocPacket_holds order plocType name state
  | uNam universeIndex name => exact createUNamPacket_holds order universeIndex name
  | chBk blind universeIndex firstChannelIndex channelCount channelLevels =>
    exact createChBkPacket_holds order blind universeIndex firstChannelIndex channelCount
      channelLevels
  | sXSrArtNet | sXSrAvab | sXSrE131 | sXSrETCNet2 => exact hsxsr _
  | ptch fixtureIdentifier universeIndex channelIndex channelCount fixtureMake fixtureName =>
    exact createPtchPacket_holds order fixtureIdentifier universeIndex channelIndex channelCount
      fixtureMake fixtureName
  | sPtc ids => exact hlist cookieFptcSPtc ids h
  | uPtc ids => exact hlist cookieFptcUPtc ids h
  | sele ids complete => exact createSelePacket_holds order complete h
  | deSe ids => exact createDeSePacket_holds order h

/-- The bytes of the buffer that a creator returns. -/
theorem Request.contents_create (order : ByteOrder) (r : Request) (h : r.CountFits) :
    (r.create order).contents = r.wire order :=
  (r.create_holds order h).contents_eq

@[simp] theorem Request.length_wire (order : ByteOrder) (r : Request) :
    (r.wire order).length = r.size order := by
  simp [Request.wire, Request.size]

end CitpLib
