import Mathlib.Data.List.TakeWhile
import CitpLib.Theorems.Announcer
import CitpLib.Theorems.Announcement
import CitpLib.Theorems.Calls

/-!
# What is heard of an announcement

An announcement may be made of any strings, on a host of either byte order. A host of
the same byte order that receives it reads it within its bounds and hears of a peer
with port 0. Of the name and the state it hears what is found between terminators, each
character in one byte: both arrive as they are exactly if they are Latin-1 strings.
A host of the other byte order ignores the datagram.

## Main definitions

* `heardName`, `heardState` — the strings that arrive for given strings

## Main results

* `announcement?_wire` — what is announced to a host
* `announcement_heard` — what becomes of the list of peers there
* `heard_eq_iff` — when the strings arrive as they are
-/

namespace CitpLib

open Wire Reader

variable {Host : Type} {order order' : ByteOrder} {plocType : PLocType} {name state : QString}
  {chars xs post : List UInt8}

/-! ## Strings -/

/-- The name and the state in a datagram that announces them. -/
def announcedStrings (name state : QString) : List UInt8 :=
  terminated name.toAscii ++ terminated state.toAscii

/-- The name that is heard: it ends at the first terminator. -/
def heardName (name state : QString) : QString :=
  .ofChars (firstString (announcedStrings name state))

/-- If there is a terminator in the name, the state is sought behind that. -/
def heardState (name state : QString) : QString :=
  .ofChars (secondString (announcedStrings name state))

/-- What is heard is a Latin-1 string. -/
theorem latin1_ofChars_firstString (chars : List UInt8) :
    Latin1 (QString.ofChars (firstString chars)) := by
  intro c hc
  obtain ⟨b, hb, rfl⟩ := List.mem_map.mp hc
  have hne : b ≠ 0 := by simpa using List.mem_takeWhile_imp hb
  have hpos : b.toNat ≠ 0 := fun hzero => hne (UInt8.toNat_inj.mp hzero)
  have hlt := b.toNat_lt
  rw [UInt8.toNat_toUInt16]
  omega

theorem firstString_terminated (hxs : 0 ∉ xs) (post : List UInt8) :
    firstString (terminated xs ++ post) = xs :=
  takeWhile_terminated hxs post

theorem secondString_terminated (hxs : 0 ∉ xs) (post : List UInt8) :
    secondString (terminated xs ++ post) = firstString post := by
  have hlen : (terminated xs).length = xs.length + 1 := by simp [terminated]
  rw [secondString, firstString_terminated hxs, ← hlen, List.drop_left]

/-- **When the strings arrive as they are.** -/
theorem heard_eq_iff : (heardName name state, heardState name state) = (name, state) ↔
    Latin1 name ∧ Latin1 state := by
  constructor
  · intro h
    obtain ⟨hname, hstate⟩ := Prod.mk.inj h
    constructor
    · rw [← hname]
      exact latin1_ofChars_firstString _
    · rw [← hstate]
      exact latin1_ofChars_firstString _
  · intro h
    obtain ⟨hname, hstate⟩ := h
    have hfirst := firstString_terminated (zero_notMem_toAscii hname)
      (terminated state.toAscii)
    have hsecond := secondString_terminated (zero_notMem_toAscii hname)
      (terminated state.toAscii)
    have hbehind := firstString_terminated (zero_notMem_toAscii hstate) []
    rw [List.append_nil] at hbehind
    rw [heardName, heardState, announcedStrings, hfirst, hsecond, hbehind,
      ofChars_toAscii hname, ofChars_toAscii hstate]

/-! ## The datagram -/

/-- The datagram for these strings, as a header, a port and strings. -/
theorem wire_pLoc (order : ByteOrder) (plocType : PLocType) (name state : QString) :
    (Request.pLoc plocType name state).wire order =
      citpHeader order ((Request.pLoc plocType name state).size order) cookiePinf ++
        (order.encode 4 cookiePinfPLoc ++ (order.encode 2 0 ++
          (terminated plocType.typeString.toAscii ++ announcedStrings name state))) := by
  simp only [Request.wire, Request.body, Request.layer, announcedStrings, List.append_assoc]

theorem isPLoc_wire (order : ByteOrder) (plocType : PLocType) (name state : QString) :
    IsPLoc order ((Request.pLoc plocType name state).wire order) := by
  rw [wire_pLoc]
  refine ⟨isMessage_citpHeader order _ (by decide) (by decide) _, ?_⟩
  simp [citpHeader, fieldAt_append_right, fieldAt_cons_succ, fieldAt_one_eq_iff]

/-! ### The strings -/

theorem cstringAt_type_wire (order : ByteOrder) (plocType : PLocType) (name state : QString) :
    cstringAt ((Request.pLoc plocType name state).wire order) 26 =
      plocType.typeString.toAscii := by
  rw [wire_pLoc, ← List.append_assoc, ← List.append_assoc]
  apply cstringAt_terminated (zero_notMem_toAscii (latin1_typeString plocType))
  simp

theorem nextString_wire (order : ByteOrder) (plocType : PLocType) (name state : QString) :
    nextString ((Request.pLoc plocType name state).wire order) 26 =
      26 + (terminated plocType.typeString.toAscii).length := by
  rw [nextString, cstringAt_type_wire, terminated, List.length_append, List.length_singleton]

theorem drop_wire (order : ByteOrder) (plocType : PLocType) (name state : QString) :
    ((Request.pLoc plocType name state).wire order).drop
        (26 + (terminated plocType.typeString.toAscii).length) = announcedStrings name state := by
  rw [wire_pLoc, ← List.append_assoc, ← List.append_assoc, ← List.append_assoc]
  apply List.drop_left'
  simp
  omega

/-- **What is announced to a host**: to one of the same byte order, a peer that does not
listen, with the strings that are heard; to one of the other byte order, nothing. -/
theorem announcement?_wire (order order' : ByteOrder) (plocType : PLocType)
    (name state : QString) :
    announcement? order ((Request.pLoc plocType name state).wire order') =
      if order = order' then
        some ⟨0, plocType.typeString, heardName name state, heardState name state⟩
      else none := by
  by_cases horder : order = order'
  · subst horder
    have hport : fieldAt order 2 24 ((Request.pLoc plocType name state).wire order) = 0 := by
      rw [wire_pLoc, ← List.append_assoc, ← List.append_assoc]
      exact fieldAt_append order _ _ (by simp) (by decide)
    rw [if_pos rfl, announcement?, if_pos (isPLoc_wire order plocType name state),
      announcementAt, hport, cstringAt_type_wire, ofChars_toAscii (latin1_typeString plocType)]
    rw [nextString.eq_1 _ (nextString _ 26), nextString_wire, cstringAt, drop_wire, cstringAt,
      ← List.drop_drop, drop_wire]
    rfl
  · rw [if_neg horder]
    exact if_neg fun hploc => fieldAt_wire_ne horder _ hploc.cookie

theorem datagramLongEnough_wire (order order' : ByteOrder) (plocType : PLocType)
    (name state : QString) :
    DatagramLongEnough order ((Request.pLoc plocType name state).wire order') := by
  have hlen : 26 ≤ ((Request.pLoc plocType name state).wire order').length := by
    rw [wire_pLoc]
    simp
    omega
  refine ⟨by omega, fun _ => by omega, fun _ _ => by omega, fun _ _ _ => by omega,
    fun _ _ => by omega, fun hploc => ?_⟩
  by_cases horder : order = order'
  · rw [wire_pLoc, ← List.append_assoc, ← List.append_assoc, List.drop_left' (by simp)]
    simp only [announcedStrings, terminated, List.count_append, List.count_singleton_self]
    omega
  · exact absurd hploc.cookie (fieldAt_wire_ne horder _)

/-- The type of peer is the one thing that an announcement's type string decides. -/
theorem typeString_eq_visualizer_iff :
    plocType.typeString = .ofLiteral "Visualizer" ↔ plocType = .visualizer := by
  cases plocType <;> decide

/-- **What becomes of an announcement.** A datagram that is made from any strings, on a host
of either byte order, is read within its bounds by every host. On one of the same byte order
it appends one peer that does not listen, with the strings that are heard, unless a peer at
this host with port 0 is listed already; then, and on a host of the other byte order, it has
no effect. The name and the state are heard as they are exactly if both are Latin-1 strings. -/
theorem announcement_heard (order order' : ByteOrder) (hostString : Host → QString)
    (sender : Host) (peerList : List (Peer Host)) (plocType : PLocType) (name state : QString) :
    (processPacket order hostString sender peerList).InBounds
        (createPLocPacket order' plocType name state).contents ∧
      (order = order' → (hostString sender, 0) ∉ peerList.map (Peer.key hostString) →
        ∃ peer, (processPacket order hostString sender peerList).value
            (createPLocPacket order' plocType name state).contents =
              some (peerList ++ [peer], [.peersUpdated]) ∧
          peer.host = sender ∧ peer.listeningPort = 0 ∧ peer.peerName = heardName name state ∧
          peer.peerState = heardState name state ∧
          (peer.peerType = .visualizerPeer ↔ plocType = .visualizer)) ∧
      (order ≠ order' ∨ (hostString sender, 0) ∈ peerList.map (Peer.key hostString) →
        (processPacket order hostString sender peerList).value
          (createPLocPacket order' plocType name state).contents = some (peerList, [])) ∧
      ((heardName name state, heardState name state) = (name, state) ↔
        Latin1 name ∧ Latin1 state) := by
  have hcontents := (createPLocPacket_holds order' plocType name state).contents_eq
  have hlong := datagramLongEnough_wire order order' plocType name state
  rw [hcontents]
  refine ⟨(value_isSome_iff _ _).mp (processPacket_value_isSome_iff.mpr hlong),
    fun horder hnew => ?_, fun hnothing => ?_, heard_eq_iff⟩
  · set announcement : Announcement :=
      ⟨0, plocType.typeString, heardName name state, heardState name state⟩
    have hvalue := hlong.value_eq hostString sender peerList
    rw [announcement?_wire, if_pos horder] at hvalue
    refine ⟨announcement.peer sender, ?_, host_peer _ _, listeningPort_peer _ _,
      peerName_peer _ _, peerState_peer _ _,
      (peerType_peer _ _).trans typeString_eq_visualizer_iff⟩
    rw [hvalue]
    exact congrArg some ((add_eq announcement sender).trans (if_neg hnew))
  · rw [hlong.value_eq, announcement?_wire]
    rcases hnothing with horder | hknown
    · rw [if_neg horder]
    · by_cases horder : order = order'
      · rw [if_pos horder]
        exact congrArg some ((add_eq _ sender).trans (if_pos hknown))
      · rw [if_neg horder]

/-- The announcement of a visualizer whose name is not Latin-1. -/
theorem announcement_heard_visualizer :
    ∃ peer, (processPacket .big id (.ofLiteral "10.0.0.7") []).value
        (createPLocPacket .big .visualizer [0x2603, 0x41] (.ofLiteral "Idle")).contents =
          some ([peer], [.peersUpdated]) ∧
      peer.peerName = heardName [0x2603, 0x41] (.ofLiteral "Idle") ∧
      peer.peerType = .visualizerPeer := by
  obtain ⟨-, hadds, -⟩ := announcement_heard .big .big id (.ofLiteral "10.0.0.7") []
    .visualizer [0x2603, 0x41] (.ofLiteral "Idle")
  obtain ⟨peer, hvalue, -, -, hname, -, htype⟩ := hadds rfl (by simp)
  exact ⟨peer, hvalue, hname, htype.mpr rfl⟩

end CitpLib
