import CitpLib.Model.PeerInformationSocket
import CitpLib.Theorems.Parsing

/-!
# What a datagram announces

`processPacket` accepts the datagrams with the header of a version 1.0 peer
location message. This file says what such a datagram announces, that every
other datagram is ignored, and which size a datagram must have to be read within
its bounds.

## Main definitions

* `IsPLoc` — the header of a version 1.0 peer location message
* `announcementAt`, `announcement?` — what a datagram announces
* `Announcement.peer`, `Peer.key` — the peer added, and what it is searched by
* `DatagramLongEnough` — the datagram reaches to the end of what its fields
  announce

## Main results

* `processPacket_value_of_inBounds` — the effect of a datagram read in bounds
* `processPacket_inBounds_iff` — a datagram is read in bounds iff it is long
  enough
-/

namespace CitpLib

open Wire Reader

variable {Host : Type} {order : ByteOrder} {hostString : Host → QString} {address : Host}
  {peerList : List (Peer Host)} {a : List UInt8} {o x : ℕ}

/-! ## Strings one behind the other -/

/-- Where the string behind the one at offset `o` starts. -/
def nextString (a : List UInt8) (o : ℕ) : ℕ := o + ((cstringAt a o).length + 1)

theorem nextString_le_iff (ho : o ≤ a.length) : nextString a o ≤ a.length ↔ 0 ∈ a.drop o :=
  length_cstringAt_lt_iff ho

/-- A terminated string takes one of the terminators in the rest of the array. -/
theorem count_drop_nextString (h : 0 ∈ a.drop o) :
    (a.drop o).count 0 = (a.drop (nextString a o)).count 0 + 1 := by
  have hstep (bs : List UInt8) (hbs : 0 ∈ bs) :
      bs.count 0 = (bs.drop ((bs.takeWhile (· ≠ 0)).length + 1)).count 0 + 1 := by
    induction bs with
    | nil => simp at hbs
    | cons b bs ih =>
      by_cases hb : b = 0
      · simp [hb]
      · have hmem : 0 ∈ bs := (List.mem_cons.mp hbs).resolve_left (Ne.symm hb)
        simpa [hb] using ih hmem
  rw [hstep _ h, List.drop_drop, nextString, cstringAt]

/-- Three strings start inside or at the guarding NUL exactly when the first two
are terminated inside. -/
theorem strings_fit_iff (ho : o ≤ a.length) :
    nextString a o ≤ a.length ∧ nextString a (nextString a o) ≤ a.length ↔
      2 ≤ (a.drop o).count 0 := by
  by_cases hnul : 0 ∈ a.drop o
  · have hnext := (nextString_le_iff ho).mpr hnul
    have hcount := count_drop_nextString hnul
    have hpos : 0 < (a.drop (nextString a o)).count 0 ↔ 0 ∈ a.drop (nextString a o) :=
      List.count_pos_iff
    rw [nextString_le_iff hnext, ← hpos]
    omega
  · have hzero : (a.drop o).count 0 = 0 := List.count_eq_zero.mpr hnul
    rw [nextString_le_iff ho, hzero]
    simp [hnul]

/-! ## Announcements -/

/-- What a peer says about itself. -/
structure Announcement where
  listeningPort : UInt16
  typeString : QString
  name : QString
  state : QString
  deriving DecidableEq, Repr

/-- The header of a version 1.0 peer location message. -/
structure IsPLoc (order : ByteOrder) (a : List UInt8) : Prop
    extends IsMessage order cookiePinf cookiePinfPLoc a where
  versionMinor : fieldAt order 1 5 a = 0x00

theorem isPLoc_iff : IsPLoc order a ↔
    IsMessage order cookiePinf cookiePinfPLoc a ∧ fieldAt order 1 5 a = 0x00 :=
  ⟨fun h => ⟨h.toIsMessage, h.versionMinor⟩, fun h => ⟨h.1, h.2⟩⟩

instance : Decidable (IsPLoc order a) := decidable_of_iff _ isPLoc_iff.symm

/-- The port and the strings that stand in a peer location message. -/
def announcementAt (order : ByteOrder) (a : List UInt8) : Announcement where
  listeningPort := UInt16.ofNat (fieldAt order 2 24 a)
  typeString := .ofChars (cstringAt a 26)
  name := .ofChars (cstringAt a (nextString a 26))
  state := .ofChars (cstringAt a (nextString a (nextString a 26)))

/-- What a datagram announces, if it is a peer location message. -/
def announcement? (order : ByteOrder) (a : List UInt8) : Option Announcement :=
  if IsPLoc order a then some (announcementAt order a) else none

/-- The effect of an announcement on the list of peers. -/
def Announcement.add (announcement : Announcement) (hostString : Host → QString)
    (sender : Host) (peerList : List (Peer Host)) : List (Peer Host) × List DiscoverySignal :=
  addPeer hostString sender announcement.listeningPort announcement.typeString
    announcement.name announcement.state peerList

/-! ## Adding a peer -/

/-- What peers are told apart by: the text of the host, and the port. -/
def Peer.key (hostString : Host → QString) (peer : Peer Host) : QString × UInt16 :=
  (peer.peerHost hostString, peer.listeningPort)

/-- The peer that an announcement adds to the list. -/
def Announcement.peer (announcement : Announcement) (sender : Host) : Peer Host :=
  if announcement.typeString = .ofLiteral "Visualizer" then
    Visualizer.new sender announcement.listeningPort announcement.name announcement.state
  else
    Peer.new sender announcement.listeningPort announcement.name announcement.state

section Peer

variable (announcement : Announcement) (sender : Host)

@[simp] theorem host_peer : (announcement.peer sender).host = sender := by
  rw [Announcement.peer]
  split <;> rfl

@[simp] theorem listeningPort_peer :
    (announcement.peer sender).listeningPort = announcement.listeningPort := by
  rw [Announcement.peer]
  split <;> rfl

@[simp] theorem peerName_peer : (announcement.peer sender).peerName = announcement.name := by
  rw [Announcement.peer]
  split <;> rfl

@[simp] theorem peerState_peer : (announcement.peer sender).peerState = announcement.state := by
  rw [Announcement.peer]
  split <;> rfl

theorem peerType_peer : (announcement.peer sender).peerType = .visualizerPeer ↔
    announcement.typeString = .ofLiteral "Visualizer" := by
  rw [Announcement.peer]
  split
  · exact iff_of_true rfl ‹_›
  · exact iff_of_false PeerType.noConfusion ‹_›

@[simp] theorem key_peer : (announcement.peer sender).key hostString =
    (hostString sender, announcement.listeningPort) := by
  rw [Peer.key, Peer.peerHost, host_peer, listeningPort_peer]

/-- The scan of the list is a test for the key. -/
theorem add_eq : announcement.add hostString sender peerList =
    if (hostString sender, announcement.listeningPort) ∈ peerList.map (Peer.key hostString) then
      (peerList, [])
    else (peerList ++ [announcement.peer sender], [.peersUpdated]) := by
  have hscan : (peerList.any fun peer => peer.peerHost hostString == hostString sender &&
      peer.listeningPort == announcement.listeningPort) ↔
        (hostString sender, announcement.listeningPort) ∈ peerList.map (Peer.key hostString) := by
    simp [Peer.key]
  exact if_congr hscan rfl rfl

end Peer

/-! ## The value of a datagram -/

theorem processPacket_value (order : ByteOrder) (hostString : Host → QString) (address : Host)
    (peerList : List (Peer Host)) (a : List UInt8) :
    (processPacket order hostString address peerList).value a =
      if 4 ≤ a.length + 1 then
        if fieldAt order 4 0 a ≠ cookieCitp then some (peerList, [])
        else if 5 ≤ a.length + 1 then
          if fieldAt order 1 4 a ≠ 0x01 then some (peerList, [])
          else if 6 ≤ a.length + 1 then
            if fieldAt order 1 5 a ≠ 0x00 then some (peerList, [])
            else if 20 ≤ a.length + 1 then
              if fieldAt order 4 16 a ≠ cookiePinf then some (peerList, [])
              else if 24 ≤ a.length + 1 then
                if fieldAt order 4 20 a ≠ cookiePinfPLoc then some (peerList, [])
                else if 2 ≤ (a.drop 26).count 0 then
                  some ((announcementAt order a).add hostString address peerList)
                else none
              else none
            else none
          else none
        else none
      else none := by
  have hstrings :
      (if 26 ≤ a.length + 1 then if 26 ≤ a.length then if nextString a 26 ≤ a.length then
          if nextString a (nextString a 26) ≤ a.length then
            some ((announcementAt order a).add hostString address peerList)
          else none else none else none else none) =
        if 2 ≤ (a.drop 26).count 0 then
          some ((announcementAt order a).add hostString address peerList)
        else none := by
    by_cases hlen : 26 ≤ a.length
    · rw [if_pos (by omega), if_pos hlen, ← ite_and]
      exact if_congr (strings_fit_iff hlen) rfl rfl
    · have hdrop : a.drop 26 = [] := List.drop_eq_nil_of_le (by omega)
      simp [hlen, hdrop]
  rw [← hstrings]
  simp only [processPacket, CitpHeader.cookie, CitpHeader.versionMajor, CitpHeader.versionMinor,
    CitpHeader.contentType, CitpPinfHeader.contentType, CitpPinfPLoc.listeningTcpPort,
    CitpPinfPLoc.sizeof, CitpPinfHeader.sizeof, CitpHeader.sizeof, value_field_bind,
    value_cstring_bind, value_ite, value_pure, length_ofChars, Nat.reduceAdd, Nat.reduceLT]
  rfl

/-! ## Bounds -/

/-- The datagram reaches to the end of each field that its fields before select, the
NUL behind it included; of the three strings of an announcement the first two are
terminated inside. -/
structure DatagramLongEnough (order : ByteOrder) (a : List UInt8) : Prop where
  cookie : 3 ≤ a.length
  versionMajor : fieldAt order 4 0 a = cookieCitp → 4 ≤ a.length
  versionMinor : fieldAt order 4 0 a = cookieCitp → fieldAt order 1 4 a = 0x01 → 5 ≤ a.length
  layer : fieldAt order 4 0 a = cookieCitp → fieldAt order 1 4 a = 0x01 →
    fieldAt order 1 5 a = 0x00 → 19 ≤ a.length
  message : IsLayer order cookiePinf a → fieldAt order 1 5 a = 0x00 → 23 ≤ a.length
  strings : IsPLoc order a → 2 ≤ (a.drop 26).count 0

theorem datagramLongEnough_of_value_isSome
    (h : ((processPacket order hostString address peerList).value a).isSome) :
    DatagramLongEnough order a where
  cookie := by
    by_contra hlt
    simp [processPacket_value, hlt] at h
  versionMajor hcookie := by
    by_contra hlt
    simp [processPacket_value, hcookie, hlt] at h
  versionMinor hcookie hmajor := by
    by_contra hlt
    simp [processPacket_value, hcookie, hmajor, hlt] at h
  layer hcookie hmajor hminor := by
    by_contra hlt
    simp [processPacket_value, hcookie, hmajor, hminor, hlt] at h
  message hlayer hminor := by
    by_contra hlt
    simp [processPacket_value, hlayer.cookie, hlayer.versionMajor, hminor, hlayer.layer, hlt] at h
  strings hploc := by
    by_contra hlt
    simp [processPacket_value, hploc.cookie, hploc.versionMajor, hploc.versionMinor, hploc.layer,
      hploc.message, hlt] at h

/-- A datagram that is long enough announces a peer or has no effect. -/
theorem DatagramLongEnough.value_eq (h : DatagramLongEnough order a)
    (hostString : Host → QString) (address : Host) (peerList : List (Peer Host)) :
    (processPacket order hostString address peerList).value a =
      some (match announcement? order a with
        | some announcement => announcement.add hostString address peerList
        | none => (peerList, [])) := by
  have hother (hne : ¬ IsPLoc order a) : announcement? order a = none := if_neg hne
  -- each test of the header is met in turn, with the size that it asks for
  rw [processPacket_value, if_pos (Nat.succ_le_succ h.cookie)]
  by_cases hcookie : fieldAt order 4 0 a = cookieCitp
  swap
  · rw [if_pos hcookie, hother fun hploc => hcookie hploc.cookie]
  rw [if_neg (not_not.mpr hcookie), if_pos (Nat.succ_le_succ (h.versionMajor hcookie))]
  by_cases hmajor : fieldAt order 1 4 a = 0x01
  swap
  · rw [if_pos hmajor, hother fun hploc => hmajor hploc.versionMajor]
  rw [if_neg (not_not.mpr hmajor), if_pos (Nat.succ_le_succ (h.versionMinor hcookie hmajor))]
  by_cases hminor : fieldAt order 1 5 a = 0x00
  swap
  · rw [if_pos hminor, hother fun hploc => hminor hploc.versionMinor]
  rw [if_neg (not_not.mpr hminor), if_pos (Nat.succ_le_succ (h.layer hcookie hmajor hminor))]
  by_cases hlayer : fieldAt order 4 16 a = cookiePinf
  swap
  · rw [if_pos hlayer, hother fun hploc => hlayer hploc.layer]
  have hpinf : IsLayer order cookiePinf a := ⟨hcookie, hmajor, hlayer⟩
  rw [if_neg (not_not.mpr hlayer), if_pos (Nat.succ_le_succ (h.message hpinf hminor))]
  by_cases hmessage : fieldAt order 4 20 a = cookiePinfPLoc
  swap
  · rw [if_pos hmessage, hother fun hploc => hmessage hploc.message]
  have hploc : IsPLoc order a := ⟨⟨hpinf, hmessage⟩, hminor⟩
  rw [if_neg (not_not.mpr hmessage), if_pos (h.strings hploc), announcement?, if_pos hploc]

/-- Reading a datagram has a value exactly when it is long enough. -/
theorem processPacket_value_isSome_iff :
    ((processPacket order hostString address peerList).value a).isSome ↔
      DatagramLongEnough order a := by
  constructor
  · exact datagramLongEnough_of_value_isSome
  · intro h
    rw [h.value_eq]
    rfl

/-- **Bounds of the discovery path.** A datagram is read within its bounds, whoever
sent it and whatever peers are known, exactly when it is long enough. -/
theorem processPacket_inBounds_iff (order : ByteOrder) (hostString : Host → QString)
    (address : Host) (peerList : List (Peer Host)) (a : List UInt8) :
    (processPacket order hostString address peerList).InBounds a ↔
      DatagramLongEnough order a := by
  rw [← value_isSome_iff]
  exact processPacket_value_isSome_iff

/-- The name of this announcement is sought behind its type, which no terminator ends. -/
theorem processPacket_not_inBounds :
    ¬ (processPacket .little id (.ofLiteral "10.0.0.7") []).InBounds
      [0x43, 0x49, 0x54, 0x50, 0x01, 0x00, 0x00, 0x00, 0x1e, 0x00, 0x00, 0x00, 0x01, 0x00,
        0x01, 0x00, 0x50, 0x49, 0x4e, 0x46, 0x50, 0x4c, 0x6f, 0x63, 0x00, 0x00, 0x56, 0x69,
        0x73, 0x75] := by
  intro hin
  exact absurd ((value_isSome_iff _ _).mpr hin) (by decide)

end CitpLib
