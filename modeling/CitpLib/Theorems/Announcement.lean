import CitpLib.Theorems.Discovery
import CitpLib.Theorems.Latin1
import CitpLib.Theorems.Layout

/-!
# Round trip of announcements

A peer location message is a header, a port and three terminated strings, each
of which is found only by the length of the ones before it. On a little-endian
host every such datagram is read inside its bounds and announces what it was
made from, whatever stands in the header bytes that nobody checks and behind
the strings. The announcement that `createPLocPacket` lays out is one of them.

## Main definitions

* `announcementBytes` — the datagrams that announce a port and three strings

## Main results

* `lt_of_mem_reads_processPacket` — no read behind the third terminator
* `announcementAt_announcementBytes` — the strings and the port arrive
* `announcement_roundTrip` — what is announced is what is added
-/

namespace CitpLib

open Wire Reader

variable {Host : Type} {order : ByteOrder} {hostString : Host → QString} {address : Host}
  {peerList : List (Peer Host)} {a unchecked trailing : List UInt8} {o x : ℕ} {port : UInt16}
  {typeString name state : QString}

/-! ## What is read -/

/-- A reader that goes on only if a field has the value asked for. -/
theorem mem_reads_field_test {β : Type} {w n : ℕ} {y : β} {m : Reader β} (hw : 0 < w)
    (h : x ∈ (field order w o >>= fun v => if v ≠ n then pure y else m).reads a) :
    x < o + w ∨ x ∈ m.reads a := by
  rcases mem_reads_field_bind hw h with ⟨-, hlt⟩ | h
  · exact .inl hlt
  · rw [reads_ite] at h
    split at h
    · simp at h
    · exact .inr h

theorem lt_nextString (a : List UInt8) (o : ℕ) : o < nextString a o := by
  rw [nextString]
  omega

/-- No read goes behind the terminator of the third string. -/
theorem lt_of_mem_reads_processPacket
    (h : x ∈ (processPacket order hostString address peerList).reads a) :
    x < nextString a (nextString a (nextString a 26)) := by
  have hfirst := lt_nextString a 26
  have hsecond := lt_nextString a (nextString a 26)
  have hthird := lt_nextString a (nextString a (nextString a 26))
  have hscan (o : ℕ) (hle : x ≤ o + (cstringAt a o).length) : x < nextString a o :=
    Nat.lt_succ_of_le hle
  have hfields (n : ℕ) (hlt : x < n) (hn : n ≤ 26) :
      x < nextString a (nextString a (nextString a 26)) := by omega
  rcases mem_reads_field_test (by decide) h with hlt | h
  · exact hfields _ hlt (by decide)
  rcases mem_reads_field_test (by decide) h with hlt | h
  · exact hfields _ hlt (by decide)
  rcases mem_reads_field_test (by decide) h with hlt | h
  · exact hfields _ hlt (by decide)
  rcases mem_reads_field_test (by decide) h with hlt | h
  · exact hfields _ hlt (by decide)
  rcases mem_reads_field_test (by decide) h with hlt | h
  · exact hfields _ hlt (by decide)
  rcases mem_reads_field_bind (by decide) h with ⟨-, hlt⟩ | h
  · exact hfields _ hlt (by decide)
  rcases mem_reads_cstring_bind h with ⟨-, hle⟩ | h
  · exact (hscan 26 hle).trans (hsecond.trans hthird)
  rcases mem_reads_cstring_bind h with ⟨-, hle⟩ | h
  · rw [length_ofChars] at hle
    exact (hscan (nextString a 26) hle).trans hthird
  rcases mem_reads_cstring_bind h with ⟨-, hle⟩ | h
  · simp only [length_ofChars] at hle
    exact hscan (nextString a (nextString a 26)) hle
  · simp at h

/-! ## Datagrams that announce -/

/-- The part of an announcement in front of its strings. -/
def announcementHeader (unchecked : List UInt8) (port : UInt16) : List UInt8 :=
  chars "CITP" ++ [0x01, 0x00] ++ unchecked ++ chars "PINF" ++ chars "PLoc" ++
    ByteOrder.little.encode 2 port.toNat

/-- The datagrams that announce a port and three strings: header bytes 6 to 15
and what follows the strings are not looked at. -/
def announcementBytes (unchecked : List UInt8) (port : UInt16) (typeString name state : QString)
    (trailing : List UInt8) : List UInt8 :=
  announcementHeader unchecked port ++ (terminated typeString.toAscii ++
    (terminated name.toAscii ++ (terminated state.toAscii ++ trailing)))

theorem length_announcementHeader (hunchecked : unchecked.length = 10) (port : UInt16) :
    (announcementHeader unchecked port).length = 26 := by
  have hpinf : (chars "PINF").length = 4 := MessageKind.pLoc.isCookie_layer.length_chars
  have hploc : (chars "PLoc").length = 4 := MessageKind.pLoc.isCookie.length_chars
  simp [announcementHeader, hunchecked, isCookie_citp.length_chars, hpinf, hploc]

/-- The header is that of a version 1.0 peer location message. -/
theorem isPLoc_announcementHeader (hunchecked : unchecked.length = 10) (port : UInt16)
    (rest : List UInt8) : IsPLoc .little (announcementHeader unchecked port ++ rest) := by
  have hcitp : chars "CITP" = [0x43, 0x49, 0x54, 0x50] := by decide
  have hpinf : chars "PINF" = [0x50, 0x49, 0x4e, 0x46] := by decide
  have hploc : chars "PLoc" = [0x50, 0x4c, 0x6f, 0x63] := by decide
  have hheader : HasHeader "PINF" "PLoc" (announcementHeader unchecked port ++ rest) := by
    refine ⟨?_, ?_, ?_, ?_⟩
    · simp [announcementHeader, hcitp]
    · simp [announcementHeader, hcitp]
    · simp [announcementHeader, hcitp, hpinf, hunchecked]
    · have hdrop : unchecked.drop 14 = [] := List.drop_eq_nil_of_le (by omega)
      simp [announcementHeader, hcitp, hpinf, hploc, hunchecked, hdrop, List.drop_append]
  refine ⟨MessageKind.pLoc.isMessage_iff.mpr hheader, (fieldAt_one_eq_iff (by decide)).mpr ?_⟩
  simp [announcementHeader, hcitp]

section Strings

variable (hunchecked : unchecked.length = 10)
  (ha : a = announcementBytes unchecked port typeString name state trailing)

include hunchecked ha

theorem typeString_announcementBytes (htype : Latin1 typeString) :
    cstringAt a 26 = typeString.toAscii := by
  rw [ha]
  exact cstringAt_terminated (zero_notMem_toAscii htype)
    (length_announcementHeader hunchecked port).symm _

theorem name_announcementBytes (hname : Latin1 name) :
    cstringAt a (26 + (typeString.length + 1)) = name.toAscii := by
  rw [ha, announcementBytes, ← List.append_assoc]
  exact cstringAt_terminated (zero_notMem_toAscii hname)
    (by simp [length_announcementHeader hunchecked]) _

theorem state_announcementBytes (hstate : Latin1 state) :
    cstringAt a (26 + (typeString.length + 1) + (name.length + 1)) = state.toAscii := by
  rw [ha, announcementBytes, ← List.append_assoc, ← List.append_assoc]
  exact cstringAt_terminated (zero_notMem_toAscii hstate)
    (by simp [length_announcementHeader hunchecked, Nat.add_assoc]) _

theorem nextString_type (htype : Latin1 typeString) :
    nextString a 26 = 26 + (typeString.length + 1) := by
  rw [nextString, typeString_announcementBytes hunchecked ha htype, QString.length_toAscii]

theorem nextString_name (htype : Latin1 typeString) (hname : Latin1 name) :
    nextString a (nextString a 26) = 26 + (typeString.length + 1) + (name.length + 1) := by
  rw [nextString_type hunchecked ha htype, nextString,
    name_announcementBytes hunchecked ha hname, QString.length_toAscii]

variable (htype : Latin1 typeString) (hname : Latin1 name) (hstate : Latin1 state)

include htype hname hstate

/-- **What is announced arrives.** -/
theorem announcementAt_announcementBytes :
    announcementAt .little a = ⟨port, typeString, name, state⟩ := by
  have hport : fieldAt .little 2 24 a = port.toNat := by
    have hlen := length_announcementHeader hunchecked port
    rw [announcementHeader, List.length_append, ByteOrder.length_encode] at hlen
    rw [ha, announcementBytes, announcementHeader]
    exact fieldAt_append .little _ _ (by omega) port.toNat_lt
  rw [announcementAt, hport, UInt16.ofNat_toNat, nextString_name hunchecked ha htype hname,
    nextString_type hunchecked ha htype, typeString_announcementBytes hunchecked ha htype,
    name_announcementBytes hunchecked ha hname, state_announcementBytes hunchecked ha hstate,
    ofChars_toAscii htype, ofChars_toAscii hname, ofChars_toAscii hstate]

/-- Every read lies inside the datagram. -/
theorem lt_length_of_mem_reads
    (h : x ∈ (processPacket .little hostString address peerList).reads a) : x < a.length := by
  have hlt := lt_of_mem_reads_processPacket h
  rw [nextString.eq_1 a (nextString a (nextString a 26)),
    nextString_name hunchecked ha htype hname, state_announcementBytes hunchecked ha hstate,
    QString.length_toAscii] at hlt
  have hlen : a.length = 26 + (typeString.length + 1 + (name.length + 1 +
      (state.length + 1 + trailing.length))) := by
    rw [ha]
    simp [announcementBytes, length_announcementHeader hunchecked]
  omega

/-- The effect of a datagram that announces. -/
theorem processPacket_announcementBytes :
    (processPacket .little hostString address peerList).value a =
      some (addPeer hostString address port typeString name state peerList) := by
  have hin : (processPacket .little hostString address peerList).InBounds a := by
    intro o ho
    exact (lt_length_of_mem_reads hunchecked ha htype hname hstate ho).le
  have hploc : IsPLoc .little a := by
    rw [ha]
    exact isPLoc_announcementHeader hunchecked port _
  have hlong := datagramLongEnough_of_value_isSome ((value_isSome_iff _ _).mpr hin)
  rw [hlong.value_eq, announcement?, if_pos hploc,
    announcementAt_announcementBytes hunchecked ha htype hname hstate]
  rfl

end Strings

/-! ## The announcement that is created -/

theorem contents_createPLocPacket (plocType : PLocType) (name state : QString) :
    (createPLocPacket .little plocType name state).contents =
      announcementBytes ([0x00, 0x00] ++
        ByteOrder.little.encode 4 (createPLocPacket .little plocType name state).len ++
          [0x01, 0x00, 0x01, 0x00]) 0 plocType.typeString name state [] := by
  have hholds := createPLocPacket_holds .little plocType name state
  have hpinf : ByteOrder.little.encode 4 cookiePinf = chars "PINF" :=
    MessageKind.pLoc.isCookie_layer.2.2.1
  have hploc : ByteOrder.little.encode 4 cookiePinfPLoc = chars "PLoc" :=
    MessageKind.pLoc.isCookie.2.2.1
  have hsize : (Request.pLoc plocType name state).size .little =
      (createPLocPacket .little plocType name state).len := by
    rw [← hholds.length_eq, Request.length_wire]
  rw [hholds.contents_eq, Request.wire, hsize, citpHeader, announcementBytes, announcementHeader,
    ← isCookie_citp.2.2.1, ← hpinf, ← hploc]
  simp [Request.body, Request.layer, ByteOrder.encode, leBytes]

/-- **Round trip of announcements.** A datagram of an announcement is read inside
its bounds and adds a peer with the port and the strings it was made from. When no
known peer has this host and port one peer is appended, a visualizer iff it says so.
The packets of `createPLocPacket` are such datagrams. -/
theorem announcement_roundTrip (hostString : Host → QString) (sender : Host)
    (peerList : List (Peer Host)) :
    (∀ (unchecked : List UInt8) (port : UInt16) (typeString name state : QString)
        (trailing a : List UInt8), unchecked.length = 10 → Latin1 typeString → Latin1 name →
        Latin1 state → a = announcementBytes unchecked port typeString name state trailing →
      (∀ o ∈ (processPacket .little hostString sender peerList).reads a, o < a.length) ∧
      (processPacket .little hostString sender peerList).value a =
        some (addPeer hostString sender port typeString name state peerList) ∧
      ((∀ peer ∈ peerList,
          ¬ (peer.peerHost hostString = hostString sender ∧ peer.listeningPort = port)) →
        ∃ peer, addPeer hostString sender port typeString name state peerList =
            (peerList ++ [peer], [.peersUpdated]) ∧
          peer.host = sender ∧ peer.listeningPort = port ∧ peer.peerName = name ∧
          peer.peerState = state ∧
          (peer.peerType = .visualizerPeer ↔ typeString = .ofLiteral "Visualizer"))) ∧
    ∀ (plocType : PLocType) (name state : QString) (typeName : String) (packet : Buffer UInt8),
      typeName = (match plocType with
        | .lightingConsole => "LightingConsole"
        | .mediaServer => "MediaServer"
        | .visualizer => "Visualizer"
        | .operationHub => "OperationHub") →
      packet = createPLocPacket .little plocType name state →
      packet.contents = announcementBytes ([0x00, 0x00] ++
        ByteOrder.little.encode 4 packet.len ++ [0x01, 0x00, 0x01, 0x00]) 0 (.ofLiteral typeName)
          name state [] ∧
      (packet.contents.drop 26).takeWhile (· ≠ 0) = chars typeName ∧
      packet.contents.length = packet.len ∧
      (packet.len < 2 ^ 31 → fieldAt .little 4 8 packet.contents = packet.len) := by
  constructor
  · intro unchecked port typeString name state trailing a hunchecked htype hname hstate ha
    refine ⟨fun o => lt_length_of_mem_reads hunchecked ha htype hname hstate,
      processPacket_announcementBytes hunchecked ha htype hname hstate, fun hnew => ?_⟩
    set announcement : Announcement := ⟨port, typeString, name, state⟩
    have hunknown : (hostString sender, port) ∉ peerList.map (Peer.key hostString) := by
      intro hmem
      obtain ⟨peer, hpeer, hkey⟩ := List.mem_map.mp hmem
      exact hnew peer hpeer (Prod.mk.inj hkey)
    refine ⟨announcement.peer sender, ?_, by simp, by simp [announcement],
      by simp [announcement], by simp [announcement], peerType_peer announcement sender⟩
    exact (add_eq announcement sender).trans (if_neg hunknown)
  · rintro plocType name state typeName packet htypeName rfl
    have htype : plocType.typeString = .ofLiteral typeName ∧
        plocType.typeString.toAscii = chars typeName := by
      rw [htypeName]
      cases plocType <;> decide
    have hcontents := contents_createPLocPacket plocType name state
    have hfirst := typeString_announcementBytes (by simp) hcontents (latin1_typeString plocType)
    have hholds := createPLocPacket_holds .little plocType name state
    have hlen := hholds.length_eq
    rw [Request.length_wire] at hlen
    rw [htype.1] at hcontents
    rw [htype.2, cstringAt] at hfirst
    refine ⟨hcontents, hfirst, Buffer.length_contents _, fun hlt => ?_⟩
    rw [← hlen] at hlt ⊢
    rw [hholds.contents_eq, Request.fieldAt_messageSize (hlt.trans (by decide))]

/-- A visualizer announces itself, with a byte behind its strings, and a media server is
announced by its name. -/
theorem announcement_roundTrip_visualizer :
    (∃ peer, (processPacket .little id (.ofLiteral "10.0.0.7") []).value
        (announcementBytes (List.replicate 10 9) 4011 (.ofLiteral "Visualizer")
          (.ofLiteral "Capture") (.ofLiteral "Idle") [7]) = some ([peer], [.peersUpdated]) ∧
      peer.peerType = .visualizerPeer) ∧
    ((createPLocPacket .little .mediaServer (.ofLiteral "Pool") []).contents.drop 26).takeWhile
      (· ≠ 0) = chars "MediaServer" := by
  obtain ⟨hdatagrams, hpackets⟩ := announcement_roundTrip id (.ofLiteral "10.0.0.7") []
  constructor
  · obtain ⟨-, hvalue, hnew⟩ := hdatagrams (List.replicate 10 9) 4011 (.ofLiteral "Visualizer")
      (.ofLiteral "Capture") (.ofLiteral "Idle") [7] _ List.length_replicate (by decide)
      (by decide) (by decide) rfl
    obtain ⟨peer, hadd, -, -, -, -, htype⟩ := hnew (by simp)
    exact ⟨peer, hvalue.trans (congrArg some hadd), htype.mpr rfl⟩
  · exact (hpackets .mediaServer (.ofLiteral "Pool") [] "MediaServer" _ rfl rfl).2.1

end CitpLib
