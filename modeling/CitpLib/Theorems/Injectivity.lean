import CitpLib.Theorems.ConnectionStrings
import CitpLib.Theorems.Layout
import CitpLib.Theorems.RoundTrip

/-!
# No two requests share a packet

The message cookie of a packet gives its kind, and with it the size of the packed
structure and the strings behind it. The fields are read off by their offsets, the
strings by their terminators, and the numbers of a connection by the slashes in its
string. So the packet determines the request, for all requests whose arguments can
be expressed in a packet. The fixture patch message is left out: it does not carry
its strings.

## Main definitions

* `Request.Expressible` — the requests whose arguments a packet can express
* `SameParts` — two packets of one kind, alike part by part

## Main results

* `sameParts_of_wire_eq` — equal packets are alike part by part
* `Request.create_injective` — equal packets have equal requests
-/

namespace CitpLib

open Wire Reader

variable {order : ByteOrder} {r r' : Request} {ids ids' : List UInt16}

/-! ## Parts -/

/-- Two packets of one kind, alike in their fields and in what is behind these. -/
structure SameParts (order : ByteOrder) (r r' : Request) : Prop where
  kind : r.kind = r'.kind
  fields : r.fields order = r'.fields order
  rest : (r.strings order).flatMap terminated ++ r.tail =
    (r'.strings order).flatMap terminated ++ r'.tail

/-- Equal packets are alike part by part. -/
theorem sameParts_of_wire_eq (h : r.wire order = r'.wire order) : SameParts order r r' := by
  have hbody : r.body order = r'.body order := List.append_inj_right h (by simp)
  rw [Request.body_eq, Request.body_eq] at hbody
  obtain ⟨hcookie, hparts⟩ := List.append_inj hbody (by simp)
  have hkind : r.kind = r'.kind := MessageKind.cookie_injective <|
    ByteOrder.encode_inj r.kind.isCookie.2.1 r'.kind.isCookie.2.1 hcookie
  have hlen : (r.fields order).length = (r'.fields order).length := by
    have hsize := r.length_fields order
    have hsize' := r'.length_fields order
    rw [hkind] at hsize
    omega
  obtain ⟨hfields, hrest⟩ := List.append_inj hparts hlen
  exact ⟨hkind, hfields, hrest⟩

theorem identifierBytes_injective : Function.Injective identifierBytes := by
  intro ids ids' h
  have hlen := congrArg List.length h
  rw [length_identifierBytes, length_identifierBytes] at hlen
  have hread := identifiersAt_identifierBytes [] ids
  have hread' := identifiersAt_identifierBytes [] ids'
  rw [show ids.length = ids'.length by omega, h] at hread
  exact hread.symm.trans hread'

theorem encode_uint16_inj {v v' : UInt16} (h : order.encode 2 v.toNat = order.encode 2 v'.toNat) :
    v = v' :=
  UInt16.toNat_inj.mp (ByteOrder.encode_inj v.toNat_lt v'.toNat_lt h)

theorem typeString_injective : Function.Injective PLocType.typeString := by
  intro plocType plocType' h
  cases plocType <;> cases plocType' <;> first | rfl | exact absurd h (by decide)

/-- A terminated Latin-1 string and what is behind it are determined. -/
theorem terminated_toAscii_inj {s s' : QString} {post post' : List UInt8} (hs : Latin1 s)
    (hs' : Latin1 s')
    (h : terminated s.toAscii ++ post = terminated s'.toAscii ++ post') :
    s = s' ∧ post = post' := by
  obtain ⟨hchars, hpost⟩ := terminated_append_inj (zero_notMem_toAscii hs)
    (zero_notMem_toAscii hs') h
  exact ⟨(toAscii_inj hs hs').mp hchars, hpost⟩

theorem toAscii_terminated_inj {s s' : QString} (hs : Latin1 s) (hs' : Latin1 s')
    (h : terminated s.toAscii = terminated s'.toAscii) : s = s' :=
  (toAscii_inj hs hs').mp (List.append_cancel_right h)

namespace Request

/-! ## Connections -/

/-- The protocol and the numbers of a connection. -/
def connection? : Request → Option (ConnectionProtocol × List ℤ)
  | sXSrArtNet network universeNo channel => some (.artNet, [network, universeNo, channel])
  | sXSrAvab network universeNo channel => some (.avab, [network, universeNo, channel])
  | sXSrE131 universeNo channel => some (.e131, [universeNo, channel])
  | sXSrETCNet2 channel => some (.etcNet2, [channel])
  | pLoc .. | uNam .. | chBk .. | ptch .. | sPtc .. | uPtc .. | sele .. | deSe .. => none

/-- A connection message carries the connection string alone. -/
theorem exists_connection (order : ByteOrder) (h : r.kind = .sXSr) :
    ∃ protocol numbers, r.connection? = some (protocol, numbers) ∧
      (r.strings order).flatMap terminated ++ r.tail =
        terminated (connectionString protocol.name numbers).toAscii := by
  cases r with
  | sXSrArtNet network universeNo channel =>
    exact ⟨.artNet, _, rfl, by simp [strings, tail, artnetString_arg]⟩
  | sXSrAvab network universeNo channel =>
    exact ⟨.avab, _, rfl, by simp [strings, tail, avabString_arg]⟩
  | sXSrE131 universeNo channel =>
    exact ⟨.e131, _, rfl, by simp [strings, tail, e131String_arg]⟩
  | sXSrETCNet2 channel =>
    exact ⟨.etcNet2, _, rfl, by simp [strings, tail, etcnet2String_arg]⟩
  | _ => cases h

/-- The request for a connection. -/
def ofConnection? : ConnectionProtocol × List ℤ → Option Request
  | (.artNet, [network, universeNo, channel]) => some (sXSrArtNet network universeNo channel)
  | (.avab, [network, universeNo, channel]) => some (sXSrAvab network universeNo channel)
  | (.e131, [universeNo, channel]) => some (sXSrE131 universeNo channel)
  | (.etcNet2, [channel]) => some (sXSrETCNet2 channel)
  | _ => none

theorem ofConnection?_eq {connection : ConnectionProtocol × List ℤ}
    (h : r.connection? = some connection) : ofConnection? connection = some r := by
  cases r <;> cases h <;> rfl

theorem eq_of_sXSr (hkind : r.kind = .sXSr) (h : SameParts order r r') : r = r' := by
  obtain ⟨protocol, numbers, hr, hrest⟩ := exists_connection order hkind
  obtain ⟨protocol', numbers', hr', hrest'⟩ := exists_connection order (h.kind ▸ hkind)
  have hstring := hrest.symm.trans (h.rest.trans hrest')
  have hlatin (p : ConnectionProtocol) (vs : List ℤ) : Latin1 (connectionString p.name vs) :=
    latin1_connectionString p.latin1_name vs
  have hsame := toAscii_terminated_inj (hlatin _ _) (hlatin _ _) hstring
  obtain ⟨hname, rfl⟩ := connectionString_inj protocol.slash_notMem_name
    protocol'.slash_notMem_name hsame
  obtain rfl := ConnectionProtocol.name_injective hname
  exact Option.some.inj ((ofConnection?_eq hr).symm.trans (ofConnection?_eq hr'))

/-! ## Equal packets -/

/-- The requests whose arguments a packet can express: the strings are Latin-1 and
the identifiers can be counted. -/
def Expressible : Request → Prop
  | pLoc _ name state => Latin1 name ∧ Latin1 state
  | uNam _ name => Latin1 name
  | chBk .. | sXSrArtNet .. | sXSrAvab .. | sXSrE131 .. | sXSrETCNet2 .. => True
  | sPtc ids | uPtc ids | sele ids _ | deSe ids => ids.length ≤ 65535
  | ptch .. => False

theorem Expressible.countFits (h : r.Expressible) : r.CountFits := by
  cases r with
  | sPtc ids | uPtc ids | sele ids complete | deSe ids => exact Nat.lt_succ_of_le h
  | _ => trivial

/-- Packets alike part by part have one request. -/
theorem eq_of_sameParts (hr : r.Expressible) (hr' : r'.Expressible)
    (h : SameParts order r r') : r = r' := by
  have hkind := h.kind
  have hfields := h.fields
  have hrest := h.rest
  cases r with
  | pLoc plocType name state =>
    cases r' with
    | pLoc plocType' name' state' =>
      simp only [strings, tail, List.flatMap_cons, List.flatMap_nil, List.append_nil] at hrest
      obtain ⟨htype, hstrings⟩ := terminated_toAscii_inj (latin1_typeString _)
        (latin1_typeString _) hrest
      obtain ⟨hname, hstate⟩ := terminated_toAscii_inj hr.1 hr'.1 hstrings
      rw [typeString_injective htype, hname, toAscii_terminated_inj hr.2 hr'.2 hstate]
    | _ => cases hkind
  | uNam universeIndex name =>
    cases r' with
    | uNam universeIndex' name' =>
      simp only [strings, tail, List.flatMap_cons, List.flatMap_nil, List.append_nil] at hrest
      rw [List.singleton_inj.mp hfields, toAscii_terminated_inj hr hr' hrest]
    | _ => cases hkind
  | chBk blind universeIndex firstChannelIndex channelCount channelLevels =>
    cases r' with
    | chBk blind' universeIndex' firstChannelIndex' channelCount' channelLevels' =>
      obtain ⟨hfront, hcount⟩ := List.append_inj hfields (by simp)
      obtain ⟨hflags, hfirst⟩ := List.append_inj hfront (by simp)
      obtain ⟨hblind, huniverse⟩ := List.cons.inj hflags
      obtain rfl := encode_uint16_inj hcount
      obtain rfl := encode_uint16_inj hfirst
      obtain rfl := List.singleton_inj.mp huniverse
      obtain rfl : blind = blind' := by cases blind <;> cases blind' <;> simp_all
      rw [Vector.toList_inj.mp hrest]
    | _ => cases hkind
  | sXSrArtNet | sXSrAvab | sXSrE131 | sXSrETCNet2 => exact eq_of_sXSr rfl h
  | ptch => exact hr.elim
  | sPtc ids =>
    cases r' with
    | sPtc ids' => exact congrArg sPtc (identifierBytes_injective hrest)
    | _ => cases hkind
  | uPtc ids =>
    cases r' with
    | uPtc ids' => exact congrArg uPtc (identifierBytes_injective hrest)
    | _ => cases hkind
  | sele ids complete =>
    cases r' with
    | sele ids' complete' =>
      obtain ⟨hflags, -⟩ := List.append_inj hfields (by simp)
      obtain rfl : complete = complete' := by cases complete <;> cases complete' <;> simp_all
      rw [identifierBytes_injective hrest]
    | _ => cases hkind
  | deSe ids =>
    cases r' with
    | deSe ids' => exact congrArg deSe (identifierBytes_injective hrest)
    | _ => cases hkind

/-- **No two requests share a packet.** If the buffers that two creators return are
equal, the calls were to one creator with the same arguments. -/
theorem create_injective (order : ByteOrder) (r r' : Request) (hr : r.Expressible)
    (hr' : r'.Expressible) (h : (r.create order).contents = (r'.create order).contents) :
    r = r' := by
  rw [contents_create order r hr.countFits, contents_create order r' hr'.countFits] at h
  exact eq_of_sameParts hr hr' (sameParts_of_wire_eq h)

end Request

/-- A slash keeps universe 1, channel 23 and universe 12, channel 3 apart. -/
theorem create_injective_e131 :
    Request.sXSrE131 1 23 = .sXSrE131 1 23 ∧
      (Request.create .little (.sXSrE131 1 23)).contents ≠
        (Request.create .little (.sXSrE131 12 3)).contents := by
  refine ⟨Request.create_injective .little (.sXSrE131 1 23) _ trivial trivial rfl, fun h => ?_⟩
  have hsame := Request.create_injective .little (.sXSrE131 1 23) (.sXSrE131 12 3) trivial
    trivial h
  exact absurd (Request.sXSrE131.inj hsame).2 (by decide)

end CitpLib
