import CitpLib.Theorems.Grammar
import CitpLib.Theorems.WireFormat

/-!
# The layout of every packet

A packet consists of the packed structure of its message, of NUL-terminated
strings, and of the channel levels or identifiers at its end. Each creator
computes the size of the whole before it copies the parts one by one to offsets
it computes again. The two computations agree: the parts lie behind one another
without a gap, each string with its terminator, and the last one ends the buffer.

## Main definitions

* `Request.fields`, `Request.strings`, `Request.tail` — the parts of a body
* `regions` — where strings stand that follow one another

## Main results

* `Request.body_eq` — a body consists of its parts
* `take_wire`, `fieldAt_messageSize` — the header of a packet
* `Request.create_layout` — the layout of what a creator returns
-/

namespace CitpLib

open Wire Reader

variable {order : ByteOrder} {r : Request} {o : ℕ} {s : List UInt8} {ss : List (List UInt8)}

/-! ## Kinds of messages -/

/-- Different kinds have different message cookies. -/
theorem MessageKind.cookie_injective : Function.Injective MessageKind.cookie := by
  intro kind kind' h
  cases kind <;> cases kind' <;> first | rfl | exact absurd h (by decide)

namespace Request

/-- The kind of message that a request is sent in. -/
def kind : Request → MessageKind
  | pLoc .. => .pLoc
  | uNam .. => .uNam
  | chBk .. => .chBk
  | sXSrArtNet .. | sXSrAvab .. | sXSrE131 .. | sXSrETCNet2 .. => .sXSr
  | ptch .. => .ptch
  | sPtc .. => .sPtc
  | uPtc .. => .uPtc
  | sele .. => .sele
  | deSe .. => .deSe

theorem layer_eq (r : Request) : r.layer = r.kind.layer := by
  cases r <;> rfl

/-! ## The parts of a packet -/

/-- The fields of the packed structure behind the message cookie. -/
def fields (order : ByteOrder) : Request → List UInt8
  | pLoc .. => order.encode 2 0
  | uNam universeIndex _ => [universeIndex]
  | chBk blind universeIndex firstChannelIndex channelCount _ =>
    [if blind then 0x01 else 0x00, universeIndex] ++
      order.encode 2 firstChannelIndex.toNat ++ order.encode 2 channelCount.toNat
  | sXSrArtNet .. | sXSrAvab .. | sXSrE131 .. | sXSrETCNet2 .. => []
  | ptch fixtureIdentifier universeIndex channelIndex channelCount _ _ =>
    order.encode 4 0 ++ order.encode 2 fixtureIdentifier.toNat ++ [universeIndex, 0] ++
      order.encode 2 channelIndex.toNat ++ order.encode 2 channelCount.toNat
  | sPtc ids | uPtc ids => order.encode 4 0 ++ order.encode 2 ids.length
  | sele ids complete =>
    [if complete then 0xFF else 0x00, 0] ++ order.encode 2 ids.length
  | deSe ids => order.encode 2 ids.length

/-- The bytes that are copied for each string. -/
def strings (order : ByteOrder) : Request → List (List UInt8)
  | pLoc plocType name state => [plocType.typeString.toAscii, name.toAscii, state.toAscii]
  | uNam _ name => [name.toAscii]
  | sXSrArtNet network universeNo channel =>
    [(((artnetString.arg network).arg universeNo).arg channel).toAscii]
  | sXSrAvab network universeNo channel =>
    [(((avabString.arg network).arg universeNo).arg channel).toAscii]
  | sXSrE131 universeNo channel => [((e131String.arg universeNo).arg channel).toAscii]
  | sXSrETCNet2 channel => [(etcnet2String.arg channel).toAscii]
  | ptch _ _ _ _ fixtureMake fixtureName =>
    (if fixtureMake.isEmpty then []
      else [(fixtureMake.constData order).take fixtureMake.length]) ++
      [(fixtureName.constData order).take fixtureName.length]
  | chBk .. | sPtc .. | uPtc .. | sele .. | deSe .. => []

/-- The channel levels or the identifiers at the end. -/
def tail : Request → List UInt8
  | chBk _ _ _ _ channelLevels => channelLevels.toList
  | sPtc ids | uPtc ids | sele ids _ | deSe ids => identifierBytes ids
  | pLoc .. | uNam .. | sXSrArtNet .. | sXSrAvab .. | sXSrE131 .. | sXSrETCNet2 .. | ptch .. => []

/-- **A body consists of its parts.** -/
theorem body_eq (order : ByteOrder) (r : Request) : r.body order =
    order.encode 4 r.kind.cookie ++
      (r.fields order ++ ((r.strings order).flatMap terminated ++ r.tail)) := by
  cases r with
  | ptch fixtureIdentifier universeIndex channelIndex channelCount fixtureMake fixtureName =>
    by_cases hmake : fixtureMake.isEmpty <;>
      simp [body, ptchBody, ptchFields, fields, strings, tail, kind, MessageKind.cookie, hmake]
  | _ =>
    simp [body, connectionBody, patchListBody, fields, strings, tail, kind, MessageKind.cookie]

theorem length_fields (order : ByteOrder) (r : Request) :
    24 + (r.fields order).length = r.kind.sizeof := by
  cases r <;> simp [fields, kind, MessageKind.sizeof]

theorem size_eq (order : ByteOrder) (r : Request) : r.size order =
    r.kind.sizeof + ((r.strings order).flatMap terminated).length + r.tail.length := by
  have hfields := r.length_fields order
  rw [size, body_eq]
  simp only [List.length_append, ByteOrder.length_encode]
  omega

/-- A packet is its packed structure with the parts behind it. -/
theorem wire_eq_append (order : ByteOrder) (r : Request) : r.wire order =
    (citpHeader order (r.size order) r.layer ++ order.encode 4 r.kind.cookie ++
      r.fields order) ++ ((r.strings order).flatMap terminated ++ r.tail) := by
  rw [wire, body_eq]
  simp

theorem length_struct (order : ByteOrder) (r : Request) :
    (citpHeader order (r.size order) r.layer ++ order.encode 4 r.kind.cookie ++
      r.fields order).length = r.kind.sizeof := by
  have hfields := r.length_fields order
  simp only [List.length_append, length_citpHeader, ByteOrder.length_encode]
  omega

/-! ## The header -/

/-- The message size, in the byte order of the host. -/
theorem fieldAt_messageSize (h : r.size order < 2 ^ 32) :
    fieldAt order 4 8 (r.wire order) = r.size order := by
  have hsize : r.size order < 256 ^ 4 := h
  rw [wire, citpHeader]
  simp only [List.append_assoc]
  rw [← List.append_assoc, ← List.append_assoc]
  exact fieldAt_append order _ _ (by simp) hsize

/-- The header of a packet on a little-endian host, byte by byte. -/
theorem wire_little (r : Request) : ∃ s, s.length = 4 ∧ r.wire .little =
    chars "CITP" ++ [0x01, 0x00, 0x00, 0x00] ++ s ++ [0x01, 0x00, 0x01, 0x00] ++
      (chars r.kind.family ++ chars r.kind.message) ++
        (r.fields .little ++ ((r.strings .little).flatMap terminated ++ r.tail)) := by
  refine ⟨ByteOrder.little.encode 4 (r.size .little), by simp, ?_⟩
  rw [wire, body_eq, citpHeader, layer_eq, isCookie_citp.2.2.1, r.kind.isCookie_layer.2.2.1,
    r.kind.isCookie.2.2.1]
  simp [ByteOrder.encode, leBytes]

end Request

theorem IsCookie.length_chars {cookie : ℕ} {s : String} (h : IsCookie cookie s) :
    (chars s).length = 4 := by
  rw [← h.2.2.1, ByteOrder.length_encode]

/-! ## Strings and the end -/

/-- The offsets of strings that follow one another, each with its terminator. -/
def regions : ℕ → List (List UInt8) → List (ℕ × List UInt8)
  | _, [] => []
  | o, s :: ss => (o, s) :: regions (o + (s.length + 1)) ss

/-- A string stands in its region, with its terminator. -/
theorem mem_regions (pre post : List UInt8) (h : (o, s) ∈ regions pre.length ss) :
    ∃ before behind, pre ++ (ss.flatMap terminated ++ post) =
      before ++ (terminated s ++ behind) ∧ before.length = o := by
  induction ss generalizing pre with
  | nil => simp [regions] at h
  | cons t ss ih =>
    rw [regions] at h
    rcases List.mem_cons.mp h with heq | h
    · obtain ⟨rfl, rfl⟩ := Prod.mk.inj heq
      exact ⟨pre, ss.flatMap terminated ++ post, by simp, rfl⟩
    · have hlen : pre.length + (t.length + 1) = (pre ++ terminated t).length := by simp
      rw [hlen] at h
      obtain ⟨before, behind, heq, ho⟩ := ih (pre ++ terminated t) h
      refine ⟨before, behind, ?_, ho⟩
      rw [← heq]
      simp

theorem length_flatMap_terminated (ss : List (List UInt8)) :
    (ss.flatMap terminated).length = (ss.map fun s => s.length + 1).sum := by
  simp [List.length_flatMap]

/-- **The layout of what a creator returns.** Every store lies inside the buffer. The
header has the size of the buffer and the cookies of the request. Every string stands
in its region with a NUL behind it inside the buffer, and the last part ends the
buffer. -/
theorem Request.create_layout (r : Request) (hcount : r.CountFits)
    (hsize : (r.create .little).len < 2 ^ 31) :
    (r.create .little).InBounds ∧
    fieldAt .little 4 8 (r.create .little).contents = (r.create .little).len ∧
    (r.create .little).contents.take 8 = chars "CITP" ++ [0x01, 0x00, 0x00, 0x00] ∧
    ((r.create .little).contents.drop 12).take 4 = [0x01, 0x00, 0x01, 0x00] ∧
    ((r.create .little).contents.drop 16).take 8 =
      chars r.kind.family ++ chars r.kind.message ∧
    (∀ o s, (o, s) ∈ regions r.kind.sizeof (r.strings .little) →
      ((r.create .little).contents.drop o).take s.length = s ∧
      o + s.length < (r.create .little).len ∧
      (r.create .little).contents[o + s.length]? = some 0) ∧
    (r.create .little).contents.drop
      (r.kind.sizeof + ((r.strings .little).map fun s => s.length + 1).sum) = r.tail ∧
    (r.create .little).len =
      r.kind.sizeof + ((r.strings .little).map fun s => s.length + 1).sum + r.tail.length := by
  have hholds := r.create_holds .little hcount
  have hlen : (r.create .little).len = r.size .little := by
    rw [← hholds.length_eq, length_wire]
  have hstrings := length_flatMap_terminated (r.strings .little)
  have hparts := r.size_eq .little
  rw [hstrings] at hparts
  rw [hlen] at hsize ⊢
  rw [hholds.contents_eq]
  obtain ⟨sizeBytes, hsizeBytes, hheader⟩ := r.wire_little
  have hcitp := isCookie_citp.length_chars
  have hfamily := r.kind.isCookie_layer.length_chars
  have hmessage := r.kind.isCookie.length_chars
  refine ⟨hholds.inBounds, fieldAt_messageSize (hsize.trans (by decide)), ?_, ?_, ?_, ?_, ?_,
    hparts⟩
  · rw [hheader]
    simp only [List.append_assoc]
    rw [← List.append_assoc]
    exact List.take_left' (by simp [hcitp])
  · rw [hheader]
    simp only [List.append_assoc]
    rw [← List.append_assoc, ← List.append_assoc, List.drop_left' (by simp [hcitp, hsizeBytes])]
    rfl
  · rw [hheader, List.append_assoc, List.drop_left' (by simp [hcitp, hsizeBytes])]
    exact List.take_left' (by simp [hfamily, hmessage])
  · intro o s hmem
    rw [← r.length_struct .little] at hmem
    obtain ⟨before, behind, heq, ho⟩ := mem_regions _ r.tail hmem
    have hwire := (r.wire_eq_append .little).trans heq
    have htotal := congrArg List.length hwire
    rw [length_wire] at htotal
    simp only [List.length_append, length_terminated] at htotal
    refine ⟨?_, by omega, ?_⟩
    · rw [hwire, List.drop_left' ho]
      simp [terminated]
    · rw [hwire, List.getElem?_append_right (by omega)]
      simp [terminated, ho]
  · have hpre := r.length_struct .little
    rw [wire_eq_append, ← List.append_assoc]
    apply List.drop_left'
    rw [List.length_append, hpre, hstrings]

/-- The announcement of a lighting console, its name not Latin-1 and its state empty. -/
theorem Request.create_layout_pLoc :
    (Request.create .little (.pLoc .lightingConsole [0x2603] [])).InBounds ∧
    (Request.create .little (.pLoc .lightingConsole [0x2603] [])).contents[44]? = some 0 := by
  have hlayout := Request.create_layout (.pLoc .lightingConsole [0x2603] []) trivial (by decide)
  obtain ⟨hin, -, -, -, -, hregions, -⟩ := hlayout
  exact ⟨hin, (hregions 44 [] (by decide)).2.2⟩

end CitpLib
