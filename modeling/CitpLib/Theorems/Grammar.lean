import CitpLib.Theorems.Parsing

/-!
# The grammar of the TCP messages

On a little-endian host the cookies are compared as the four characters they
stand for. This file states in terms of the bytes of a message what
`parsePacket` does with it, and which of its bytes have a meaning at all: no
other byte of the message is ever looked at.

## Main definitions

* `HasHeader` — the bytes that select a kind of message
* `Meaningful` — the offsets whose bytes have a meaning

## Main results

* `isMessage_iff_hasHeader` — the cookie tests are tests for four characters
* `meaningful_of_mem_reads` — only meaningful bytes are read
* `parsePacket_grammar` — the effect of every message long enough
-/

namespace CitpLib

open Wire Reader

variable {Host : Type} {peer : Peer Host} {a b : List UInt8} {n o x : ℕ}

/-! ## Headers -/

/-- The bytes of a text of one-byte characters. -/
def chars (s : String) : List UInt8 := s.toList.map fun c => UInt8.ofNat c.toNat

/-- The bytes in which a message names the protocol, version 1, its layer and its
own kind. -/
structure HasHeader (layer message : String) (a : List UInt8) : Prop where
  cookie : a.take 4 = chars "CITP"
  versionMajor : a.getD 4 0 = 1
  layer : (a.drop 16).take 4 = chars layer
  message : (a.drop 20).take 4 = chars message

/-- A cookie is the little-endian number of its four characters. -/
def IsCookie (cookie : ℕ) (s : String) : Prop :=
  256 ^ 3 ≤ cookie ∧ cookie < 256 ^ 4 ∧ ByteOrder.little.encode 4 cookie = chars s ∧
    0 ∉ chars s

instance (cookie : ℕ) (s : String) : Decidable (IsCookie cookie s) :=
  inferInstanceAs (Decidable (_ ∧ _ ∧ _ ∧ _))

theorem isCookie_citp : IsCookie cookieCitp "CITP" := by decide

theorem MessageKind.isCookie_layer (kind : MessageKind) :
    IsCookie kind.layer kind.family := by
  cases kind <;> decide

theorem MessageKind.isCookie (kind : MessageKind) : IsCookie kind.cookie kind.message := by
  cases kind <;> decide

theorem IsCookie.fieldAt_eq_iff {cookie : ℕ} {s : String} (h : IsCookie cookie s) :
    fieldAt .little 4 o a = cookie ↔ (a.drop o).take 4 = chars s := by
  obtain ⟨hlow, hhigh, hchars, hnul⟩ := h
  have hlen : (chars s).length = 4 := by rw [← hchars, ByteOrder.length_encode]
  rw [Reader.fieldAt_eq_iff hlow hhigh, hchars, window_eq_iff hlen hnul]

/-- The cookies of a message are the characters in its header. -/
theorem isMessage_iff_hasHeader {layerCookie messageCookie : ℕ} {layer message : String}
    (hlayer : IsCookie layerCookie layer) (hmessage : IsCookie messageCookie message) :
    IsMessage .little layerCookie messageCookie a ↔ HasHeader layer message a := by
  constructor
  · intro h
    exact ⟨isCookie_citp.fieldAt_eq_iff.mp h.cookie,
      (fieldAt_one_eq_iff (by decide)).mp h.versionMajor, hlayer.fieldAt_eq_iff.mp h.layer,
      hmessage.fieldAt_eq_iff.mp h.message⟩
  · intro h
    exact ⟨⟨isCookie_citp.fieldAt_eq_iff.mpr h.cookie,
      (fieldAt_one_eq_iff (by decide)).mpr h.versionMajor, hlayer.fieldAt_eq_iff.mpr h.layer⟩,
      hmessage.fieldAt_eq_iff.mpr h.message⟩

theorem MessageKind.isMessage_iff (kind : MessageKind) :
    IsMessage .little kind.layer kind.cookie a ↔ HasHeader kind.family kind.message a :=
  isMessage_iff_hasHeader kind.isCookie_layer kind.isCookie

/-! ## Meaningful bytes -/

/-- The offsets of a message whose bytes have a meaning: those of the cookies and
the version, and those of the body that its kind and its count describe. -/
inductive Meaningful (a : List UInt8) : ℕ → Prop
  | cookie {x : ℕ} : x < 4 → Meaningful a x
  | versionMajor : Meaningful a 4
  | layer {x : ℕ} : 16 ≤ x → x < 20 → Meaningful a x
  | message {x : ℕ} : 20 ≤ x → x < 24 → Meaningful a x
  | patchFields {x : ℕ} : HasHeader "FPTC" "Ptch" a → 28 ≤ x → x < 31 → Meaningful a x
  | patchChannels {x : ℕ} : HasHeader "FPTC" "Ptch" a → 32 ≤ x → x < 36 → Meaningful a x
  | patchMake {x : ℕ} : HasHeader "FPTC" "Ptch" a →
      36 ≤ x → x ≤ 36 + (cstringAt a 36).length → Meaningful a x
  | patchName {x : ℕ} : HasHeader "FPTC" "Ptch" a →
      nameOffset a ≤ x → x ≤ nameOffset a + (cstringAt a (nameOffset a)).length → Meaningful a x
  | unpatch {x : ℕ} : HasHeader "FPTC" "UPtc" a →
      28 ≤ x → x < 30 + 2 * fieldAt .little 2 28 a → Meaningful a x
  | sendPatch {x : ℕ} : HasHeader "FPTC" "SPtc" a →
      28 ≤ x → x < 30 + 2 * fieldAt .little 2 28 a → Meaningful a x
  | selectFlag : HasHeader "FSEL" "Sele" a → Meaningful a 24
  | select {x : ℕ} : HasHeader "FSEL" "Sele" a →
      26 ≤ x → x < 28 + 2 * fieldAt .little 2 26 a → Meaningful a x
  | deselect {x : ℕ} : HasHeader "FSEL" "DeSe" a →
      24 ≤ x → x < 26 + 2 * fieldAt .little 2 24 a → Meaningful a x

theorem mem_reads_readIdentifiers {order : ByteOrder}
    (h : x ∈ (readIdentifiers order n o).reads a) : o ≤ x ∧ x < o + 2 * n := by
  induction n generalizing o with
  | zero => simp [readIdentifiers] at h
  | succ n ih =>
    rcases mem_reads_field_bind (by decide) h with h | h
    · omega
    · rcases mem_reads_bind h with h | ⟨ids, -, h⟩
      · have := ih h
        omega
      · simp at h

theorem mem_reads_parsePatchListPacket {order : ByteOrder} {all : Signal}
    {listed : List UInt16 → Signal}
    (h : x ∈ (parsePatchListPacket order o (o + 2) all listed peer).reads a) :
    o ≤ x ∧ x < o + 2 + 2 * fieldAt order 2 o a := by
  rcases mem_reads_field_bind (by decide) h with h | h
  · omega
  · rw [reads_ite] at h
    split at h
    · simp at h
    · rcases mem_reads_bind h with h | ⟨ids, -, h⟩
      · have := mem_reads_readIdentifiers h
        omega
      · simp at h

theorem meaningful_of_mem_reads_ptch (hheader : HasHeader "FPTC" "Ptch" a)
    (h : x ∈ (parsePTCHPacket .little peer).reads a) : Meaningful a x := by
  rcases mem_reads_field_bind (by decide) h with ⟨hge, hlt⟩ | h
  · exact .patchFields hheader hge (hlt.trans (by decide))
  rcases mem_reads_field_bind (by decide) h with ⟨hge, hlt⟩ | h
  · exact .patchFields hheader (le_trans (by decide) hge) hlt
  rcases mem_reads_field_bind (by decide) h with ⟨hge, hlt⟩ | h
  · exact .patchChannels hheader hge (hlt.trans (by decide))
  rcases mem_reads_field_bind (by decide) h with ⟨hge, hlt⟩ | h
  · exact .patchChannels hheader (le_trans (by decide) hge) hlt
  rcases mem_reads_cstring_bind h with ⟨hge, hle⟩ | h
  · exact .patchMake hheader hge hle
  rcases mem_reads_cstring_bind h with ⟨hge, hle⟩ | h
  · rw [length_ofChars] at hge hle
    exact .patchName hheader hge hle
  · simp at h

theorem meaningful_of_mem_reads_sele (hheader : HasHeader "FSEL" "Sele" a)
    (h : x ∈ (parseSELEPacket .little peer).reads a) : Meaningful a x := by
  rcases mem_reads_field_bind (by decide) h with ⟨hge, hlt⟩ | h
  · exact .select hheader hge (Nat.lt_add_right _ hlt)
  rcases mem_reads_field_bind (by decide) h with ⟨hge, hlt⟩ | h
  · obtain rfl : x = 24 := Nat.le_antisymm (Nat.le_of_lt_succ hlt) hge
    exact .selectFlag hheader
  rcases mem_reads_bind h with h | ⟨ids, -, h⟩
  · obtain ⟨hge, hlt⟩ := mem_reads_readIdentifiers h
    exact .select hheader (le_trans (by decide) hge) hlt
  · simp at h

theorem meaningful_of_mem_reads_dese (hheader : HasHeader "FSEL" "DeSe" a)
    (h : x ∈ (parseDESEPacket .little peer).reads a) : Meaningful a x := by
  rcases mem_reads_field_bind (by decide) h with ⟨hge, hlt⟩ | h
  · exact .deselect hheader hge (Nat.lt_add_right _ hlt)
  rcases mem_reads_bind h with h | ⟨ids, -, h⟩
  · obtain ⟨hge, hlt⟩ := mem_reads_readIdentifiers h
    exact .deselect hheader (le_trans (by decide) hge) hlt
  · simp at h

theorem meaningful_of_mem_reads_fptc (hlayer : IsLayer .little cookieFptc a)
    (h : x ∈ (parseFPTCPacket .little peer).reads a) : Meaningful a x := by
  rcases mem_reads_field_bind (by decide) h with ⟨hge, hlt⟩ | h
  · exact .message hge hlt
  simp only [reads_ite] at h
  split at h
  · exact meaningful_of_mem_reads_ptch (MessageKind.ptch.isMessage_iff.mp ⟨hlayer, ‹_›⟩) h
  split at h
  · have hheader := MessageKind.uPtc.isMessage_iff.mp ⟨hlayer, ‹_›⟩
    obtain ⟨hge, hlt⟩ := mem_reads_parsePatchListPacket h
    exact .unpatch hheader hge hlt
  split at h
  · have hheader := MessageKind.sPtc.isMessage_iff.mp ⟨hlayer, ‹_›⟩
    obtain ⟨hge, hlt⟩ := mem_reads_parsePatchListPacket h
    exact .sendPatch hheader hge hlt
  · simp at h

theorem meaningful_of_mem_reads_fsel (hlayer : IsLayer .little cookieFsel a)
    (h : x ∈ (parseFSELPacket .little peer).reads a) : Meaningful a x := by
  rcases mem_reads_field_bind (by decide) h with ⟨hge, hlt⟩ | h
  · exact .message hge hlt
  simp only [reads_ite] at h
  split at h
  · exact meaningful_of_mem_reads_sele (MessageKind.sele.isMessage_iff.mp ⟨hlayer, ‹_›⟩) h
  split at h
  · exact meaningful_of_mem_reads_dese (MessageKind.deSe.isMessage_iff.mp ⟨hlayer, ‹_›⟩) h
  · simp at h

/-- **Only meaningful bytes are read.** -/
theorem meaningful_of_mem_reads (h : x ∈ (parsePacket .little peer).reads a) :
    Meaningful a x := by
  rcases mem_reads_field_bind (by decide) h with ⟨-, hlt⟩ | h
  · exact .cookie hlt
  rw [reads_ite] at h
  split at h
  · simp at h
  have hcookie : fieldAt .little 4 0 a = cookieCitp := not_not.mp ‹_›
  rcases mem_reads_field_bind (by decide) h with ⟨hge, hlt⟩ | h
  · obtain rfl : x = 4 := Nat.le_antisymm (Nat.le_of_lt_succ hlt) hge
    exact .versionMajor
  rw [reads_ite] at h
  split at h
  · simp at h
  have hversion : fieldAt .little 1 4 a = 0x01 := not_not.mp ‹_›
  rcases mem_reads_field_bind (by decide) h with ⟨hge, hlt⟩ | h
  · exact .layer hge hlt
  simp only [reads_ite] at h
  split at h
  · simp at h
  split at h
  · exact meaningful_of_mem_reads_fptc ⟨hcookie, hversion, ‹_›⟩ h
  split at h
  · exact meaningful_of_mem_reads_fsel ⟨hcookie, hversion, ‹_›⟩ h
  · simp at h

theorem Meaningful.outside (h : Meaningful a x) : x < 5 ∨ 16 ≤ x := by
  cases h with
  | patchName hheader hge hle =>
    rw [nameOffset] at hge
    omega
  | _ => omega

/-! ## Effects -/

theorem recognised_iff : Recognised .little a ↔
    HasHeader "FPTC" "Ptch" a ∨ HasHeader "FPTC" "UPtc" a ∨ HasHeader "FPTC" "SPtc" a ∨
      HasHeader "FSEL" "Sele" a ∨ HasHeader "FSEL" "DeSe" a :=
  or_congr MessageKind.ptch.isMessage_iff <| or_congr MessageKind.uPtc.isMessage_iff <|
    or_congr MessageKind.sPtc.isMessage_iff <| or_congr MessageKind.sele.isMessage_iff
      MessageKind.deSe.isMessage_iff

/-- The value of a message that is long enough for its last read. -/
theorem value_of_ite {α : Type} {m : Reader α} {c : Prop} [Decidable c] {v : α}
    (hin : m.InBounds a) (h : m.value a = if c then some v else none) : m.value a = some v := by
  obtain ⟨y, hy⟩ := hin.exists_value
  rw [hy] at h ⊢
  exact congrArg some (Option.some.inj (Option.ite_none_right_eq_some.mp h.symm).2).symm

/-- **The grammar of the TCP messages.** A message long enough to be parsed has
the effect that its cookies select, with the identifiers or the fixture that
follow its packed structure. Under other cookies it has none. Messages alike in
the meaningful bytes have one effect, and bytes 5 to 15 have no meaning. -/
theorem parsePacket_grammar (peer : Peer Host) (a : List UInt8)
    (h : (parsePacket .little peer).InBounds a) :
    (HasHeader "FPTC" "UPtc" a → (parsePacket .little peer).value a =
      some (peer, [if fieldAt .little 2 28 a = 0 then .unpatchAllFixtures
        else .unpatchFixtures (identifiersAt .little (fieldAt .little 2 28 a) 30 a)])) ∧
    (HasHeader "FPTC" "SPtc" a → (parsePacket .little peer).value a =
      some (peer, [if fieldAt .little 2 28 a = 0 then .sendPatchAllFixtures
        else .sendPatchFixtures (identifiersAt .little (fieldAt .little 2 28 a) 30 a)])) ∧
    (HasHeader "FSEL" "Sele" a → (parsePacket .little peer).value a =
      some (peer, [.selectFixtures (a.getD 24 0 ≠ 0)
        (identifiersAt .little (fieldAt .little 2 26 a) 28 a)])) ∧
    (HasHeader "FSEL" "DeSe" a → 0 < fieldAt .little 2 24 a → (parsePacket .little peer).value a =
      some (peer, [.deselectFixtures
        (identifiersAt .little (fieldAt .little 2 24 a) 26 a)])) ∧
    (HasHeader "FPTC" "Ptch" a → (parsePacket .little peer).value a =
      some ({ peer with
          fixtureList := peer.fixtureList ++ [fixtureAt .little a]
          fixtureModel := ⟨peer.fixtureModel.fixtureList ++ [fixtureAt .little a]⟩ },
        [.updatedFixtureList])) ∧
    (¬ (HasHeader "FPTC" "Ptch" a ∨ HasHeader "FPTC" "UPtc" a ∨ HasHeader "FPTC" "SPtc" a ∨
        HasHeader "FSEL" "Sele" a ∨ HasHeader "FSEL" "DeSe" a) →
      (parsePacket .little peer).value a = some (peer, [])) ∧
    (∀ b, (∀ o, Meaningful a o → peek b o = peek a o) →
      (parsePacket .little peer).value b = (parsePacket .little peer).value a) ∧
    ∀ o, Meaningful a o → o < 5 ∨ 16 ≤ o := by
  refine ⟨fun hheader => ?_, fun hheader => ?_, fun hheader => ?_, fun hheader hcount => ?_,
    fun hheader => ?_, fun hnone => ?_, fun b hb => ?_, fun o => Meaningful.outside⟩
  · have hvalue := parsePacket_value_of_kind .uPtc peer (MessageKind.uPtc.isMessage_iff.mpr hheader)
    exact value_of_ite h (hvalue.trans (parseUPTCPacket_value .little peer a))
  · have hvalue := parsePacket_value_of_kind .sPtc peer (MessageKind.sPtc.isMessage_iff.mpr hheader)
    exact value_of_ite h (hvalue.trans (parseSPTCPacket_value .little peer a))
  · have hvalue := parsePacket_value_of_kind .sele peer (MessageKind.sele.isMessage_iff.mpr hheader)
    have hflag : fieldAt .little 1 24 a ≠ 0 ↔ a.getD 24 0 ≠ 0 :=
      (fieldAt_one_eq_iff (by decide)).not
    rw [parseSELEPacket_value, decide_eq_decide.mpr hflag] at hvalue
    exact value_of_ite h hvalue
  · have hvalue := parsePacket_value_of_kind .deSe peer (MessageKind.deSe.isMessage_iff.mpr hheader)
    rw [parseDESEPacket_value, if_neg hcount.ne', List.nil_append] at hvalue
    exact value_of_ite h hvalue
  · have hvalue := parsePacket_value_of_kind .ptch peer (MessageKind.ptch.isMessage_iff.mpr hheader)
    exact value_of_ite h (hvalue.trans (parsePTCHPacket_value .little peer a))
  · exact parsePacket_value_of_not_recognised (recognised_iff.not.mpr hnone) h
  · exact value_congr _ fun o ho => hb o (meaningful_of_mem_reads ho)

/-- A request to unpatch fixture 7, its reserved bytes not zero. -/
theorem parsePacket_grammar_unpatch :
    (parsePacket .little (Peer.new () 0 [] [])).value
        (chars "CITP" ++ [1, 9, 9, 9, 32, 0, 0, 0, 1, 0, 1, 0] ++ chars "FPTC" ++
          chars "UPtc" ++ [0, 0, 0, 0, 1, 0, 7, 0]) =
      some (Peer.new () 0 [] [], [.unpatchFixtures [7]]) :=
  ((parsePacket_grammar (Peer.new () 0 [] []) _ ((value_isSome_iff _ _).mp (by decide))).1
    ⟨by decide, by decide, by decide, by decide⟩).trans (by decide)

end CitpLib
