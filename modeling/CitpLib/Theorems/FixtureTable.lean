import CitpLib.Model.PacketCreator
import CitpLib.Table.Log
import CitpLib.Theorems.Parsing

/-!
# The fixtures of a peer

The fixture list of a peer and the table model beside it are logs: a patch message
appends the fixture that it describes to both, and no other message changes either.
A message to unpatch fixtures is passed on as a signal and leaves them as they are.

The peer's current patch, as the messages describe it, is a map from identifiers to
fixtures. The log shows that map as long as no fixture is patched again or unpatched.

## Main definitions

* `patchEvents` — what messages say about the identifiers: the `Table.Events` of a peer
* `patchedFixtures` — the fixtures that messages patch, in order

## Main results

* `parsePacket_effect` — what one message does to the peer
* `parsePackets_effect` — what a run of messages does to it
* `fixtureTable_run` — the table after any run
-/

namespace CitpLib

open Wire Reader Table

variable {Host : Type} {order : ByteOrder} {peer peer' : Peer Host} {signals : List Signal}
  {a : List UInt8} {messages : List (List UInt8)}

/-! ## Runs as logs -/

/-- The message patches a fixture. -/
abbrev IsPatch (order : ByteOrder) (a : List UInt8) : Prop :=
  IsMessage order cookieFptc cookieFptcPtch a

/-- The message unpatches fixtures. -/
abbrev IsUnpatch (order : ByteOrder) (a : List UInt8) : Prop :=
  IsMessage order cookieFptc cookieFptcUPtc a

/-- The message unpatches the fixture with this identifier: it lists it, or it counts none
and unpatches all. -/
def Unpatches (order : ByteOrder) (a : List UInt8) (fixId : UInt16) : Prop :=
  IsUnpatch order a ∧ (fieldAt order 2 28 a = 0 ∨
    fixId ∈ identifiersAt order (fieldAt order 2 28 a) 30 a)

instance {fixId : UInt16} : Decidable (Unpatches order a fixId) :=
  inferInstanceAs (Decidable (_ ∧ _))

/-- What messages say about the fixture identifiers. -/
def patchEvents (order : ByteOrder) : Events (List UInt8) Fixture UInt16 where
  put a := if IsPatch order a then some (fixtureAt order a) else none
  key := Fixture.fixtureIdentifier
  removes a fixId := Unpatches order a fixId

/-- The fixtures that messages patch, in order. -/
abbrev patchedFixtures (order : ByteOrder) (messages : List (List UInt8)) : List Fixture :=
  (patchEvents order).log messages

/-- There is a fixture for each message to patch. -/
theorem length_patchedFixtures (order : ByteOrder) (messages : List (List UInt8)) :
    (patchedFixtures order messages).length = messages.countP fun a => IsPatch order a := by
  rw [patchedFixtures, Events.log, List.length_filterMap_eq_countP]
  apply List.countP_congr
  intro a _
  by_cases hpatch : IsPatch order a <;> simp [patchEvents, hpatch]

theorem eq_of_value_eq_ite {value : Option (Peer Host × List Signal)} {c : Prop} [Decidable c]
    {after : Peer Host} {emitted : List Signal} (h : value = some (peer', signals))
    (hvalue : value = if c then some (after, emitted) else none) :
    peer' = after ∧ signals = emitted := by
  rw [hvalue] at h
  exact Prod.mk.inj (Option.some.inj (Option.ite_none_right_eq_some.mp h).2).symm

/-- The functions for the other kinds leave the peer as it is and announce no fixture. -/
theorem parse_of_ne_ptch {kind : MessageKind} (hkind : kind ≠ .ptch)
    (h : (kind.parse order peer).value a = some (peer', signals)) :
    peer' = peer ∧ .updatedFixtureList ∉ signals := by
  cases kind with
  | ptch => exact absurd rfl hkind
  | uPtc =>
    obtain ⟨rfl, rfl⟩ := eq_of_value_eq_ite h (parseUPTCPacket_value order peer a)
    exact ⟨rfl, by split <;> simp⟩
  | sPtc =>
    obtain ⟨rfl, rfl⟩ := eq_of_value_eq_ite h (parseSPTCPacket_value order peer a)
    exact ⟨rfl, by split <;> simp⟩
  | sele =>
    obtain ⟨rfl, rfl⟩ := eq_of_value_eq_ite h (parseSELEPacket_value order peer a)
    exact ⟨rfl, by simp⟩
  | deSe =>
    obtain ⟨rfl, rfl⟩ := eq_of_value_eq_ite h (parseDESEPacket_value order peer a)
    exact ⟨rfl, by split <;> simp⟩
  | pLoc | uNam | chBk | sXSr =>
    obtain ⟨rfl, rfl⟩ := Prod.mk.inj (Option.some.inj h)
    exact ⟨rfl, List.not_mem_nil⟩

/-- A message that is none to patch leaves the peer as it is and announces no fixture. -/
theorem parsePacket_of_not_isPatch (hpatch : ¬ IsPatch order a)
    (h : (parsePacket order peer).value a = some (peer', signals)) :
    peer' = peer ∧ .updatedFixtureList ∉ signals := by
  by_cases hrecognised : Recognised order a
  · obtain ⟨kind, hmessage⟩ := hrecognised.exists_kind
    have hkind : kind ≠ .ptch := by
      rintro rfl
      exact hpatch hmessage
    rw [parsePacket_value_of_kind kind peer hmessage] at h
    exact parse_of_ne_ptch hkind h
  · rw [parsePacket_value_of_not_recognised hrecognised (inBounds_of_value h)] at h
    obtain ⟨rfl, rfl⟩ := Prod.mk.inj (Option.some.inj h)
    exact ⟨rfl, List.not_mem_nil⟩

/-- A message to patch appends its fixture and announces it. -/
theorem parsePacket_of_isPatch (hpatch : IsPatch order a)
    (h : (parsePacket order peer).value a = some (peer', signals)) :
    peer' = peer.patched (fixtureAt order a) ∧ signals = [.updatedFixtureList] := by
  rw [parsePacket_value_of_kind .ptch peer hpatch] at h
  exact eq_of_value_eq_ite h (parsePTCHPacket_value order peer a)

/-- **What one message does to the peer**: a patch appends its fixture, any other message
leaves the peer as it is. -/
theorem parsePacket_effect (h : (parsePacket order peer).value a = some (peer', signals)) :
    peer' = if IsPatch order a then peer.patched (fixtureAt order a) else peer := by
  by_cases hpatch : IsPatch order a
  · rw [if_pos hpatch]
    exact (parsePacket_of_isPatch hpatch h).1
  · rw [if_neg hpatch]
    exact (parsePacket_of_not_isPatch hpatch h).1

/-- **What a run of messages does to the peer**: it appends the fixtures patched. -/
theorem parsePackets_effect (h : parsePackets order messages peer = some (peer', signals)) :
    peer' = (patchedFixtures order messages).foldl Peer.patched peer := by
  rw [Streaming.state_run (fun _ _ _ _ => parsePacket_effect) h, patchedFixtures, Events.log,
    List.foldl_filterMap]
  congr 1
  funext peer a
  by_cases hpatch : IsPatch order a <;> simp [patchEvents, hpatch]

theorem fixtureList_foldl_patched (peer : Peer Host) (fixtures : List Fixture) :
    (fixtures.foldl Peer.patched peer).fixtureList = peer.fixtureList ++ fixtures ∧
      (fixtures.foldl Peer.patched peer).fixtureModel.fixtureList =
        peer.fixtureModel.fixtureList ++ fixtures := by
  induction fixtures generalizing peer with
  | nil => simp
  | cons fix fixtures ih =>
    obtain ⟨hlist, hmodel⟩ := ih (peer.patched fix)
    rw [List.foldl_cons, hlist, hmodel]
    simp [Peer.patched]

/-! ## The table after a run -/

/-- **The fixture table is the log of the messages to patch.** After any run of messages, to a
peer without fixtures, in which nothing is read outside, its list and the table model hold the
fixture of each message to patch, in the order of the messages, with a row for each. The last
entry for an identifier of the current patch is its current one. The list is the current patch
exactly when no message patched again or unpatched a fixture that was patched before it. -/
theorem fixtureTable_run (hlist : peer.fixtureList = [])
    (hmodel : peer.fixtureModel.fixtureList = [])
    (h : parsePackets order messages peer = some (peer', signals)) :
    peer'.fixtureList = patchedFixtures order messages ∧
      peer'.fixtureModel.fixtureList = peer'.fixtureList ∧
      peer'.fixtureModel.rowCount = messages.countP (fun a => IsPatch order a) ∧
      (∀ fixId fix, (patchEvents order).current messages fixId = some fix →
        ((patchEvents order).entriesFor peer'.fixtureList fixId).getLast? = some fix) ∧
      ((patchEvents order).Shows peer'.fixtureList ((patchEvents order).current messages) ↔
        (patchEvents order).Untouched messages) := by
  obtain ⟨hfixtures, hrows⟩ := fixtureList_foldl_patched peer (patchedFixtures order messages)
  rw [← parsePackets_effect h, hlist, List.nil_append] at hfixtures
  rw [← parsePackets_effect h, hmodel, List.nil_append] at hrows
  refine ⟨hfixtures, hrows.trans hfixtures.symm, ?_, ?_, ?_⟩
  · rw [FixtureModel.rowCount, hrows]
    exact length_patchedFixtures order messages
  · intro fixId fix hfix
    rw [hfixtures]
    exact Events.getLast?_entriesFor hfix
  · rw [hfixtures]
    exact Events.shows_current_iff

/-- Fixture 7 is patched and unpatched. -/
def patchedAndUnpatched : List (List UInt8) :=
  [(createPtchPacket .little 7 1 2 3 (.ofLiteral "A") (.ofLiteral "B")).contents,
    (createUPtcPacket .little [7]).contents]

/-- What becomes of a peer without fixtures. -/
theorem parsePackets_patchedAndUnpatched :
    parsePackets .little patchedAndUnpatched (Peer.new () 0 [] []) =
      some ((Peer.new () 0 [] []).patched ⟨7, 1, 2, 3, .ofLiteral "A", .ofLiteral "B"⟩,
        [.updatedFixtureList, .unpatchFixtures [7]]) := by
  decide

theorem fixtureTable_run_patchedAndUnpatched :
    ((Peer.new () 0 [] []).patched
        ⟨7, 1, 2, 3, .ofLiteral "A", .ofLiteral "B"⟩).fixtureModel.rowCount =
      patchedAndUnpatched.countP fun a => IsPatch .little a :=
  (fixtureTable_run rfl rfl parsePackets_patchedAndUnpatched).2.2.1

/-- The fixture that was unpatched is still in the table. -/
theorem not_shows_patchedAndUnpatched :
    ¬ ∀ (messages : List (List UInt8)) (peer' : Peer Unit) (signals : List Signal),
      (∀ a ∈ messages, IsPatch .little a ∨ IsUnpatch .little a) →
        parsePackets .little messages (Peer.new () 0 [] []) = some (peer', signals) →
          (patchEvents .little).Shows peer'.fixtureList
            ((patchEvents .little).current messages) := by
  intro hall
  have hkinds : ∀ a ∈ patchedAndUnpatched, IsPatch .little a ∨ IsUnpatch .little a := by decide
  have hshows := hall _ _ _ hkinds parsePackets_patchedAndUnpatched 7
  exact absurd hshows (by decide)

end CitpLib
