import CitpLib.Theorems.Layout

/-!
# All fixtures or the listed ones

Three messages concern either all fixtures or the ones they list: to unpatch, to send the
patch, and to deselect. A count of zero stands for all. The handlers of the first two return
after the signal for all fixtures; the one to deselect goes on, and emits the signal for
listed fixtures too, with an empty list.

## Main definitions

* `ListKind` — the three messages, with their signals
* `AllOrListed` — the one signal that a message stands for

## Main results

* `parsePacket_value_of_listKind` — what each of the three handlers emits
* `allOrListed_iff` — when exactly one signal is emitted
-/

namespace CitpLib

open Wire Reader

variable {Host : Type} {order : ByteOrder} {a : List UInt8}

/-- The messages in which an empty list stands for all fixtures. -/
inductive ListKind
  | uPtc
  | sPtc
  | deSe
  deriving DecidableEq, Repr

namespace ListKind

/-- The kind among all messages. -/
def kind : ListKind → MessageKind
  | uPtc => .uPtc
  | sPtc => .sPtc
  | deSe => .deSe

/-- Where the count of identifiers stands. -/
def countOffset : ListKind → ℕ
  | uPtc => CitpFptcUPtc.fixtureCount
  | sPtc => CitpFptcSPtc.fixtureCount
  | deSe => CitpFselDeSe.fixtureCount

/-- The signal for all fixtures. -/
def all : ListKind → Signal
  | uPtc => .unpatchAllFixtures
  | sPtc => .sendPatchAllFixtures
  | deSe => .deselectAllFixtures

/-- The signal for the listed fixtures. -/
def listed : ListKind → List UInt16 → Signal
  | uPtc => .unpatchFixtures
  | sPtc => .sendPatchFixtures
  | deSe => .deselectFixtures

/-- The count that a message has. -/
def count (listKind : ListKind) (order : ByteOrder) (a : List UInt8) : ℕ :=
  fieldAt order 2 listKind.countOffset a

/-- The identifiers that follow the count. -/
def identifiers (listKind : ListKind) (order : ByteOrder) (a : List UInt8) : List UInt16 :=
  identifiersAt order (listKind.count order a) (listKind.countOffset + 2) a

end ListKind

/-- A message is one that `parsePacket` dispatches to the handler of its kind. -/
def IsListMessage (order : ByteOrder) (listKind : ListKind) (a : List UInt8) : Prop :=
  IsMessage order listKind.kind.layer listKind.kind.cookie a

/-- Exactly one signal is emitted: the one for all fixtures where the count is zero, else the
one for the fixtures listed, of which there are some. -/
structure AllOrListed (order : ByteOrder) (listKind : ListKind) (a : List UInt8)
    (signals : List Signal) : Prop where
  single : signals = [if listKind.count order a = 0 then listKind.all
    else listKind.listed (listKind.identifiers order a)]
  listed_ne_nil : listKind.listed [] ∉ signals

theorem ListKind.listed_ne_all (listKind : ListKind) (ids : List UInt16) :
    listKind.listed ids ≠ listKind.all := by
  cases listKind <;> exact Signal.noConfusion

theorem ListKind.listed_injective (listKind : ListKind) :
    Function.Injective listKind.listed := by
  intro ids ids' h
  cases listKind with
  | uPtc => exact Signal.unpatchFixtures.inj h
  | sPtc => exact Signal.sendPatchFixtures.inj h
  | deSe => exact Signal.deselectFixtures.inj h

theorem ListKind.identifiers_eq_nil_iff (listKind : ListKind) :
    listKind.identifiers order a = [] ↔ listKind.count order a = 0 := by
  simp [identifiers, identifiersAt]

/-- What each of the handlers emits: the one to deselect never leaves out the list. -/
theorem parsePacket_value_of_listKind (listKind : ListKind) (peer : Peer Host)
    (h : IsListMessage order listKind a)
    (hlen : listKind.countOffset + 2 + 2 * listKind.count order a ≤ a.length + 1) :
    (parsePacket order peer).value a =
      some (peer, if listKind = .deSe then
          (if listKind.count order a = 0 then [listKind.all] else []) ++
            [listKind.listed (listKind.identifiers order a)]
        else [if listKind.count order a = 0 then listKind.all
          else listKind.listed (listKind.identifiers order a)]) := by
  cases listKind with
  | uPtc =>
    rw [parsePacket_value_of_kind .uPtc peer h]
    exact (parseUPTCPacket_value order peer a).trans (if_pos hlen)
  | sPtc =>
    rw [parsePacket_value_of_kind .sPtc peer h]
    exact (parseSPTCPacket_value order peer a).trans (if_pos hlen)
  | deSe =>
    rw [parsePacket_value_of_kind .deSe peer h]
    exact (parseDESEPacket_value order peer a).trans (if_pos hlen)

/-- The one signal of a message that lists some fixtures is not for an empty list. -/
theorem allOrListed_single (listKind : ListKind) (order : ByteOrder) (a : List UInt8) :
    AllOrListed order listKind a [if listKind.count order a = 0 then listKind.all
      else listKind.listed (listKind.identifiers order a)] where
  single := rfl
  listed_ne_nil := by
    rw [List.mem_singleton]
    by_cases hzero : listKind.count order a = 0
    · rw [if_pos hzero]
      exact listKind.listed_ne_all []
    · rw [if_neg hzero]
      intro hnil
      have hids := listKind.listed_injective hnil
      exact hzero (listKind.identifiers_eq_nil_iff.mp hids.symm)

/-- **When all and listed exclude one another.** An array long enough for its count, of one of
the three kinds and whatever its other bytes are, has exactly one signal emitted, for all
fixtures where the count is zero and else for the ones it lists, of which there are some:
exactly unless it is a message to deselect with a count of zero. -/
theorem allOrListed_iff (order : ByteOrder) (listKind : ListKind) (peer : Peer Host)
    (a : List UInt8) (h : IsListMessage order listKind a)
    (hlen : listKind.countOffset + 2 + 2 * listKind.count order a ≤ a.length + 1) :
    (∃ signals, (parsePacket order peer).value a = some (peer, signals) ∧
        AllOrListed order listKind a signals) ↔
      ¬ (listKind = .deSe ∧ listKind.count order a = 0) := by
  rw [parsePacket_value_of_listKind listKind peer h hlen]
  constructor
  · intro h hexcluded
    obtain ⟨signals, hvalue, hone⟩ := h
    obtain ⟨hdese, hzero⟩ := hexcluded
    obtain ⟨-, rfl⟩ := Prod.mk.inj (Option.some.inj hvalue)
    rw [if_pos hdese, if_pos hzero] at hone
    have hcount := congrArg List.length hone.single
    simp at hcount
  · intro hcondition
    refine ⟨_, rfl, ?_⟩
    by_cases hdese : listKind = .deSe
    · have hzero : listKind.count order a ≠ 0 := fun hzero => hcondition ⟨hdese, hzero⟩
      have hsingle := allOrListed_single listKind order a
      rw [if_neg hzero] at hsingle
      rw [if_pos hdese, if_neg hzero]
      exact hsingle
    · rw [if_neg hdese]
      exact allOrListed_single listKind order a

/-- A message to deselect fixture 7, with a byte behind it. -/
theorem allOrListed_deselect :
    ∃ signals, (parsePacket .little (Peer.new () 0 [] [])).value
        (chars "CITP" ++ [1, 0, 0, 0, 29, 0, 0, 0, 1, 0, 1, 0] ++ chars "FSEL" ++
          chars "DeSe" ++ [1, 0, 7, 0, 9]) = some (Peer.new () 0 [] [], signals) ∧
      AllOrListed .little .deSe (chars "CITP" ++ [1, 0, 0, 0, 29, 0, 0, 0, 1, 0, 1, 0] ++
        chars "FSEL" ++ chars "DeSe" ++ [1, 0, 7, 0, 9]) signals :=
  (allOrListed_iff .little .deSe (Peer.new () 0 [] []) _
    (MessageKind.deSe.isMessage_iff.mpr ⟨by decide, by decide, by decide, by decide⟩)
    (by decide)).mpr (by decide)

/-- The message to deselect all fixtures is announced twice. -/
theorem not_allOrListed_deselectAll :
    ¬ ∃ signals, (parsePacket .little (Peer.new () 0 [] [])).value
        (chars "CITP" ++ [1, 0, 0, 0, 26, 0, 0, 0, 1, 0, 1, 0] ++ chars "FSEL" ++
          chars "DeSe" ++ [0, 0]) = some (Peer.new () 0 [] [], signals) ∧
      AllOrListed .little .deSe (chars "CITP" ++ [1, 0, 0, 0, 26, 0, 0, 0, 1, 0, 1, 0] ++
        chars "FSEL" ++ chars "DeSe" ++ [0, 0]) signals := by
  have hboth : (parsePacket .little (Peer.new () 0 [] [])).value
      (chars "CITP" ++ [1, 0, 0, 0, 26, 0, 0, 0, 1, 0, 1, 0] ++ chars "FSEL" ++
        chars "DeSe" ++ [0, 0]) =
      some (Peer.new () 0 [] [], [.deselectAllFixtures, .deselectFixtures []]) := by decide
  rw [hboth]
  intro h
  obtain ⟨signals, hvalue, hone⟩ := h
  obtain ⟨-, rfl⟩ := Prod.mk.inj (Option.some.inj hvalue)
  exact hone.listed_ne_nil (by decide)

end CitpLib
