import Mathlib.Tactic.IntervalCases
import CitpLib.Model.FixtureModel
import CitpLib.Theorems.FixtureTable
import CitpLib.Theorems.Receiver
import CitpLib.Theorems.Session

/-!
# What the table shows

A peer that receives a stream shows its fixtures in a table. The table is a function of
the stream: it has a row for each message to patch, in order, with a column for each
field of the fixture. A view that reads a cell gets the field, and for a place outside
the table it gets nothing. What has been shown once is shown from then on at the same
place, for rows are only appended, and there is one signal for each. Over a session the
rows are those of the patch messages sent.

## Main definitions

* `Fixture.cells` — the row for a fixture
* `cell` — a place in a table of cells
* `VisualizerCall.fixture?` — the fixture that arrives for a call

## Main results

* `data_eq` — the model reads the rows of its fixtures
* `fixtureView_run` — the table after any deliveries
* `session_table` — the table in a session
-/

namespace CitpLib

open Wire Reader Streaming

variable {Host : Type} {order : ByteOrder} {char : PlainChar} {peer peer' : Peer Host}
  {signals : List Signal} {messages : List (List UInt8)} {buffered a : List UInt8}
  {cs : List (List UInt8)} {model : FixtureModel} {index : QModelIndex} {role : ℤ}

/-! ## The table of a list of fixtures -/

/-- The row for a fixture. -/
def Fixture.cells (fix : Fixture) : List QVariant :=
  [.int fix.fixtureIdentifier.toNat, .int fix.patchUniverse.toNat, .int fix.channel.toNat,
    .int fix.channelCount.toNat, .string fix.fixtureMake, .string fix.fixtureName]

/-- What is displayed at a place of a table. -/
def cell (rows : List (List QVariant)) (index : QModelIndex) (role : ℤ) : QVariant :=
  if role = displayRole ∧ index.isValid then
    ((rows[index.row.toNat]?).bind fun cells => cells[index.column.toNat]?).getD .invalid
  else .invalid

theorem QModelIndex.isValid_iff : index.isValid ↔
    0 ≤ index.row ∧ 0 ≤ index.column ∧ index.hasModel := by
  rw [QModelIndex.isValid, Bool.and_eq_true, Bool.and_eq_true, decide_eq_true_iff,
    decide_eq_true_iff, and_assoc]

/-- The columns are those of the header. -/
theorem length_cells (fix : Fixture) : (fix.cells.length : ℤ) = numCols := rfl

/-- **The model reads the rows of its fixtures.** -/
theorem data_eq (model : FixtureModel) (index : QModelIndex) (role : ℤ) :
    model.data index role = cell (model.fixtureList.map Fixture.cells) index role := by
  by_cases hshown : role = displayRole ∧ index.isValid = true
  · obtain ⟨hrole, hvalid⟩ := hshown
    obtain ⟨hrow, hcolumn, -⟩ := QModelIndex.isValid_iff.mp hvalid
    obtain ⟨row, hrow⟩ := Int.eq_ofNat_of_zero_le hrow
    obtain ⟨column, hcolumn⟩ := Int.eq_ofNat_of_zero_le hcolumn
    rw [cell, if_pos ⟨hrole, hvalid⟩, FixtureModel.data, if_neg (by simpa using hvalid), hrow,
      hcolumn, Int.toNat_natCast, Int.toNat_natCast, List.getElem?_map]
    by_cases hlt : row < model.fixtureList.length
    · rw [if_neg (by omega), List.getElem?_eq_getElem hlt, Option.map_some, Option.bind_some]
      by_cases hcell : column < 6
      · rw [if_neg (by simp only [numCols]; omega), if_neg (by simpa using hrole)]
        interval_cases column <;> rfl
      · have hnone : (Fixture.cells model.fixtureList[row])[column]? = none :=
          List.getElem?_eq_none (Nat.le_of_not_lt hcell)
        rw [if_pos (by simp only [numCols]; omega), hnone, Option.getD_none]
    · rw [if_pos (by omega), List.getElem?_eq_none (by omega), Option.map_none,
        Option.bind_none, Option.getD_none]
  · rw [cell, if_neg hshown, FixtureModel.data]
    by_cases hvalid : index.isValid = true
    · rw [if_pos (fun hrole => hshown ⟨hrole, hvalid⟩), ite_self, ite_self, ite_self]
    · rw [if_pos (by simpa using hvalid)]

theorem ne_invalid_of_mem_cells {fix : Fixture} {value : QVariant} (h : value ∈ fix.cells) :
    value ≠ .invalid := by
  rintro rfl
  simp [Fixture.cells] at h

/-- A place shows something exactly if it is in the table. -/
theorem data_ne_invalid_iff : model.data index role ≠ .invalid ↔
    (role = displayRole ∧ index.isValid) ∧ index.row < model.rowCount ∧
      index.column < model.columnCount := by
  rw [data_eq, cell]
  by_cases hshown : role = displayRole ∧ index.isValid = true
  · obtain ⟨hrow, hcolumn, -⟩ := QModelIndex.isValid_iff.mp hshown.2
    rw [if_pos hshown, iff_true_intro hshown, true_and, List.getElem?_map,
      FixtureModel.rowCount, FixtureModel.columnCount]
    by_cases hlt : index.row < model.fixtureList.length
    · have hlt' : index.row.toNat < model.fixtureList.length := by omega
      have hlen := length_cells model.fixtureList[index.row.toNat]
      rw [iff_true_intro hlt, true_and, List.getElem?_eq_getElem hlt', Option.map_some,
        Option.bind_some]
      by_cases hcell : index.column < numCols
      · have hcell' : index.column.toNat < (model.fixtureList[index.row.toNat]).cells.length := by
          omega
        rw [List.getElem?_eq_getElem hcell', Option.getD_some]
        exact iff_of_true (ne_invalid_of_mem_cells (List.getElem_mem hcell')) hcell
      · rw [List.getElem?_eq_none (by omega), Option.getD_none]
        exact iff_of_false (fun hne => hne rfl) hcell
    · rw [List.getElem?_eq_none (by omega), Option.map_none, Option.bind_none, Option.getD_none]
      exact iff_of_false (fun hne => hne rfl) fun h => hlt h.1
  · rw [if_neg hshown]
    exact iff_of_false (fun hne => hne rfl) fun h => hshown h.1

/-- There is a header for each column and for nothing else. -/
theorem headerData_ne_invalid_iff {headerSection : ℤ} :
    model.headerData headerSection .horizontal displayRole ≠ .invalid ↔
      0 ≤ headerSection ∧ headerSection < model.columnCount := by
  simp only [FixtureModel.headerData, ne_eq, not_true_eq_false, if_false,
    FixtureModel.columnCount, numCols]
  split
  case h_7 h0 h1 h2 h3 h4 h5 =>
    refine iff_of_false (fun hne => hne rfl) fun h => ?_
    obtain ⟨hlow, hhigh⟩ := h
    interval_cases headerSection
    · exact h0 rfl
    · exact h1 rfl
    · exact h2 rfl
    · exact h3 rfl
    · exact h4 rfl
    · exact h5 rfl
  all_goals exact iff_of_true (by simp) (by omega)

/-- A place that shows something goes on to show it when rows are appended. -/
theorem cell_append {rows more : List (List QVariant)} (h : cell rows index role ≠ .invalid) :
    cell (rows ++ more) index role = cell rows index role := by
  rw [cell] at h
  rw [cell, cell]
  split
  · rename_i hshown
    rw [if_pos hshown] at h
    cases hrow : rows[index.row.toNat]? with
    | none =>
      rw [hrow] at h
      exact absurd rfl h
    | some cells =>
      obtain ⟨hlt, -⟩ := List.getElem?_eq_some_iff.mp hrow
      rw [List.getElem?_append_left hlt, hrow]
  · rfl

/-! ## The table of a stream -/

/-- **A message to patch is announced** by one signal, and no other message is. -/
theorem count_updatedFixtureList (h : (parsePacket order peer).value a = some (peer', signals)) :
    signals.count .updatedFixtureList = if IsPatch order a then 1 else 0 := by
  by_cases hpatch : IsPatch order a
  · rw [if_pos hpatch, (parsePacket_of_isPatch hpatch h).2]
    rfl
  · rw [if_neg hpatch]
    exact List.count_eq_zero.mpr (parsePacket_of_not_isPatch hpatch h).2

theorem count_parsePackets (h : parsePackets order messages peer = some (peer', signals)) :
    signals.count .updatedFixtureList = (patchedFixtures order messages).length := by
  rw [length_patchedFixtures]
  apply trace_run (P := fun messages signals _ =>
    signals.count .updatedFixtureList = messages.countP fun a => IsPatch order a) ?_ rfl h
  intro messages signals peer a peer' emitted hcount hparsed
  have hone := count_updatedFixtureList hparsed
  rw [List.count_append, List.countP_append, List.countP_singleton, hcount, hone]
  simp

/-- What is delivered to a peer, whatever its socket holds, appends rows to its table. -/
theorem fixtureList_run
    (h : run (Peer.readyRead order char) cs (peer, a) = some ((peer', buffered), signals)) :
    ∃ es, Deliveries (readyReadStep char) a cs es buffered ∧
      peer'.fixtureModel.fixtureList =
        peer.fixtureModel.fixtureList ++ patchedFixtures order (handed es) ∧
      signals.count .updatedFixtureList = (patchedFixtures order (handed es)).length := by
  rw [readyRead_eq_deliver] at h
  obtain ⟨es, hdeliveries, hacted⟩ :=
    (run_deliver_eq_some_iff (readyReadStep_cuts char)).mp h
  rw [run_handleEvent] at hacted
  refine ⟨es, hdeliveries, ?_, count_parsePackets hacted⟩
  rw [parsePackets_effect hacted, (fixtureList_foldl_patched peer _).2]

/-- **The table after any deliveries.** A peer without fixtures that has received a stream
shows, in whatever pieces it came, the fields of the fixtures that its messages patch: a row
for each of these messages, in order, and there is a signal for each. A place shows something
exactly if it is in the table, and every column has a header. What a place shows it goes on to
show, whatever is delivered later. -/
theorem fixtureView_run (hmodel : peer.fixtureModel.fixtureList = [])
    (h : run (Peer.readyRead order char) cs (peer, []) = some ((peer', buffered), signals)) :
    (∃ es, Received char cs es buffered ∧
      ∀ index role, peer'.fixtureModel.data index role =
        cell ((patchedFixtures order (handed es)).map Fixture.cells) index role) ∧
      peer'.fixtureModel.rowCount = signals.count .updatedFixtureList ∧
      (∀ index role, peer'.fixtureModel.data index role ≠ .invalid ↔
        (role = displayRole ∧ index.isValid) ∧ index.row < peer'.fixtureModel.rowCount ∧
          peer'.fixtureModel.headerData index.column .horizontal displayRole ≠ .invalid) ∧
      ∀ more peer'' buffered' later,
        run (Peer.readyRead order char) more (peer', buffered) =
            some ((peer'', buffered'), later) →
          ∀ index role, peer'.fixtureModel.data index role ≠ .invalid →
            peer''.fixtureModel.data index role = peer'.fixtureModel.data index role := by
  obtain ⟨es, hdeliveries, hlist, hcount⟩ := fixtureList_run h
  rw [hmodel, List.nil_append] at hlist
  refine ⟨⟨es, hdeliveries, fun index role => ?_⟩, ?_, fun index role => ?_, ?_⟩
  · rw [data_eq, hlist]
  · rw [FixtureModel.rowCount, hlist, hcount]
  · rw [data_ne_invalid_iff, headerData_ne_invalid_iff]
    constructor
    · intro hplace
      obtain ⟨hshown, hrow, hcolumn⟩ := hplace
      exact ⟨hshown, hrow, (QModelIndex.isValid_iff.mp hshown.2).2.1, hcolumn⟩
    · intro hplace
      obtain ⟨hshown, hrow, -, hcolumn⟩ := hplace
      exact ⟨hshown, hrow, hcolumn⟩
  · intro more peer'' buffered' later hlater index role hne
    obtain ⟨fs, -, hlist', -⟩ := fixtureList_run hlater
    rw [data_eq] at hne ⊢
    rw [data_eq, hlist', List.map_append]
    exact cell_append hne

/-- The message to patch fixture 7 arrives in two pieces. -/
def patchDeliveries : List (List UInt8) :=
  [(createPtchPacket .little 7 1 2 3 (.ofLiteral "A") (.ofLiteral "B")).contents.take 10,
    (createPtchPacket .little 7 1 2 3 (.ofLiteral "A") (.ofLiteral "B")).contents.drop 10]

theorem run_patchDeliveries :
    run (Peer.readyRead .little .signed) patchDeliveries (Peer.new () 0 [] [], []) =
      some (((Peer.new () 0 [] []).patched ⟨7, 1, 2, 3, .ofLiteral "A", .ofLiteral "B"⟩, []),
        [.updatedFixtureList]) := by
  decide

theorem fixtureView_run_patchDeliveries :
    ((Peer.new () 0 [] []).patched
        ⟨7, 1, 2, 3, .ofLiteral "A", .ofLiteral "B"⟩).fixtureModel.rowCount =
      [Signal.updatedFixtureList].count .updatedFixtureList :=
  (fixtureView_run rfl run_patchDeliveries).2.1

/-! ## The table of a session -/

/-- The fixture that arrives at a host for a call, if it patches one there. -/
def VisualizerCall.fixture? (order : ByteOrder) (call : VisualizerCall) : Option Fixture :=
  match order, call with
  | .little, sendPatchMessage fixtureIdentifier universeIndex channelIndex channelCount
      fixtureMake fixtureName =>
    some (receivedFixture fixtureIdentifier universeIndex channelIndex channelCount fixtureMake
      fixtureName)
  | _, _ => none

/-- What a call does to the fixtures of the other side, and to its signals. -/
theorem effect_fixtureModel (order : ByteOrder) (call : VisualizerCall) (peer : Peer Host) :
    (call.request.effect order peer).1.fixtureModel.fixtureList =
        peer.fixtureModel.fixtureList ++ (call.fixture? order).toList ∧
      (call.request.effect order peer).2.count .updatedFixtureList =
        (call.fixture? order).toList.length := by
  cases order with
  | big => exact ⟨(List.append_nil _).symm, rfl⟩
  | little =>
    cases call with
    | sendPatchMessage fixtureIdentifier universeIndex channelIndex channelCount fixtureMake
        fixtureName => exact ⟨rfl, rfl⟩
    | sendUnpatchMessage ids =>
      refine ⟨(List.append_nil _).symm, ?_⟩
      simp only [VisualizerCall.request, Request.effect]
      split <;> rfl
    | sendPatchRequest ids =>
      refine ⟨(List.append_nil _).symm, ?_⟩
      simp only [VisualizerCall.request, Request.effect]
      split <;> rfl
    | sendDeselectMessage ids =>
      refine ⟨(List.append_nil _).symm, ?_⟩
      simp only [VisualizerCall.request, Request.effect]
      split <;> rfl
    | _ => exact ⟨(List.append_nil _).symm, rfl⟩

/-- Calls that are performed append the fixtures that arrive for them. -/
theorem fixtureList_performed {calls : List VisualizerCall}
    (h : run (VisualizerCall.effect order) calls peer = some (peer', signals)) :
    peer'.fixtureModel.fixtureList =
        peer.fixtureModel.fixtureList ++ calls.filterMap (VisualizerCall.fixture? order) ∧
      signals.count .updatedFixtureList =
        (calls.filterMap (VisualizerCall.fixture? order)).length := by
  apply trace_run (P := fun calls signals peer' =>
    peer'.fixtureModel.fixtureList =
        peer.fixtureModel.fixtureList ++ calls.filterMap (VisualizerCall.fixture? order) ∧
      signals.count .updatedFixtureList =
        (calls.filterMap (VisualizerCall.fixture? order)).length) ?_
    ⟨(List.append_nil _).symm, rfl⟩ h
  intro calls signals before call after emitted hbefore hstep
  obtain ⟨hlist, hcount⟩ := hbefore
  have heffect : call.request.effect order before = (after, emitted) := Option.some.inj hstep
  obtain ⟨hlist', hcount'⟩ := effect_fixtureModel order call before
  rw [heffect] at hlist' hcount'
  have hone : [call].filterMap (VisualizerCall.fixture? order) = (call.fixture? order).toList := by
    cases hfixture : call.fixture? order <;> simp [hfixture]
  constructor
  · rw [hlist', hlist, List.filterMap_append, hone, List.append_assoc]
  · rw [List.count_append, hcount, hcount', List.filterMap_append, hone, List.length_append]

/-- **A patch that is sent is shown.** In a session of calls that are all framed and of which none
was cut, with a peer that had no fixtures, the table of the peer shows a row for each patch message
that has been performed, in the order of the calls, with the numbers that were sent and the strings
that arrive for those sent; on a big-endian host it shows none. There is a signal for each row.
Once everything has arrived, these are all the patch messages whose calls returned true. -/
theorem session_table {session : Session Host} {receiver : Peer Host}
    {events : List SessionEvent} {sessionSignals : List SessionSignal}
    (h : run (Session.step .little order char) events (Session.new receiver) =
      some (session, sessionSignals))
    (hframed : ∀ call ∈ accepted sessionSignals, call.Framed char)
    (hcut : NothingCut sessionSignals) (hmodel : receiver.fixtureModel.fixtureList = []) :
    ∃ performed waiting, accepted sessionSignals = performed ++ waiting ∧
      (∀ index role, session.receiver.fixtureModel.data index role =
        cell ((performed.filterMap (VisualizerCall.fixture? order)).map Fixture.cells) index role) ∧
      session.receiver.fixtureModel.rowCount =
        (emittedSignals sessionSignals).count .updatedFixtureList ∧
      (session.inFlight = [] → waiting = []) := by
  have hstream := (Session.answered_run h).writtenBytes_eq_iff.mpr hcut
  rw [← List.append_nil (List.flatMap _ _)] at hstream
  obtain ⟨performed, waiting, haccepted, hperformed, -, hnone, -⟩ :=
    (Session.history_run h).performed hframed (stuck_nil (readyReadStep_nil char)) hstream
  obtain ⟨hlist, hcount⟩ := fixtureList_performed hperformed
  rw [hmodel, List.nil_append] at hlist
  refine ⟨performed, waiting, haccepted, fun index role => ?_, ?_, hnone⟩
  · rw [data_eq, hlist]
  · rw [FixtureModel.rowCount, hlist, hcount]

/-- A fixture named B of make A is patched, and all of the message has arrived. -/
def patchCallEvents : List SessionEvent :=
  [.connected, .call (.sendPatchMessage 7 1 2 3 (.ofLiteral "A") (.ofLiteral "B")) 40,
    .arrive 40]

/-- The call succeeds, and the fixture is announced. -/
def patchCallSignals : List SessionSignal :=
  [.returned (.sendPatchMessage 7 1 2 3 (.ofLiteral "A") (.ofLiteral "B")) true
      ((Request.ptch 7 1 2 3 (.ofLiteral "A") (.ofLiteral "B")).create .little).contents,
    .emitted .updatedFixtureList]

/-- The fixture is listed, and nothing is on its way. -/
def patchCallSession : Session Unit where
  link := .connected
  inFlight := []
  receiver :=
    (Peer.new () 0 [] []).patched ⟨7, 1, 2, 3, .ofLiteral "A", .ofLiteral "B"⟩
  buffered := []

theorem run_patchCallEvents :
    run (Session.step .little .little .signed) patchCallEvents (Session.new (Peer.new () 0 [] [])) =
      some (patchCallSession, patchCallSignals) := by
  rfl

theorem nothingCut_patchCall : NothingCut patchCallSignals := by
  intro call taken hmem
  simp [patchCallSignals] at hmem

theorem session_table_patch :
    ∃ performed waiting, accepted patchCallSignals = performed ++ waiting ∧
      (∀ index role, patchCallSession.receiver.fixtureModel.data index role =
        cell ((performed.filterMap (VisualizerCall.fixture? .little)).map Fixture.cells)
          index role) ∧
      patchCallSession.receiver.fixtureModel.rowCount =
        (emittedSignals patchCallSignals).count .updatedFixtureList ∧
      (patchCallSession.inFlight = [] → waiting = []) :=
  session_table run_patchCallEvents
    (List.forall_mem_singleton.mpr ⟨⟨by decide, by decide⟩, by decide⟩) nothingCut_patchCall rfl

end CitpLib
