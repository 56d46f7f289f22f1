import CitpLib.Model.Peer

/-!
# The table shown to the user

The fixtures of a peer are shown through a table model. A view asks it for the size of
the table, for the headers and for each cell, in a role: what is displayed is one role of
several. For what it does not have the model returns an invalid variant.

An integer of one or two bytes becomes a variant that holds an `int`.

## Main definitions

* `QVariant`, `QModelIndex` — what the model returns, and where
* `FixtureModel.data`, `FixtureModel.headerData` — the cells and the headers
-/

namespace CitpLib

/-- As far as the model returns them. -/
inductive QVariant
  | invalid
  | int (value : ℤ)
  | string (value : QString)
  deriving DecidableEq, Repr

/-- An index into a table, and whether it belongs to a model. -/
structure QModelIndex where
  row : ℤ
  column : ℤ
  hasModel : Bool

/-- No negative row or column, and a model. -/
def QModelIndex.isValid (index : QModelIndex) : Bool :=
  0 ≤ index.row && 0 ≤ index.column && index.hasModel

/-- A header is horizontal, above the columns, or vertical, beside the rows. -/
inductive Orientation
  | horizontal
  | vertical
  deriving DecidableEq, Repr

/-- The role for the text that is displayed. -/
def displayRole : ℤ := 0

/-- id universe channel channelcount make name -/
def numCols : ℤ := 6

namespace FixtureModel

/-- Every table has the same columns. -/
def columnCount (_model : FixtureModel) : ℤ := numCols

/-- The text of a cell: a field of the fixture in its row. -/
def data (model : FixtureModel) (index : QModelIndex) (role : ℤ) : QVariant :=
  if index.isValid = false then .invalid
  else if index.row ≥ model.fixtureList.length then .invalid
  else if index.column ≥ numCols then .invalid
  else if role ≠ displayRole then .invalid
  else
    match model.fixtureList[index.row.toNat]? with
    | none => .invalid
    | some f =>
      match index.column with
      | 0 => .int f.fixtureIdentifier.toNat
      | 1 => .int f.patchUniverse.toNat
      | 2 => .int f.channel.toNat
      | 3 => .int f.channelCount.toNat
      | 4 => .string f.fixtureMake
      | 5 => .string f.fixtureName
      | _ => .invalid

/-- The text above a column. -/
def headerData (_model : FixtureModel) (headerSection : ℤ) (orientation : Orientation)
    (role : ℤ) : QVariant :=
  if role ≠ displayRole then .invalid
  else if orientation ≠ .horizontal then .invalid
  else
    match headerSection with
    | 0 => .string (.ofLiteral "ID")
    | 1 => .string (.ofLiteral "Universe")
    | 2 => .string (.ofLiteral "Channel")
    | 3 => .string (.ofLiteral "Channel Count")
    | 4 => .string (.ofLiteral "Make")
    | 5 => .string (.ofLiteral "Model")
    | _ => .invalid

end FixtureModel

end CitpLib
