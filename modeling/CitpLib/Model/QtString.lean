import CitpLib.Wire.ByteOrder
import Mathlib.Data.Nat.Digits.Defs

/-!
# Qt strings

A `QString` is a sequence of UTF-16 code units. The library converts it to
bytes in two ways: through `toAscii`, one byte per code unit, and by pointing
at the code units in memory. Without a codec set by the application the 8-bit
conversions are Latin-1.

## Main definitions

* `QString` — a string as its code units
* `QString.toAscii`, `QString.ofChars` — the 8-bit conversions
* `QString.constData` — the bytes of the code units in memory
* `QString.arg` — substitution for the lowest-numbered place marker
-/

namespace CitpLib

open Wire

/-- A string as its UTF-16 code units. -/
abbrev QString := List UInt16

namespace QString

/-- The string of an ASCII literal. -/
def ofLiteral (s : String) : QString := s.toList.map fun c => UInt16.ofNat c.toNat

/-- `QString(const char *)`: one code unit per byte before the terminator. -/
def ofChars (bs : List UInt8) : QString := bs.map UInt8.toUInt16

/-- `toAscii()`: a code unit outside Latin-1 becomes a question mark. -/
def toAscii (s : QString) : List UInt8 :=
  s.map fun c => if c ≤ 0xFF then c.toUInt8 else 0x3F

/-- `constData()`: the code units as they lie in the host's memory. -/
def constData (order : ByteOrder) (s : QString) : List UInt8 :=
  s.flatMap fun c => order.encode 2 c.toNat

@[simp] theorem length_toAscii (s : QString) : s.toAscii.length = s.length := by
  simp [toAscii]

@[simp] theorem length_constData (order : ByteOrder) (s : QString) :
    (s.constData order).length = 2 * s.length := by
  induction s with
  | nil => rfl
  | cons c s ih =>
    rw [constData, List.flatMap_cons, List.length_append, ByteOrder.length_encode]
    rw [constData] at ih
    simp only [ih, List.length_cons]
    omega

/-! ### Numbers and place markers -/

/-- The decimal text of a natural number. -/
def decimal (n : ℕ) : QString :=
  if n = 0 then [0x30] else (Nat.digits 10 n).reverse.map fun d => UInt16.ofNat (0x30 + d)

/-- `QString::number`: the decimal text of an integer. -/
def number : ℤ → QString
  | .ofNat n => decimal n
  | .negSucc n => 0x2D :: decimal (n + 1)

/-- The value of a decimal digit. -/
def digit? (c : UInt16) : Option ℕ :=
  if 0x30 ≤ c ∧ c ≤ 0x39 then some (c.toNat - 0x30) else none

/-- The place marker a string begins with: its number and its length. A marker
is a percent sign with one or two digits. -/
def marker? : QString → Option (ℕ × ℕ)
  | p :: c :: s =>
    if p = 0x25 then
      match digit? c, s.head?.bind digit? with
      | none, _ => none
      | some d, none => some (d, 2)
      | some d, some d' => some (10 * d + d', 3)
    else none
  | _ => none

/-- The lowest number among the place markers of a string. -/
def lowestMarker? : QString → Option ℕ
  | [] => none
  | c :: s =>
    match marker? (c :: s), lowestMarker? s with
    | none, low => low
    | some (n, _), none => some n
    | some (n, _), some low => some (min n low)

/-- Put `text` in place of every marker with number `n`. The first argument
counts the code units of the current marker that are still to be skipped. -/
def substitute (n : ℕ) (text : QString) : ℕ → QString → QString
  | _, [] => []
  | skip + 1, _ :: s => substitute n text skip s
  | 0, c :: s =>
    match marker? (c :: s) with
    | some (m, len) =>
      if m = n then text ++ substitute n text (len - 1) s else c :: substitute n text 0 s
    | none => c :: substitute n text 0 s

/-- `arg(int)`: the decimal text goes in place of the lowest-numbered marker; a
string without markers is returned as it is. -/
def arg (s : QString) (value : ℤ) : QString :=
  match lowestMarker? s with
  | some n => substitute n (number value) 0 s
  | none => s

end QString

end CitpLib
