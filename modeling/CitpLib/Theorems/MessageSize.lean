import CitpLib.Model.Peer
import Mathlib.Tactic.SplitIfs

/-!
# The assembled message size

The framing loop shifts the four size bytes of a header into a `quint32`, each
converted from plain `char`. Where `char` is signed, a byte from 0x80 on sets
all bits above its own, so the assembled size may differ from the declared one;
it is then close to `2 ^ 32`.

## Main definitions

* `declaredSize` — the little-endian unsigned value of the four size bytes

## Main results

* `messageSize_eq_or_ge` — the assembled size is the declared one or enormous
* `messageSize_eq_zero_iff` — it is zero exactly when the declared one is
* `messageSize_eq_iff` — below `2 ^ 31`, an unsigned `char` assembles the declared
  size, and a signed one exactly when its three low bytes are below 0x80
-/

namespace CitpLib

open Wire

variable {char : PlainChar} {a : List UInt8}

/-- The message size that a header declares, an unsigned little-endian field. -/
def declaredSize (a : List UInt8) : ℕ := ByteOrder.little.decode ((a.drop 8).take 4)

theorem declaredSize_eq (h : 12 ≤ a.length) :
    declaredSize a = (a.getD 8 0).toNat + 256 * ((a.getD 9 0).toNat +
      256 * ((a.getD 10 0).toNat + 256 * (a.getD 11 0).toNat)) := by
  rw [declaredSize, Reader.drop_eq_getD_cons (by omega), Reader.drop_eq_getD_cons (by omega),
    Reader.drop_eq_getD_cons (by omega), Reader.drop_eq_getD_cons (by omega)]
  simp [ByteOrder.decode, leValue]

/-- The conversion of a `char` keeps small bytes and extends the sign of the
others. -/
theorem toNat_toQuint32 (char : PlainChar) (c : UInt8) :
    (char.toQuint32 c).toNat =
      if char = .signed ∧ 0x80 ≤ c.toNat then 0xFFFFFF00 + c.toNat else c.toNat := by
  have hsigned : ∀ i : Fin 256, (PlainChar.signed.toQuint32 (UInt8.ofNat i)).toNat =
      if 0x80 ≤ i.val then 0xFFFFFF00 + i.val else i.val := by decide +kernel
  cases char with
  | unsigned => simp [PlainChar.toQuint32]
  | signed => simpa using hsigned ⟨c.toNat, c.toNat_lt⟩

theorem toNat_shiftLeft_eight (x : UInt32) :
    (x <<< 8).toNat = 2 ^ 8 * (x.toNat % 2 ^ 24) := by
  simp only [UInt32.toNat_shiftLeft, UInt32.reduceToNat, Nat.reduceMod, Nat.shiftLeft_eq]
  omega

theorem toNat_shiftLeft_or_of_lt (x : UInt32) {y : UInt32} (h : y.toNat < 256) :
    ((x <<< 8) ||| y).toNat = (x.toNat * 256 + y.toNat) % 2 ^ 32 := by
  have hor := Nat.two_pow_add_eq_or_of_lt (i := 8) h (x.toNat % 2 ^ 24)
  calc ((x <<< 8) ||| y).toNat = 2 ^ 8 * (x.toNat % 2 ^ 24) ||| y.toNat := by
        rw [UInt32.toNat_or, toNat_shiftLeft_eight]
    _ = 2 ^ 8 * (x.toNat % 2 ^ 24) + y.toNat := hor.symm
    _ = (x.toNat * 256 + y.toNat) % 2 ^ 32 := by omega

/-- The sign bits of a byte cover everything shifted up before it. -/
theorem toNat_shiftLeft_or_of_ge (x : UInt32) {y : UInt32} (h : 0xFFFFFF00 ≤ y.toNat) :
    ((x <<< 8) ||| y).toNat = y.toNat := by
  have hy := y.toNat_lt
  have hones : x.toNat % 2 ^ 24 ||| (2 ^ 24 - 1) = 2 ^ 24 - 1 := by
    apply Nat.le_antisymm
    · exact Nat.le_pred_of_lt (Nat.or_lt_two_pow (n := 24) (by omega) (by omega))
    · exact Nat.right_le_or
  have hhigh : 2 ^ 8 * (x.toNat % 2 ^ 24) ||| 2 ^ 8 * (2 ^ 24 - 1) = 2 ^ 8 * (2 ^ 24 - 1) := by
    simp only [Nat.mul_comm (2 ^ 8), ← Nat.shiftLeft_eq]
    rw [← Nat.shiftLeft_or_distrib, hones]
  have hsplit : y.toNat = 2 ^ 8 * (2 ^ 24 - 1) ||| y.toNat % 256 := by
    rw [← Nat.two_pow_add_eq_or_of_lt (i := 8) (by omega) (2 ^ 24 - 1)]
    omega
  calc ((x <<< 8) ||| y).toNat = 2 ^ 8 * (x.toNat % 2 ^ 24) ||| y.toNat := by
        rw [UInt32.toNat_or, toNat_shiftLeft_eight]
    _ = y.toNat := by rw [hsplit, ← Nat.or_assoc, hhigh]

/-- One step of the assembly. -/
theorem toNat_shiftLeft_or (char : PlainChar) (x : UInt32) (c : UInt8) :
    ((x <<< 8) ||| char.toQuint32 c).toNat =
      if char = .signed ∧ 0x80 ≤ c.toNat then 0xFFFFFF00 + c.toNat
      else (x.toNat * 256 + c.toNat) % 2 ^ 32 := by
  have hvalue := toNat_toQuint32 char c
  have hc := c.toNat_lt
  split_ifs at hvalue ⊢ with hsign
  · rw [toNat_shiftLeft_or_of_ge x (by omega), hvalue]
  · rw [toNat_shiftLeft_or_of_lt x (by omega), hvalue]

/-! ## The assembled and the declared size -/

theorem messageSize_eq_of_lt (h : 12 ≤ a.length) (h8 : (a.getD 8 0).toNat < 0x80)
    (h9 : (a.getD 9 0).toNat < 0x80) (h10 : (a.getD 10 0).toNat < 0x80) :
    (messageSize char a).toNat = declaredSize a := by
  have h11 := (a.getD 11 0).toNat_lt
  simp only [messageSize, declaredSize_eq h, toNat_shiftLeft_or, toNat_toQuint32]
  split_ifs <;> omega

/-- The assembled size is the declared one or more than any buffer holds. -/
theorem messageSize_eq_or_ge (char : PlainChar) (h : 12 ≤ a.length) :
    (messageSize char a).toNat = declaredSize a ∨
      0xFF000000 ≤ (messageSize char a).toNat := by
  -- the lowest byte with its sign bit set decides, whatever was assembled before
  have h8 := (a.getD 8 0).toNat_lt
  have h9 := (a.getD 9 0).toNat_lt
  have h10 := (a.getD 10 0).toNat_lt
  have h11 := (a.getD 11 0).toNat_lt
  simp only [messageSize, declaredSize_eq h, toNat_shiftLeft_or, toNat_toQuint32]
  split_ifs <;> omega

theorem messageSize_eq_zero_iff (char : PlainChar) (h : 12 ≤ a.length) :
    (messageSize char a).toNat = 0 ↔ declaredSize a = 0 := by
  have h8 := (a.getD 8 0).toNat_lt
  have h9 := (a.getD 9 0).toNat_lt
  have h10 := (a.getD 10 0).toNat_lt
  have h11 := (a.getD 11 0).toNat_lt
  simp only [messageSize, declaredSize_eq h, toNat_shiftLeft_or, toNat_toQuint32]
  split_ifs <;> omega

/-- The three low bytes of a size are ones that a signed `char` can hold. -/
def SizeRepresentable (n : ℕ) : Prop :=
  n % 256 < 0x80 ∧ n / 256 % 256 < 0x80 ∧ n / 65536 % 256 < 0x80

instance (n : ℕ) : Decidable (SizeRepresentable n) :=
  inferInstanceAs (Decidable (_ ∧ _))

theorem messageSize_eq_iff (char : PlainChar) (h : 12 ≤ a.length)
    (hlt : declaredSize a < 2 ^ 31) :
    (messageSize char a).toNat = declaredSize a ↔
      char = .unsigned ∨ SizeRepresentable (declaredSize a) := by
  have h8 := (a.getD 8 0).toNat_lt
  have h9 := (a.getD 9 0).toNat_lt
  have h10 := (a.getD 10 0).toNat_lt
  have h11 := (a.getD 11 0).toNat_lt
  rw [declaredSize_eq h] at hlt
  simp only [messageSize, declaredSize_eq h, toNat_shiftLeft_or, toNat_toQuint32,
    SizeRepresentable]
  cases char with
  | signed =>
    simp only [true_and, reduceCtorEq, false_or]
    split_ifs <;> omega
  | unsigned =>
    simp only [reduceCtorEq, false_and, if_false, true_or, iff_true]
    omega

end CitpLib
