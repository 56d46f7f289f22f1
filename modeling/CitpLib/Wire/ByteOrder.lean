import Mathlib.Algebra.Order.Ring.Nat

/-!
# Host byte orders

A machine integer of `w` bytes lies in memory either least significant byte
first or most significant byte first. This file gives both representations as
maps between naturals and byte lists and proves that each is a bijection
between the naturals below `256 ^ w` and the lists of `w` bytes.

## Main definitions

* `Wire.ByteOrder` — little- or big-endian
* `ByteOrder.encode` — the `w` bytes that represent a natural
* `ByteOrder.decode` — the natural that a list of bytes represents

## Main results

* `decode_encode`, `encode_decode` — the two maps are mutually inverse
* `decode_eq_iff` — a field holds a value exactly when its bytes are the value's
-/

namespace Wire

/-- The order in which a host stores the bytes of an integer. -/
inductive ByteOrder
  | little
  | big
  deriving DecidableEq, Repr

/-- The `w` low-order bytes of `n`, least significant first. -/
def leBytes : ℕ → ℕ → List UInt8
  | 0, _ => []
  | w + 1, n => UInt8.ofNat n :: leBytes w (n / 256)

/-- The natural whose bytes, least significant first, are the given ones. -/
def leValue : List UInt8 → ℕ
  | [] => 0
  | b :: bs => b.toNat + 256 * leValue bs

@[simp] theorem length_leBytes (w n : ℕ) : (leBytes w n).length = w := by
  induction w generalizing n with
  | zero => rfl
  | succ w ih => simp [leBytes, ih]

theorem leValue_lt (bs : List UInt8) : leValue bs < 256 ^ bs.length := by
  induction bs with
  | nil => simp [leValue]
  | cons b bs ih =>
    have hb := b.toNat_lt
    simp only [leValue, List.length_cons, pow_succ]
    omega

theorem leValue_leBytes {w n : ℕ} (h : n < 256 ^ w) : leValue (leBytes w n) = n := by
  induction w generalizing n with
  | zero => simp only [pow_zero] at h; simp only [leBytes, leValue]; omega
  | succ w ih =>
    have hquot : n / 256 < 256 ^ w := by
      rw [pow_succ] at h
      exact Nat.div_lt_of_lt_mul (by rwa [mul_comm])
    simp only [leBytes, leValue, UInt8.toNat_ofNat', ih hquot]
    omega

theorem leBytes_leValue (bs : List UInt8) : leBytes bs.length (leValue bs) = bs := by
  induction bs with
  | nil => rfl
  | cons b bs ih =>
    have hb := b.toNat_lt
    have hlow : UInt8.ofNat (b.toNat + 256 * leValue bs) = b := by
      apply UInt8.toNat_inj.mp
      rw [UInt8.toNat_ofNat']
      omega
    have hhigh : (b.toNat + 256 * leValue bs) / 256 = leValue bs := by omega
    simp only [List.length_cons, leBytes, leValue, hlow, hhigh, ih]

namespace ByteOrder

variable {order : ByteOrder} {w n : ℕ} {bs : List UInt8}

/-- The bytes in memory of a `w`-byte integer of value `n`. -/
def encode : ByteOrder → ℕ → ℕ → List UInt8
  | little, w, n => leBytes w n
  | big, w, n => (leBytes w n).reverse

/-- The value of the integer whose bytes in memory are `bs`. -/
def decode : ByteOrder → List UInt8 → ℕ
  | little, bs => leValue bs
  | big, bs => leValue bs.reverse

@[simp] theorem length_encode (order : ByteOrder) (w n : ℕ) :
    (order.encode w n).length = w := by
  cases order <;> simp [encode]

@[simp] theorem encode_one (order : ByteOrder) (n : ℕ) :
    order.encode 1 n = [UInt8.ofNat n] := by
  cases order <;> rfl

theorem decode_lt (order : ByteOrder) (bs : List UInt8) :
    order.decode bs < 256 ^ bs.length := by
  cases order with
  | little => exact leValue_lt bs
  | big => simpa [decode] using leValue_lt bs.reverse

theorem decode_encode (order : ByteOrder) (h : n < 256 ^ w) :
    order.decode (order.encode w n) = n := by
  cases order <;> simp [encode, decode, leValue_leBytes h]

theorem encode_decode (order : ByteOrder) (h : bs.length = w) :
    order.encode w (order.decode bs) = bs := by
  subst h
  cases order with
  | little => exact leBytes_leValue bs
  | big =>
    have hrev := leBytes_leValue bs.reverse
    rw [List.length_reverse] at hrev
    simp [encode, decode, hrev]

/-- Values that fit are determined by their bytes. -/
theorem encode_inj {m : ℕ} (hn : n < 256 ^ w) (hm : m < 256 ^ w)
    (h : order.encode w n = order.encode w m) : n = m := by
  rw [← decode_encode order hn, h, decode_encode order hm]

/-- A field holds a value exactly when its bytes are the ones of that value. -/
theorem decode_eq_iff (hlen : bs.length = w) (hn : n < 256 ^ w) :
    order.decode bs = n ↔ bs = order.encode w n := by
  constructor
  · rintro rfl
    exact (encode_decode order hlen).symm
  · rintro rfl
    exact decode_encode order hn

end ByteOrder

end Wire
