import CitpLib.Wire.Reader
import CitpLib.Theorems.WireFormat

/-!
# Strings in 8-bit fields

A NUL-terminated field of one byte per character carries the strings over
U+0001 to U+00FF and no others. For these the 8-bit conversions are inverse to
each other, and a terminated field determines its string and where it ends.

## Main definitions

* `Latin1` — the strings that terminated 8-bit fields can carry

## Main results

* `ofChars_toAscii` — the conversions are inverse
* `cstringAt_terminated` — a terminated string is read back
* `terminated_append_inj` — no terminated string begins another one
-/

namespace CitpLib

open Wire Reader

variable {s t : QString} {pre post post' xs ys : List UInt8} {o : ℕ}

/-! ## Characters -/

/-- Every character lies between U+0001 and U+00FF. -/
def Latin1 (s : QString) : Prop := ∀ c ∈ s, 1 ≤ c.toNat ∧ c.toNat ≤ 0xFF

instance (s : QString) : Decidable (Latin1 s) :=
  List.decidableBAll (fun c : UInt16 => 1 ≤ c.toNat ∧ c.toNat ≤ 0xFF) s

theorem latin1_typeString (plocType : PLocType) : Latin1 plocType.typeString := by
  cases plocType <;> decide

theorem toUInt16_of_latin1 {c : UInt16} (h : c.toNat ≤ 0xFF) : c.toUInt8.toUInt16 = c := by
  apply UInt16.toNat_inj.mp
  simp [Nat.mod_eq_of_lt (Nat.lt_succ_of_le h)]

theorem toUInt8_ne_zero_of_latin1 {c : UInt16} (hpos : 1 ≤ c.toNat) (h : c.toNat ≤ 0xFF) :
    c.toUInt8 ≠ 0 := by
  intro hzero
  have hc := toUInt16_of_latin1 h
  rw [hzero] at hc
  simp [← hc] at hpos

/-! ## Conversions -/

theorem toAscii_of_latin1 (hs : Latin1 s) : s.toAscii = s.map UInt16.toUInt8 := by
  apply List.map_congr_left
  intro c hc
  exact if_pos (UInt16.le_iff_toNat_le.mpr (hs c hc).2)

theorem ofChars_map_toUInt8 (hs : Latin1 s) :
    QString.ofChars (s.map UInt16.toUInt8) = s := by
  have hchars : ∀ c ∈ s, (UInt8.toUInt16 ∘ UInt16.toUInt8) c = c :=
    fun c hc => toUInt16_of_latin1 (hs c hc).2
  rw [QString.ofChars, List.map_map, List.map_congr_left hchars, List.map_id']

/-- **The 8-bit conversions are inverse to each other.** -/
theorem ofChars_toAscii (hs : Latin1 s) : QString.ofChars s.toAscii = s := by
  rw [toAscii_of_latin1 hs, ofChars_map_toUInt8 hs]

theorem zero_notMem_toAscii (hs : Latin1 s) : 0 ∉ s.toAscii := by
  rw [toAscii_of_latin1 hs]
  intro hmem
  obtain ⟨c, hc, hzero⟩ := List.mem_map.mp hmem
  obtain ⟨hpos, hle⟩ := hs c hc
  exact toUInt8_ne_zero_of_latin1 hpos hle hzero

theorem toAscii_inj (hs : Latin1 s) (ht : Latin1 t) : s.toAscii = t.toAscii ↔ s = t := by
  constructor
  · intro h
    rw [← ofChars_toAscii hs, h, ofChars_toAscii ht]
  · rintro rfl
    rfl

/-! ## Terminated fields -/

theorem takeWhile_terminated (hxs : 0 ∉ xs) (post : List UInt8) :
    (terminated xs ++ post).takeWhile (· ≠ 0) = xs := by
  have hall : ∀ b ∈ xs, decide (b ≠ 0) := by
    intro b hb
    exact decide_eq_true (ne_of_mem_of_not_mem hb hxs)
  rw [terminated, List.append_assoc, List.takeWhile_append_of_pos hall]
  simp

/-- **A terminated string is read back** from behind whatever precedes it. -/
theorem cstringAt_terminated (hxs : 0 ∉ xs) (ho : o = pre.length) (post : List UInt8) :
    cstringAt (pre ++ (terminated xs ++ post)) o = xs := by
  rw [cstringAt, ho, List.drop_left, takeWhile_terminated hxs]

/-- The first string that is found among characters with terminators. -/
def firstString (chars : List UInt8) : List UInt8 := chars.takeWhile (· ≠ 0)

/-- The string behind it. -/
def secondString (chars : List UInt8) : List UInt8 :=
  firstString (chars.drop ((firstString chars).length + 1))

/-- What precedes a delimiter that does not occur in it is determined, and so is the
rest. -/
theorem delimited_append_inj {α : Type*} {z : α} {xs ys post post' : List α} (hxs : z ∉ xs)
    (hys : z ∉ ys) (h : xs ++ z :: post = ys ++ z :: post') : xs = ys ∧ post = post' := by
  induction xs generalizing ys with
  | nil =>
    cases ys with
    | nil => exact ⟨rfl, (List.cons.inj h).2⟩
    | cons y ys => exact absurd ((List.cons.inj h).1 ▸ List.mem_cons_self) hys
  | cons x xs ih =>
    cases ys with
    | nil => exact absurd ((List.cons.inj h).1 ▸ List.mem_cons_self) hxs
    | cons y ys =>
      obtain ⟨rfl, hrest⟩ := List.cons.inj h
      obtain ⟨rfl, hpost⟩ := ih (mt (List.mem_cons_of_mem x) hxs)
        (mt (List.mem_cons_of_mem x) hys) hrest
      exact ⟨rfl, hpost⟩

/-- **No terminated string begins another one.** -/
theorem terminated_append_inj (hxs : 0 ∉ xs) (hys : 0 ∉ ys)
    (h : terminated xs ++ post = terminated ys ++ post') : xs = ys ∧ post = post' := by
  rw [terminated, terminated, List.append_assoc, List.append_assoc] at h
  exact delimited_append_inj hxs hys h

end CitpLib
