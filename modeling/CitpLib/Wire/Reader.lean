import CitpLib.Wire.ByteOrder

/-!
# Readers of NUL-guarded byte arrays

A byte array is followed in memory by one NUL. A program that casts the array
to a structure, or scans it for a terminator, may read the array and that NUL
and nothing else. A `Reader` is such a program: it computes a value from the
bytes it reads and keeps the list of their offsets. A read outside ends it
without a value.

Two laws are part of the structure, so every reader built from the primitives
by sequencing has them: a reader has a value exactly when all its reads lie
inside, and it depends on the bytes it reads and on no others.

## Main definitions

* `Wire.peek` — the byte at an offset, the guarding NUL included
* `Wire.Reader` — a program over an array, with its two laws
* `Reader.field`, `Reader.cstring` — an integer field, a terminated string
* `Reader.reads`, `Reader.value` — the offsets read and the value computed

## Main results

* `Reader.value_isSome_iff` — a value is computed iff every read is in bounds
* `Reader.value_congr` — arrays alike at the offsets read give one value
* `Reader.value_bind`, `value_field`, `value_cstring` — values, compositionally
-/

namespace Wire

/-- The byte at an offset of an array that a NUL follows. -/
def peek (a : List UInt8) (o : ℕ) : Option UInt8 := (a ++ [0])[o]?

theorem peek_isSome_iff {a : List UInt8} {o : ℕ} : (peek a o).isSome ↔ o ≤ a.length := by
  have hlen : (a ++ [0]).length = a.length + 1 := by simp
  rw [peek, isSome_getElem?, hlen, Nat.lt_succ_iff]

theorem peek_of_drop_eq_cons {a bs : List UInt8} {o : ℕ} {b : UInt8}
    (h : a.drop o = b :: bs) : peek a o = some b := by
  have hlt : o < a.length := by
    by_contra hge
    simp [List.drop_eq_nil_of_le (Nat.le_of_not_lt hge)] at h
  have hget : a[o] = b := by
    have := congrArg List.head? h
    simpa [List.head?_drop, hlt] using this
  simp [peek, List.getElem?_append_left hlt, hlt, hget]

theorem peek_of_drop_eq_nil {a : List UInt8} {o : ℕ} (ho : o ≤ a.length)
    (h : a.drop o = []) : peek a o = some 0 := by
  have heq : o = a.length := Nat.le_antisymm ho (List.drop_eq_nil_iff.mp h)
  simp [peek, heq]

/-- What lies behind an offset whose byte is known. -/
theorem drop_of_peek {a : List UInt8} {o : ℕ} {b : UInt8} (h : peek a o = some b) :
    o ≤ a.length ∧ (a.drop o = b :: a.drop (o + 1) ∨ (a.drop o = [] ∧ b = 0)) := by
  have hle : o ≤ a.length := peek_isSome_iff.mp (by simp [h])
  refine ⟨hle, ?_⟩
  rcases hle.lt_or_eq with hlt | rfl
  · left
    rw [peek, List.getElem?_append_left hlt, List.getElem?_eq_getElem hlt] at h
    rw [List.drop_eq_getElem_cons hlt, Option.some.inj h]
  · right
    simp only [peek, List.getElem?_concat_length, Option.some.injEq] at h
    exact ⟨List.drop_length, h.symm⟩

/-- A program that reads a NUL-guarded array: the offsets it reads in order,
and its value unless a read falls outside. -/
structure Reader (α : Type*) where
  run : List UInt8 → List ℕ × Option α
  /-- A value is computed exactly when no read falls outside. -/
  isSome_iff : ∀ a, (run a).2.isSome ↔ ∀ o ∈ (run a).1, o ≤ a.length
  /-- Bytes that are not read have no influence. -/
  run_congr : ∀ a a', (∀ o ∈ (run a).1, peek a' o = peek a o) → run a' = run a

namespace Reader

variable {α β : Type*} {a a' : List UInt8} {o w : ℕ}

/-- The offsets a reader reads. -/
def reads (m : Reader α) (a : List UInt8) : List ℕ := (m.run a).1

/-- The value a reader computes. -/
def value (m : Reader α) (a : List UInt8) : Option α := (m.run a).2

/-- Every read lies at an offset from 0 through the size of the array. -/
def InBounds (m : Reader α) (a : List UInt8) : Prop := ∀ o ∈ m.reads a, o ≤ a.length

theorem value_isSome_iff (m : Reader α) (a : List UInt8) :
    (m.value a).isSome ↔ m.InBounds a :=
  m.isSome_iff a

theorem inBounds_of_value {m : Reader α} {x : α} (h : m.value a = some x) : m.InBounds a :=
  (m.value_isSome_iff a).mp (Option.isSome_of_eq_some h)

theorem InBounds.exists_value {m : Reader α} (h : m.InBounds a) : ∃ x, m.value a = some x :=
  Option.isSome_iff_exists.mp ((m.value_isSome_iff a).mpr h)

/-- Arrays alike at the offsets read on one of them give the same value. -/
theorem value_congr (m : Reader α) (h : ∀ o ∈ m.reads a, peek a' o = peek a o) :
    m.value a' = m.value a :=
  congrArg Prod.snd (m.run_congr a a' h)

/-! ### Sequencing -/

/-- Read nothing. -/
protected def pure (x : α) : Reader α where
  run _ := ([], some x)
  isSome_iff := by simp
  run_congr := by simp

/-- Read with `m`, then with the reader its value selects. -/
protected def bind (m : Reader α) (f : α → Reader β) : Reader β where
  run a := match m.run a with
    | (os, none) => (os, none)
    | (os, some x) => (os ++ ((f x).run a).1, ((f x).run a).2)
  isSome_iff a := by
    have hm := m.isSome_iff a
    rcases hrun : m.run a with ⟨os, _ | x⟩
    · simpa [hrun] using hm
    · -- the first reader stayed inside, so the second decides
      have hf := (f x).isSome_iff a
      simp only [hrun, Option.isSome_some, true_iff] at hm
      simp only [hf, List.mem_append]
      constructor
      · rintro h o (ho | ho)
        · exact hm o ho
        · exact h o ho
      · exact fun h o ho => h o (Or.inr ho)
  run_congr a a' h := by
    rcases hrun : m.run a with ⟨os, _ | x⟩
    · rw [hrun] at h
      rw [m.run_congr a a' (by rwa [hrun]), hrun]
    · simp only [hrun, List.mem_append] at h
      -- alike for the first reader, the arrays select the same second one
      have hm : m.run a' = (os, some x) := by
        rw [m.run_congr a a' (by rw [hrun]; exact fun o ho => h o (Or.inl ho)), hrun]
      simp only [hm, (f x).run_congr a a' fun o ho => h o (Or.inr ho)]

instance : Monad Reader where
  pure := Reader.pure
  bind := Reader.bind

@[simp] theorem value_pure (x : α) (a : List UInt8) : (pure x : Reader α).value a = some x := rfl

@[simp] theorem reads_pure (x : α) (a : List UInt8) : (pure x : Reader α).reads a = [] := rfl

theorem value_bind {α β : Type _} (m : Reader α) (f : α → Reader β) (a : List UInt8) :
    (m >>= f).value a = (m.value a).bind fun x => (f x).value a := by
  change (Reader.bind m f).value a = _
  simp only [Reader.bind, value]
  rcases m.run a with ⟨os, _ | x⟩ <;> rfl

theorem value_ite (c : Prop) [Decidable c] (m m' : Reader α) (a : List UInt8) :
    (if c then m else m').value a = if c then m.value a else m'.value a := by
  split <;> rfl

/-! ### Primitive readers -/

/-- Read one byte. -/
def byte (o : ℕ) : Reader UInt8 where
  run a := ([o], peek a o)
  isSome_iff a := by simp [peek_isSome_iff]
  run_congr a a' h := by simp [h o (by simp)]

/-- Read `w` consecutive bytes. -/
def bytes : ℕ → ℕ → Reader (List UInt8)
  | 0, _ => pure []
  | w + 1, o => do
    let b ← byte o
    let bs ← bytes w (o + 1)
    return b :: bs

/-- Read a `w`-byte integer in the host's byte order. -/
def field (order : ByteOrder) (w o : ℕ) : Reader ℕ := do
  let bs ← bytes w o
  return order.decode bs

/-- Scan to the terminator: the offsets read, it included, and the string. -/
def scan : ℕ → List UInt8 → List ℕ × List UInt8
  | o, [] => ([o], [])
  | o, b :: bs =>
    if b = 0 then ([o], [])
    else (o :: (scan (o + 1) bs).1, b :: (scan (o + 1) bs).2)

theorem scan_snd (o : ℕ) (bs : List UInt8) : (scan o bs).2 = bs.takeWhile (· ≠ 0) := by
  induction bs generalizing o with
  | nil => rfl
  | cons b bs ih => by_cases hb : b = 0 <;> simp [scan, hb, ih]

theorem scan_fst_le (o : ℕ) (bs : List UInt8) :
    ∀ x ∈ (scan o bs).1, x ≤ o + bs.length := by
  induction bs generalizing o with
  | nil => simp [scan]
  | cons b bs ih =>
    intro x hx
    by_cases hb : b = 0
    · simp only [scan, hb, ↓reduceIte, List.mem_singleton] at hx
      omega
    · simp only [scan, hb, ↓reduceIte, List.mem_cons] at hx
      rcases hx with rfl | hx
      · omega
      · have := ih (o + 1) x hx
        simp only [List.length_cons]
        omega

/-- The scan stops at the first terminator, so what follows it is not read. -/
theorem scan_congr {bs : List UInt8} (ho : o ≤ a.length) (hbs : a.drop o = bs)
    (h : ∀ x ∈ (scan o bs).1, peek a' x = peek a x) :
    o ≤ a'.length ∧ scan o (a'.drop o) = scan o bs := by
  induction bs generalizing o with
  | nil =>
    have hpeek := (h o (by simp [scan])).trans (peek_of_drop_eq_nil ho hbs)
    obtain ⟨ho', hdrop | ⟨hdrop, -⟩⟩ := drop_of_peek hpeek
    · exact ⟨ho', by simp [hdrop, scan]⟩
    · exact ⟨ho', by rw [hdrop]⟩
  | cons b bs ih =>
    have hpeek := (h o (by by_cases hb : b = 0 <;> simp [scan, hb])).trans
      (peek_of_drop_eq_cons hbs)
    obtain ⟨ho', hdrop | ⟨hdrop, hzero⟩⟩ := drop_of_peek hpeek
    · refine ⟨ho', ?_⟩
      by_cases hb : b = 0
      · simp [hdrop, scan, hb]
      · have htail : a.drop (o + 1) = bs := by rw [← List.tail_drop, hbs, List.tail_cons]
        have hlt : o + 1 ≤ a.length := by
          by_contra hge
          simp [List.drop_eq_nil_of_le (show a.length ≤ o by omega)] at hbs
        obtain ⟨-, hscan⟩ := ih hlt htail fun x hx => h x (by simp [scan, hb, hx])
        rw [hdrop]
        simp only [scan, hb, ↓reduceIte, hscan]
    · exact ⟨ho', by simp [hdrop, scan, hzero]⟩

/-- Read the NUL-terminated string at an offset. -/
def cstring (o : ℕ) : Reader (List UInt8) where
  run a :=
    if o ≤ a.length then ((scan o (a.drop o)).1, some (scan o (a.drop o)).2) else ([o], none)
  isSome_iff a := by
    split
    · have hle := scan_fst_le o (a.drop o)
      simp only [List.length_drop] at hle
      simp only [Option.isSome_some, true_iff]
      exact fun x hx => (hle x hx).trans (by omega)
    · simpa using ‹¬ o ≤ a.length›
  run_congr a a' h := by
    by_cases ho : o ≤ a.length
    · simp only [ho, ↓reduceIte] at h ⊢
      obtain ⟨ho', hscan⟩ := scan_congr ho rfl h
      simp [ho', hscan]
    · simp only [ho, ↓reduceIte, List.mem_singleton, forall_eq] at h ⊢
      have hpeek := peek_isSome_iff (a := a') (o := o)
      rw [h, peek_isSome_iff] at hpeek
      simp [← hpeek, ho]

/-! ### Values of the primitive readers -/

/-- The `w` bytes at an offset, the guarding NUL included. -/
def window (a : List UInt8) (o w : ℕ) : List UInt8 := ((a ++ [0]).drop o).take w

/-- The integer field at an offset. -/
def fieldAt (order : ByteOrder) (w o : ℕ) (a : List UInt8) : ℕ := order.decode (window a o w)

/-- The string at an offset, up to its terminator or the end of the array. -/
def cstringAt (a : List UInt8) (o : ℕ) : List UInt8 := (a.drop o).takeWhile (· ≠ 0)

@[simp] theorem value_byte (o : ℕ) (a : List UInt8) : (byte o).value a = peek a o := rfl

theorem window_succ {b : UInt8} (h : peek a o = some b) :
    window a o (w + 1) = b :: window a (o + 1) w := by
  obtain ⟨hlt, hget⟩ := List.getElem?_eq_some_iff.mp h
  rw [window, List.drop_eq_getElem_cons hlt, List.take_succ_cons, hget, window]

theorem value_bytes (o : ℕ) (a : List UInt8) (hw : 0 < w) :
    (bytes w o).value a = if o + w ≤ a.length + 1 then some (window a o w) else none := by
  induction w generalizing o with
  | zero => omega
  | succ w ih =>
    rw [bytes, value_bind, value_byte]
    cases hpeek : peek a o with
    | none =>
      have : ¬ o ≤ a.length := by rw [← peek_isSome_iff, hpeek]; simp
      rw [if_neg (by omega), Option.bind_none]
    | some b =>
      have hle : o ≤ a.length := peek_isSome_iff.mp (by simp [hpeek])
      rw [Option.bind_some, value_bind, window_succ hpeek]
      rcases w.eq_zero_or_pos with rfl | hpos
      · rw [if_pos (by omega)]
        simp [bytes, window]
      · rw [ih (o + 1) hpos]
        by_cases hfit : o + (w + 1) ≤ a.length + 1
        · rw [if_pos hfit, if_pos (by omega), Option.bind_some, value_pure]
        · rw [if_neg hfit, if_neg (by omega), Option.bind_none]

theorem value_field (order : ByteOrder) (o : ℕ) (a : List UInt8) (hw : 0 < w) :
    (field order w o).value a =
      if o + w ≤ a.length + 1 then some (fieldAt order w o a) else none := by
  rw [field, value_bind, value_bytes o a hw]
  split <;> simp [fieldAt]

theorem value_cstring (o : ℕ) (a : List UInt8) :
    (cstring o).value a = if o ≤ a.length then some (cstringAt a o) else none := by
  simp only [value, cstring]
  split <;> simp [scan_snd, cstringAt]

theorem value_field_bind {β : Type} (order : ByteOrder) (o : ℕ) (f : ℕ → Reader β)
    (hw : 0 < w) :
    (field order w o >>= f).value a =
      if o + w ≤ a.length + 1 then (f (fieldAt order w o a)).value a else none := by
  rw [value_bind, value_field order o a hw]
  split <;> rfl

theorem value_cstring_bind {β : Type} (o : ℕ) (f : List UInt8 → Reader β) :
    (cstring o >>= f).value a =
      if o ≤ a.length then (f (cstringAt a o)).value a else none := by
  rw [value_bind, value_cstring]
  split <;> rfl

/-- A one-byte field is the byte at its offset in every byte order. -/
theorem ofNat_fieldAt_one (order : ByteOrder) (o : ℕ) (a : List UInt8) :
    UInt8.ofNat (fieldAt order 1 o a) = a.getD o 0 := by
  have hwindow : window a o 1 = (a ++ [0])[o]?.toList := by
    rw [window, ← List.head?_drop]
    cases (a ++ [0]).drop o <;> rfl
  rw [fieldAt, hwindow, List.getD_eq_getElem?_getD]
  rcases lt_trichotomy o a.length with hlt | rfl | hgt
  · rw [List.getElem?_append_left hlt, List.getElem?_eq_getElem hlt]
    cases order <;> simp [ByteOrder.decode, leValue]
  · cases order <;> simp [ByteOrder.decode, leValue]
  · rw [List.getElem?_eq_none (by simp; omega), List.getElem?_eq_none hgt.le]
    cases order <;> simp [ByteOrder.decode, leValue]

theorem fieldAt_one_eq_iff {order : ByteOrder} {n : ℕ} (hn : n < 256) :
    fieldAt order 1 o a = n ↔ a.getD o 0 = UInt8.ofNat n := by
  have hlt : fieldAt order 1 o a < 256 :=
    (order.decode_lt _).trans_le (Nat.pow_le_pow_right (by decide) (List.length_take_le _ _))
  rw [← ofNat_fieldAt_one order]
  constructor
  · rintro rfl
    rfl
  · intro h
    have hnat := congrArg UInt8.toNat h
    simpa [UInt8.toNat_ofNat', Nat.mod_eq_of_lt hlt, Nat.mod_eq_of_lt hn] using hnat

/-! ### Which offsets a reader may read -/

theorem reads_ite (c : Prop) [Decidable c] (m m' : Reader α) (a : List UInt8) :
    (if c then m else m').reads a = if c then m.reads a else m'.reads a := by
  split <;> rfl

theorem mem_reads_bind {α β : Type _} {m : Reader α} {f : α → Reader β} {x : ℕ}
    (h : x ∈ (m >>= f).reads a) :
    x ∈ m.reads a ∨ ∃ v, m.value a = some v ∧ x ∈ (f v).reads a := by
  change x ∈ ((Reader.bind m f).run a).1 at h
  simp only [Reader.bind] at h
  rcases hrun : m.run a with ⟨os, _ | v⟩
  · rw [hrun] at h
    exact .inl (by rwa [reads, hrun])
  · rw [hrun] at h
    rcases List.mem_append.mp h with h | h
    · exact .inl (by rwa [reads, hrun])
    · exact .inr ⟨v, by rw [value, hrun], h⟩

theorem mem_reads_field {order : ByteOrder} {x : ℕ} (h : x ∈ (field order w o).reads a) :
    o ≤ x ∧ x < o + w := by
  have hbytes : x ∈ (bytes w o).reads a := by
    rcases mem_reads_bind h with h | ⟨v, -, h⟩
    · exact h
    · simp at h
  clear h
  induction w generalizing o with
  | zero => simp [bytes] at hbytes
  | succ w ih =>
    rcases mem_reads_bind hbytes with h | ⟨b, -, h⟩
    · obtain rfl : x = o := by simpa [reads, byte] using h
      omega
    · rcases mem_reads_bind h with h | ⟨bs, -, h⟩
      · have := ih h
        omega
      · simp at h

theorem mem_reads_field_bind {β : Type} {order : ByteOrder} {f : ℕ → Reader β} {x : ℕ}
    (hw : 0 < w) (h : x ∈ (field order w o >>= f).reads a) :
    (o ≤ x ∧ x < o + w) ∨ x ∈ (f (fieldAt order w o a)).reads a := by
  rcases mem_reads_bind h with h | ⟨v, hv, h⟩
  · exact .inl (mem_reads_field h)
  · rw [value_field order o a hw] at hv
    obtain rfl := Option.some.inj (Option.ite_none_right_eq_some.mp hv).2
    exact .inr h

theorem mem_scan {bs : List UInt8} {x : ℕ} (h : x ∈ (scan o bs).1) :
    o ≤ x ∧ x ≤ o + (bs.takeWhile (· ≠ 0)).length := by
  induction bs generalizing o with
  | nil =>
    simp only [scan, List.mem_singleton] at h
    simp [h]
  | cons b bs ih =>
    by_cases hb : b = 0
    · simp only [scan, hb, ↓reduceIte, List.mem_singleton] at h
      simp [h, hb]
    · simp only [scan, hb, ↓reduceIte, List.mem_cons] at h
      rw [List.takeWhile_cons_of_pos (by simpa using hb), List.length_cons]
      rcases h with rfl | h
      · omega
      · have := ih h
        omega

/-- A scan reads the string and its terminator. -/
theorem mem_reads_cstring {x : ℕ} (h : x ∈ (cstring o).reads a) :
    o ≤ x ∧ x ≤ o + (cstringAt a o).length := by
  simp only [reads, cstring] at h
  split at h
  · exact mem_scan h
  · rw [List.mem_singleton.mp h]
    omega

theorem mem_reads_cstring_bind {β : Type} {f : List UInt8 → Reader β} {x : ℕ}
    (h : x ∈ (cstring o >>= f).reads a) :
    (o ≤ x ∧ x ≤ o + (cstringAt a o).length) ∨ x ∈ (f (cstringAt a o)).reads a := by
  rcases mem_reads_bind h with h | ⟨v, hv, h⟩
  · exact .inl (mem_reads_cstring h)
  · rw [value_cstring] at hv
    obtain rfl := Option.some.inj (Option.ite_none_right_eq_some.mp hv).2
    exact .inr h

/-! ### Windows without a NUL -/

theorem length_window_le (a : List UInt8) (o w : ℕ) : (window a o w).length ≤ w :=
  List.length_take_le _ _

theorem le_of_length_window (h : (window a o w).length = w) (hw : 0 < w) :
    o + w ≤ a.length + 1 := by
  simp only [window, List.length_take, List.length_drop, List.length_append,
    List.length_singleton] at h
  omega

/-- A field whose value needs all its bytes lies inside, and its bytes are the
ones of the value. -/
theorem fieldAt_eq_iff {order : ByteOrder} {n : ℕ} (hlow : 256 ^ (w - 1) ≤ n)
    (hhigh : n < 256 ^ w) : fieldAt order w o a = n ↔ window a o w = order.encode w n := by
  constructor
  · intro h
    have hlen : (window a o w).length = w := by
      by_contra hne
      have hshort : (window a o w).length ≤ w - 1 := by
        have := length_window_le a o w
        omega
      have hlt := order.decode_lt (window a o w)
      have hpow := Nat.pow_le_pow_right (show 0 < 256 by decide) hshort
      rw [← fieldAt, h] at hlt
      omega
    exact (ByteOrder.decode_eq_iff hlen hhigh).mp h
  · intro h
    rw [fieldAt, h, ByteOrder.decode_encode order hhigh]

/-- A field of a value that needs all its bytes lies inside. -/
theorem le_of_le_fieldAt {order : ByteOrder} (hw : 0 < w)
    (h : 256 ^ (w - 1) ≤ fieldAt order w o a) : o + w ≤ a.length + 1 := by
  have hhigh : fieldAt order w o a < 256 ^ w :=
    (order.decode_lt _).trans_le (Nat.pow_le_pow_right (by decide) (length_window_le a o w))
  have hwindow := (fieldAt_eq_iff h hhigh).mp rfl
  exact le_of_length_window (by rw [hwindow, ByteOrder.length_encode]) hw

/-- The guarding NUL completes no window of other bytes. -/
theorem window_eq_iff {bs : List UInt8} (hlen : bs.length = w) (hnul : 0 ∉ bs) :
    window a o w = bs ↔ (a.drop o).take w = bs := by
  have hwindow : window a o w = (a.drop o).take w ++
      (([0] : List UInt8).drop (o - a.length)).take (w - (a.length - o)) := by
    rw [window, List.drop_append, List.take_append, List.length_drop]
  by_cases hfit : w ≤ a.length - o
  · rw [hwindow, Nat.sub_eq_zero_of_le hfit, List.take_zero, List.append_nil]
  · have hshort : ((a.drop o).take w).length < w := by
      simp only [List.length_take, List.length_drop]
      omega
    constructor
    · intro h
      exfalso
      rw [hwindow] at h
      cases htail : (([0] : List UInt8).drop (o - a.length)).take (w - (a.length - o)) with
      | nil =>
        rw [htail, List.append_nil] at h
        rw [h, hlen] at hshort
        exact Nat.lt_irrefl _ hshort
      | cons b rest =>
        have hb : b = 0 := by
          have hmem : b ∈ ([0] : List UInt8) :=
            List.mem_of_mem_drop (List.mem_of_mem_take (htail ▸ List.mem_cons_self))
          simpa using hmem
        exact hnul (h ▸ by simp [htail, hb])
    · intro h
      rw [h, hlen] at hshort
      exact absurd hshort (Nat.lt_irrefl _)

/-! ### Windows of a concatenation -/

/-- Bytes in front of an offset shift it. -/
theorem window_append_right {pre post : List UInt8} (h : pre.length ≤ o) (w : ℕ) :
    window (pre ++ post) o w = window post (o - pre.length) w := by
  rw [window, List.append_assoc, List.drop_append, List.drop_eq_nil_of_le h, List.nil_append,
    window]

theorem window_append_left {xs : List UInt8} (h : xs.length = w) (post : List UInt8) :
    window (xs ++ post) 0 w = xs := by
  rw [window, List.drop_zero, List.append_assoc, List.take_left' h]

theorem window_cons_succ (b : UInt8) (bs : List UInt8) (o w : ℕ) :
    window (b :: bs) (o + 1) w = window bs o w := by
  simp [window]

/-- Inside the array the guarding NUL plays no part. -/
theorem window_eq_take (h : o + w ≤ a.length) : window a o w = (a.drop o).take w := by
  rw [window, List.drop_append_of_le_length (by omega),
    List.take_append_of_le_length (by rw [List.length_drop]; omega)]

section Fields

variable {order : ByteOrder} {n : ℕ}

theorem fieldAt_append_right {pre : List UInt8} (h : pre.length ≤ o) (post : List UInt8) :
    fieldAt order w o (pre ++ post) = fieldAt order w (o - pre.length) post := by
  rw [fieldAt, window_append_right h, fieldAt]

theorem fieldAt_cons_succ (b : UInt8) (bs : List UInt8) :
    fieldAt order w (o + 1) (b :: bs) = fieldAt order w o bs := by
  rw [fieldAt, window_cons_succ, fieldAt]

theorem fieldAt_encode_append (hn : n < 256 ^ w) (post : List UInt8) :
    fieldAt order w 0 (order.encode w n ++ post) = n := by
  rw [fieldAt, window_append_left (order.length_encode w n), ByteOrder.decode_encode order hn]

/-- A field is found behind whatever precedes it. -/
theorem fieldAt_append (order : ByteOrder) (pre post : List UInt8) (ho : o = pre.length)
    (hn : n < 256 ^ w) : fieldAt order w o (pre ++ order.encode w n ++ post) = n := by
  rw [List.append_assoc, fieldAt_append_right ho.ge, ho, Nat.sub_self, fieldAt_encode_append hn]

/-- What lies behind an offset whose field is known. -/
theorem drop_eq_encode_append (h : o + w ≤ a.length) (hn : fieldAt order w o a = n) :
    a.drop o = order.encode w n ++ a.drop (o + w) := by
  have hlen : ((a.drop o).take w).length = w := by
    rw [List.length_take, List.length_drop]
    omega
  rw [← hn, fieldAt, window_eq_take h, ByteOrder.encode_decode order hlen, ← List.drop_drop,
    List.take_append_drop]

theorem drop_eq_getD_cons (h : o < a.length) : a.drop o = a.getD o 0 :: a.drop (o + 1) := by
  rw [List.drop_eq_getElem_cons h, List.getD_eq_getElem?_getD, List.getElem?_eq_getElem h,
    Option.getD_some]

end Fields

end Reader

end Wire
