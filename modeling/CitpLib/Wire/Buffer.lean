import CitpLib.Wire.ByteOrder

/-!
# Buffers filled by stores

A buffer is an allocation of a fixed length, filled with one value and then
written by stores at offsets. The stores are kept in order and with their
offsets, so that a store beyond the end of the allocation remains visible
although it has no effect on the contents.

The programs that lay out a record write it from front to back and skip the
elements that keep their fill. `Buffer.Filled` is the invariant of such a
program: a known prefix, and behind it nothing but the fill.

## Main definitions

* `Wire.Buffer` — an allocation and the stores made into it
* `Buffer.contents` — what the allocation holds after the stores
* `Buffer.InBounds` — no store lies outside the allocation
* `Buffer.Filled` — the contents are a prefix followed by the fill

## Main results

* `Filled.store`, `Filled.storeNext` — a store behind the prefix extends it
* `Filled.holds` — the contents once the layout is complete
-/

namespace Wire

/-- An allocation of `len` elements, all equal to `fill` at first, with the
stores made into it in order. A store is a value with its offset. -/
structure Buffer (α : Type*) where
  len : ℕ
  fill : α
  stores : List (α × ℕ)
  deriving DecidableEq

namespace Buffer

variable {α : Type*} {b : Buffer α} {pre xs : List α} {o n : ℕ}

/-- A fresh allocation. -/
def alloc (len : ℕ) (fill : α) : Buffer α := ⟨len, fill, []⟩

/-- Store the elements of `xs` at the offsets from `o` on. -/
def store (o : ℕ) (xs : List α) (b : Buffer α) : Buffer α :=
  { b with stores := b.stores ++ xs.zipIdx o }

/-- Copy the first `n` elements of `xs` to offset `o`. -/
def memcpy (o : ℕ) (xs : List α) (n : ℕ) (b : Buffer α) : Buffer α :=
  b.store o (xs.take n)

/-- Perform stores on a list of elements; a store outside has no effect. -/
def perform (stores : List (α × ℕ)) (mem : List α) : List α :=
  stores.foldl (fun mem s => mem.set s.2 s.1) mem

/-- What the allocation holds after the stores. -/
def contents (b : Buffer α) : List α :=
  perform b.stores (List.replicate b.len b.fill)

/-- Every store lies at an offset below the length of the allocation. -/
def InBounds (b : Buffer α) : Prop := ∀ s ∈ b.stores, s.2 < b.len

instance (b : Buffer α) : Decidable b.InBounds :=
  inferInstanceAs (Decidable (∀ s ∈ b.stores, s.2 < b.len))

@[simp] theorem len_alloc (n : ℕ) (z : α) : (alloc n z).len = n := rfl

@[simp] theorem fill_alloc (n : ℕ) (z : α) : (alloc n z).fill = z := rfl

@[simp] theorem len_store (o : ℕ) (xs : List α) (b : Buffer α) :
    (b.store o xs).len = b.len := rfl

@[simp] theorem fill_store (o : ℕ) (xs : List α) (b : Buffer α) :
    (b.store o xs).fill = b.fill := rfl

@[simp] theorem length_perform (stores : List (α × ℕ)) (mem : List α) :
    (perform stores mem).length = mem.length := by
  induction stores generalizing mem with
  | nil => rfl
  | cons s stores ih => exact (ih (mem.set s.2 s.1)).trans (List.length_set ..)

@[simp] theorem length_contents (b : Buffer α) : b.contents.length = b.len := by
  simp [contents]

theorem contents_store (o : ℕ) (xs : List α) (b : Buffer α) :
    (b.store o xs).contents = perform (xs.zipIdx o) b.contents := by
  simp [contents, store, perform]

/-- Storing a block replaces the elements that stood at its offsets. -/
theorem perform_zipIdx (pre mid post xs : List α) (h : mid.length = xs.length) :
    perform (xs.zipIdx pre.length) (pre ++ mid ++ post) = pre ++ xs ++ post := by
  induction xs generalizing pre mid with
  | nil => simp [perform, List.eq_nil_of_length_eq_zero h]
  | cons x xs ih =>
    cases mid with
    | nil => simp at h
    | cons y mid =>
      have hmid : mid.length = xs.length := by simpa using h
      have hnext := ih (pre ++ [x]) mid hmid
      simp only [List.length_append, List.length_singleton, List.append_assoc,
        List.singleton_append] at hnext
      simpa [perform] using hnext

theorem inBounds_store :
    (b.store o xs).InBounds ↔ b.InBounds ∧ (xs ≠ [] → o + xs.length ≤ b.len) := by
  constructor
  · intro h
    refine ⟨fun s hs => h s (by simp [store, hs]), fun hne => ?_⟩
    have hpos := List.length_pos_iff.mpr hne
    have hlast : xs[xs.length - 1]? = some (xs.getLast hne) := by
      rw [← List.getLast?_eq_getElem?, List.getLast?_eq_some_getLast hne]
    have hbound := h (xs.getLast hne, o + (xs.length - 1)) <|
      List.mem_append_right _ (List.mk_add_mem_zipIdx_iff_getElem?.mpr hlast)
    simp only [len_store] at hbound
    omega
  · rintro ⟨hb, hfit⟩ s hs
    rcases List.mem_append.mp hs with hs | hs
    · exact hb s hs
    · have hs' := List.mem_zipIdx hs
      have hne : xs ≠ [] := by rintro rfl; simp at hs
      have := hfit hne
      simp only [len_store]
      omega

/-- The contents are `pre` and behind it the fill, and every store so far lay
inside the allocation. -/
structure Filled (b : Buffer α) (pre : List α) : Prop where
  length_le : pre.length ≤ b.len
  contents_eq_append : b.contents = pre ++ List.replicate (b.len - pre.length) b.fill
  inBounds : b.InBounds

theorem filled_alloc (n : ℕ) (z : α) : Filled (alloc n z) [] where
  length_le := Nat.zero_le _
  contents_eq_append := by simp [contents, perform, alloc]
  inBounds := by simp [InBounds, alloc]

/-- A store behind the prefix extends it, over the gap that keeps its fill. -/
theorem Filled.store (h : Filled b pre) (o : ℕ) (xs : List α) (ho : pre.length ≤ o)
    (hfit : o + xs.length ≤ b.len) :
    Filled (b.store o xs) (pre ++ List.replicate (o - pre.length) b.fill ++ xs) := by
  have hlen : (pre ++ List.replicate (o - pre.length) b.fill).length = o := by simp; omega
  refine ⟨by simp only [List.length_append, List.length_replicate, len_store]; omega, ?_,
    inBounds_store.mpr ⟨h.inBounds, fun _ => hfit⟩⟩
  have hsplit : b.contents = (pre ++ List.replicate (o - pre.length) b.fill) ++
      List.replicate xs.length b.fill ++
        List.replicate (b.len - (o + xs.length)) b.fill := by
    rw [h.contents_eq_append, List.append_assoc, List.append_assoc, List.replicate_append_replicate,
      List.replicate_append_replicate]
    congr 2
    omega
  have hstore := perform_zipIdx (pre ++ List.replicate (o - pre.length) b.fill)
    (List.replicate xs.length b.fill) (List.replicate (b.len - (o + xs.length)) b.fill) xs
    (by simp)
  rw [hlen] at hstore
  rw [contents_store, hsplit, hstore]
  simp only [List.length_append, hlen, len_store, fill_store]

/-- A store right behind the prefix leaves no gap. -/
theorem Filled.storeNext (h : Filled b pre) (o : ℕ) (xs : List α) (ho : o = pre.length)
    (hfit : o + xs.length ≤ b.len) : Filled (b.store o xs) (pre ++ xs) := by
  have hstore := h.store o xs ho.ge hfit
  simpa [ho] using hstore

/-- The buffer holds exactly `xs`, and every store lay inside it. -/
structure Holds (b : Buffer α) (xs : List α) : Prop where
  contents_eq : b.contents = xs
  inBounds : b.InBounds

/-- A finished layout: `n` elements at the end keep their fill. -/
theorem Filled.holds (h : Filled b pre) (hn : pre.length + n = b.len) :
    Holds b (pre ++ List.replicate n b.fill) :=
  ⟨by rw [h.contents_eq_append, ← hn, Nat.add_sub_cancel_left], h.inBounds⟩

theorem Holds.length_eq (h : Holds b xs) : xs.length = b.len := by
  rw [← h.contents_eq, length_contents]

/-- Assign a `w`-byte integer field in the host's byte order. -/
def storeField (order : ByteOrder) (w o n : ℕ) (b : Buffer UInt8) : Buffer UInt8 :=
  b.store o (order.encode w n)

@[simp] theorem len_storeField (order : ByteOrder) (w o n : ℕ) (b : Buffer UInt8) :
    (b.storeField order w o n).len = b.len := rfl

@[simp] theorem fill_storeField (order : ByteOrder) (w o n : ℕ) (b : Buffer UInt8) :
    (b.storeField order w o n).fill = b.fill := rfl

@[simp] theorem len_memcpy (o n : ℕ) (xs : List α) (b : Buffer α) :
    (b.memcpy o xs n).len = b.len := rfl

@[simp] theorem fill_memcpy (o n : ℕ) (xs : List α) (b : Buffer α) :
    (b.memcpy o xs n).fill = b.fill := rfl

theorem Filled.storeField {b : Buffer UInt8} {pre : List UInt8} (h : Filled b pre)
    (order : ByteOrder) (w o n : ℕ) (ho : o = pre.length) (hfit : o + w ≤ b.len) :
    Filled (b.storeField order w o n) (pre ++ order.encode w n) :=
  h.storeNext o (order.encode w n) ho (by simpa using hfit)

/-- A copied string whose start leaves `gap` elements of fill in front. -/
theorem Filled.memcpy (h : Filled b pre) (o n gap : ℕ) (xs : List α) (hn : n ≤ xs.length)
    (ho : o = pre.length + gap) (hfit : o + n ≤ b.len) :
    Filled (b.memcpy o xs n) (pre ++ List.replicate gap b.fill ++ xs.take n) := by
  have hlen : (xs.take n).length = n := by simp [hn]
  have hstore := h.store o (xs.take n) (by omega) (by rw [hlen]; exact hfit)
  rwa [show o - pre.length = gap by omega] at hstore

end Buffer

end Wire
