import Mathlib.Data.List.Induction
import Mathlib.Data.List.Nodup

/-!
# Registries

A registry lists the entries it was given in the order in which they came, but
only the first one for each key: an entry whose key is in the list already
leaves it unchanged. Nothing is ever replaced or removed.

## Main definitions

* `Table.insertNew` — append an entry unless its key is known
* `Table.insertAll` — the same for one entry after the other

## Main results

* `nodup_insertAll` — no key occurs twice
* `filter_key_eq_singleton` — so an entry is the only one for its key
* `map_key_insertAll` — the keys, in the order of their first occurrence
* `mem_insertAll_iff` — the entries listed are the first for their keys
* `find?_insertAll` — for each key, the entry kept is the first that came
* `insertAll_eq_append` — what was in the list stays in front
* `insertAll_congr` — what is new depends on the keys in the list only
-/

namespace Table

variable {α κ : Type*} [DecidableEq κ] {key : α → κ} {x : α} {l xs ys : List α} {k : κ}

/-- Append an entry unless its key is in the list. -/
def insertNew (key : α → κ) (l : List α) (x : α) : List α :=
  if key x ∈ l.map key then l else l ++ [x]

/-- Insert one entry after the other. -/
def insertAll (key : α → κ) (l xs : List α) : List α := xs.foldl (insertNew key) l

theorem insertNew_of_mem (h : key x ∈ l.map key) : insertNew key l x = l := if_pos h

theorem insertNew_of_notMem (h : key x ∉ l.map key) : insertNew key l x = l ++ [x] := if_neg h

@[simp] theorem insertAll_nil (key : α → κ) (l : List α) : insertAll key l [] = l := rfl

@[simp] theorem insertAll_cons (key : α → κ) (l : List α) (x : α) (xs : List α) :
    insertAll key l (x :: xs) = insertAll key (insertNew key l x) xs := rfl

theorem insertAll_append (key : α → κ) (l xs ys : List α) :
    insertAll key l (xs ++ ys) = insertAll key (insertAll key l xs) ys :=
  List.foldl_append

/-! ## One entry -/

theorem mem_map_key_insertNew :
    k ∈ (insertNew key l x).map key ↔ k ∈ l.map key ∨ k = key x := by
  by_cases h : key x ∈ l.map key
  · rw [insertNew_of_mem h]
    constructor
    · exact Or.inl
    · rintro (hk | rfl)
      · exact hk
      · exact h
  · rw [insertNew_of_notMem h, List.map_append, List.mem_append, List.map_singleton,
      List.mem_singleton]

theorem nodup_insertNew (h : (l.map key).Nodup) (x : α) :
    ((insertNew key l x).map key).Nodup := by
  by_cases hx : key x ∈ l.map key
  · rwa [insertNew_of_mem hx]
  · rw [insertNew_of_notMem hx, List.map_append, List.map_singleton, ← List.concat_eq_append]
    exact h.concat hx

theorem find?_insertNew (l : List α) (x : α) (k : κ) :
    (insertNew key l x).find? (fun y => key y = k) =
      (l ++ [x]).find? (fun y => key y = k) := by
  by_cases hx : key x ∈ l.map key
  · rw [insertNew_of_mem hx, List.find?_append]
    by_cases hk : key x = k
    · obtain ⟨y, hy, hkey⟩ := List.mem_map.mp hx
      have hsome : (l.find? fun y => key y = k).isSome := by
        rw [List.find?_isSome]
        exact ⟨y, hy, decide_eq_true (hkey.trans hk)⟩
      rw [Option.or_of_isSome hsome]
    · have hnone : [x].find? (fun y => key y = k) = none := by simp [hk]
      rw [hnone, Option.or_none]
  · rw [insertNew_of_notMem hx]

/-- An entry that is replaced by one with its key. -/
theorem map_key_set {β ι : Type*} {key : β → ι} {x y : β} {l : List β} {i : ℕ}
    (h : l[i]? = some x) (hkey : key y = key x) : (l.set i y).map key = l.map key := by
  have hsame : (l.map key)[i]? = some (key y) := by
    rw [List.getElem?_map, h, Option.map_some, hkey]
  obtain ⟨hlt, hy⟩ := List.getElem?_eq_some_iff.mp hsame
  rw [List.map_set, ← hy, List.set_getElem_self]

/-! ## Runs -/

theorem mem_map_key_insertAll :
    k ∈ (insertAll key l xs).map key ↔ k ∈ l.map key ∨ k ∈ xs.map key := by
  induction xs generalizing l with
  | nil => simp
  | cons x xs ih =>
    rw [insertAll_cons, ih, mem_map_key_insertNew, List.map_cons, List.mem_cons, or_assoc]

/-- **No key occurs twice.** -/
theorem nodup_insertAll (key : α → κ) (h : (l.map key).Nodup) (xs : List α) :
    ((insertAll key l xs).map key).Nodup := by
  induction xs generalizing l with
  | nil => exact h
  | cons x xs ih => exact ih (nodup_insertNew h x)

/-- Where no key occurs twice, an entry is the only one for its key. -/
theorem filter_key_eq_singleton (h : (l.map key).Nodup) (hx : x ∈ l) :
    l.filter (fun y => key y = key x) = [x] := by
  induction l with
  | nil => exact absurd hx List.not_mem_nil
  | cons y l ih =>
    obtain ⟨hy, hl⟩ := List.nodup_cons.mp h
    rcases List.mem_cons.mp hx with rfl | hx
    · have hothers : l.filter (fun y => key y = key x) = [] := by
        rw [List.filter_eq_nil_iff]
        intro z hz hkey
        exact hy (of_decide_eq_true hkey ▸ List.mem_map_of_mem hz)
      rw [List.filter_cons, if_pos (decide_eq_true rfl), hothers]
    · have hne : key y ≠ key x := fun hkey => hy (hkey ▸ List.mem_map_of_mem hx)
      rw [List.filter_cons_of_neg (by simpa using hne), ih hl hx]

/-- **What was in the list stays in front**, and what is new comes from the run. -/
theorem insertAll_eq_append (key : α → κ) (l xs : List α) :
    ∃ new, insertAll key l xs = l ++ new ∧ new.Sublist xs := by
  induction xs generalizing l with
  | nil => exact ⟨[], by simp, .slnil⟩
  | cons x xs ih =>
    by_cases hx : key x ∈ l.map key
    · obtain ⟨new, heq, hsub⟩ := ih l
      exact ⟨new, by rw [insertAll_cons, insertNew_of_mem hx, heq], hsub.cons x⟩
    · obtain ⟨new, heq, hsub⟩ := ih (l ++ [x])
      refine ⟨x :: new, ?_, hsub.cons_cons x⟩
      rw [insertAll_cons, insertNew_of_notMem hx, heq, List.append_assoc, List.singleton_append]

/-- What is new depends on the keys that are in the list, and on nothing else there. -/
theorem insertAll_congr {l' : List α} (h : l.map key = l'.map key) (xs : List α) :
    ∃ new, insertAll key l xs = l ++ new ∧ insertAll key l' xs = l' ++ new := by
  induction xs generalizing l l' with
  | nil => exact ⟨[], (List.append_nil l).symm, (List.append_nil l').symm⟩
  | cons x xs ih =>
    rw [insertAll_cons, insertAll_cons]
    by_cases hx : key x ∈ l.map key
    · rw [insertNew_of_mem hx, insertNew_of_mem (h ▸ hx)]
      exact ih h
    · rw [insertNew_of_notMem hx, insertNew_of_notMem (h ▸ hx)]
      have hkeys : (l ++ [x]).map key = (l' ++ [x]).map key := by
        rw [List.map_append, List.map_append, h]
      obtain ⟨new, hl, hl'⟩ := ih hkeys
      refine ⟨x :: new, ?_, ?_⟩
      · rw [hl, List.append_assoc, List.singleton_append]
      · rw [hl', List.append_assoc, List.singleton_append]

/-- **The entries that are listed**: each is the first that came for its key. -/
theorem mem_insertAll_iff {y : α} : y ∈ insertAll key l xs ↔ y ∈ l ∨
    ∃ front back, xs = front ++ y :: back ∧ key y ∉ l.map key ∧ key y ∉ front.map key := by
  induction xs generalizing l with
  | nil => simp
  | cons x xs ih =>
    rw [insertAll_cons, ih]
    constructor
    · intro h
      rcases h with h | ⟨front, back, rfl, hl, hfront⟩
      · by_cases hx : key x ∈ l.map key
        · rw [insertNew_of_mem hx] at h
          exact .inl h
        · rw [insertNew_of_notMem hx] at h
          rcases List.mem_append.mp h with h | h
          · exact .inl h
          · obtain rfl := List.mem_singleton.mp h
            exact .inr ⟨[], xs, rfl, hx, List.not_mem_nil⟩
      · rw [mem_map_key_insertNew, not_or] at hl
        refine .inr ⟨x :: front, back, rfl, hl.1, ?_⟩
        rw [List.map_cons, List.mem_cons, not_or]
        exact ⟨hl.2, hfront⟩
    · intro h
      rcases h with h | ⟨front, back, heq, hl, hfront⟩
      · obtain ⟨new, hnew, -⟩ := insertAll_eq_append key l [x]
        rw [insertAll_cons, insertAll_nil] at hnew
        rw [hnew]
        exact .inl (List.mem_append_left _ h)
      · cases front with
        | nil =>
          obtain ⟨rfl, rfl⟩ := List.cons.inj heq
          rw [insertNew_of_notMem hl]
          exact .inl (List.mem_append_right _ (List.mem_singleton.mpr rfl))
        | cons z front =>
          obtain ⟨rfl, rfl⟩ := List.cons.inj heq
          rw [List.map_cons, List.mem_cons, not_or] at hfront
          refine .inr ⟨front, back, rfl, ?_, hfront.2⟩
          rw [mem_map_key_insertNew, not_or]
          exact ⟨hl, hfront.1⟩

/-- **For each key the entry kept is the first that came.** -/
theorem find?_insertAll (key : α → κ) (l xs : List α) (k : κ) :
    (insertAll key l xs).find? (fun y => key y = k) =
      (l ++ xs).find? (fun y => key y = k) := by
  induction xs generalizing l with
  | nil => simp
  | cons x xs ih =>
    rw [insertAll_cons, ih, List.find?_append, find?_insertNew, ← List.find?_append,
      List.append_assoc, List.singleton_append]

/-- **The keys of a registry**, in the order of their first occurrence. -/
theorem map_key_insertAll [BEq κ] [LawfulBEq κ] (key : α → κ) (xs : List α) :
    (insertAll key [] xs).map key = (xs.map key).eraseDups := by
  induction xs using List.reverseRecOn with
  | nil => rfl
  | append_singleton xs x ih =>
    have hmem : key x ∈ (insertAll key [] xs).map key ↔ key x ∈ xs.map key := by
      simp [mem_map_key_insertAll]
    rw [insertAll_append, insertAll_cons, insertAll_nil, List.map_append, List.map_singleton,
      List.eraseDups_append]
    by_cases hx : key x ∈ xs.map key
    · have hold : [key x].removeAll (xs.map key) = [] := by
        simp [List.removeAll, hx, -List.mem_map]
      rw [insertNew_of_mem (hmem.mpr hx), ih, hold, List.eraseDups_nil, List.append_nil]
    · have hnew : [key x].removeAll (xs.map key) = [key x] := by
        simp [List.removeAll, hx, -List.mem_map]
      rw [insertNew_of_notMem (mt hmem.mp hx), List.map_append, ih, hnew]
      rfl

end Table
