import CitpLib.Theorems.Latin1

/-!
# Connection strings

A connection string is made from a text with numbered place markers, into which
one number after the other is substituted. Neither a number nor what precedes it
contains a percent sign, so each substitution meets the next marker; and no number
contains a slash, so the slashes separate the numbers again.

## Main definitions

* `connectionString` — a protocol name and numbers, with slashes between them
* `ConnectionProtocol` — the protocols and their names

## Main results

* `number_injective` — a number is determined by its decimal text
* `arg_marker` — `arg` puts the number in place of the first marker
* `artnetString_arg` and its siblings — the strings that are sent
* `connectionString_inj` — the string determines the protocol and the numbers
-/

namespace CitpLib

namespace QString

variable {s t rest : QString} {c : UInt16} {n d : ℕ} {v w : ℤ}

/-! ## Numbers -/

/-- The characters of a number: the digits and the minus sign. -/
def IsNumeral (c : UInt16) : Prop := c.toNat = 0x2D ∨ (0x30 ≤ c.toNat ∧ c.toNat ≤ 0x39)

instance (c : UInt16) : Decidable (IsNumeral c) := inferInstanceAs (Decidable (_ ∨ _))

theorem toNat_digit (hd : d < 10) : (UInt16.ofNat (0x30 + d)).toNat = 0x30 + d :=
  UInt16.toNat_ofNat_of_lt' (Nat.lt_trans (Nat.add_lt_add_left hd _) (by decide))

/-- The characters of a decimal text are digits. -/
theorem digit_of_mem_decimal (h : c ∈ decimal n) : 0x30 ≤ c.toNat ∧ c.toNat ≤ 0x39 := by
  rw [decimal] at h
  split at h
  · rw [List.mem_singleton.mp h]
    decide
  · obtain ⟨d, hd, rfl⟩ := List.mem_map.mp h
    have hlt : d < 10 := Nat.digits_lt_base (by decide) (List.mem_reverse.mp hd)
    rw [toNat_digit hlt]
    omega

/-- The natural that a decimal text stands for. -/
def value (s : QString) : ℕ := Nat.ofDigits 10 (s.reverse.map fun c => c.toNat - 0x30)

theorem value_decimal (n : ℕ) : value (decimal n) = n := by
  rw [decimal]
  split
  · simp [value, *]
  · have hdigits : ∀ d ∈ Nat.digits 10 n,
        ((fun c : UInt16 => c.toNat - 0x30) ∘ fun d => UInt16.ofNat (0x30 + d)) d = d := by
      intro d hd
      rw [Function.comp_apply, toNat_digit (Nat.digits_lt_base (by decide) hd)]
      omega
    rw [value, ← List.map_reverse, List.reverse_reverse, List.map_map,
      List.map_congr_left hdigits, List.map_id', Nat.ofDigits_digits]

theorem decimal_injective : Function.Injective decimal :=
  Function.LeftInverse.injective value_decimal

theorem isNumeral_of_mem_number (h : c ∈ number v) : IsNumeral c := by
  cases v with
  | ofNat n => exact Or.inr (digit_of_mem_decimal h)
  | negSucc n =>
    rcases List.mem_cons.mp h with rfl | h
    · exact Or.inl rfl
    · exact Or.inr (digit_of_mem_decimal h)

/-- **A number is determined by its decimal text.** -/
theorem number_injective : Function.Injective number := by
  have hsign (n m : ℕ) : number (.ofNat n) ≠ number (.negSucc m) := by
    intro h
    have hmem : (0x2D : UInt16) ∈ decimal n := by
      change decimal n = _ at h
      rw [h]
      exact List.mem_cons_self
    exact absurd (digit_of_mem_decimal hmem).1 (by decide)
  intro v w h
  cases v with
  | ofNat n =>
    cases w with
    | ofNat m => exact congrArg Int.ofNat (decimal_injective h)
    | negSucc m => exact absurd h (hsign n m)
  | negSucc n =>
    cases w with
    | ofNat m => exact absurd h.symm (hsign m n)
    | negSucc m =>
      have hsucc := decimal_injective (List.cons.inj h).2
      exact congrArg Int.negSucc (Nat.succ.inj hsucc)

theorem notMem_number (hc : ¬ IsNumeral c) (v : ℤ) : c ∉ number v :=
  fun h => hc (isNumeral_of_mem_number h)

/-! ## Place markers -/

theorem marker?_of_ne (hc : c ≠ 0x25) (s : QString) : marker? (c :: s) = none := by
  cases s with
  | nil => rfl
  | cons d s => simp [marker?, hc]

theorem lowestMarker?_append (hs : 0x25 ∉ s) (rest : QString) :
    lowestMarker? (s ++ rest) = lowestMarker? rest := by
  induction s with
  | nil => rfl
  | cons c s ih =>
    obtain ⟨hc, hs⟩ := not_or.mp (mt List.mem_cons.mpr hs)
    rw [List.cons_append, lowestMarker?, marker?_of_ne (Ne.symm hc), ih hs]

theorem substitute_append (hs : 0x25 ∉ s) (n : ℕ) (text rest : QString) :
    substitute n text 0 (s ++ rest) = s ++ substitute n text 0 rest := by
  induction s with
  | nil => rfl
  | cons c s ih =>
    obtain ⟨hc, hs⟩ := not_or.mp (mt List.mem_cons.mpr hs)
    rw [List.cons_append, substitute, marker?_of_ne (Ne.symm hc)]
    simp only [ih hs, List.cons_append]

/-- Where all markers have a larger number nothing is substituted. -/
theorem substitute_of_lt (h : ∀ low ∈ lowestMarker? s, n < low) (text : QString) :
    substitute n text 0 s = s := by
  induction s with
  | nil => rfl
  | cons c s ih =>
    rw [lowestMarker?] at h
    rw [substitute]
    cases hmarker : marker? (c :: s) with
    | none =>
      simp only [hmarker] at h ⊢
      rw [ih h]
    | some found =>
      obtain ⟨m, len⟩ := found
      cases hlow : lowestMarker? s with
      | none =>
        have hm : n < m := h m (by simp [hmarker, hlow])
        simp only [if_neg hm.ne']
        rw [ih fun low hlow' => by simp [hlow] at hlow']
      | some low =>
        have hmin : n < min m low := h _ (by simp [hmarker, hlow])
        have hm := lt_of_lt_of_le hmin (min_le_left m low)
        simp only [if_neg hm.ne']
        rw [ih fun low' hlow' => ?_]
        rw [hlow, Option.mem_some_iff] at hlow'
        rw [← hlow']
        exact lt_of_lt_of_le hmin (min_le_right m low)

/-- The place marker with a one-digit number. -/
def marker (d : ℕ) : QString := [0x25, UInt16.ofNat (0x30 + d)]

theorem digit?_digit (hd : d < 10) : digit? (UInt16.ofNat (0x30 + d)) = some d := by
  have hnat := toNat_digit hd
  have hrange : 0x30 ≤ UInt16.ofNat (0x30 + d) ∧ UInt16.ofNat (0x30 + d) ≤ 0x39 := by
    rw [UInt16.le_iff_toNat_le, UInt16.le_iff_toNat_le, hnat]
    exact ⟨Nat.le_add_right _ _, by change 48 + d ≤ 57; omega⟩
  rw [digit?, if_pos hrange, hnat, Nat.add_sub_cancel_left]

theorem marker?_marker (hd : d < 10) (hrest : rest.head?.bind digit? = none) :
    marker? (marker d ++ rest) = some (d, 2) := by
  simp only [marker, List.cons_append, List.nil_append, marker?, ↓reduceIte, digit?_digit hd,
    hrest]

theorem digit_ne_percent (hd : d < 10) : UInt16.ofNat (0x30 + d) ≠ 0x25 := by
  intro h
  have hnat := congrArg UInt16.toNat h
  rw [toNat_digit hd] at hnat
  change 48 + d = 37 at hnat
  omega

theorem lowestMarker?_marker (hd : d < 10) (hrest : rest.head?.bind digit? = none)
    (hlow : ∀ low ∈ lowestMarker? rest, d < low) :
    lowestMarker? (marker d ++ rest) = some d := by
  have hmarker := marker?_marker hd hrest
  have hdigit : 0x25 ∉ [UInt16.ofNat (0x30 + d)] := by
    simpa using (digit_ne_percent hd).symm
  have hbehind : lowestMarker? (UInt16.ofNat (0x30 + d) :: rest) = lowestMarker? rest :=
    lowestMarker?_append hdigit rest
  rw [marker, List.cons_append, List.singleton_append] at hmarker ⊢
  rw [lowestMarker?, hmarker, hbehind]
  cases hrest : lowestMarker? rest with
  | none => rfl
  | some low => simp [min_eq_left (hlow low hrest).le]

/-- **The number goes in place of the first marker**, if its number is the lowest. -/
theorem arg_marker (hs : 0x25 ∉ s) (hd : d < 10) (hrest : rest.head?.bind digit? = none)
    (hlow : ∀ low ∈ lowestMarker? rest, d < low) (v : ℤ) :
    arg (s ++ (marker d ++ rest)) v = s ++ (number v ++ rest) := by
  have hsubstitute : substitute d (number v) 0 (marker d ++ rest) = number v ++ rest := by
    have hmarker := marker?_marker hd hrest
    rw [marker, List.cons_append, List.singleton_append] at hmarker ⊢
    rw [substitute, hmarker]
    simp only [↓reduceIte]
    rw [substitute, substitute_of_lt hlow]
  rw [arg, lowestMarker?_append hs, lowestMarker?_marker hd hrest hlow]
  simp only [substitute_append hs, hsubstitute]

/-- Markers with the numbers from `d` on, each behind a slash. -/
def markers : ℕ → ℕ → QString
  | _, 0 => []
  | d, n + 1 => 0x2F :: (marker d ++ markers (d + 1) n)

theorem head_markers (d n : ℕ) : (markers d n).head?.bind digit? = none := by
  cases n with
  | zero => rfl
  | succ n => exact (by decide : digit? 0x2F = none)

theorem le_of_mem_lowestMarker?_markers {low : ℕ} (hdn : d + n ≤ 10)
    (h : low ∈ lowestMarker? (markers d n)) : d ≤ low := by
  induction n generalizing d low with
  | zero => exact absurd h (Option.not_mem_none low)
  | succ n ih =>
    have hslash : (0x25 : UInt16) ∉ ([0x2F] : QString) := by decide
    have hrest : ∀ low ∈ lowestMarker? (markers (d + 1) n), d < low := by
      intro low hlow
      exact ih (by omega) hlow
    have hlowest : lowestMarker? (markers d (n + 1)) = some d :=
      (lowestMarker?_append hslash _).trans
        (lowestMarker?_marker (by omega) (head_markers (d + 1) n) hrest)
    rw [hlowest, Option.mem_some_iff] at h
    exact h.le

end QString

/-! ## The strings that are sent -/

open QString

variable {protocol protocol' : QString} {numbers numbers' : List ℤ}

/-- A protocol name and numbers, with slashes between them. -/
def connectionString (protocol : QString) (numbers : List ℤ) : QString :=
  protocol ++ numbers.flatMap fun v => 0x2F :: number v

theorem percent_notMem_connectionString (hprotocol : 0x25 ∉ protocol) (numbers : List ℤ) :
    0x25 ∉ connectionString protocol numbers := by
  rw [connectionString, List.mem_append, List.mem_flatMap]
  rintro (h | ⟨v, -, h⟩)
  · exact hprotocol h
  · rcases List.mem_cons.mp h with h | h
    · exact absurd h (by decide)
    · exact notMem_number (by decide) v h

/-- Substitution for the marker behind a slash. -/
theorem arg_connectionString (numbers : List ℤ) (d : ℕ) (rest : QString)
    (hprotocol : 0x25 ∉ protocol) (hd : d < 10) (hrest : rest.head?.bind digit? = none)
    (hlow : ∀ low ∈ lowestMarker? rest, d < low) (v : ℤ) :
    (connectionString protocol numbers ++ (0x2F :: (marker d ++ rest))).arg v =
      connectionString protocol (numbers ++ [v]) ++ rest := by
  have hpercent : 0x25 ∉ connectionString protocol numbers ++ [0x2F] := by
    rw [List.mem_append]
    rintro (h | h)
    · exact percent_notMem_connectionString hprotocol numbers h
    · exact absurd h (by decide)
  have harg := arg_marker hpercent hd hrest hlow v
  simpa [connectionString] using harg

/-- Numbers that are substituted one after the other stand in their order. -/
theorem foldl_arg (hprotocol : 0x25 ∉ protocol) (done todo : List ℤ) (d : ℕ)
    (hd : d + todo.length ≤ 10) :
    todo.foldl arg (connectionString protocol done ++ markers d todo.length) =
      connectionString protocol (done ++ todo) := by
  induction todo generalizing done d with
  | nil => simp [markers]
  | cons v todo ih =>
    rw [List.length_cons] at hd
    have hlow : ∀ low ∈ lowestMarker? (markers (d + 1) todo.length), d < low :=
      fun low h => le_of_mem_lowestMarker?_markers (by omega) h
    have hfirst := arg_connectionString done d (markers (d + 1) todo.length) hprotocol (by omega)
      (head_markers _ _) hlow v
    rw [List.length_cons, markers, List.foldl_cons, hfirst, ih (done ++ [v]) (d + 1) (by omega),
      List.append_assoc, List.singleton_append]

/-- The protocols that connection strings name. -/
inductive ConnectionProtocol
  | artNet
  | avab
  | e131
  | etcNet2
  deriving DecidableEq, Repr

/-- The text in front of the numbers. -/
def ConnectionProtocol.name : ConnectionProtocol → QString
  | artNet => .ofLiteral "ArtNet"
  | avab => .ofLiteral "AvabIPX"
  | e131 => .ofLiteral "BSRE1.31"
  | etcNet2 => .ofLiteral "ETCNet2"

namespace ConnectionProtocol

theorem name_injective : Function.Injective name := by
  intro protocol protocol' h
  cases protocol <;> cases protocol' <;> first | rfl | exact absurd h (by decide)

theorem percent_notMem_name (protocol : ConnectionProtocol) : 0x25 ∉ protocol.name := by
  cases protocol <;> decide

theorem slash_notMem_name (protocol : ConnectionProtocol) : 0x2F ∉ protocol.name := by
  cases protocol <;> decide

theorem latin1_name (protocol : ConnectionProtocol) : Latin1 protocol.name := by
  cases protocol <;> decide

end ConnectionProtocol

/-- The numbers substituted into the text of a protocol. -/
theorem arg_template (protocol : ConnectionProtocol) (numbers : List ℤ)
    (hlen : numbers.length ≤ 9) :
    numbers.foldl arg (protocol.name ++ markers 1 numbers.length) =
      connectionString protocol.name numbers := by
  have hfold := foldl_arg protocol.percent_notMem_name [] numbers 1 (by omega)
  rwa [connectionString, List.flatMap_nil, List.append_nil, List.nil_append] at hfold

theorem artnetString_arg (network universeNo channel : ℤ) :
    ((artnetString.arg network).arg universeNo).arg channel =
      connectionString ConnectionProtocol.artNet.name [network, universeNo, channel] := by
  have htemplate : artnetString = ConnectionProtocol.artNet.name ++ markers 1 3 := by decide
  rw [htemplate]
  exact arg_template .artNet [network, universeNo, channel] (by simp)

theorem avabString_arg (network universeNo channel : ℤ) :
    ((avabString.arg network).arg universeNo).arg channel =
      connectionString ConnectionProtocol.avab.name [network, universeNo, channel] := by
  have htemplate : avabString = ConnectionProtocol.avab.name ++ markers 1 3 := by decide
  rw [htemplate]
  exact arg_template .avab [network, universeNo, channel] (by simp)

theorem e131String_arg (universeNo channel : ℤ) :
    (e131String.arg universeNo).arg channel =
      connectionString ConnectionProtocol.e131.name [universeNo, channel] := by
  have htemplate : e131String = ConnectionProtocol.e131.name ++ markers 1 2 := by decide
  rw [htemplate]
  exact arg_template .e131 [universeNo, channel] (by simp)

theorem etcnet2String_arg (channel : ℤ) :
    etcnet2String.arg channel =
      connectionString ConnectionProtocol.etcNet2.name [channel] := by
  have htemplate : etcnet2String = ConnectionProtocol.etcNet2.name ++ markers 1 1 := by decide
  rw [htemplate]
  exact arg_template .etcNet2 [channel] (by simp)

/-- **A connection string determines the protocol and the numbers.** -/
theorem connectionString_inj (hprotocol : 0x2F ∉ protocol) (hprotocol' : 0x2F ∉ protocol')
    (h : connectionString protocol numbers = connectionString protocol' numbers') :
    protocol = protocol' ∧ numbers = numbers' := by
  have hnumber (v : ℤ) : 0x2F ∉ number v := notMem_number (by decide) v
  have hcons (p : QString) (v : ℤ) (vs : List ℤ) : connectionString p (v :: vs) =
      p ++ 0x2F :: connectionString (number v) vs := by
    simp [connectionString]
  have hnil (p : QString) : connectionString p [] = p := by simp [connectionString]
  induction numbers generalizing protocol protocol' numbers' with
  | nil =>
    cases numbers' with
    | nil => exact ⟨by rwa [hnil, hnil] at h, rfl⟩
    | cons w ws =>
      rw [hnil, hcons] at h
      exact absurd (h ▸ by simp) hprotocol
  | cons v vs ih =>
    cases numbers' with
    | nil =>
      rw [hnil, hcons] at h
      exact absurd (h ▸ by simp) hprotocol'
    | cons w ws =>
      rw [hcons, hcons] at h
      obtain ⟨rfl, hrest⟩ := delimited_append_inj hprotocol hprotocol' h
      obtain ⟨hfirst, rfl⟩ := ih (hnumber v) (hnumber w) hrest
      rw [number_injective hfirst]
      exact ⟨rfl, rfl⟩

/-- A connection string has Latin-1 characters only. -/
theorem latin1_connectionString (hprotocol : Latin1 protocol) (numbers : List ℤ) :
    Latin1 (connectionString protocol numbers) := by
  intro c hc
  rw [connectionString, List.mem_append, List.mem_flatMap] at hc
  rcases hc with hc | ⟨v, -, hc⟩
  · exact hprotocol c hc
  · rcases List.mem_cons.mp hc with rfl | hc
    · decide
    · rcases isNumeral_of_mem_number hc with h | h <;> omega

end CitpLib
