import Tabletop.Numeral

/-!
Decimal numerals: a numeral is read exactly if it writes an integer of the range, and reading the
printed form of such an integer gives it back. What starts with a numeral beyond the range is beyond
it, whatever follows.
-/

namespace Tabletop.Numeral

variable {i : Interval} {negative : Bool} {k m : Nat} {n : Int} {c : Char} {cs ds p : List Char}

/-- The integer with a sign and an absolute value. -/
def signed (negative : Bool) (m : Nat) : Int :=
  if negative then -m else m

theorem signed_zero (negative : Bool) : signed negative 0 = 0 := by
  cases negative <;> rfl

theorem extend_signed (negative : Bool) (m d : Nat) :
    extend negative (signed negative m) d = signed negative (10 * m + d) := by
  cases negative <;> simp only [extend, signed] <;> grind

theorem signed_mem_of_le (hzero : 0 ∈ i) (h : signed negative m ∈ i) (hkm : k ≤ m) :
    signed negative k ∈ i := by
  rw [Interval.mem_iff] at hzero h ⊢
  cases negative <;> simp only [signed] at h ⊢ <;> grind

theorem scanDigits_cons (hc : c.isDigit = true) :
    scanDigits i negative (signed negative m) (c :: cs) =
      if signed negative (10 * m + (c.toNat - '0'.toNat)) ∈ i then
        scanDigits i negative (signed negative (10 * m + (c.toNat - '0'.toNat))) cs
      else .beyond negative := by
  rw [scanDigits, digit?, if_pos hc]
  simp only [extend_signed]

theorem scanDigits_cons_of_not_isDigit (hc : c.isDigit = false) :
    scanDigits i negative n (c :: cs) = .malformed := by
  rw [scanDigits, digit?, hc, if_neg Bool.false_ne_true]

theorem le_ofDigitChars (m : Nat) (cs : List Char) : m ≤ Nat.ofDigitChars 10 cs m := by
  induction cs generalizing m with
  | nil => exact Nat.le_refl m
  | cons c cs ih =>
    rw [Nat.ofDigitChars_cons]
    apply Nat.le_trans _ (ih _)
    omega

/-- Digits are read to their end if that is where their value is within the range: on the way
there the value only grows away from zero. -/
theorem scanDigits_eq_value (hzero : 0 ∈ i) (hcs : ∀ c ∈ cs, c.isDigit = true)
    (h : signed negative (Nat.ofDigitChars 10 cs m) ∈ i) :
    scanDigits i negative (signed negative m) cs =
      .value (signed negative (Nat.ofDigitChars 10 cs m)) := by
  induction cs generalizing m with
  | nil => rfl
  | cons c cs ih =>
    rw [Nat.ofDigitChars_cons] at h ⊢
    rw [List.forall_mem_cons] at hcs
    have hnext : signed negative (10 * m + (c.toNat - '0'.toNat)) ∈ i :=
      signed_mem_of_le hzero h (le_ofDigitChars _ cs)
    rw [scanDigits_cons hcs.1, if_pos hnext]
    exact ih hcs.2 h

theorem scan_digits (hc : c.isDigit = true) :
    scan i (c :: cs) = scanDigits i false 0 (c :: cs) := by
  unfold scan
  split
  · next h => cases h
  · next h => cases h; cases hc
  · next h => cases h; cases hc
  · next h => cases h; rfl

theorem scan_minus (h : cs ≠ []) : scan i ('-' :: cs) = scanDigits i true 0 cs := by
  cases cs with
  | nil => exact (h rfl).elim
  | cons c cs => rfl

theorem isDigit_of_mem_toDigits (m : Nat) : ∀ c ∈ Nat.toDigits 10 m, c.isDigit = true := by
  intro c hc
  exact Nat.isDigit_of_mem_toDigits (by decide) (by decide) hc

theorem scanDigits_toDigits (hzero : 0 ∈ i) (h : signed negative m ∈ i) :
    scanDigits i negative 0 (Nat.toDigits 10 m) = .value (signed negative m) := by
  rw [← Nat.ofDigitChars_ten_toDigits (n := m)] at h
  have hread := scanDigits_eq_value hzero (isDigit_of_mem_toDigits m) h
  rwa [signed_zero, Nat.ofDigitChars_ten_toDigits] at hread

theorem toList_toString_ofNat (m : Nat) : (toString (Int.ofNat m)).toList = Nat.toDigits 10 m := by
  rw [Int.toString_eq_repr]
  exact Nat.toList_repr

theorem toList_toString_negSucc (m : Nat) :
    (toString (Int.negSucc m)).toList = '-' :: Nat.toDigits 10 (m + 1) := by
  rw [Int.toString_eq_repr, Int.repr, String.toList_append, Nat.toList_repr]
  rfl

/-- What is printed for an integer of a range is read as that integer. -/
theorem scan_toString (hzero : 0 ∈ i) (h : n ∈ i) : scan i (toString n).toList = .value n := by
  cases n with
  | ofNat m =>
    have hread : scanDigits i false 0 (Nat.toDigits 10 m) = .value m := scanDigits_toDigits hzero h
    rw [toList_toString_ofNat]
    cases hdigits : Nat.toDigits 10 m with
    | nil => exact (Nat.toDigits_ne_nil hdigits).elim
    | cons c cs =>
      have hc : c.isDigit = true := isDigit_of_mem_toDigits m c (hdigits ▸ List.mem_cons_self)
      rw [scan_digits hc, ← hdigits]
      exact hread
  | negSucc m =>
    rw [toList_toString_negSucc, scan_minus Nat.toDigits_ne_nil]
    exact scanDigits_toDigits hzero (show signed true (m + 1) ∈ i from h)

/-- Characters that write an integer: decimal digits, at least one, perhaps behind a sign. -/
inductive Writes : List Char → Int → Prop where
  | plain {ds : List Char} (hne : ds ≠ []) (hds : ∀ c ∈ ds, c.isDigit = true) :
      Writes ds (Nat.ofDigitChars 10 ds 0)
  | plus {ds : List Char} (hne : ds ≠ []) (hds : ∀ c ∈ ds, c.isDigit = true) :
      Writes ('+' :: ds) (Nat.ofDigitChars 10 ds 0)
  | minus {ds : List Char} (hne : ds ≠ []) (hds : ∀ c ∈ ds, c.isDigit = true) :
      Writes ('-' :: ds) (-(Nat.ofDigitChars 10 ds 0))

theorem digits_of_scanDigits (hm : signed negative m ∈ i)
    (h : scanDigits i negative (signed negative m) cs = .value n) :
    (∀ c ∈ cs, c.isDigit = true) ∧ n = signed negative (Nat.ofDigitChars 10 cs m) ∧ n ∈ i := by
  induction cs generalizing m with
  | nil =>
    cases h
    exact ⟨fun _ hc => (nomatch hc), rfl, hm⟩
  | cons c cs ih =>
    cases hc : c.isDigit with
    | false =>
      rw [scanDigits_cons_of_not_isDigit hc] at h
      cases h
    | true =>
      rw [scanDigits_cons hc] at h
      split at h
      · next hnext =>
        obtain ⟨hcs, hn, hmem⟩ := ih hnext h
        rw [Nat.ofDigitChars_cons, List.forall_mem_cons]
        exact ⟨⟨hc, hcs⟩, hn, hmem⟩
      · cases h

/-- Digits give a value if it is within the range, and nothing else gives one. -/
theorem scanDigits_eq_value_iff (hzero : 0 ∈ i) :
    scanDigits i negative 0 cs = .value n ↔
      (∀ c ∈ cs, c.isDigit = true) ∧ n = signed negative (Nat.ofDigitChars 10 cs 0) ∧ n ∈ i := by
  rw [← signed_zero negative] at hzero ⊢
  constructor
  · intro h
    exact digits_of_scanDigits hzero h
  · rintro ⟨hcs, rfl, hmem⟩
    rw [signed_zero] at hzero
    exact scanDigits_eq_value hzero hcs hmem

theorem scan_plus (h : cs ≠ []) : scan i ('+' :: cs) = scanDigits i false 0 cs := by
  cases cs with
  | nil => exact (h rfl).elim
  | cons c cs => rfl

theorem writes_of_scan (hzero : 0 ∈ i) (h : scan i cs = .value n) : Writes cs n ∧ n ∈ i := by
  unfold scan at h
  split at h
  · cases h
  · next c cs =>
    obtain ⟨hcs, rfl, hmem⟩ := (scanDigits_eq_value_iff hzero).1 h
    exact ⟨.minus (List.cons_ne_nil c cs) hcs, hmem⟩
  · next c cs =>
    obtain ⟨hcs, rfl, hmem⟩ := (scanDigits_eq_value_iff hzero).1 h
    exact ⟨.plus (List.cons_ne_nil c cs) hcs, hmem⟩
  · next c cs _ _ =>
    obtain ⟨hcs, rfl, hmem⟩ := (scanDigits_eq_value_iff hzero).1 h
    exact ⟨.plain (List.cons_ne_nil c cs) hcs, hmem⟩

/-- A numeral is read exactly if it writes an integer of the range. -/
theorem scan_eq_value_iff (hzero : 0 ∈ i) : scan i cs = .value n ↔ Writes cs n ∧ n ∈ i := by
  constructor
  · intro h
    exact writes_of_scan hzero h
  · rintro ⟨hwrites, hmem⟩
    cases hwrites with
    | plain hne hcs =>
      obtain ⟨c, cs, rfl⟩ := List.exists_cons_of_ne_nil hne
      rw [scan_digits (hcs c List.mem_cons_self)]
      exact (scanDigits_eq_value_iff hzero).2 ⟨hcs, rfl, hmem⟩
    | plus hne hcs =>
      rw [scan_plus hne]
      exact (scanDigits_eq_value_iff hzero).2 ⟨hcs, rfl, hmem⟩
    | minus hne hcs =>
      rw [scan_minus hne]
      exact (scanDigits_eq_value_iff hzero).2 ⟨hcs, rfl, hmem⟩

/-- Characters that start with a numeral beyond a range, whatever comes after it. -/
def Overflows (i : Interval) (cs : List Char) : Prop :=
  ∃ p n, p <+: cs ∧ Writes p n ∧ n ∉ i

theorem scanDigits_of_leaves (hm : signed negative m ∈ i) (hds : ∀ c ∈ ds, c.isDigit = true)
    (hstart : ds <+: cs) (hleaves : signed negative (Nat.ofDigitChars 10 ds m) ∉ i) :
    scanDigits i negative (signed negative m) cs = .beyond negative := by
  -- The reading may leave the range before the last of these digits, and then it ends there.
  induction ds generalizing m cs with
  | nil => exact (hleaves hm).elim
  | cons c ds ih =>
    obtain ⟨rest, rfl⟩ := hstart
    rw [Nat.ofDigitChars_cons] at hleaves
    rw [List.forall_mem_cons] at hds
    rw [List.cons_append, scanDigits_cons hds.1]
    split
    · next hnext => exact ih hnext hds.2 (List.prefix_append ds rest) hleaves
    · rfl

theorem leaves_of_scanDigits {b : Bool} (hm : signed negative m ∈ i)
    (h : scanDigits i negative (signed negative m) cs = .beyond b) :
    b = negative ∧ ∃ ds, ds <+: cs ∧ (∀ c ∈ ds, c.isDigit = true) ∧
      signed negative (Nat.ofDigitChars 10 ds m) ∉ i := by
  induction cs generalizing m with
  | nil => cases h
  | cons c cs ih =>
    cases hc : c.isDigit with
    | false =>
      rw [scanDigits_cons_of_not_isDigit hc] at h
      cases h
    | true =>
      rw [scanDigits_cons hc] at h
      split at h
      · next hnext =>
        obtain ⟨hb, ds, hstart, hds, hleaves⟩ := ih hnext h
        refine ⟨hb, c :: ds, (List.prefix_cons_inj c).2 hstart, ?_, ?_⟩
        · exact List.forall_mem_cons.2 ⟨hc, hds⟩
        · rwa [Nat.ofDigitChars_cons]
      · next hleaves =>
        cases h
        refine ⟨rfl, [c], List.prefix_append [c] cs, List.forall_mem_singleton.2 hc, ?_⟩
        rwa [Nat.ofDigitChars_cons, Nat.ofDigitChars_nil]

/-- Digits are read no further than to where their value leaves the range. -/
theorem scanDigits_eq_beyond_iff {b : Bool} (hzero : 0 ∈ i) :
    scanDigits i negative 0 cs = .beyond b ↔
      b = negative ∧ ∃ ds, ds <+: cs ∧ (∀ c ∈ ds, c.isDigit = true) ∧
        signed negative (Nat.ofDigitChars 10 ds 0) ∉ i := by
  rw [← signed_zero negative] at hzero ⊢
  constructor
  · exact leaves_of_scanDigits hzero
  · rintro ⟨rfl, ds, hstart, hds, hleaves⟩
    exact scanDigits_of_leaves hzero hds hstart hleaves

theorem head?_ne_minus (hc : c.isDigit = true) (cs : List Char) :
    (c :: cs).head? ≠ some '-' := by
  rintro ⟨⟩
  cases hc

/-- A numeral beyond the range at the start settles what is read, and its sign alone counts. -/
theorem scan_of_overflows (hzero : 0 ∈ i) (h : Overflows i cs) :
    scan i cs = .beyond (cs.head? = some '-') := by
  obtain ⟨p, n, ⟨rest, rfl⟩, hwrites, hleaves⟩ := h
  cases hwrites with
  | @plain ds hne hds =>
    obtain ⟨c, ds, rfl⟩ := List.exists_cons_of_ne_nil hne
    have hc : c.isDigit = true := hds c List.mem_cons_self
    have hsign := decide_eq_false (head?_ne_minus hc (ds ++ rest))
    rw [List.cons_append, scan_digits hc, scanDigits_eq_beyond_iff hzero]
    exact ⟨hsign, c :: ds, List.prefix_append _ rest, hds, hleaves⟩
  | @plus ds hne hds =>
    rw [List.cons_append, scan_plus (List.append_ne_nil_of_left_ne_nil hne rest),
      scanDigits_eq_beyond_iff hzero]
    exact ⟨rfl, ds, List.prefix_append ds rest, hds, hleaves⟩
  | @minus ds hne hds =>
    rw [List.cons_append, scan_minus (List.append_ne_nil_of_left_ne_nil hne rest),
      scanDigits_eq_beyond_iff hzero]
    exact ⟨rfl, ds, List.prefix_append ds rest, hds, hleaves⟩

theorem ne_nil_of_leaves (hzero : 0 ∈ i)
    (hleaves : signed negative (Nat.ofDigitChars 10 ds 0) ∉ i) : ds ≠ [] := by
  rintro rfl
  rw [Nat.ofDigitChars_nil, signed_zero] at hleaves
  exact hleaves hzero

theorem overflows_of_scan {b : Bool} (hzero : 0 ∈ i) (h : scan i cs = .beyond b) :
    Overflows i cs := by
  unfold scan at h
  split at h
  · cases h
  · obtain ⟨-, ds, hstart, hds, hleaves⟩ := (scanDigits_eq_beyond_iff hzero).1 h
    have hne := ne_nil_of_leaves hzero hleaves
    exact ⟨'-' :: ds, _, (List.prefix_cons_inj '-').2 hstart, .minus hne hds, hleaves⟩
  · obtain ⟨-, ds, hstart, hds, hleaves⟩ := (scanDigits_eq_beyond_iff hzero).1 h
    have hne := ne_nil_of_leaves hzero hleaves
    exact ⟨'+' :: ds, _, (List.prefix_cons_inj '+').2 hstart, .plus hne hds, hleaves⟩
  · obtain ⟨-, ds, hstart, hds, hleaves⟩ := (scanDigits_eq_beyond_iff hzero).1 h
    have hne := ne_nil_of_leaves hzero hleaves
    exact ⟨ds, _, hstart, .plain hne hds, hleaves⟩

theorem scan_eq_malformed_iff (hzero : 0 ∈ i) :
    scan i cs = .malformed ↔ ¬ Overflows i cs ∧ ∀ n, ¬ Writes cs n := by
  constructor
  · intro h
    have hstart : ¬ Overflows i cs := by
      intro hstart
      rw [scan_of_overflows hzero hstart] at h
      cases h
    refine ⟨hstart, ?_⟩
    intro n hwrites
    by_cases hn : n ∈ i
    · rw [(scan_eq_value_iff hzero).2 ⟨hwrites, hn⟩] at h
      cases h
    · exact hstart ⟨cs, n, List.prefix_rfl, hwrites, hn⟩
  · rintro ⟨hstart, hnone⟩
    cases hscan : scan i cs with
    | value n => exact (hnone n ((scan_eq_value_iff hzero).1 hscan).1).elim
    | beyond b => exact (hstart (overflows_of_scan hzero hscan)).elim
    | malformed => rfl

/-- A numeral with no minus sign writes no negative integer, and one with it no positive one. -/
theorem Writes.sign (h : Writes cs n) :
    if cs.head? = some '-' then n ≤ 0 else 0 ≤ n := by
  cases h with
  | plain hne hds =>
    obtain ⟨c, ds, rfl⟩ := List.exists_cons_of_ne_nil hne
    rw [if_neg (head?_ne_minus (hds c List.mem_cons_self) ds)]
    exact Int.natCast_nonneg _
  | plus hne hds => exact Int.natCast_nonneg _
  | minus hne hds => exact Int.neg_nonpos_of_nonneg (Int.natCast_nonneg _)

theorem writes_of_sign {sign : String} (hsign : sign ∈ ["", "+", "-"]) (hne : ds ≠ [])
    (hds : ∀ c ∈ ds, c.isDigit = true) :
    Writes (sign.toList ++ ds) (signed (sign = "-") (Nat.ofDigitChars 10 ds 0)) := by
  simp only [List.mem_cons, List.not_mem_nil, or_false] at hsign
  rcases hsign with rfl | rfl | rfl
  · exact .plain hne hds
  · exact .plus hne hds
  · exact .minus hne hds

theorem ofDigitChars_zeros (k : Nat) (ds : List Char) :
    Nat.ofDigitChars 10 (List.replicate k '0' ++ ds) 0 = Nat.ofDigitChars 10 ds 0 := by
  rw [Nat.ofDigitChars_append, Nat.ofDigitChars_replicate_zero, Nat.mul_zero]

/-- A printed integer has digits and perhaps a minus sign. -/
theorem mem_toString (hc : c ∈ (toString n).toList) : c = '-' ∨ c.isDigit = true := by
  cases n with
  | ofNat m =>
    rw [toList_toString_ofNat] at hc
    exact .inr (isDigit_of_mem_toDigits m c hc)
  | negSucc m =>
    rw [toList_toString_negSucc] at hc
    rcases List.mem_cons.1 hc with rfl | hc
    · exact .inl rfl
    · exact .inr (isDigit_of_mem_toDigits _ c hc)

end Tabletop.Numeral
