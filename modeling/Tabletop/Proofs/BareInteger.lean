import Tabletop.Proofs.Decimal
import Tabletop.Toml.Scalar

/-!
Decimal integers in a document. A numeral without needless zeros is read as the integer that it
writes, however large: it is no word, no date and in no other base.
-/

namespace Tabletop

open Numeral

variable {m : Nat} {n : Int} {c : Char} {cs ds : List Char}

namespace Numeral

theorem head?_toDigits_ne_zero (h : m ≠ 0) : (Nat.toDigits 10 m).head? ≠ some '0' := by
  induction m using Nat.strongRecOn with
  | ind m ih =>
    by_cases hm : m < 10
    · have hdigit : ∀ m < 10, m ≠ 0 → Nat.digitChar m ≠ '0' := by decide
      rw [Nat.toDigits_of_lt_base hm, List.head?_singleton, ne_eq, Option.some.injEq]
      exact hdigit m hm h
    · have hlt : m / 10 < m := by omega
      have hrest := ih (m / 10) hlt (by omega)
      rw [Nat.toDigits_of_base_le (by decide) (Nat.le_of_not_lt hm), List.head?_append]
      cases hhead : (Nat.toDigits 10 (m / 10)).head? with
      | none => exact (Nat.toDigits_ne_nil (List.head?_eq_none_iff.1 hhead)).elim
      | some c =>
        rw [hhead] at hrest
        exact hrest

theorem writes_toString (n : Int) : Writes (toString n).toList n := by
  cases n with
  | ofNat m =>
    have h := Writes.plain Nat.toDigits_ne_nil (isDigit_of_mem_toDigits m)
    rw [Nat.ofDigitChars_ten_toDigits] at h
    rw [toList_toString_ofNat]
    exact h
  | negSucc m =>
    have h := Writes.minus Nat.toDigits_ne_nil (isDigit_of_mem_toDigits (m + 1))
    rw [Nat.ofDigitChars_ten_toDigits] at h
    rw [toList_toString_negSucc]
    exact h

theorem Writes.sign_or_digit (h : Writes cs n) : ∀ c ∈ cs, c ∈ ['+', '-'] ∨ c.isDigit = true := by
  cases h with
  | plain _ hds => exact fun c hc => .inr (hds c hc)
  | plus _ hds =>
    rw [List.forall_mem_cons]
    exact ⟨.inl (by decide), fun c hc => .inr (hds c hc)⟩
  | minus _ hds =>
    rw [List.forall_mem_cons]
    exact ⟨.inl (by decide), fun c hc => .inr (hds c hc)⟩

theorem Writes.not_mem (h : Writes cs n) (hc : c ∉ ['+', '-'] ∧ c.isDigit = false) : c ∉ cs := by
  intro hmem
  rcases h.sign_or_digit c hmem with hsign | hdigit
  · exact hc.1 hsign
  · exact Bool.false_ne_true (hc.2.symm.trans hdigit)

end Numeral

namespace Toml

theorem unsigned_of_digits (hds : ∀ c ∈ ds, c.isDigit = true) : unsigned ds = ds := by
  unfold unsigned
  split
  · exact nomatch hds '-' List.mem_cons_self
  · exact nomatch hds '+' List.mem_cons_self
  · rfl

/-- A numeral has digits behind its sign, and they write its absolute value. -/
theorem digits_of_writes (h : Writes cs n) :
    ∃ ds, unsigned cs = ds ∧ ds ≠ [] ∧ (∀ c ∈ ds, c.isDigit = true) ∧
      n = if cs.head? = some '-' then -(Nat.ofDigitChars 10 ds 0 : Int)
        else Nat.ofDigitChars 10 ds 0 := by
  cases h with
  | plain hne hds =>
    obtain ⟨c, ds, rfl⟩ := List.exists_cons_of_ne_nil hne
    refine ⟨_, unsigned_of_digits hds, hne, hds, ?_⟩
    rw [if_neg (head?_ne_minus (hds c List.mem_cons_self) ds)]
  | plus hne hds => exact ⟨_, rfl, hne, hds, rfl⟩
  | minus hne hds => exact ⟨_, rfl, hne, hds, rfl⟩

theorem startsPlainly_toString (n : Int) :
    startsPlainly (unsigned (toString n).toList) = true := by
  have hplain (m : Nat) : startsPlainly (Nat.toDigits 10 m) = true := by
    by_cases hm : m = 0
    · rw [hm]
      decide
    · rw [startsPlainly, Bool.or_eq_true, bne_iff_ne]
      exact .inl (head?_toDigits_ne_zero hm)
  cases n with
  | ofNat m =>
    rw [toList_toString_ofNat, unsigned_of_digits (isDigit_of_mem_toDigits m)]
    exact hplain m
  | negSucc m =>
    rw [toList_toString_negSucc]
    exact hplain (m + 1)

theorem hexValue?_of_isDigit (hc : c.isDigit = true) :
    hexValue? c = some (c.toNat - '0'.toNat) := by
  rw [Char.isDigit, Bool.and_eq_true, decide_eq_true_eq, decide_eq_true_eq] at hc
  exact if_pos hc

theorem isDigitOf_of_isDigit {base : Nat} (hbase : 10 ≤ base) (hc : c.isDigit = true) :
    isDigitOf base c = true := by
  have hlt : c.toNat - '0'.toNat < 10 := by
    rw [Char.isDigit, Bool.and_eq_true, decide_eq_true_eq, decide_eq_true_eq] at hc
    have hle : c.toNat ≤ '9'.toNat := UInt32.le_iff_toNat_le.1 hc.2
    exact Nat.sub_lt_right_of_lt_add (UInt32.le_iff_toNat_le.1 hc.1) (Nat.lt_succ_of_le hle)
  rw [isDigitOf, hexValue?_of_isDigit hc]
  exact decide_eq_true (Nat.lt_of_lt_of_le hlt hbase)

theorem ofDigits_eq (hds : ∀ c ∈ ds, c.isDigit = true) :
    ofDigits 10 ds = Nat.ofDigitChars 10 ds 0 := by
  suffices hfold : ∀ m, ds.foldl (fun n c => n * 10 + (hexValue? c).getD 0) m =
      Nat.ofDigitChars 10 ds m from hfold 0
  induction ds with
  | nil => exact fun m => rfl
  | cons c ds ih =>
    rw [List.forall_mem_cons] at hds
    intro m
    rw [List.foldl_cons, hexValue?_of_isDigit hds.1, Option.getD_some, ih hds.2,
      Nat.ofDigitChars_cons, Nat.mul_comm]

theorem isGroupedAfter_of_not_mem (isDigit : Char → Bool) (digit : Bool) (h : '_' ∉ cs) :
    isGroupedAfter isDigit digit cs = true := by
  fun_induction isGroupedAfter isDigit digit cs with
  | case1 => rfl
  | case2 => exact (h List.mem_cons_self).elim
  | case3 => exact (h List.mem_cons_self).elim
  | case4 digit c cs _ _ ih => exact ih fun hmem => h (List.mem_cons_of_mem _ hmem)

theorem natural?_of_digits (hne : ds ≠ []) (hds : ∀ c ∈ ds, c.isDigit = true) :
    natural? 10 ds = some (Nat.ofDigitChars 10 ds 0 : Int) := by
  have hfilter : ds.filter (· != '_') = ds := by
    rw [List.filter_eq_self]
    intro c hc
    rw [bne_iff_ne]
    rintro rfl
    exact nomatch hds '_' hc
  have hall : ds.all (isDigitOf 10) = true :=
    List.all_eq_true.2 fun c hc => isDigitOf_of_isDigit (Nat.le_refl 10) (hds c hc)
  have hsome : digits? (isDigitOf 10) ds = some ds := by
    rw [digits?, hfilter, Option.filter_some, hall, List.isEmpty_eq_false_iff.2 hne]
    rfl
  rw [natural?, hsome, Option.map_some, ofDigits_eq hds]

theorem ofDecimal?_of_writes (h : Writes cs n) (hplain : startsPlainly (unsigned cs) = true) :
    Scalar.ofDecimal? cs = some (.integer (some n)) := by
  obtain ⟨ds, hunsigned, hne, hds, rfl⟩ := digits_of_writes h
  have htail : ds.dropWhile Char.isDigit = [] := by
    rw [← List.append_nil ds, List.dropWhile_append_of_pos hds, List.dropWhile_nil]
  have hgrouped : isGrouped (isDigitOf 16) ds = true := by
    apply isGroupedAfter_of_not_mem
    intro hmem
    exact nomatch hds '_' hmem
  rw [hunsigned] at hplain
  simp only [Scalar.ofDecimal?, hunsigned, htail, hplain, hgrouped, natural?_of_digits hne hds,
    List.isEmpty_eq_false_iff.2 hne]
  rfl

theorem not_mem_take {k : Nat} (h : c ∉ cs) : c ∉ cs.take k :=
  fun hmem => h (List.mem_of_mem_take hmem)

/-- A date has two hyphens, and a numeral at most the one of its sign. -/
theorem isDate_of_writes (h : Writes cs n) : isDate (cs.take 10) = false := by
  have hdigits {ds : List Char} (hds : ∀ c ∈ ds, c.isDigit = true) : '-' ∉ ds :=
    fun hmem => nomatch hds '-' hmem
  rw [isDate]
  cases h with
  | plain _ hds => rw [List.splitOn_eq_singleton (not_mem_take (hdigits hds))]
  | @plus ds _ hds =>
    have hsign : '-' ∉ '+' :: ds := List.not_mem_cons_of_ne_of_not_mem (by decide) (hdigits hds)
    rw [List.splitOn_eq_singleton (not_mem_take hsign)]
  | minus _ hds =>
    rw [List.take_succ_cons, List.splitOn_cons_eq_if_modifyHead,
      List.splitOn_eq_singleton (not_mem_take (hdigits hds))]
    rfl

theorem isDateTime_of_writes (h : Writes cs n) : isDateTime cs = false := by
  have htime : isTime cs = false := by
    rw [isTime, List.splitOn_eq_singleton (h.not_mem (by decide))]
  rw [isDateTime, htime, isDate_of_writes h]
  rfl

theorem ofNumber?_of_writes (h : Writes cs n) (hplain : startsPlainly (unsigned cs) = true) :
    Scalar.ofNumber? cs = some (.integer (some n)) := by
  obtain ⟨ds, hunsigned, -, hds, -⟩ := digits_of_writes h
  have hword : ¬ (unsigned cs = "inf".toList ∨ unsigned cs = "nan".toList) := by
    rw [hunsigned]
    rintro (rfl | rfl)
    · exact nomatch hds 'i' (by decide)
    · exact nomatch hds 'n' (by decide)
  have hfloat : ¬ ((unsigned cs).any fun c => c == '.' || isExponent c) = true := by
    rw [hunsigned, List.any_eq_true]
    rintro ⟨c, hc, hpoint⟩
    simp only [isExponent, Bool.or_eq_true, beq_iff_eq] at hpoint
    rcases hpoint with rfl | rfl | rfl
    · exact nomatch hds '.' hc
    · exact nomatch hds 'e' hc
    · exact nomatch hds 'E' hc
  unfold Scalar.ofNumber?
  split
  · exact (h.not_mem (c := 'x') (by decide) (List.mem_cons_of_mem _ List.mem_cons_self)).elim
  · exact (h.not_mem (c := 'o') (by decide) (List.mem_cons_of_mem _ List.mem_cons_self)).elim
  · exact (h.not_mem (c := 'b') (by decide) (List.mem_cons_of_mem _ List.mem_cons_self)).elim
  · rw [if_neg hword, if_neg hfloat, ofDecimal?_of_writes h hplain]

/-- A decimal numeral is read as the integer that it writes, of whatever size. -/
theorem ofBare?_of_writes (h : Writes cs n) (hplain : startsPlainly (unsigned cs) = true) :
    Scalar.ofBare? cs = some (.integer (some n)) := by
  have htrue : cs ≠ "true".toList := by
    rintro rfl
    exact h.not_mem (c := 't') (by decide) (by decide)
  have hfalse : cs ≠ "false".toList := by
    rintro rfl
    exact h.not_mem (c := 'f') (by decide) (by decide)
  rw [Scalar.ofBare?, if_neg htrue, if_neg hfalse, isDateTime_of_writes h,
    if_neg Bool.false_ne_true, ofNumber?_of_writes h hplain]

end Toml

end Tabletop
