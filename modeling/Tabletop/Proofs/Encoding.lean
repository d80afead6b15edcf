import Mathlib.Data.Nat.Find
import Tabletop.Proofs.Lines

/-!
Valid UTF-8 comes apart at every ASCII byte, so it can be checked line by line.
-/

namespace Tabletop

namespace Bytes

variable {b : UInt8} {l r p bs : Bytes} {c : Char}

/-- Bytes that are the UTF-8 form of a text. -/
def IsText (bs : Bytes) : Prop :=
  (text? bs).isSome = true

instance (bs : Bytes) : Decidable bs.IsText :=
  inferInstanceAs (Decidable ((text? bs).isSome = true))

theorem isText_iff : bs.IsText ↔ ∃ cs : List Char, bs = cs.flatMap String.utf8EncodeChar := by
  rw [IsText, Option.isSome_iff_exists]
  constructor
  · rintro ⟨s, hs⟩
    exact ⟨s.toList, text?_eq_some_iff.1 hs⟩
  · rintro ⟨cs, hcs⟩
    refine ⟨String.ofList cs, text?_eq_some_iff.2 ?_⟩
    rw [hcs, ofText, String.toList_ofList]

theorem IsText.nil : IsText [] :=
  isText_iff.2 ⟨[], rfl⟩

theorem IsText.append (hl : l.IsText) (hr : r.IsText) : (l ++ r).IsText := by
  obtain ⟨cs, rfl⟩ := isText_iff.1 hl
  obtain ⟨ds, rfl⟩ := isText_iff.1 hr
  exact isText_iff.2 ⟨cs ++ ds, List.flatMap_append.symm⟩

theorem isText_char (c : Char) : IsText (String.utf8EncodeChar c) :=
  isText_iff.2 ⟨[c], (List.flatMap_singleton _ _).symm⟩

theorem isText_chars (cs : List Char) : IsText (cs.flatMap String.utf8EncodeChar) :=
  isText_iff.2 ⟨cs, rfl⟩

/-- An ASCII byte is never part of a longer character. -/
theorem utf8EncodeChar_of_mem_ascii (hb : b.toNat < 0x80) (hmem : b ∈ String.utf8EncodeChar c) :
    String.utf8EncodeChar c = [b] := by
  have hlarge {n : Nat} (hn : 0x80 ≤ n) (hn' : n < 0x100) : b ≠ UInt8.ofNat n := by
    rintro rfl
    rw [UInt8.toNat_ofNat_of_lt' hn'] at hb
    omega
  unfold String.utf8EncodeChar at hmem ⊢
  simp only at hmem ⊢
  split at hmem
  · next h =>
    rw [if_pos h, List.mem_singleton.1 hmem]
  · exfalso
    split at hmem
    · simp only [List.mem_cons, List.not_mem_nil, or_false] at hmem
      rcases hmem with hmem | hmem <;> exact hlarge (by omega) (by omega) hmem
    · split at hmem
      · simp only [List.mem_cons, List.not_mem_nil, or_false] at hmem
        rcases hmem with hmem | hmem | hmem <;> exact hlarge (by omega) (by omega) hmem
      · simp only [List.mem_cons, List.not_mem_nil, or_false] at hmem
        rcases hmem with hmem | hmem | hmem | hmem <;> exact hlarge (by omega) (by omega) hmem

/-- The characters of valid UTF-8 come apart at an ASCII byte. -/
theorem chars_of_append_ascii (hb : b.toNat < 0x80) {cs : List Char}
    (h : cs.flatMap String.utf8EncodeChar = l ++ b :: r) : l.IsText ∧ r.IsText := by
  induction cs generalizing l with
  | nil => exact (List.append_ne_nil_of_right_ne_nil l (List.cons_ne_nil b r) h.symm).elim
  | cons c cs ih =>
    rw [List.flatMap_cons] at h
    rcases List.append_eq_append_iff.1 h with ⟨l', rfl, hrest⟩ | ⟨t, hchar, hrest⟩
    · obtain ⟨hl, hr⟩ := ih hrest
      exact ⟨(isText_char c).append hl, hr⟩
    · cases t with
      | nil =>
        rw [List.append_nil] at hchar
        rw [List.nil_append] at hrest
        rw [← hchar]
        exact ⟨isText_char c, (ih (l := []) hrest.symm).2⟩
      | cons d t =>
        -- The ASCII byte is in the encoding of `c`, so it is all of it.
        rw [List.cons_append, List.cons.injEq] at hrest
        obtain ⟨rfl, rfl⟩ := hrest
        have hmem : b ∈ String.utf8EncodeChar c := by
          rw [hchar]
          exact List.mem_append_right l List.mem_cons_self
        rw [utf8EncodeChar_of_mem_ascii hb hmem] at hchar
        obtain ⟨rfl, ht⟩ : l = [] ∧ t = [] := by
          cases l with
          | nil => exact ⟨rfl, (List.cons.inj hchar).2.symm⟩
          | cons a l => cases l <;> cases hchar
        rw [ht]
        exact ⟨.nil, isText_chars cs⟩

theorem isText_ascii (hb : b.toNat < 0x80) : IsText [b] := by
  have hval : b.toUInt32.toNat = b.toNat := UInt8.toNat_toUInt32 b
  have hvalid : b.toUInt32.isValidChar := .inl (by rw [hval]; omega)
  have hchar : String.utf8EncodeChar ⟨b.toUInt32, hvalid⟩ = [b] := by
    unfold String.utf8EncodeChar
    simp only [hval]
    rw [if_pos (by omega), UInt8.ofNat_toNat]
  rw [← hchar]
  exact isText_char _

theorem isText_append_ascii_iff (hb : b.toNat < 0x80) :
    (l ++ b :: r).IsText ↔ l.IsText ∧ r.IsText := by
  constructor
  · intro h
    obtain ⟨cs, hcs⟩ := isText_iff.1 h
    exact chars_of_append_ascii hb hcs.symm
  · rintro ⟨hl, hr⟩
    exact hl.append ((isText_ascii hb).append hr)

theorem isText_line_iff : (l ++ 0x0A :: r).IsText ↔ l.IsText ∧ r.IsText :=
  isText_append_ascii_iff (by decide)

theorem isText_dropReturn_iff : (Source.dropReturn l).IsText ↔ l.IsText := by
  rw [Source.dropReturn]
  split
  · next h =>
    obtain ⟨l, rfl⟩ := List.getLast?_eq_some_iff.1 h
    have hend : IsText (l ++ [0x0D]) ↔ IsText l ∧ IsText [] := isText_append_ascii_iff (by decide)
    rw [List.dropLast_concat, hend]
    exact ⟨fun hl => ⟨hl, .nil⟩, fun hl => hl.1⟩
  · exact Iff.rfl

/-- The longest beginning that is valid UTF-8. -/
def longestText (bs : Bytes) : Bytes :=
  bs.take (Nat.findGreatest (fun n => IsText (bs.take n)) bs.length)

theorem longestText_isPrefix (bs : Bytes) : longestText bs <+: bs :=
  List.take_prefix _ bs

theorem isText_longestText (bs : Bytes) : (longestText bs).IsText :=
  Nat.findGreatest_spec (P := fun n => IsText (bs.take n)) (Nat.zero_le bs.length) .nil

theorem IsText.length_le_longestText (h : p.IsText) (hp : p <+: bs) :
    p.length ≤ (longestText bs).length := by
  have htake : bs.take p.length = p := (List.prefix_iff_eq_take.1 hp).symm
  have hle : p.length ≤ Nat.findGreatest (fun n => IsText (bs.take n)) bs.length := by
    apply Nat.le_findGreatest hp.length_le
    rw [htake]
    exact h
  rw [longestText, List.length_take]
  exact Nat.le_min.2 ⟨hle, hp.length_le⟩

theorem IsText.eq_longestText (h : p.IsText) (hp : p <+: bs)
    (hmax : ∀ q : Bytes, q <+: bs → q.IsText → q.length ≤ p.length) : p = longestText bs := by
  have hle := hmax _ (longestText_isPrefix bs) (isText_longestText bs)
  have hge := h.length_le_longestText hp
  exact (List.prefix_of_prefix_length_le hp (longestText_isPrefix bs) hge).eq_of_length
    (Nat.le_antisymm hge hle)

/-- A beginning of some lines ends in the first of them or has all of it. -/
theorem isPrefix_line_cases (h : p <+: l ++ 0x0A :: r) :
    p <+: l ∨ ∃ q : Bytes, q <+: r ∧ p = l ++ 0x0A :: q := by
  rcases List.prefix_or_prefix_of_prefix h (List.prefix_append l (0x0A :: r)) with hp | ⟨t, rfl⟩
  · exact .inl hp
  · have ht := (List.prefix_append_right_inj l).1 h
    rcases List.prefix_cons_iff.1 ht with rfl | ⟨q, rfl, hq⟩
    · have hself : l ++ [] <+: l := (List.append_nil l).symm ▸ List.prefix_refl l
      exact .inl hself
    · exact .inr ⟨q, hq, rfl⟩

theorem longestText_line (hl : l.IsText) (r : Bytes) :
    longestText (l ++ 0x0A :: r) = l ++ 0x0A :: longestText r := by
  symm
  apply IsText.eq_longestText
  · exact isText_line_iff.2 ⟨hl, isText_longestText r⟩
  · exact (List.prefix_append_right_inj l).2
      ((List.cons_prefix_cons).2 ⟨rfl, longestText_isPrefix r⟩)
  · intro q hq htext
    rcases isPrefix_line_cases hq with hshort | ⟨q, hrest, rfl⟩
    · apply Nat.le_trans hshort.length_le
      rw [List.length_append]
      exact Nat.le_add_right _ _
    · have hle := (isText_line_iff.1 htext).2.length_le_longestText hrest
      rw [List.length_append, List.length_append, List.length_cons, List.length_cons]
      omega

theorem newline_not_mem_longestText (hl : ¬ l.IsText) (hno : 0x0A ∉ l) (r : Bytes) :
    0x0A ∉ longestText (l ++ 0x0A :: r) := by
  intro hmem
  rcases isPrefix_line_cases (longestText_isPrefix (l ++ 0x0A :: r)) with hp | ⟨q, -, hp⟩
  · exact hno (hp.subset hmem)
  · have htext := isText_longestText (l ++ 0x0A :: r)
    rw [hp] at htext
    exact hl (isText_line_iff.1 htext).1

end Bytes

namespace Source

variable {l bs : Bytes}

theorem decode_of_isText (h : l.IsText) : ∃ text, decode l = .ok text := by
  obtain ⟨text, htext⟩ := Option.isSome_iff_exists.1 h
  exact ⟨text, by rw [decode, htext]⟩

theorem decode_of_not_isText (h : ¬ l.IsText) : decode l = .error .notUtf8 := by
  rw [Bytes.IsText, Option.not_isSome_iff_eq_none] at h
  rw [decode, h]

end Source

end Tabletop
