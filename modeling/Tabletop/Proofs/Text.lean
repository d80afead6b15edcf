import Tabletop.Text

/-!
Cutting texts: where the first part of a split ends, and texts that have nothing to trim.
-/

namespace Tabletop.Text

variable {sep : Char} {s p : String} {rest : List String}

theorem split_of_not_mem (h : sep ∉ s.toList) : split sep s = [s] := by
  rw [split, List.splitOn_eq_singleton h, List.map_singleton, String.ofList_toList]

theorem split_append (h : sep ∉ p.toList) (r : String) :
    split sep (p ++ String.singleton sep ++ r) = p :: split sep r := by
  have hs : (p ++ String.singleton sep ++ r).toList = p.toList ++ sep :: r.toList := by simp
  rw [split, hs, List.splitOn_append_cons_self_of_not_mem h, List.map_cons, String.ofList_toList,
    split]

theorem split_ne_nil (sep : Char) (s : String) : split sep s ≠ [] :=
  mt List.map_eq_nil_iff.1 (List.splitOn_ne_nil sep s.toList)

theorem not_mem_or_eq_append (sep : Char) (s : String) :
    sep ∉ s.toList ∨ ∃ p r, sep ∉ p.toList ∧ s = p ++ String.singleton sep ++ r := by
  by_cases h : sep ∈ s.toList
  · obtain ⟨l, r, hs, hl⟩ := List.eq_append_cons_of_mem h
    refine .inr ⟨String.ofList l, String.ofList r, ?_, ?_⟩
    · rwa [String.toList_ofList]
    · rw [← String.toList_inj, hs]
      simp
  · exact .inl h

/-- The first part of a text ends at the first separator, and the others are those of what follows
it. -/
theorem split_eq_cons_iff :
    split sep s = p :: rest ↔
      sep ∉ p.toList ∧
        (s = p ∧ rest = [] ∨ ∃ r, s = p ++ String.singleton sep ++ r ∧ split sep r = rest) := by
  constructor
  · intro h
    rcases not_mem_or_eq_append sep s with hs | ⟨q, r, hq, rfl⟩
    · rw [split_of_not_mem hs] at h
      cases h
      exact ⟨hs, .inl ⟨rfl, rfl⟩⟩
    · rw [split_append hq] at h
      cases h
      exact ⟨hq, .inr ⟨r, rfl, rfl⟩⟩
  · rintro ⟨hp, ⟨rfl, rfl⟩ | ⟨r, rfl, rfl⟩⟩
    · exact split_of_not_mem hp
    · exact split_append hp r

/-- The parts of two texts with a separator between them are those of the one and those of the
other. -/
theorem split_append_split (sep : Char) (s r : String) :
    split sep (s ++ String.singleton sep ++ r) = split sep s ++ split sep r := by
  induction hparts : split sep s generalizing s with
  | nil => exact (split_ne_nil sep s hparts).elim
  | cons p rest ih =>
    obtain ⟨hp, ⟨rfl, rfl⟩ | ⟨q, rfl, hq⟩⟩ := split_eq_cons_iff.1 hparts
    · exact split_append hp r
    · rw [String.append_assoc, String.append_assoc, split_append hp, ← String.append_assoc, ih q hq,
        List.cons_append]

theorem head?_split_eq_some_iff :
    (split sep s).head? = some p ↔
      sep ∉ p.toList ∧ ∃ r, s = p ++ r ∧ (r = "" ∨ r.toList.head? = some sep) := by
  rw [List.head?_eq_some_iff]
  simp only [split_eq_cons_iff]
  constructor
  · rintro ⟨rest, hp, ⟨rfl, -⟩ | ⟨r, rfl, -⟩⟩
    · exact ⟨hp, "", String.append_empty.symm, .inl rfl⟩
    · refine ⟨hp, String.singleton sep ++ r, String.append_assoc, .inr ?_⟩
      simp
  · rintro ⟨hp, r, rfl, rfl | hr⟩
    · exact ⟨[], hp, .inl ⟨String.append_empty, rfl⟩⟩
    · obtain ⟨cs, hcs⟩ := List.head?_eq_some_iff.1 hr
      have hr : r = String.singleton sep ++ String.ofList cs := by
        rw [← String.toList_inj, hcs]
        simp
      exact ⟨_, hp, .inr ⟨String.ofList cs, by rw [hr, String.append_assoc], rfl⟩⟩

/-- A text has one part more than it has separators. -/
theorem length_split (sep : Char) (s : String) :
    (split sep s).length = s.toList.count sep + 1 := by
  rw [split, List.length_map]
  induction s.toList with
  | nil => rfl
  | cons c cs ih =>
    rw [List.splitOn_cons_eq_if_modifyHead, List.count_cons]
    split
    · rw [List.length_cons, ih]
    · rw [List.length_modifyHead, ih]

/-- The first part of a text is the longest piece at its start without a separator. -/
theorem eq_takeWhile_of_split (h : split sep s = p :: rest) :
    p = String.ofList (s.toList.takeWhile (· ≠ sep)) := by
  obtain ⟨hp, hs⟩ := split_eq_cons_iff.1 h
  have hall : ∀ c ∈ p.toList, decide (c ≠ sep) = true := by
    intro c hc
    apply decide_eq_true
    rintro rfl
    exact hp hc
  obtain ⟨tail, htail, hstop⟩ :
      ∃ tail, s.toList = p.toList ++ tail ∧ tail.takeWhile (· ≠ sep) = [] := by
    rcases hs with ⟨rfl, -⟩ | ⟨r, rfl, -⟩
    · exact ⟨[], (List.append_nil _).symm, rfl⟩
    · exact ⟨sep :: r.toList, by simp, List.takeWhile_cons_of_neg (by simp)⟩
  rw [htail, List.takeWhile_append_of_pos hall, hstop, List.append_nil, String.ofList_toList]

/-- The parts of a text are pieces of it between separators. -/
theorem isInfix_of_mem_split (h : p ∈ split sep s) : p.toList <:+: s.toList ∧ sep ∉ p.toList := by
  induction hn : s.toList.length using Nat.strongRecOn generalizing s with
  | ind n ih =>
    rcases not_mem_or_eq_append sep s with hs | ⟨q, r, hq, rfl⟩
    · rw [split_of_not_mem hs, List.mem_singleton] at h
      rw [h]
      exact ⟨List.infix_rfl, hs⟩
    · have hlist : (q ++ String.singleton sep ++ r).toList = q.toList ++ sep :: r.toList := by simp
      rw [hlist] at hn ⊢
      rw [split_append hq] at h
      rcases List.mem_cons.1 h with rfl | hr
      · exact ⟨(List.prefix_append _ _).isInfix, hq⟩
      · have hlt : r.toList.length < n := by
          rw [← hn, List.length_append, List.length_cons]
          omega
        obtain ⟨hpiece, hsep⟩ := ih r.toList.length hlt hr rfl
        have hrest : r.toList <:+: q.toList ++ sep :: r.toList :=
          ((List.suffix_cons sep r.toList).trans (List.suffix_append q.toList _)).isInfix
        exact ⟨hpiece.trans hrest, hsep⟩

theorem trimChars_isInfix (cs : List Char) : trimChars cs <:+: cs := by
  have hfront := List.dropWhile_suffix isBlank (l := cs)
  have hback := List.dropWhile_suffix isBlank (l := (cs.dropWhile isBlank).reverse)
  rw [← List.reverse_prefix, List.reverse_reverse] at hback
  exact hback.isInfix.trans hfront.isInfix

theorem trim_isInfix (s : String) : (trim s).toList <:+: s.toList := by
  rw [toList_trim]
  exact trimChars_isInfix s.toList

theorem head?_dropWhile_not_blank (cs : List Char) :
    ∀ c ∈ (cs.dropWhile isBlank).head?, isBlank c = false := by
  intro c hc
  have hnot := List.head?_dropWhile_not isBlank cs
  rwa [hc] at hnot

theorem trimChars_isPrefix (cs : List Char) : trimChars cs <+: cs.dropWhile isBlank := by
  rw [← List.reverse_suffix, trimChars, List.reverse_reverse]
  exact List.dropWhile_suffix isBlank

/-- A trimmed text does not start with a blank character. -/
theorem head?_trim_not_blank (s : String) : ∀ c ∈ (trim s).toList.head?, isBlank c = false := by
  intro c hc
  rw [toList_trim] at hc
  obtain ⟨cs, hcs⟩ := List.head?_eq_some_iff.1 hc
  obtain ⟨rest, hrest⟩ := trimChars_isPrefix s.toList
  apply head?_dropWhile_not_blank s.toList
  rw [← hrest, hcs]
  rfl

theorem trimChars_append_blank {bs : List Char} (h : ∀ b ∈ bs, isBlank b = true) (cs : List Char) :
    trimChars (cs ++ bs) = trimChars cs := by
  rw [trimChars, trimChars, List.dropWhile_append]
  split
  · next hblank =>
    have hdrop : bs.dropWhile isBlank = [] := by
      rw [← List.append_nil bs, List.dropWhile_append_of_pos h, List.dropWhile_nil]
    rw [List.isEmpty_iff.1 hblank, hdrop]
  · have hback : ∀ b ∈ bs.reverse, isBlank b = true := fun b hb => h b (List.mem_reverse.1 hb)
    rw [List.reverse_append, List.dropWhile_append_of_pos hback]

/-- Blank characters at the end of a text are trimmed. -/
theorem trim_append_blank (s : String) {b : String} (h : ∀ c ∈ b.toList, isBlank c = true) :
    trim (s ++ b) = trim s := by
  rw [trim, String.toList_append, trimChars_append_blank h, trim]

theorem trim_blank_append {b : String} (h : ∀ c ∈ b.toList, isBlank c = true) (s : String) :
    trim (b ++ s) = trim s := by
  rw [trim, String.toList_append, trimChars, List.dropWhile_append_of_pos h, trim, trimChars]

theorem trimChars_eq_self {cs : List Char} (hfirst : ∀ c ∈ cs.head?, isBlank c = false)
    (hlast : ∀ c ∈ cs.getLast?, isBlank c = false) : trimChars cs = cs := by
  have hdrop {cs : List Char} (h : ∀ c ∈ cs.head?, isBlank c = false) :
      cs.dropWhile isBlank = cs := by
    cases cs with
    | nil => rfl
    | cons c cs => rw [List.dropWhile_cons_of_neg (by simp [h c rfl])]
  rw [trimChars, hdrop hfirst, hdrop, List.reverse_reverse]
  rwa [List.head?_reverse]

/-- A text that neither starts nor ends with a blank character has nothing to trim. -/
theorem trim_eq_self (hfirst : ∀ c ∈ s.toList.head?, isBlank c = false)
    (hlast : ∀ c ∈ s.toList.getLast?, isBlank c = false) : trim s = s := by
  rw [trim, trimChars_eq_self hfirst hlast, String.ofList_toList]

/-- A text that neither starts nor ends with a blank character, and is not empty. -/
structure Solid (s : String) : Prop where
  first : ∃ c, s.toList.head? = some c ∧ isBlank c = false
  last : ∃ c, s.toList.getLast? = some c ∧ isBlank c = false

theorem Solid.trim_eq (h : Solid s) : trim s = s := by
  obtain ⟨⟨c, hfirst, hc⟩, d, hlast, hd⟩ := h
  apply trim_eq_self
  · rw [hfirst]
    rintro _ ⟨⟩
    exact hc
  · rw [hlast]
    rintro _ ⟨⟩
    exact hd

theorem Solid.append {t : String} (hs : Solid s) (q : String) (ht : Solid t) :
    Solid (s ++ q ++ t) := by
  obtain ⟨c, hfirst, hc⟩ := hs.first
  obtain ⟨d, hlast, hd⟩ := ht.last
  constructor
  · refine ⟨c, ?_, hc⟩
    rw [String.append_assoc, String.toList_append, List.head?_append, hfirst]
    rfl
  · refine ⟨d, ?_, hd⟩
    rw [String.toList_append, List.getLast?_append, hlast]
    rfl

theorem exists_append_blank (q : String) :
    ∃ r b : String, q = r ++ b ∧ (∀ c ∈ b.toList, isBlank c = true) ∧
      ∀ c ∈ r.toList.getLast?, isBlank c = false := by
  refine ⟨String.ofList (q.toList.reverse.dropWhile isBlank).reverse,
    String.ofList (q.toList.reverse.takeWhile isBlank).reverse, ?_, ?_, ?_⟩
  · rw [← String.ofList_append, ← List.reverse_append, List.takeWhile_append_dropWhile,
      List.reverse_reverse, String.ofList_toList]
  · intro c hc
    rw [String.toList_ofList, List.mem_reverse] at hc
    exact List.all_eq_true.1 List.all_takeWhile c hc
  · rw [String.toList_ofList, List.getLast?_reverse]
    exact head?_dropWhile_not_blank _

/-- Of what follows a solid text only blank characters at its end are trimmed. -/
theorem Solid.exists_trim_append (h : Solid s) (q : String) :
    ∃ r : String, r.toList <+: q.toList ∧ trim (s ++ q) = s ++ r := by
  obtain ⟨⟨c, hfirst, hc⟩, d, hlast, hd⟩ := h
  obtain ⟨r, b, rfl, hblank, hend⟩ := exists_append_blank q
  refine ⟨r, ?_, ?_⟩
  · rw [String.toList_append]
    exact List.prefix_append _ _
  · rw [← String.append_assoc, trim_append_blank _ hblank]
    apply Solid.trim_eq
    constructor
    · rw [String.toList_append, List.head?_append, hfirst]
      exact ⟨c, rfl, hc⟩
    · rw [String.toList_append, List.getLast?_append, hlast]
      cases hr : r.toList.getLast? with
      | none => exact ⟨d, rfl, hd⟩
      | some e => exact ⟨e, rfl, hend e hr⟩

/-- A solid text that stands as a word stays one when the line is trimmed. -/
theorem Solid.exists_trim_word (h : Solid s) {q : String}
    (hq : (∀ c ∈ q.toList, isBlank c = true) ∨ q.toList.head? = some ' ') :
    ∃ r : String, trim (s ++ q) = s ++ r ∧ (r = "" ∨ r.toList.head? = some ' ') := by
  rcases hq with hblank | hspace
  · refine ⟨"", ?_, .inl rfl⟩
    rw [trim_append_blank _ hblank, h.trim_eq, String.append_empty]
  · obtain ⟨r, ⟨rest, hrest⟩, htrim⟩ := h.exists_trim_append q
    refine ⟨r, htrim, ?_⟩
    by_cases hr : r = ""
    · exact .inl hr
    · obtain ⟨d, ds, hd⟩ := List.exists_cons_of_ne_nil (mt String.toList_eq_nil_iff.1 hr)
      rw [← hrest, hd] at hspace
      rw [hd]
      exact .inr hspace

end Tabletop.Text
