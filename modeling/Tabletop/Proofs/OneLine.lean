import Tabletop.Proofs.Encoding
import Tabletop.Proofs.Text

/-!
Texts without a line feed. As bytes they make one line each, and every line that is read is such a
text.
-/

namespace Tabletop

variable {s t : String} {texts : List String} {bs : Bytes}

/-- A text that does not break into lines. -/
def OneLine (s : String) : Prop :=
  '\n' ∉ s.toList

instance (s : String) : Decidable (OneLine s) :=
  inferInstanceAs (Decidable (_ ∉ _))

theorem oneLine_append_iff : OneLine (s ++ t) ↔ OneLine s ∧ OneLine t := by
  simp only [OneLine, String.toList_append, List.mem_append, not_or]

theorem OneLine.append (hs : OneLine s) (ht : OneLine t) : OneLine (s ++ t) :=
  oneLine_append_iff.2 ⟨hs, ht⟩

theorem OneLine.of_isInfix (hs : OneLine s) (h : t.toList <:+: s.toList) : OneLine t :=
  fun hmem => hs (h.mem hmem)

namespace Bytes

theorem ofText_injective (h : ofText s = ofText t) : s = t := by
  have htext := congrArg text? h
  rwa [text?_ofText, text?_ofText, Option.some.injEq] at htext

theorem eq_newline_of_mem_utf8EncodeChar {c : Char} (h : 0x0A ∈ String.utf8EncodeChar c) :
    c = '\n' := by
  have hbytes : ofText (String.singleton c) = ofText "\n" := by
    simp only [ofText, String.toList_singleton, List.flatMap_singleton]
    rw [utf8EncodeChar_of_mem_ascii (by decide) h]
    decide
  exact String.singleton_inj.1 (ofText_injective hbytes)

theorem newline_mem_ofText_iff : 0x0A ∈ ofText s ↔ '\n' ∈ s.toList := by
  rw [ofText, List.mem_flatMap]
  constructor
  · rintro ⟨c, hc, hmem⟩
    rw [← eq_newline_of_mem_utf8EncodeChar hmem]
    exact hc
  · intro h
    exact ⟨'\n', h, by decide⟩

theorem newline_not_mem_ofText (h : OneLine s) : 0x0A ∉ ofText s :=
  mt newline_mem_ofText_iff.1 h

/-- Each text as a line. -/
def ofLines (texts : List String) : Bytes :=
  texts.flatMap fun text => ofText (text ++ "\n")

theorem ofLines_cons (text : String) (texts : List String) :
    ofLines (text :: texts) = ofText text ++ 0x0A :: ofLines texts := by
  rw [ofLines, List.flatMap_cons, ofText_append, List.append_assoc]
  rfl

theorem ended_ofLines (texts : List String) : (ofLines texts).Ended := by
  induction texts with
  | nil => exact .inl rfl
  | cons text texts ih =>
    rw [ofLines_cons]
    exact ended_line_iff.2 ih

theorem completeLines_ofLines (h : ∀ text ∈ texts, OneLine text) :
    (ofLines texts).completeLines = texts.map ofText := by
  induction texts with
  | nil => rfl
  | cons text texts ih =>
    rw [List.forall_mem_cons] at h
    rw [ofLines_cons, completeLines,
      List.splitOn_append_cons_self_of_not_mem (newline_not_mem_ofText h.1),
      List.dropLast_cons_of_ne_nil (List.splitOn_ne_nil _ _), List.map_cons]
    exact congrArg _ (ih h.2)

theorem count_newline_ofLines (h : ∀ text ∈ texts, OneLine text) :
    (ofLines texts).count 0x0A = texts.length := by
  induction texts with
  | nil => rfl
  | cons text texts ih =>
    rw [List.forall_mem_cons] at h
    rw [ofLines_cons, List.count_append, List.count_eq_zero_of_not_mem (newline_not_mem_ofText h.1),
      List.count_cons_self, ih h.2, Nat.zero_add, List.length_cons]

end Bytes

namespace Source

theorem decode_eq_ok_iff {l : Bytes} : decode l = .ok t ↔ l = Bytes.ofText t := by
  rw [← Bytes.text?_eq_some_iff, decode]
  cases l.text? <;> simp

theorem oneLine_of_decode {l : Bytes} (hl : 0x0A ∉ l) (h : decode l = .ok t) : OneLine t := by
  rw [decode_eq_ok_iff.1 h, Bytes.newline_mem_ofText_iff] at hl
  exact hl

theorem not_mem_dropReturn {l : Bytes} {b : UInt8} (hl : b ∉ l) : b ∉ dropReturn l := by
  rw [dropReturn]
  split
  · exact fun hmem => hl (List.dropLast_subset l hmem)
  · exact hl

theorem oneLine_of_mem_lines {source : Source} (h : .ok t ∈ source.lines) : OneLine t := by
  obtain ⟨bs, fault?⟩ := source
  induction bs using Bytes.lineInduction with
  | unfinished l hl =>
    rw [lines_unfinished hl] at h
    cases fault? with
    | some fault => cases List.mem_singleton.1 h
    | none =>
      simp only at h
      split at h
      · cases h
      · exact oneLine_of_decode hl (List.mem_singleton.1 h).symm
  | line l r hl ih =>
    rw [lines_line hl] at h
    rcases List.mem_cons.1 h with hline | hrest
    · exact oneLine_of_decode (not_mem_dropReturn hl) hline.symm
    · exact ih hrest

/-- A line that is read is the text that was written, but for a carriage return at its end. -/
theorem decode_dropReturn_ofText (s : String) :
    ∃ text, decode (dropReturn (Bytes.ofText s)) = .ok text ∧ Text.trim text = Text.trim s := by
  rw [dropReturn]
  split
  · next h =>
    obtain ⟨l, hl⟩ := List.getLast?_eq_some_iff.1 h
    have htext : Bytes.IsText (l ++ [0x0D]) := hl ▸ Bytes.isText_chars s.toList
    obtain ⟨text, hdecode⟩ :=
      decode_of_isText ((Bytes.isText_append_ascii_iff (by decide)).1 htext).1
    have hs : s = text ++ "\r" := by
      apply Bytes.ofText_injective
      rw [hl, decode_eq_ok_iff.1 hdecode, Bytes.ofText_append]
      rfl
    refine ⟨text, ?_, ?_⟩
    · rw [hl, List.dropLast_concat]
      exact hdecode
    · rw [hs, Text.trim_append_blank text (List.forall_mem_singleton.2 (by decide))]
  · exact ⟨s, decode_eq_ok_iff.2 rfl, rfl⟩

end Source

end Tabletop
