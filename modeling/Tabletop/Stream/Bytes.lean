namespace Tabletop

abbrev Bytes := List UInt8

namespace Bytes

/-- The UTF-8 bytes of a text. -/
def ofText (s : String) : Bytes :=
  s.toList.flatMap String.utf8EncodeChar

/-- The text of strictly valid UTF-8 bytes. -/
def text? (bs : Bytes) : Option String :=
  String.fromUTF8? bs.toByteArray

@[simp] theorem ofText_append (s t : String) : ofText (s ++ t) = ofText s ++ ofText t := by
  simp [ofText]

theorem text?_eq_some_iff {bs : Bytes} {s : String} : text? bs = some s ↔ bs = ofText s := by
  have h : s.toByteArray = (ofText s).toByteArray := by
    rw [← String.utf8Encode_toList]; rfl
  constructor
  · intro ht
    unfold text? String.fromUTF8? at ht
    split at ht
    · cases ht
      have := congrArg (fun b => b.data.toList) h
      simpa [String.fromUTF8] using this
    · cases ht
  · rintro rfl
    unfold text? String.fromUTF8?
    rw [dif_pos (h ▸ s.isValidUTF8)]
    refine congrArg some (String.toByteArray_inj.1 ?_)
    simpa [String.fromUTF8] using h.symm

@[simp] theorem text?_ofText (s : String) : text? (ofText s) = some s :=
  text?_eq_some_iff.2 rfl

end Bytes

end Tabletop
