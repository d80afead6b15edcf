import Tabletop.Proofs.Decimal
import Tabletop.Proofs.Grammar

/-!
The line that a command is written as. It is read as that command, with blanks before it and with
whatever comes after a space behind it; and what is written for an unreadable line is unreadable.
-/

namespace Tabletop

namespace Command

variable {line p q r : String} {c c' : Command} {x y : Int64} {h : Heading}

theorem uncut_toString (n : Int) : Uncut (toString n) := by
  constructor <;>
  · intro hmem
    rcases Numeral.mem_toString hmem with h | h <;> cases h

theorem uncut_name (h : Heading) : Uncut h.name := by
  cases h <;> exact ⟨by decide, by decide⟩

theorem readCoordinate_toString (x : Int64) : readCoordinate (toString x.toInt) = .ok x := by
  have hx : x.toInt ∈ Interval.signed64 := ⟨x.le_toInt, Int.le_of_lt_add_one x.toInt_lt⟩
  rw [readCoordinate, Numeral.scan_toString (by decide) hx]
  exact congrArg Except.ok (Int64.ofInt_toInt x)

theorem spells_text_place (hr : r = "" ∨ r.toList.head? = some ' ') :
    Spells (text (.place x y h) ++ r) (.place x y h) :=
  ⟨toString x.toInt, toString y.toInt, h.name, r, rfl,
    ⟨uncut_toString _, uncut_toString _, uncut_name h⟩, hr, readCoordinate_toString x,
    readCoordinate_toString y, rfl⟩

theorem solid_name (h : Heading) : Text.Solid h.name := by
  cases h <;> exact ⟨⟨_, rfl, by decide⟩, ⟨_, rfl, by decide⟩⟩

theorem solid_text (c : Command) : Text.Solid c.text := by
  cases c with
  | place x y h =>
    obtain ⟨-, d, hlast, hd⟩ := solid_name h
    constructor
    · exact ⟨'P', by simp [text], by decide⟩
    · refine ⟨d, ?_, hd⟩
      rw [text, String.toList_append, List.getLast?_append, hlast]
      rfl
  | move => exact ⟨⟨_, rfl, by decide⟩, ⟨_, rfl, by decide⟩⟩
  | left => exact ⟨⟨_, rfl, by decide⟩, ⟨_, rfl, by decide⟩⟩
  | right => exact ⟨⟨_, rfl, by decide⟩, ⟨_, rfl, by decide⟩⟩
  | report => exact ⟨⟨_, rfl, by decide⟩, ⟨_, rfl, by decide⟩⟩

theorem spells_text (c : Command) (hr : r = "" ∨ r.toList.head? = some ' ') :
    Spells (c.text ++ r) c := by
  have hbare (htext : c.text = c.keyword) :
      c.text ++ r = c.keyword ∨ ∃ s, c.text ++ r = c.keyword ++ " " ++ s := by
    rcases hr with rfl | hr
    · exact .inl (htext ▸ String.append_empty)
    · obtain ⟨cs, hcs⟩ := List.head?_eq_some_iff.1 hr
      refine .inr ⟨String.ofList cs, ?_⟩
      rw [htext, String.append_assoc, String.append_right_inj, ← String.toList_inj, hcs]
      simp
  cases c with
  | place x y h => exact spells_text_place hr
  | move => exact hbare rfl
  | left => exact hbare rfl
  | right => exact hbare rfl
  | report => exact hbare rfl

theorem read_of_spells (h : Spells (Text.trim line) c) : read line = .ok c := by
  cases c with
  | place x y heading => exact read_eq_place_iff.2 h
  | move => exact (read_eq_bare_iff (by decide)).2 h
  | left => exact (read_eq_bare_iff (by decide)).2 h
  | right => exact (read_eq_bare_iff (by decide)).2 h
  | report => exact (read_eq_bare_iff (by decide)).2 h

/-- A command is read from its own line whatever blanks come before it and whatever words behind. -/
theorem read_padded_text (c : Command) (hp : ∀ d ∈ p.toList, Text.isBlank d = true)
    (hq : (∀ d ∈ q.toList, Text.isBlank d = true) ∨ q.toList.head? = some ' ') :
    read (p ++ c.text ++ q) = .ok c := by
  obtain ⟨r, htrim, hr⟩ := c.solid_text.exists_trim_word hq
  apply read_of_spells
  rw [String.append_assoc, Text.trim_blank_append hp, htrim]
  exact c.spells_text hr

theorem read_text (c : Command) : read c.text = .ok c := by
  have hread := c.read_padded_text (p := "") (q := "") nofun (.inl nofun)
  rwa [String.append_empty, String.empty_append] at hread

theorem text_injective : Function.Injective text := by
  intro c c' h
  have hread := c.read_text
  rw [h, c'.read_text] at hread
  exact (Except.ok.inj hread).symm

end Command

theorem Reading.solid_text_error (e : ParseError) : Text.Solid (text (.error e)) := by
  constructor
  · exact ⟨'<', by simp [text], by decide⟩
  · refine ⟨'>', ?_, by decide⟩
    rw [text, String.toList_append]
    exact List.getLast?_concat

theorem Reading.read_text_error_ne (e : ParseError) (c : Command) :
    Command.read (text (.error e)) ≠ .ok c := by
  intro hread
  obtain ⟨r, hline⟩ := Command.exists_append_of_read hread
  rw [(solid_text_error e).trim_eq] at hline
  have hfirst := congrArg (·.toList.head?) hline
  cases c <;> simp [text, Command.keyword] at hfirst

/-- What is written for a command is read as that command, with blanks before it and, after a space,
anything behind it; so different commands are written differently. What is written for an unreadable
line is never read as a command. -/
theorem Reading.text_inverse :
    (∀ (c : Command) (p q : String), (∀ d ∈ p.toList, Text.isBlank d = true) →
        (∀ d ∈ q.toList, Text.isBlank d = true) ∨ q.toList.head? = some ' ' →
        Command.read (p ++ text (.ok c) ++ q) = .ok c) ∧
      (∀ c c' : Command, text (.ok c) = text (.ok c') → c = c') ∧
      ∀ (e : ParseError) (c : Command), Command.read (text (.error e)) ≠ .ok c := by
  refine ⟨?_, ?_, read_text_error_ne⟩
  · intro c p q hp hq
    exact c.read_padded_text hp hq
  · intro c c' h
    exact Command.text_injective h

theorem Reading.text_inverse_of_widest_place :
    let c := Command.place Int64.minValue Int64.maxValue .west
    let p := "\u3000\t"
    let q := " 1,2,EAST >\u0085 "
    (∀ d ∈ p.toList, Text.isBlank d = true) ∧ q.toList.head? = some ' ' ∧
      Command.read (p ++ "PLACE -9223372036854775808,9223372036854775807,WEST" ++ q) = .ok c := by
  intro c p q
  have hp : ∀ d ∈ p.toList, Text.isBlank d = true := List.all_eq_true.1 (by decide)
  have hq : q.toList.head? = some ' ' := by decide
  exact ⟨hp, hq, text_inverse.1 c p q hp (.inr hq)⟩

end Tabletop
