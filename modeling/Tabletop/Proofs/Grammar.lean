import Tabletop.Command
import Tabletop.Proofs.Text

/-!
The grammar of lines. A trimmed line gives a command exactly when it is spelled as that command, and
every other line is unreadable.
-/

namespace Tabletop

theorem ok_of_bind {ε α β : Type} {a : Except ε α} {f : α → Except ε β} {b : β}
    (h : (a >>= f) = .ok b) : ∃ value, a = .ok value ∧ f value = .ok b := by
  cases a with
  | error e => cases h
  | ok value => exact ⟨value, rfl, h⟩

namespace Command

variable {line raw t : String} {c : Command} {tokens : List String} {x y : Int64} {h : Heading}

/-- A text without the two characters at which lines are cut. -/
def Uncut (s : String) : Prop :=
  ' ' ∉ s.toList ∧ ',' ∉ s.toList

/-- The trimmed lines that spell a command. -/
def Spells (t : String) : Command → Prop
  | place x y h =>
    ∃ a b g r : String, t = "PLACE " ++ a ++ "," ++ b ++ "," ++ g ++ r ∧
      (Uncut a ∧ Uncut b ∧ Uncut g) ∧ (r = "" ∨ r.toList.head? = some ' ') ∧
      readCoordinate a = .ok x ∧ readCoordinate b = .ok y ∧ g = h.name
  | c => t = c.keyword ∨ ∃ r, t = c.keyword ++ " " ++ r

theorem readHeading_eq_ok_iff : readHeading raw = .ok h ↔ raw = h.name := by
  rw [← Heading.ofName?_eq_some_iff, readHeading]
  cases Heading.ofName? raw <;> simp

theorem ofParts_eq_ok_iff {parts : List String} :
    ofParts raw parts = .ok c ↔
      ∃ a b g x y h, parts = [a, b, g] ∧ readCoordinate a = .ok x ∧ readCoordinate b = .ok y ∧
        g = h.name ∧ c = .place x y h := by
  constructor
  · intro hc
    unfold ofParts at hc
    split at hc
    · next a b g =>
      obtain ⟨x, hx, hc⟩ := ok_of_bind hc
      obtain ⟨y, hy, hc⟩ := ok_of_bind hc
      obtain ⟨h, hg, hc⟩ := ok_of_bind hc
      cases hc
      exact ⟨a, b, g, x, y, h, rfl, hx, hy, readHeading_eq_ok_iff.1 hg, rfl⟩
    · cases hc
  · rintro ⟨a, b, g, x, y, h, rfl, hx, hy, hg, rfl⟩
    rw [ofParts, hx, hy, readHeading_eq_ok_iff.2 hg]
    rfl

theorem split_comma_eq_three_iff {a b g : String} :
    Text.split ',' raw = [a, b, g] ↔
      (',' ∉ a.toList ∧ ',' ∉ b.toList ∧ ',' ∉ g.toList) ∧ raw = a ++ "," ++ b ++ "," ++ g := by
  constructor
  · intro hsplit
    obtain ⟨ha, ⟨-, hnil⟩ | ⟨r, rfl, htail⟩⟩ := Text.split_eq_cons_iff.1 hsplit
    · cases hnil
    obtain ⟨hb, ⟨-, hnil⟩ | ⟨r, rfl, hlast⟩⟩ := Text.split_eq_cons_iff.1 htail
    · cases hnil
    obtain ⟨hg, ⟨rfl, -⟩ | ⟨r, -, hnil⟩⟩ := Text.split_eq_cons_iff.1 hlast
    · refine ⟨⟨ha, hb, hg⟩, ?_⟩
      rw [← String.append_assoc, ← String.append_assoc]
      rfl
    · exact (Text.split_ne_nil ',' r hnil).elim
  · rintro ⟨⟨ha, hb, hg⟩, rfl⟩
    have hraw : a ++ "," ++ b ++ "," ++ g =
        a ++ String.singleton ',' ++ (b ++ String.singleton ',' ++ g) := by
      rw [← String.append_assoc, ← String.append_assoc]
      rfl
    rw [hraw, Text.split_append ha, Text.split_append hb, Text.split_of_not_mem hg]

theorem readPlace_eq_ok_iff {argument : Option String} :
    readPlace argument = .ok c ↔
      ∃ raw, argument = some raw ∧ ofParts raw (Text.split ',' raw) = .ok c := by
  cases argument with
  | none => simp [readPlace]
  | some raw =>
    simp only [readPlace, Option.some.injEq, exists_eq_left']
    split
    · next hempty =>
      rw [String.isEmpty_iff.1 hempty]
      simp [ofParts, Text.split]
    · rfl

theorem read_eq_ok_iff_ofTokens :
    read line = .ok c ↔ ofTokens (Text.split ' ' (Text.trim line)) = .ok c := by
  rw [read]
  split
  · next hempty =>
    rw [String.isEmpty_iff.1 hempty]
    simp [ofTokens, Text.split]
  · rfl

theorem ofTokens_place (arguments : List String) :
    ofTokens ("PLACE" :: arguments) = .ok c ↔ readPlace arguments.head? = .ok c := by
  rw [ofTokens]
  cases readPlace arguments.head? with
  | error e => exact ⟨nofun, nofun⟩
  | ok place =>
    constructor <;>
    · intro h
      cases h
      rfl

theorem keyword_of_readPlace {argument : Option String} (hc : readPlace argument = .ok c) :
    c.keyword = "PLACE" := by
  obtain ⟨raw, -, hparts⟩ := readPlace_eq_ok_iff.1 hc
  obtain ⟨a, b, g, x, y, h, -, -, -, -, rfl⟩ := ofParts_eq_ok_iff.1 hparts
  rfl

/-- What is read has the first token as its keyword. -/
theorem eq_keyword_cons_of_ofTokens (hc : ofTokens tokens = .ok c) :
    ∃ arguments, tokens = c.keyword :: arguments := by
  have hread := hc
  unfold ofTokens at hc
  split at hc
  · next arguments =>
    rw [keyword_of_readPlace ((ofTokens_place arguments).1 hread)]
    exact ⟨arguments, rfl⟩
  all_goals cases hc
  all_goals exact ⟨_, rfl⟩

/-- A line that is read starts with the keyword of its command. -/
theorem exists_append_of_read (h : read line = .ok c) : ∃ r, Text.trim line = c.keyword ++ r := by
  obtain ⟨arguments, htokens⟩ := eq_keyword_cons_of_ofTokens (read_eq_ok_iff_ofTokens.1 h)
  obtain ⟨-, r, hline, -⟩ := Text.head?_split_eq_some_iff.1 (congrArg List.head? htokens)
  exact ⟨r, hline⟩

theorem ofTokens_keyword (hbare : c.keyword ≠ "PLACE") (arguments : List String) :
    ofTokens (c.keyword :: arguments) = .ok c := by
  cases c with
  | place x y h => exact (hbare rfl).elim
  | move => rfl
  | left => rfl
  | right => rfl
  | report => rfl

theorem space_not_mem_keyword (c : Command) : ' ' ∉ c.keyword.toList := by
  cases c <;> simp only [keyword] <;> decide

theorem read_eq_bare_iff (hbare : c.keyword ≠ "PLACE") :
    read line = .ok c ↔
      Text.trim line = c.keyword ∨ ∃ r, Text.trim line = c.keyword ++ " " ++ r := by
  rw [read_eq_ok_iff_ofTokens]
  constructor
  · intro hc
    obtain ⟨arguments, htokens⟩ := eq_keyword_cons_of_ofTokens hc
    obtain ⟨-, ⟨hline, -⟩ | ⟨r, hline, -⟩⟩ := Text.split_eq_cons_iff.1 htokens
    · exact .inl hline
    · exact .inr ⟨r, hline⟩
  · rintro (hline | ⟨r, hline⟩)
    · rw [hline, Text.split_of_not_mem c.space_not_mem_keyword]
      exact ofTokens_keyword hbare []
    · rw [hline]
      change ofTokens (Text.split ' ' (c.keyword ++ String.singleton ' ' ++ r)) = .ok c
      rw [Text.split_append c.space_not_mem_keyword]
      exact ofTokens_keyword hbare _

theorem read_eq_place_iff_argument :
    read line = .ok (.place x y h) ↔
      ∃ raw r, Text.trim line = "PLACE " ++ raw ++ r ∧ ' ' ∉ raw.toList ∧
        (r = "" ∨ r.toList.head? = some ' ') ∧
        ofParts raw (Text.split ',' raw) = .ok (.place x y h) := by
  rw [read_eq_ok_iff_ofTokens]
  constructor
  · intro hc
    obtain ⟨arguments, htokens⟩ := eq_keyword_cons_of_ofTokens hc
    rw [htokens] at hc
    obtain ⟨raw, hraw, hparts⟩ := readPlace_eq_ok_iff.1 ((ofTokens_place arguments).1 hc)
    obtain ⟨-, ⟨-, rfl⟩ | ⟨rest, hline, rfl⟩⟩ := Text.split_eq_cons_iff.1 htokens
    · cases hraw
    · obtain ⟨hspace, r, rfl, hr⟩ := Text.head?_split_eq_some_iff.1 hraw
      refine ⟨raw, r, ?_, hspace, hr, hparts⟩
      rw [hline, ← String.append_assoc]
      rfl
  · rintro ⟨raw, r, hline, hspace, hr, hparts⟩
    have hsplit : Text.trim line = "PLACE" ++ String.singleton ' ' ++ (raw ++ r) := by
      rw [hline, String.append_assoc]
      rfl
    rw [hsplit, Text.split_append (by decide), ofTokens_place, readPlace_eq_ok_iff]
    exact ⟨raw, Text.head?_split_eq_some_iff.2 ⟨hspace, r, rfl, hr⟩, hparts⟩

theorem read_eq_place_iff :
    read line = .ok (.place x y h) ↔ Spells (Text.trim line) (.place x y h) := by
  rw [read_eq_place_iff_argument]
  constructor
  · rintro ⟨raw, r, hline, hspace, hr, hparts⟩
    obtain ⟨a, b, g, _, _, _, hsplit, hx, hy, hg, hc⟩ := ofParts_eq_ok_iff.1 hparts
    cases hc
    obtain ⟨⟨ha, hb, hg'⟩, rfl⟩ := split_comma_eq_three_iff.1 hsplit
    simp only [String.toList_append, List.mem_append, not_or] at hspace
    obtain ⟨⟨⟨⟨ha', -⟩, hb'⟩, -⟩, hg''⟩ := hspace
    refine ⟨a, b, g, r, ?_, ⟨⟨ha', ha⟩, ⟨hb', hb⟩, ⟨hg'', hg'⟩⟩, hr, hx, hy, hg⟩
    simp only [hline, String.append_assoc]
  · rintro ⟨a, b, g, r, hline, ⟨⟨ha', ha⟩, ⟨hb', hb⟩, ⟨hg'', hg'⟩⟩, hr, hx, hy, hg⟩
    refine ⟨a ++ "," ++ b ++ "," ++ g, r, ?_, ?_, hr, ?_⟩
    · simp only [hline, String.append_assoc]
    · simp only [String.toList_append, List.mem_append, not_or]
      exact ⟨⟨⟨⟨ha', by decide⟩, hb'⟩, by decide⟩, hg''⟩
    · rw [ofParts_eq_ok_iff]
      exact ⟨a, b, g, x, y, h, split_comma_eq_three_iff.2 ⟨⟨ha, hb, hg'⟩, rfl⟩, hx, hy, hg, rfl⟩

/-- A line is read as a command exactly when, trimmed, it spells that command; a line that spells
none is unreadable. -/
theorem read_iff_spells (line : String) :
    (∀ c, read line = .ok c ↔ Spells (Text.trim line) c) ∧
      ((∃ e, read line = .error e) ↔ ∀ c, ¬ Spells (Text.trim line) c) := by
  have hread (c : Command) : read line = .ok c ↔ Spells (Text.trim line) c := by
    cases c with
    | place x y h => exact read_eq_place_iff
    | move => exact read_eq_bare_iff (by decide)
    | left => exact read_eq_bare_iff (by decide)
    | right => exact read_eq_bare_iff (by decide)
    | report => exact read_eq_bare_iff (by decide)
  refine ⟨hread, ?_, ?_⟩
  · rintro ⟨e, he⟩ c hc
    rw [(hread c).2 hc] at he
    cases he
  · intro hnone
    cases hline : read line with
    | error e => exact ⟨e, rfl⟩
    | ok c => exact (hnone c ((hread c).1 hline)).elim

end Command

end Tabletop
