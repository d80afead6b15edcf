import Mathlib.Data.List.Basic
import Tabletop.Proofs.Messages

/-!
Why a line is unreadable. Of everything that is wrong with a line its error tells the first, in one
fixed order, and quotes the piece of the line that is to blame.
-/

namespace Tabletop

/-- Where only one error is possible, it stands for the lack of a value. -/
theorem eq_error_iff_of_only {ε α : Type} {result : Except ε α} {only e : ε}
    (honly : ∀ e, result = .error e → e = only) :
    result = .error e ↔ e = only ∧ ∀ a, result ≠ .ok a := by
  cases result with
  | error e' =>
    constructor
    · rintro ⟨⟩
      exact ⟨honly e rfl, nofun⟩
    · rintro ⟨rfl, -⟩
      rw [honly e' rfl]
  | ok a => exact ⟨nofun, fun h => (h.2 a rfl).elim⟩

namespace Command

variable {line raw t a b g k : String} {argument : Option String} {e : PlaceError}
variable {parts rest : List String}

/-- The words with which commands start. -/
def keywords : List String :=
  ["PLACE", "MOVE", "LEFT", "RIGHT", "REPORT"]

/-- A text up to its first space. -/
def firstWord (t : String) : String :=
  String.ofList (t.toList.takeWhile (· ≠ ' '))

/-- The first fault of an argument of PLACE: it is missing, or has not three parts, or else one of
its parts is to blame, from the left. -/
inductive ArgumentFault : Option String → PlaceError → Prop where
  | missing {argument : Option String} (h : argument = none ∨ argument = some "") :
      ArgumentFault argument .missing
  | arity {raw : String} (hne : raw ≠ "") (hcount : raw.toList.count ',' + 1 ≠ 3) :
      ArgumentFault (some raw) (.arity (raw.toList.count ',' + 1) raw)
  | first {raw a b g : String} (hparts : Text.split ',' raw = [a, b, g])
      (ha : ∀ x, readCoordinate a ≠ .ok x) : ArgumentFault (some raw) (.coordinate a)
  | second {raw a b g : String} {x : Int64} (hparts : Text.split ',' raw = [a, b, g])
      (ha : readCoordinate a = .ok x) (hb : ∀ y, readCoordinate b ≠ .ok y) :
      ArgumentFault (some raw) (.coordinate b)
  | third {raw a b g : String} {x y : Int64} (hparts : Text.split ',' raw = [a, b, g])
      (ha : readCoordinate a = .ok x) (hb : readCoordinate b = .ok y)
      (hg : ∀ h : Heading, g ≠ h.name) : ArgumentFault (some raw) (.heading g)

/-- The first fault of a trimmed line: it is empty, or its first word is no keyword, or that word is
PLACE and the argument behind it is to blame. -/
inductive LineFault (t : String) : ParseError → Prop where
  | empty (h : t = "") : LineFault t .empty
  | unknownKeyword (hne : t ≠ "") (hword : firstWord t ∉ keywords) :
      LineFault t (.unknownKeyword (firstWord t))
  | malformedPlace {reason : PlaceError} (hword : firstWord t = "PLACE")
      (h : ArgumentFault (Text.split ' ' t)[1]? reason) : LineFault t (.malformedPlace reason)

theorem LineFault.eq_firstWord (h : LineFault t (.unknownKeyword k)) :
    t ≠ "" ∧ k = firstWord t := by
  cases h with
  | unknownKeyword hne _ => exact ⟨hne, rfl⟩

theorem LineFault.found_ne_three {found : Nat}
    (h : LineFault t (.malformedPlace (.arity found raw))) : 1 ≤ found ∧ found ≠ 3 := by
  cases h with
  | malformedPlace _ h =>
    generalize (Text.split ' ' t)[1]? = argument at h
    cases h with
    | arity _ hcount => exact ⟨Nat.le_add_left 1 _, hcount⟩

theorem readCoordinate_eq_error_iff :
    readCoordinate raw = .error e ↔ e = .coordinate raw ∧ ∀ x, readCoordinate raw ≠ .ok x :=
  eq_error_iff_of_only fun _ => eq_coordinate_of_readCoordinate

theorem readHeading_eq_error_iff :
    readHeading raw = .error e ↔ e = .heading raw ∧ ∀ h : Heading, raw ≠ h.name := by
  rw [eq_error_iff_of_only fun _ => eq_heading_of_readHeading]
  simp only [ne_eq, readHeading_eq_ok_iff]

theorem ofParts_of_length_ne (h : parts.length ≠ 3) :
    ofParts raw parts = .error (.arity parts.length raw) := by
  unfold ofParts
  split
  · exact (h rfl).elim
  · rfl

theorem readPlace_of_split (hparts : Text.split ',' raw = parts) (hne : raw ≠ "") :
    readPlace (some raw) = ofParts raw parts := by
  rw [readPlace, if_neg (by simpa using hne), hparts]

theorem ne_empty_of_split_three (hparts : Text.split ',' raw = [a, b, g]) : raw ≠ "" := by
  rintro rfl
  cases hparts

theorem argumentFault_of_readPlace (h : readPlace argument = .error e) :
    ArgumentFault argument e := by
  cases argument with
  | none =>
    cases h
    exact .missing (.inl rfl)
  | some raw =>
    by_cases hne : raw = ""
    · subst hne
      cases h
      exact .missing (.inr rfl)
    have hlength := Text.length_split ',' raw
    rw [readPlace_of_split rfl hne] at h
    by_cases hthree : (Text.split ',' raw).length = 3
    · -- The parts are read from the left, and the first that fails ends the reading.
      obtain ⟨a, b, g, hparts⟩ := List.length_eq_three.1 hthree
      rw [hparts, ofParts] at h
      rcases error_of_bind h with hx | ⟨x, hx, h⟩
      · obtain ⟨rfl, ha⟩ := readCoordinate_eq_error_iff.1 hx
        exact .first hparts ha
      rcases error_of_bind h with hy | ⟨y, hy, h⟩
      · obtain ⟨rfl, hb⟩ := readCoordinate_eq_error_iff.1 hy
        exact .second hparts hx hb
      rcases error_of_bind h with hheading | ⟨heading, -, h⟩
      · obtain ⟨rfl, hg⟩ := readHeading_eq_error_iff.1 hheading
        exact .third hparts hx hy hg
      · cases h
    · rw [ofParts_of_length_ne hthree, hlength] at h
      cases h
      exact .arity hne (hlength ▸ hthree)

theorem readPlace_of_argumentFault (h : ArgumentFault argument e) :
    readPlace argument = .error e := by
  cases h with
  | missing h => rcases h with rfl | rfl <;> rfl
  | arity hne hcount =>
    rw [← Text.length_split] at hcount ⊢
    rw [readPlace_of_split rfl hne, ofParts_of_length_ne hcount]
  | first hparts ha =>
    rw [readPlace_of_split hparts (ne_empty_of_split_three hparts), ofParts,
      readCoordinate_eq_error_iff.2 ⟨rfl, ha⟩]
    rfl
  | second hparts ha hb =>
    rw [readPlace_of_split hparts (ne_empty_of_split_three hparts), ofParts, ha,
      readCoordinate_eq_error_iff.2 ⟨rfl, hb⟩]
    rfl
  | third hparts ha hb hg =>
    rw [readPlace_of_split hparts (ne_empty_of_split_three hparts), ofParts, ha, hb,
      readHeading_eq_error_iff.2 ⟨rfl, hg⟩]
    rfl

theorem readPlace_eq_error_iff : readPlace argument = .error e ↔ ArgumentFault argument e :=
  ⟨argumentFault_of_readPlace, readPlace_of_argumentFault⟩

theorem ofTokens_of_not_mem (hk : k ∉ keywords) :
    ofTokens (k :: rest) = .error (.unknownKeyword k) := by
  simp only [keywords, List.mem_cons, List.not_mem_nil, or_false, not_or] at hk
  obtain ⟨hplace, hmove, hleft, hright, hreport⟩ := hk
  unfold ofTokens
  split
  · next h => exact (hplace (List.cons.inj h).1).elim
  · next h => exact (hmove (List.cons.inj h).1).elim
  · next h => exact (hleft (List.cons.inj h).1).elim
  · next h => exact (hright (List.cons.inj h).1).elim
  · next h => exact (hreport (List.cons.inj h).1).elim
  · rfl

theorem ofTokens_place_eq_error_iff {e : ParseError} :
    ofTokens ("PLACE" :: rest) = .error e ↔
      ∃ reason, e = .malformedPlace reason ∧ readPlace rest.head? = .error reason := by
  rw [ofTokens]
  cases readPlace rest.head? with
  | ok c => simp [Except.mapError]
  | error reason => simp [Except.mapError, eq_comm]

/-- A first word that is a keyword other than PLACE is a command on its own. -/
theorem ofTokens_ne_error {e : ParseError} (hk : k ∈ keywords) (hplace : k ≠ "PLACE") :
    ofTokens (k :: rest) ≠ .error e := by
  simp only [keywords, List.mem_cons, List.not_mem_nil, or_false] at hk
  rcases hk with rfl | rfl | rfl | rfl | rfl
  · exact (hplace rfl).elim
  all_goals exact nofun

theorem ofTokens_eq_error_iff {e : ParseError} :
    ofTokens (k :: rest) = .error e ↔
      k ∉ keywords ∧ e = .unknownKeyword k ∨
        k = "PLACE" ∧ ∃ reason, e = .malformedPlace reason ∧ ArgumentFault rest.head? reason := by
  simp only [← readPlace_eq_error_iff]
  by_cases hk : k ∈ keywords
  · by_cases hplace : k = "PLACE"
    · subst hplace
      simp [ofTokens_place_eq_error_iff, hk]
    · simp [ofTokens_ne_error hk hplace, hk, hplace]
  · have hplace : k ≠ "PLACE" := by
      rintro rfl
      exact hk List.mem_cons_self
    simp [ofTokens_of_not_mem hk, hk, hplace, eq_comm]

theorem read_eq_error_iff {e : ParseError} :
    read line = .error e ↔ LineFault (Text.trim line) e := by
  rw [read]
  generalize Text.trim line = t
  by_cases hempty : t = ""
  · subst hempty
    constructor
    · rintro ⟨⟩
      exact .empty rfl
    · intro h
      cases h with
      | empty => rfl
      | unknownKeyword hne => exact (hne rfl).elim
      | malformedPlace hword =>
        have hnone : firstWord "" ≠ "PLACE" := by decide
        exact (hnone hword).elim
  obtain ⟨k, rest, htokens⟩ := List.exists_cons_of_ne_nil (Text.split_ne_nil ' ' t)
  have hword : k = firstWord t := Text.eq_takeWhile_of_split htokens
  have hsecond : (Text.split ' ' t)[1]? = rest.head? := by
    rw [htokens, List.getElem?_cons_succ, List.head?_eq_getElem?]
  rw [if_neg (by simpa using hempty), htokens, ofTokens_eq_error_iff, hword, ← hsecond]
  constructor
  · rintro (⟨hk, rfl⟩ | ⟨hk, reason, rfl, hreason⟩)
    · exact .unknownKeyword hempty hk
    · exact .malformedPlace hk hreason
  · intro h
    cases h with
    | empty h => exact (hempty h).elim
    | unknownKeyword _ hk => exact .inl ⟨hk, rfl⟩
    | malformedPlace hk hreason => exact .inr ⟨hk, _, rfl, hreason⟩

/-- The first word of a trimmed line is not empty: the line starts with no space. -/
theorem firstWord_trim_ne_empty (hne : Text.trim line ≠ "") : firstWord (Text.trim line) ≠ "" := by
  obtain ⟨c, cs, hcs⟩ := List.exists_cons_of_ne_nil (mt String.toList_eq_nil_iff.1 hne)
  have hc : Text.isBlank c = false := by
    apply Text.head?_trim_not_blank line
    rw [hcs]
    rfl
  have hspace : c ≠ ' ' := by
    rintro rfl
    cases hc
  rw [firstWord, hcs, List.takeWhile_cons_of_pos (by simpa using hspace)]
  simp

/-- An unreadable line is blamed on its first fault, and a line without one is a command. What the
error quotes is a piece of the trimmed line without a space, a word that is no keyword is not empty,
and an argument with a wrong number of parts has at least one and not three. -/
theorem read_blames_first_fault (line : String) :
    (∀ e, read line = .error e ↔ LineFault (Text.trim line) e) ∧
      ∀ e, read line = .error e →
        (∀ q ∈ e.quotes, q.toList <:+: (Text.trim line).toList ∧ ' ' ∉ q.toList) ∧
          (∀ k, e = .unknownKeyword k → k ≠ "") ∧
          ∀ found raw, e = .malformedPlace (.arity found raw) → 1 ≤ found ∧ found ≠ 3 := by
  refine ⟨fun e => read_eq_error_iff, ?_⟩
  intro e he
  refine ⟨fun q => isInfix_of_quoted_read he, ?_, ?_⟩
  · rintro k rfl
    obtain ⟨hne, rfl⟩ := (read_eq_error_iff.1 he).eq_firstWord
    exact firstWord_trim_ne_empty hne
  · rintro found raw rfl
    exact (read_eq_error_iff.1 he).found_ne_three

/-- Two parts of the argument are at fault, and the word behind it would be a good one. -/
theorem read_blames_first_fault_of_many :
    let line := "\tPLACE 1,x,UP 2,3,EAST\r"
    let e := ParseError.malformedPlace (.coordinate "x")
    read line = .error e ∧ LineFault (Text.trim line) e ∧ "x" ∈ e.quotes ∧
      "x".toList <:+: (Text.trim line).toList ∧ ' ' ∉ "x".toList := by
  intro line e
  have hread : read line = .error e := by decide
  obtain ⟨hfault, hquotes⟩ := read_blames_first_fault line
  have hx : "x" ∈ e.quotes := List.mem_cons_self
  exact ⟨hread, (hfault e).1 hread, hx, (hquotes e hread).1 "x" hx⟩

end Command

end Tabletop
