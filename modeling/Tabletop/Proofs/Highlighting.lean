import Tabletop.Proofs.FirstFault
import Tabletop.Proofs.MetaLine
import Tabletop.Proofs.Pieces
import Tabletop.Proofs.Spelling

/-!
What is shown of a line against how it is read. A good look is never wrong; and where nothing but
spaces surrounds a line, every line that is read well looks well.
-/

namespace Tabletop

/-- The keyword that is read on a line, also where PLACE has a bad argument. -/
def Reading.seen? : Reading → Option String
  | .ok c => some c.keyword
  | .error (.malformedPlace _) => some "PLACE"
  | .error _ => none

/-- The role of each keyword. -/
inductive Role.Marks : Role → String → Prop where
  | place : Marks .place "PLACE"
  | move : Marks .movement "MOVE"
  | left : Marks .turn "LEFT"
  | right : Marks .turn "RIGHT"
  | report : Marks .report "REPORT"

namespace Text

variable {s k : String} {rest : List String}

/-- Spaces and nothing else. -/
def spaces (n : Nat) : String :=
  String.ofList (List.replicate n ' ')

/-- A text whose blank characters at its two ends are all spaces. -/
def EndsInSpaces (s : String) : Prop :=
  (∀ c ∈ s.toList.takeWhile isBlank, c = ' ') ∧ ∀ c ∈ s.toList.reverse.takeWhile isBlank, c = ' '

theorem endsInSpaces_iff {s : String} :
    (s.toList.takeWhile isBlank).all (· = ' ') = true ∧
      (s.toList.reverse.takeWhile isBlank).all (· = ' ') = true ↔ EndsInSpaces s := by
  simp only [EndsInSpaces, List.all_eq_true, decide_eq_true_eq]

instance (s : String) : Decidable (EndsInSpaces s) :=
  decidable_of_decidable_of_iff endsInSpaces_iff

theorem isBlank_spaces (n : Nat) : ∀ c ∈ (spaces n).toList, isBlank c = true := by
  intro c hc
  rw [spaces, String.toList_ofList] at hc
  rw [List.eq_of_mem_replicate hc]
  decide

theorem spaces_succ (n : Nat) : spaces (n + 1) = "" ++ String.singleton ' ' ++ spaces n := by
  rw [← String.toList_inj]
  simp [spaces, List.replicate_succ]

theorem split_spaces_append (n : Nat) (s : String) :
    split ' ' (spaces n ++ s) = List.replicate n "" ++ split ' ' s := by
  induction n with
  | zero =>
    have hnone : spaces 0 ++ s = s := String.empty_append
    rw [hnone]
    rfl
  | succ n ih =>
    rw [spaces_succ, String.append_assoc, split_append (by decide), ih, List.replicate_succ,
      List.cons_append]

theorem split_append_spaces (s : String) (n : Nat) :
    split ' ' (s ++ spaces n) = split ' ' s ++ List.replicate n "" := by
  cases n with
  | zero =>
    have hnone : s ++ spaces 0 = s := String.append_empty
    rw [hnone, List.replicate_zero, List.append_nil]
  | succ n =>
    have hempty : split ' ' "" = [""] := rfl
    have hspaces := split_spaces_append n ""
    rw [String.append_empty, hempty, ← List.replicate_succ'] at hspaces
    rw [spaces_succ, String.empty_append, ← String.append_assoc, split_append_split, hspaces]

/-- Nothing but spaces surrounds such a text when it is trimmed. -/
theorem EndsInSpaces.exists_eq (h : EndsInSpaces s) :
    ∃ n m, s = spaces n ++ (trim s ++ spaces m) := by
  obtain ⟨hfront, hback⟩ := h
  have hmem : ∀ c ∈ (s.toList.dropWhile isBlank).reverse.takeWhile isBlank, c = ' ' := by
    intro c hc
    apply hback
    rw [← List.takeWhile_append_dropWhile (p := isBlank) (l := s.toList), List.reverse_append,
      List.takeWhile_append]
    split
    · exact List.mem_append_left _ (List.takeWhile_subset _ hc)
    · exact hc
  have hinner := List.takeWhile_append_dropWhile (p := isBlank)
    (l := (s.toList.dropWhile isBlank).reverse)
  rw [List.eq_replicate_of_mem hmem, ← List.reverse_inj, List.reverse_append, List.reverse_replicate,
    List.reverse_reverse] at hinner
  refine ⟨(s.toList.takeWhile isBlank).length,
    ((s.toList.dropWhile isBlank).reverse.takeWhile isBlank).length, ?_⟩
  rw [← String.toList_inj, String.toList_append, String.toList_append, toList_trim, spaces, spaces,
    String.toList_ofList, String.toList_ofList, trimChars, hinner, ← List.eq_replicate_of_mem hfront,
    List.takeWhile_append_dropWhile]

/-- The words before the first that is not empty are the spaces in front of it. -/
theorem exists_eq_of_split {n : Nat} (h : split ' ' s = List.replicate n "" ++ k :: rest) :
    ∃ t, s = spaces n ++ t ∧ split ' ' t = k :: rest := by
  induction n generalizing s with
  | zero => exact ⟨s, String.empty_append.symm, h⟩
  | succ n ih =>
    rw [List.replicate_succ, List.cons_append] at h
    obtain ⟨-, ⟨-, hnil⟩ | ⟨r, rfl, hr⟩⟩ := split_eq_cons_iff.1 h
    · exact absurd hnil (by simp)
    · obtain ⟨t, rfl, ht⟩ := ih hr
      exact ⟨t, by simp only [spaces_succ, String.append_assoc], ht⟩

end Text

namespace Command

variable {line k : String}

/-- What keyword is read depends on the first word alone. -/
theorem seen?_read (line : String) :
    (read line).seen? =
      if firstWord (Text.trim line) ∈ keywords then some (firstWord (Text.trim line)) else none := by
  cases hread : read line with
  | ok c =>
    obtain ⟨arguments, htokens⟩ := eq_keyword_cons_of_ofTokens (read_eq_ok_iff_ofTokens.1 hread)
    have hword : firstWord (Text.trim line) = c.keyword := (Text.eq_takeWhile_of_split htokens).symm
    have hkeyword : c.keyword ∈ keywords := by
      cases c <;> rw [keyword] <;> decide
    rw [hword, if_pos hkeyword]
    rfl
  | error e =>
    cases read_eq_error_iff.1 hread with
    | empty h =>
      rw [h]
      rfl
    | unknownKeyword _ hword =>
      rw [if_neg hword]
      rfl
    | malformedPlace hword _ =>
      rw [hword, if_pos (by decide)]
      rfl

theorem seen?_read_eq_some_iff :
    (read line).seen? = some k ↔ firstWord (Text.trim line) = k ∧ k ∈ keywords := by
  rw [seen?_read]
  split
  · next hword =>
    rw [Option.some.injEq]
    exact ⟨fun h => ⟨h, h ▸ hword⟩, And.left⟩
  · next hword => exact ⟨nofun, fun h => (hword (h.1 ▸ h.2)).elim⟩

end Command

theorem isSome_ofLine?_iff {line : String} :
    (MetaCommand.ofLine? line).isSome = true ↔ IsMeta line := by
  constructor
  · intro h
    by_contra hmeta
    rw [MetaCommand.ofLine?_of_not_isMeta hmeta] at h
    cases h
  · intro h
    obtain ⟨name, hname⟩ := isMeta_iff.1 h
    rw [MetaCommand.ofLine?_of_trim hname]
    rfl

namespace Highlight

open Command

variable {s t k argument q : String} {rest : List String} {p : Piece} {n : Nat} {x y : Int64}
variable {h : Heading}

/-- The piece of the keyword: the first that is not a single space. -/
def keyword? (ps : List Piece) : Option Piece :=
  ps.find? (·.text ≠ " ")

/-- The pieces of the token next to the keyword, between one single space and the next. -/
def nextToken (ps : List Piece) : List Piece :=
  ((ps.dropWhile (·.text = " ")).drop 2).takeWhile (·.text ≠ " ")

/-- The pieces of two coordinates and a heading with commas between them. -/
def placement (a b g : String) : List Piece :=
  [⟨.coordinate, a⟩, ⟨.separator, ","⟩, ⟨.coordinate, b⟩, ⟨.separator, ","⟩, ⟨.heading, g⟩]

/-- Pieces that show a placement with these values. -/
def ShowsPlacement (ps : List Piece) (x y : Int64) (h : Heading) : Prop :=
  ∃ a b g, ps = placement a b g ∧ readCoordinate a = .ok x ∧ readCoordinate b = .ok y ∧ g = h.name

theorem keywordRole_of_mem (hk : k ∈ keywords) : (keywordRole k).Marks k := by
  simp only [keywords, List.mem_cons, List.not_mem_nil, or_false] at hk
  rcases hk with rfl | rfl | rfl | rfl | rfl
  · exact .place
  · exact .move
  · exact .left
  · exact .right
  · exact .report

theorem keywordRole_of_not_mem (hk : k ∉ keywords) :
    keywordRole k = if k.toList.head? = some ':' then .console else .invalid := by
  simp only [keywords, List.mem_cons, List.not_mem_nil, or_false, not_or] at hk
  obtain ⟨hplace, hmove, hleft, hright, hreport⟩ := hk
  unfold keywordRole
  split
  · exact (hplace rfl).elim
  · exact (hmove rfl).elim
  · exact (hleft rfl).elim
  · exact (hright rfl).elim
  · exact (hreport rfl).elim
  · rfl

theorem mem_keywords_of_keywordRole (hrole : keywordRole k ∈ [.place, .movement, .turn, .report]) :
    k ∈ keywords := by
  by_contra hk
  rw [keywordRole_of_not_mem hk] at hrole
  split at hrole <;> exact absurd hrole (by decide)

theorem head?_of_keywordRole (hrole : keywordRole k = .console) : k.toList.head? = some ':' := by
  by_cases hk : k ∈ keywords
  · have hmarks := keywordRole_of_mem hk
    rw [hrole] at hmarks
    cases hmarks
  · rw [keywordRole_of_not_mem hk] at hrole
    split at hrole
    · assumption
    · cases hrole

theorem eq_place_of_keywordRole (hrole : keywordRole k = .place) : k = "PLACE" := by
  have hmem : keywordRole k ∈ [.place, .movement, .turn, .report] := by
    rw [hrole]
    exact List.mem_cons_self
  have hmarks := keywordRole_of_mem (mem_keywords_of_keywordRole hmem)
  rw [hrole] at hmarks
  cases hmarks
  rfl

theorem keyword?_append (hk : k ≠ " ") (ps : List Piece) :
    keyword? (List.replicate n .space ++ ⟨keywordRole k, k⟩ :: ps) = some ⟨keywordRole k, k⟩ := by
  rw [keyword?, List.find?_append, List.find?_cons_of_pos (by simpa using hk)]
  simp [Piece.space]

theorem keyword?_of_split (hsplit : Text.split ' ' s = List.replicate n "" ++ k :: rest)
    (hk : k ≠ "") : keyword? (line s) = some ⟨keywordRole k, k⟩ := by
  rw [line_of_split hsplit hk, keyword?_append (keyword_ne_space hsplit)]

/-- The keyword that is shown is a token with only spaces before it. -/
theorem exists_split_of_keyword? (hp : keyword? (line s) = some p) :
    ∃ n rest, Text.split ' ' s = List.replicate n "" ++ p.text :: rest ∧
      p.role = keywordRole p.text := by
  rcases line_cases s with ⟨n, hline⟩ | ⟨n, k, rest, hsplit, hline⟩
  · rw [hline, keyword?, List.find?_replicate] at hp
    simp [Piece.space] at hp
  · rw [hline, keyword?_append (keyword_ne_space hsplit)] at hp
    cases hp
    exact ⟨n, rest, hsplit, rfl⟩

/-- An argument looks like a placement if it has three parts and all of them are good. -/
theorem parts_eq_placement_iff {ps : List String} {a b g : String} :
    parts 0 ps = placement a b g ↔
      ps = [a, b, g] ∧ partRole 0 a = .coordinate ∧ partRole 1 b = .coordinate ∧
        partRole 2 g = .heading := by
  match ps with
  | [] | [_] | [_, _] => simp [parts, placement]
  | [a', b', g'] =>
    simp only [parts, placement]
    grind
  | _ :: _ :: _ :: _ :: _ => simp [parts, placement]

theorem text_ne_space_of_mem_parts (hargument : argument ∈ Text.split ' ' s) :
    ∀ p ∈ parts 0 (Text.split ',' argument), p.text ≠ " " := by
  intro p hp
  rcases eq_of_mem_parts hp with rfl | ⟨part, hpart, j, rfl⟩
  · decide
  · rintro rfl
    exact (Text.isInfix_of_mem_split hargument).2
      ((Text.isInfix_of_mem_split hpart).1.mem (by decide))

theorem takeWhile_idleTail (ts : List String) :
    (idleTail ts).takeWhile (·.text ≠ " ") = [] := by
  cases ts <;> rfl

theorem nextToken_append (hk : k ≠ " ") (ps : List Piece) :
    nextToken (List.replicate n .space ++ ⟨keywordRole k, k⟩ :: ps) =
      ps.tail.takeWhile (·.text ≠ " ") := by
  have hspaces : ∀ p ∈ List.replicate n Piece.space, decide (p.text = " ") = true := by
    intro p hp
    rw [List.eq_of_mem_replicate hp]
    decide
  rw [nextToken, List.dropWhile_append_of_pos hspaces,
    List.dropWhile_cons_of_neg (by simpa using hk), List.drop_succ_cons, List.drop_one]

/-- The pieces next to PLACE are those of its argument. -/
theorem nextToken_of_split
    (hsplit : Text.split ' ' s = List.replicate n "" ++ "PLACE" :: argument :: rest) :
    nextToken (line s) = if argument = "" then [] else parts 0 (Text.split ',' argument) := by
  have hmem : argument ∈ Text.split ' ' s := by
    rw [hsplit]
    exact List.mem_append_right _ (List.mem_cons_of_mem _ List.mem_cons_self)
  have hparts : ∀ p ∈ parts 0 (Text.split ',' argument), decide (p.text ≠ " ") = true :=
    fun p hp => decide_eq_true (text_ne_space_of_mem_parts hmem p hp)
  rw [line_of_split hsplit (by decide), nextToken_append (by decide), behind, if_pos rfl, placeTail,
    List.cons_append, List.tail_cons]
  split
  · next h =>
    rw [if_pos (String.isEmpty_iff.1 h)]
    exact takeWhile_idleTail rest
  · next h =>
    rw [if_neg (mt String.isEmpty_iff.2 h), List.takeWhile_append_of_pos hparts, takeWhile_idleTail,
      List.append_nil]

/-! ### A good look is never wrong -/

theorem exists_trim_of_split (hsplit : Text.split ' ' s = List.replicate n "" ++ k :: rest)
    (hk : Text.Solid k) :
    ∃ r : String, Text.trim s = k ++ r ∧ (r = "" ∨ r.toList.head? = some ' ') := by
  obtain ⟨t, rfl, ht⟩ := Text.exists_eq_of_split hsplit
  obtain ⟨-, q, rfl, hq⟩ := Text.head?_split_eq_some_iff.1 (congrArg List.head? ht)
  rw [Text.trim_blank_append (Text.isBlank_spaces n)]
  apply hk.exists_trim_word
  refine hq.imp_left ?_
  rintro rfl
  nofun

theorem firstWord_of_split (hsplit : Text.split ' ' s = List.replicate n "" ++ k :: rest)
    (hk : Text.Solid k) : firstWord (Text.trim s) = k := by
  obtain ⟨r, htrim, hr⟩ := exists_trim_of_split hsplit hk
  have hspace : ' ' ∉ k.toList := by
    apply (Text.isInfix_of_mem_split (s := s) _).2
    rw [hsplit]
    exact List.mem_append_right _ List.mem_cons_self
  obtain ⟨rest', hrest⟩ :=
    List.head?_eq_some_iff.1 (Text.head?_split_eq_some_iff.2 ⟨hspace, r, htrim, hr⟩)
  exact (Text.eq_takeWhile_of_split hrest).symm

theorem solid_of_mem_keywords (hk : k ∈ keywords) : Text.Solid k := by
  simp only [keywords, List.mem_cons, List.not_mem_nil, or_false] at hk
  rcases hk with rfl | rfl | rfl | rfl | rfl <;>
    exact ⟨⟨_, rfl, by decide⟩, ⟨_, rfl, by decide⟩⟩

theorem seen?_of_keyword? (hp : keyword? (line s) = some p)
    (hrole : p.role ∈ [.place, .movement, .turn, .report]) :
    p.role.Marks p.text ∧ (read s).seen? = some p.text := by
  obtain ⟨n, rest, hsplit, hkeyword⟩ := exists_split_of_keyword? hp
  rw [hkeyword] at hrole ⊢
  have hk := mem_keywords_of_keywordRole hrole
  refine ⟨keywordRole_of_mem hk, seen?_read_eq_some_iff.2 ⟨?_, hk⟩⟩
  exact firstWord_of_split hsplit (solid_of_mem_keywords hk)

theorem isMeta_of_keyword? (hp : keyword? (line s) = some p) (hrole : p.role = .console) :
    IsMeta s := by
  obtain ⟨n, rest, hsplit, hkeyword⟩ := exists_split_of_keyword? hp
  obtain ⟨cs, hcs⟩ := List.head?_eq_some_iff.1 (head?_of_keywordRole (hkeyword.symm.trans hrole))
  obtain ⟨t, rfl, ht⟩ := Text.exists_eq_of_split hsplit
  obtain ⟨-, q, rfl, -⟩ := Text.head?_split_eq_some_iff.1 (congrArg List.head? ht)
  have hcolon : Text.Solid ":" := ⟨⟨_, rfl, by decide⟩, ⟨_, rfl, by decide⟩⟩
  have htext : p.text ++ q = ":" ++ (String.ofList cs ++ q) := by
    rw [← String.append_assoc, String.append_left_inj, ← String.toList_inj, hcs]
    simp
  obtain ⟨r, -, htrim⟩ := hcolon.exists_trim_append (String.ofList cs ++ q)
  rw [isMeta_iff, Text.trim_blank_append (Text.isBlank_spaces n), htext]
  exact ⟨r, htrim⟩

theorem readCoordinate_of_partRole {j : Nat} (hj : j < 2) (hrole : partRole j k = .coordinate) :
    ∃ x, readCoordinate k = .ok x := by
  have hread : (readCoordinate k).toOption.isSome = true := by
    match j with
    | 0 | 1 =>
      rw [partRole] at hrole
      split at hrole
      · assumption
      · cases hrole
    | j + 2 => omega
  cases hx : readCoordinate k with
  | ok x => exact ⟨x, rfl⟩
  | error e =>
    rw [hx] at hread
    cases hread

theorem name_of_partRole (hrole : partRole 2 k = .heading) : ∃ h : Heading, k = h.name := by
  rw [partRole] at hrole
  split at hrole
  · next hsome =>
    obtain ⟨h, hh⟩ := Option.isSome_iff_exists.1 hsome
    exact ⟨h, Heading.ofName?_eq_some_iff.1 hh⟩
  · cases hrole

theorem exists_trim_argument
    (hsplit : Text.split ' ' s = List.replicate n "" ++ k :: argument :: rest)
    (hsolid : Text.Solid (k ++ " " ++ argument)) :
    ∃ r : String, Text.trim s = k ++ " " ++ argument ++ r ∧
      (r = "" ∨ r.toList.head? = some ' ') := by
  obtain ⟨t, rfl, ht⟩ := Text.exists_eq_of_split hsplit
  obtain ⟨-, ⟨-, hnil⟩ | ⟨u, rfl, hu⟩⟩ := Text.split_eq_cons_iff.1 ht
  · cases hnil
  obtain ⟨-, q, rfl, hq⟩ := Text.head?_split_eq_some_iff.1 (congrArg List.head? hu)
  rw [Text.trim_blank_append (Text.isBlank_spaces n), ← String.append_assoc]
  apply hsolid.exists_trim_word
  refine hq.imp_left ?_
  rintro rfl
  nofun

/-- An argument that looks like a placement is read as one, with the values that are shown. -/
theorem read_of_nextToken {a b g : String} (hp : keyword? (line s) = some p) (hrole : p.role = .place)
    (hnext : nextToken (line s) = placement a b g) :
    ∃ x y h, ShowsPlacement (nextToken (line s)) x y h ∧ read s = .ok (.place x y h) := by
  obtain ⟨n, rest, hsplit, hkeyword⟩ := exists_split_of_keyword? hp
  rw [eq_place_of_keywordRole (hkeyword.symm.trans hrole)] at hsplit
  cases rest with
  | nil =>
    rw [line_of_split hsplit (by decide), nextToken_append (by decide)] at hnext
    cases hnext
  | cons argument rest =>
    have hparts := hnext
    rw [nextToken_of_split hsplit] at hparts
    split at hparts
    · cases hparts
    obtain ⟨hthree, ha, hb, hg⟩ := parts_eq_placement_iff.1 hparts
    obtain ⟨x, hx⟩ := readCoordinate_of_partRole (by decide) ha
    obtain ⟨y, hy⟩ := readCoordinate_of_partRole (by decide) hb
    obtain ⟨h, rfl⟩ := name_of_partRole hg
    have hplace : Text.Solid "PLACE" := solid_of_mem_keywords List.mem_cons_self
    have hargument := (split_comma_eq_three_iff.1 hthree).2
    have hsolid : Text.Solid ("PLACE" ++ " " ++ argument) := by
      rw [hargument]
      simpa only [String.append_assoc] using
        hplace.append (" " ++ a ++ "," ++ b ++ ",") (solid_name h)
    obtain ⟨r, htrim, hr⟩ := exists_trim_argument hsplit hsolid
    have hspace : ' ' ∉ argument.toList := by
      apply (Text.isInfix_of_mem_split (s := s) _).2
      rw [hsplit]
      exact List.mem_append_right _ (List.mem_cons_of_mem _ List.mem_cons_self)
    refine ⟨x, y, h, ⟨a, b, h.name, hnext, hx, hy, rfl⟩, read_eq_place_iff_argument.2 ?_⟩
    exact ⟨argument, r, htrim, hspace, hr,
      ofParts_eq_ok_iff.2 ⟨a, b, h.name, x, y, h, hthree, hx, hy, rfl, rfl⟩⟩

/-! ### What is read well looks well -/

theorem split_of_endsInSpaces (hs : Text.EndsInSpaces s)
    (hsplit : Text.split ' ' (Text.trim s) = k :: rest) :
    ∃ n rest', Text.split ' ' s = List.replicate n "" ++ k :: (rest ++ rest') := by
  obtain ⟨n, m, hs⟩ := hs.exists_eq
  refine ⟨n, List.replicate m "", ?_⟩
  rw [hs, Text.split_spaces_append, Text.split_append_spaces, hsplit, List.cons_append]

/-- The keyword that is shown is the first word of the trimmed line. -/
theorem keyword?_of_endsInSpaces (hs : Text.EndsInSpaces s) (hne : Text.trim s ≠ "") :
    keyword? (line s) =
      some ⟨keywordRole (firstWord (Text.trim s)), firstWord (Text.trim s)⟩ := by
  obtain ⟨k, rest, htokens⟩ := List.exists_cons_of_ne_nil (Text.split_ne_nil ' ' (Text.trim s))
  obtain ⟨n, rest', hsplit⟩ := split_of_endsInSpaces hs htokens
  have hword : k = firstWord (Text.trim s) := Text.eq_takeWhile_of_split htokens
  rw [← hword]
  exact keyword?_of_split hsplit (hword ▸ firstWord_trim_ne_empty hne)

theorem exists_keyword?_of_role {r : Role} (hs : Text.EndsInSpaces s) (hne : Text.trim s ≠ "")
    (hrole : keywordRole (firstWord (Text.trim s)) = r) :
    ∃ p, keyword? (line s) = some p ∧ p.role = r := by
  have hshown := keyword?_of_endsInSpaces hs hne
  rw [hrole] at hshown
  exact ⟨_, hshown, rfl⟩

theorem keyword?_of_seen? (hs : Text.EndsInSpaces s) (hk : (read s).seen? = some k) :
    ∃ p, keyword? (line s) = some p ∧ p.text = k ∧ p.role.Marks k := by
  obtain ⟨hword, hmem⟩ := seen?_read_eq_some_iff.1 hk
  have hne : Text.trim s ≠ "" := by
    intro hempty
    have hnone : firstWord "" ∉ keywords := by decide
    rw [← hword, hempty] at hmem
    exact hnone hmem
  have hshown := keyword?_of_endsInSpaces hs hne
  rw [hword] at hshown
  exact ⟨_, hshown, rfl, keywordRole_of_mem hmem⟩

theorem head?_firstWord {t : String} :
    (firstWord t).toList.head? = some ':' ↔ t.toList.head? = some ':' := by
  rw [firstWord, String.toList_ofList]
  cases t.toList with
  | nil => rfl
  | cons c cs =>
    rw [List.takeWhile_cons]
    split
    · rfl
    · next hc =>
      have hspace : c = ' ' := by simpa using hc
      simp [hspace]

theorem keywordRole_of_isMeta (hmeta : IsMeta s) :
    keywordRole (firstWord (Text.trim s)) = .console := by
  have hcolon := head?_firstWord.2 hmeta
  have hnot : firstWord (Text.trim s) ∉ keywords := by
    have hletters : ∀ k ∈ keywords, k.toList.head? ≠ some ':' := by decide
    exact fun hmem => hletters _ hmem hcolon
  rw [keywordRole_of_not_mem hnot, if_pos hcolon]

theorem keywordRole_of_not_isMeta (hk : (read s).seen? = none) (hmeta : ¬ IsMeta s) :
    keywordRole (firstWord (Text.trim s)) = .invalid := by
  have hnot : firstWord (Text.trim s) ∉ keywords := by
    intro hmem
    rw [seen?_read, if_pos hmem] at hk
    cases hk
  rw [keywordRole_of_not_mem hnot, if_neg (mt head?_firstWord.1 hmeta)]

theorem showsPlacement_of_read (hs : Text.EndsInSpaces s) (hread : read s = .ok (.place x y h)) :
    ShowsPlacement (nextToken (line s)) x y h := by
  obtain ⟨argument, r, htrim, hspace, hr, hparts⟩ := read_eq_place_iff_argument.1 hread
  obtain ⟨a, b, g, _, _, _, hthree, hx, hy, rfl, hc⟩ := ofParts_eq_ok_iff.1 hparts
  cases hc
  obtain ⟨rest, hrest⟩ := List.head?_eq_some_iff.1
    (Text.head?_split_eq_some_iff.2 ⟨hspace, r, rfl, hr⟩)
  have htokens : Text.split ' ' (Text.trim s) = "PLACE" :: argument :: rest := by
    have hplace : Text.trim s = "PLACE" ++ String.singleton ' ' ++ (argument ++ r) := by
      rw [htrim, String.append_assoc]
      rfl
    rw [hplace, Text.split_append (by decide), hrest]
  obtain ⟨n, rest', hsplit⟩ := split_of_endsInSpaces hs htokens
  refine ⟨a, b, h.name, ?_, hx, hy, rfl⟩
  rw [nextToken_of_split hsplit, if_neg (ne_empty_of_split_three hthree),
    parts_eq_placement_iff]
  refine ⟨hthree, ?_, ?_, ?_⟩
  · simp [partRole, hx, Except.toOption]
  · simp [partRole, hy, Except.toOption]
  · simp [partRole]

/-- What looks like a keyword, a meta line or a placement is read as that keyword, as a meta line, as
the placement with the values shown. Where only spaces surround a line it also looks like what is
read on it: its keyword has the look of that keyword, a meta line the one of meta lines, and any other
line that is not blank the one of faults; and the argument of a placement shows its five parts. -/
theorem looks_as_read (s : String) :
    Function.Injective Role.style ∧
    (∀ p, keyword? (line s) = some p →
      (p.role ∈ [.place, .movement, .turn, .report] →
        p.role.Marks p.text ∧ (read s).seen? = some p.text) ∧
      (p.role = .console → (MetaCommand.ofLine? s).isSome = true) ∧
      (p.role = .place → ∀ a b g, nextToken (line s) = placement a b g →
        ∃ x y h, ShowsPlacement (nextToken (line s)) x y h ∧ read s = .ok (.place x y h))) ∧
    (Text.EndsInSpaces s →
      (∀ k, (read s).seen? = some k →
        ∃ p, keyword? (line s) = some p ∧ p.text = k ∧ p.role.Marks k) ∧
      ((MetaCommand.ofLine? s).isSome = true →
        ∃ p, keyword? (line s) = some p ∧ p.role = .console) ∧
      ((read s).seen? = none → MetaCommand.ofLine? s = none → Text.trim s ≠ "" →
        ∃ p, keyword? (line s) = some p ∧ p.role = .invalid) ∧
      ∀ x y h, read s = .ok (.place x y h) → ShowsPlacement (nextToken (line s)) x y h) := by
  refine ⟨Role.style_injective, ?_, fun hs => ⟨?_, ?_, ?_, ?_⟩⟩
  · intro p hp
    refine ⟨seen?_of_keyword? hp, ?_, ?_⟩
    · intro hrole
      exact isSome_ofLine?_iff.2 (isMeta_of_keyword? hp hrole)
    · intro hrole a b g hnext
      exact read_of_nextToken hp hrole hnext
  · intro k hk
    exact keyword?_of_seen? hs hk
  · intro hsome
    have hmeta := isSome_ofLine?_iff.1 hsome
    have hne : Text.trim s ≠ "" := by
      intro hempty
      rw [IsMeta, hempty] at hmeta
      cases hmeta
    exact exists_keyword?_of_role hs hne (keywordRole_of_isMeta hmeta)
  · intro hk hnone hne
    have hmeta : ¬ IsMeta s := by
      rw [← isSome_ofLine?_iff, hnone]
      exact Bool.false_ne_true
    exact exists_keyword?_of_role hs hne (keywordRole_of_not_isMeta hk hmeta)
  · intro x y h hread
    exact showsPlacement_of_read hs hread

/-- A coordinate beyond 64 bits is shown as good, and words behind the argument change nothing. -/
theorem looks_as_read_of_widest_place :
    let s := "  PLACE -9223372036854775809,+07,WEST  x,y "
    let keyword : Piece := ⟨.place, "PLACE"⟩
    (keyword? (line s) = some keyword ∧ keyword.role ∈ [.place, .movement, .turn, .report] ∧
      nextToken (line s) = placement "-9223372036854775809" "+07" "WEST" ∧ Text.EndsInSpaces s) ∧
      (keyword.role.Marks keyword.text ∧ (read s).seen? = some keyword.text) ∧
      (∃ x y h, ShowsPlacement (nextToken (line s)) x y h ∧ read s = .ok (.place x y h)) ∧
      (∃ p, keyword? (line s) = some p ∧ p.text = "PLACE" ∧ p.role.Marks "PLACE") ∧
      (Text.EndsInSpaces " :jump 1" ∧ (MetaCommand.ofLine? " :jump 1").isSome = true ∧
        ∃ p, keyword? (line " :jump 1") = some p ∧ p.role = .console) ∧
      Text.EndsInSpaces "move " ∧ (read "move ").seen? = none ∧
        ∃ p, keyword? (line "move ") = some p ∧ p.role = .invalid := by
  intro s keyword
  have hkeyword : keyword? (line s) = some keyword := by decide
  have hnext : nextToken (line s) = placement "-9223372036854775809" "+07" "WEST" := by decide
  have hs : Text.EndsInSpaces s := by decide
  have hrole : keyword.role ∈ [.place, .movement, .turn, .report] := List.mem_cons_self
  obtain ⟨-, hshown, hread⟩ := looks_as_read s
  obtain ⟨hmarks, -, hplacement⟩ := hshown keyword hkeyword
  have hjump : Text.EndsInSpaces " :jump 1" := by decide
  have hmeta : (MetaCommand.ofLine? " :jump 1").isSome = true := by decide
  have hmove : Text.EndsInSpaces "move " := by decide
  have hseen : (read "move ").seen? = none := by decide
  exact ⟨⟨hkeyword, hrole, hnext, hs⟩, hmarks hrole, hplacement rfl _ _ _ hnext,
    (hread hs).1 "PLACE" (hmarks hrole).2,
    ⟨hjump, hmeta, ((looks_as_read " :jump 1").2.2 hjump).2.1 hmeta⟩,
    hmove, hseen, ((looks_as_read "move ").2.2 hmove).2.2.1 hseen (by decide) (by decide)⟩

/-- A tab behind a keyword spoils its look, though it is trimmed when the line is read. -/
example :
    keyword? (line "MOVE\t") = some ⟨.invalid, "MOVE\t"⟩ ∧ read "MOVE\t" = .ok .move := by
  decide

end Highlight

end Tabletop
