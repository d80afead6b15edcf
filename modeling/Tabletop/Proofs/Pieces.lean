import Tabletop.Proofs.Text
import Tabletop.Theme

/-!
The pieces of a highlighted line: its spaces, its keyword, the parts of what stands behind PLACE, and
words that say nothing. Put together they are the line, and the look of a piece tells where in the
line it can stand.
-/

namespace Tabletop

/-- No two roles look alike. -/
theorem Role.style_injective : Function.Injective Role.style := by
  intro a b h
  cases a <;> cases b <;> first | rfl | exact absurd h (by decide)

namespace Text

variable {sep : Char}

/-- A text is its parts, each with the separator in front of it, but for the first separator. -/
theorem flatMap_split (sep : Char) (s : String) :
    (split sep s).flatMap (fun part => sep :: part.toList) = sep :: s.toList := by
  induction hparts : split sep s generalizing s with
  | nil => exact (split_ne_nil sep s hparts).elim
  | cons p rest ih =>
    obtain ⟨-, ⟨rfl, rfl⟩ | ⟨r, rfl, hr⟩⟩ := split_eq_cons_iff.1 hparts
    · simp
    · rw [List.flatMap_cons, ih r hr]
      simp

end Text

namespace Highlight

variable {s k token part : String} {rest ts : List String} {p : Piece} {i j n m : Nat}

/-- The roles that are kept for keywords. -/
def keywordRoles : List Role :=
  [.place, .movement, .turn, .report, .console]

/-- The pieces of the tokens behind a keyword. -/
def behind (k : String) (rest : List String) : List Piece :=
  if k = "PLACE" then placeTail rest else idleTail rest

theorem tokens_cons_empty (h : rest ≠ []) : tokens ("" :: rest) = Piece.space :: tokens rest := by
  rw [tokens, if_pos (by decide), if_neg (by simpa using h)]

theorem tokens_cons (h : k ≠ "") :
    tokens (k :: rest) = ⟨keywordRole k, k⟩ :: behind k rest := by
  rw [tokens, if_neg (by simpa using h), behind]

theorem tokens_spaces (n : Nat) : tokens (List.replicate (n + 1) "") = List.replicate n .space := by
  induction n with
  | zero => rfl
  | succ n ih => rw [List.replicate_succ, tokens_cons_empty (by simp), ih, ← List.replicate_succ]

theorem tokens_spaces_append (hk : k ≠ "") (n : Nat) (rest : List String) :
    tokens (List.replicate n "" ++ k :: rest) =
      List.replicate n .space ++ ⟨keywordRole k, k⟩ :: behind k rest := by
  induction n with
  | zero => exact tokens_cons hk
  | succ n ih =>
    rw [List.replicate_succ, List.cons_append, tokens_cons_empty (by simp), ih,
      List.replicate_succ, List.cons_append]

/-- Tokens are all empty, or the first of them that is not is the keyword. -/
theorem exists_keyword (ts : List String) :
    (∃ n, ts = List.replicate n "") ∨ ∃ n k rest, k ≠ "" ∧ ts = List.replicate n "" ++ k :: rest := by
  induction ts with
  | nil => exact .inl ⟨0, rfl⟩
  | cons token rest ih =>
    by_cases htoken : token = ""
    · subst htoken
      rcases ih with ⟨n, rfl⟩ | ⟨n, k, rest, hk, rfl⟩
      · exact .inl ⟨n + 1, List.replicate_succ.symm⟩
      · exact .inr ⟨n + 1, k, rest, hk, by rw [List.replicate_succ, List.cons_append]⟩
    · exact .inr ⟨0, token, rest, htoken, rfl⟩

/-! ### What the pieces show -/

/-- The characters that pieces show. -/
def shown (ps : List Piece) : List Char :=
  ps.flatMap fun p => p.text.toList

theorem shown_cons (p : Piece) (ps : List Piece) : shown (p :: ps) = p.text.toList ++ shown ps :=
  List.flatMap_cons

theorem shown_append (ps qs : List Piece) : shown (ps ++ qs) = shown ps ++ shown qs :=
  List.flatMap_append

theorem shown_idle (token : String) : shown (idle token) = token.toList := by
  rw [idle]
  split
  · next h =>
    rw [String.isEmpty_iff.1 h]
    rfl
  · rw [shown, List.flatMap_singleton]

theorem shown_idleTail (ts : List String) :
    shown (idleTail ts) = ts.flatMap fun token => ' ' :: token.toList := by
  induction ts with
  | nil => rfl
  | cons token rest ih =>
    have hcons : idleTail (token :: rest) = (.space :: idle token) ++ idleTail rest := rfl
    rw [hcons, shown_append, shown_cons, shown_idle, ih]
    rfl

theorem shown_parts_succ (i : Nat) (ps : List String) :
    shown (parts (i + 1) ps) = ps.flatMap fun part => ',' :: part.toList := by
  induction ps generalizing i with
  | nil => rfl
  | cons part rest ih =>
    rw [parts, if_neg (Nat.succ_ne_zero i), List.singleton_append, shown_cons, shown_cons, ih]
    rfl

theorem shown_parts (token : String) : shown (parts 0 (Text.split ',' token)) = token.toList := by
  have hwhole := Text.flatMap_split ',' token
  cases hparts : Text.split ',' token with
  | nil => exact (Text.split_ne_nil ',' token hparts).elim
  | cons part rest =>
    rw [hparts, List.flatMap_cons, List.cons_append] at hwhole
    rw [parts, if_pos rfl, List.nil_append, shown_cons, shown_parts_succ]
    exact (List.cons.inj hwhole).2

theorem shown_placeTail (ts : List String) :
    shown (placeTail ts) = ts.flatMap fun token => ' ' :: token.toList := by
  cases ts with
  | nil => rfl
  | cons token rest =>
    have hargument :
        shown (if token.isEmpty then [] else parts 0 (Text.split ',' token)) = token.toList := by
      split
      · next h =>
        rw [String.isEmpty_iff.1 h]
        rfl
      · exact shown_parts token
    rw [placeTail, shown_append, shown_cons, hargument, shown_idleTail]
    rfl

theorem shown_behind (k : String) (ts : List String) :
    shown (behind k ts) = ts.flatMap fun token => ' ' :: token.toList := by
  rw [behind]
  split
  · exact shown_placeTail ts
  · exact shown_idleTail ts

theorem shown_tokens (hne : ts ≠ []) :
    ' ' :: shown (tokens ts) = ts.flatMap fun token => ' ' :: token.toList := by
  induction ts with
  | nil => exact (hne rfl).elim
  | cons token rest ih =>
    by_cases htoken : token = ""
    · subst htoken
      by_cases hrest : rest = []
      · subst hrest
        rfl
      · rw [tokens_cons_empty hrest, shown_cons, List.flatMap_cons, ← ih hrest]
        rfl
    · rw [tokens_cons htoken, shown_cons, shown_behind, List.flatMap_cons]
      rfl

theorem shown_line (s : String) : shown (line s) = s.toList := by
  have hwhole := shown_tokens (Text.split_ne_nil ' ' s)
  rw [Text.flatMap_split] at hwhole
  exact (List.cons.inj hwhole).2

/-! ### Where a piece can stand -/

theorem keywordRole_ne (k : String) :
    keywordRole k ≠ .coordinate ∧ keywordRole k ≠ .heading := by
  unfold keywordRole
  split
  case h_6 => split <;> decide
  all_goals decide

theorem partRole_mem (j : Nat) (part : String) :
    partRole j part ∈ [.coordinate, .heading, .invalid] := by
  unfold partRole
  split
  · split <;> decide
  · split <;> decide
  · split <;> decide
  · decide

theorem eq_of_mem_idleTail (h : p ∈ idleTail ts) :
    p = .space ∨ ∃ token ∈ ts, p = ⟨.separator, token⟩ := by
  obtain ⟨token, htoken, hp⟩ := List.mem_flatMap.1 h
  rcases List.mem_cons.1 hp with rfl | hp
  · exact .inl rfl
  · rw [idle] at hp
    split at hp
    · cases hp
    · exact .inr ⟨token, htoken, List.mem_singleton.1 hp⟩

theorem eq_of_mem_parts {ps : List String} (h : p ∈ parts m ps) :
    p = ⟨.separator, ","⟩ ∨ ∃ part ∈ ps, ∃ j, p = ⟨partRole j part, part⟩ := by
  induction ps generalizing m with
  | nil => cases h
  | cons part rest ih =>
    rw [parts, List.mem_append, List.mem_cons] at h
    rcases h with h | rfl | h
    · split at h
      · cases h
      · exact .inl (List.mem_singleton.1 h)
    · exact .inr ⟨part, List.mem_cons_self, m, rfl⟩
    · rcases ih h with hcomma | ⟨part', hpart', hrole⟩
      · exact .inl hcomma
      · exact .inr ⟨part', List.mem_cons_of_mem _ hpart', hrole⟩

theorem role_of_mem_idleTail (h : p ∈ idleTail ts) : p.role = .space ∨ p.role = .separator := by
  rcases eq_of_mem_idleTail h with rfl | ⟨token, -, rfl⟩
  · exact .inl rfl
  · exact .inr rfl

theorem role_of_mem_behind (h : p ∈ behind k rest) :
    p.role ∈ [.space, .separator, .coordinate, .heading, .invalid] := by
  have hidle {ts : List String} (h : p ∈ idleTail ts) :
      p.role ∈ [.space, .separator, .coordinate, .heading, .invalid] := by
    rcases role_of_mem_idleTail h with hrole | hrole <;> rw [hrole] <;> decide
  rw [behind] at h
  split at h
  · cases rest with
    | nil => cases h
    | cons token rest =>
      rw [placeTail, List.mem_append, List.mem_cons] at h
      rcases h with (rfl | h) | h
      · decide
      · split at h
        · cases h
        · rcases eq_of_mem_parts h with rfl | ⟨part, -, j, rfl⟩
          · decide
          · have hpart := partRole_mem j part
            exact List.mem_cons_of_mem _ (List.mem_cons_of_mem _ hpart)
      · exact hidle h
  · exact hidle h

theorem not_mem_keywordRoles {r : Role}
    (h : r ∈ [.space, .separator, .coordinate, .heading, .invalid]) : r ∉ keywordRoles := by
  revert r
  decide

/-- A part that is shown as good stands at an even place, behind as many commas as there are parts
before it. -/
theorem part_of_getElem?_succ {ps : List String} (h : (parts (m + 1) ps)[i]? = some p)
    (hrole : p.role ≠ .separator) :
    ∃ j, ps[j]? = some p.text ∧ p.role = partRole (m + 1 + j) p.text ∧ i = 2 * j + 1 := by
  induction ps generalizing m i with
  | nil => cases h
  | cons part rest ih =>
    rw [parts, if_neg (Nat.succ_ne_zero m), List.singleton_append] at h
    match i with
    | 0 =>
      cases h
      exact (hrole rfl).elim
    | 1 =>
      cases h
      exact ⟨0, rfl, rfl, rfl⟩
    | i + 2 =>
      obtain ⟨j, hj, hpart, rfl⟩ := ih h
      refine ⟨j + 1, hj, ?_, by omega⟩
      rw [hpart]
      congr 1
      omega

theorem part_of_getElem? {ps : List String} (h : (parts 0 ps)[i]? = some p)
    (hrole : p.role ≠ .separator) :
    ∃ j, ps[j]? = some p.text ∧ p.role = partRole j p.text ∧ i = 2 * j := by
  cases ps with
  | nil => cases h
  | cons part rest =>
    rw [parts, if_pos rfl, List.nil_append] at h
    match i with
    | 0 =>
      cases h
      exact ⟨0, rfl, rfl, rfl⟩
    | i + 1 =>
      obtain ⟨j, hj, hpart, rfl⟩ := part_of_getElem?_succ h hrole
      refine ⟨j + 1, hj, ?_, by omega⟩
      rw [hpart]
      congr 1
      omega

theorem lt_two_of_partRole (h : partRole j part = .coordinate) : j < 2 := by
  match j with
  | 0 | 1 => omega
  | 2 =>
    rw [partRole] at h
    split at h <;> cases h
  | _ + 3 => cases h

theorem eq_two_of_partRole (h : partRole j part = .heading) : j = 2 := by
  match j with
  | 0 | 1 =>
    rw [partRole] at h
    split at h <;> cases h
  | 2 => rfl
  | _ + 3 => cases h

theorem ne_separator_of_role (h : p.role = .coordinate ∨ p.role = .heading) :
    p.role ≠ .space ∧ p.role ≠ .separator := by
  rcases h with h | h <;> rw [h] <;> decide

/-- Coordinates and headings are parts of the token next to PLACE. -/
theorem part_of_getElem?_behind (h : (behind k rest)[i]? = some p)
    (hrole : p.role = .coordinate ∨ p.role = .heading) :
    k = "PLACE" ∧ ∃ argument rest' j, rest = argument :: rest' ∧ i = 2 * j + 1 ∧
      (Text.split ',' argument)[j]? = some p.text ∧ p.role = partRole j p.text := by
  obtain ⟨hspace, hseparator⟩ := ne_separator_of_role hrole
  have hidle {ts : List String} (h : p ∈ idleTail ts) : False :=
    (role_of_mem_idleTail h).elim hspace hseparator
  rw [behind] at h
  split at h
  · next hk =>
    refine ⟨hk, ?_⟩
    match rest, i with
    | [], _ => cases h
    | argument :: rest, 0 =>
      cases h
      exact (hspace rfl).elim
    | argument :: rest, i + 1 =>
      rw [placeTail, List.cons_append, List.getElem?_cons_succ] at h
      split at h
      · exact (hidle (List.mem_of_getElem? h)).elim
      · rw [List.getElem?_append] at h
        split at h
        · obtain ⟨j, hj, hpart, rfl⟩ := part_of_getElem? h hseparator
          exact ⟨argument, rest, j, rfl, rfl, hj, hpart⟩
        · exact (hidle (List.mem_of_getElem? h)).elim
  · exact (hidle (List.mem_of_getElem? h)).elim

theorem line_of_split (hsplit : Text.split ' ' s = List.replicate n "" ++ k :: rest) (hk : k ≠ "") :
    line s = List.replicate n .space ++ ⟨keywordRole k, k⟩ :: behind k rest := by
  rw [line, hsplit, tokens_spaces_append hk]

/-- A line with its keyword in place, or a line without one. -/
theorem line_cases (s : String) :
    (∃ n, line s = List.replicate n .space) ∨
      ∃ n k rest, Text.split ' ' s = List.replicate n "" ++ k :: rest ∧
        line s = List.replicate n .space ++ ⟨keywordRole k, k⟩ :: behind k rest := by
  rcases exists_keyword (Text.split ' ' s) with ⟨n, hsplit⟩ | ⟨n, k, rest, hk, hsplit⟩
  · cases n with
    | zero => exact (Text.split_ne_nil ' ' s hsplit).elim
    | succ n => exact .inl ⟨n, by rw [line, hsplit, tokens_spaces]⟩
  · exact .inr ⟨n, k, rest, hsplit, line_of_split hsplit hk⟩

theorem ne_space_of_mem_split (h : token ∈ Text.split ' ' s) : token ≠ " " := by
  rintro rfl
  exact (Text.isInfix_of_mem_split h).2 (by decide)

theorem keyword_ne_space (h : Text.split ' ' s = List.replicate n "" ++ k :: rest) : k ≠ " " := by
  apply ne_space_of_mem_split
  rw [h]
  exact List.mem_append_right _ List.mem_cons_self

theorem cases_of_getElem? {ps : List Piece}
    (h : (List.replicate n Piece.space ++ ⟨keywordRole k, k⟩ :: ps)[i]? = some p) :
    p = .space ∨ i = n ∧ p = ⟨keywordRole k, k⟩ ∨ ∃ j, i = n + 1 + j ∧ ps[j]? = some p := by
  rw [List.getElem?_append, List.length_replicate] at h
  split at h
  · exact .inl (List.eq_of_mem_replicate (List.mem_of_getElem? h))
  · right
    obtain ⟨d, rfl⟩ := Nat.exists_eq_add_of_le (Nat.le_of_not_lt ‹_›)
    rw [Nat.add_sub_cancel_left] at h
    cases d with
    | zero =>
      cases h
      exact .inl ⟨rfl, rfl⟩
    | succ j => exact .inr ⟨j, by omega, h⟩

theorem findIdx?_keyword (hk : k ≠ " ") (ps : List Piece) :
    (List.replicate n Piece.space ++ ⟨keywordRole k, k⟩ :: ps).findIdx? (·.text ≠ " ") = some n := by
  have hspaces : (List.replicate n Piece.space).findIdx? (·.text ≠ " ") = none := by
    rw [List.findIdx?_replicate]
    simp [Piece.space]
  rw [List.findIdx?_append, hspaces, List.findIdx?_cons, if_pos (by simpa using hk)]
  simp

theorem countP_space (n : Nat) :
    (List.replicate n Piece.space).countP (·.role ∈ keywordRoles) = 0 := by
  rw [List.countP_eq_zero]
  intro p hp
  rw [List.eq_of_mem_replicate hp]
  decide

/-- At most one piece of a line looks like a keyword. -/
theorem countP_keywordRoles_le_one (s : String) :
    (line s).countP (·.role ∈ keywordRoles) ≤ 1 := by
  rcases line_cases s with ⟨n, hline⟩ | ⟨n, k, rest, -, hline⟩
  · rw [hline, countP_space]
    exact Nat.zero_le 1
  · have hbehind : (behind k rest).countP (·.role ∈ keywordRoles) = 0 := by
      rw [List.countP_eq_zero]
      intro p hp
      simpa using not_mem_keywordRoles (role_of_mem_behind hp)
    rw [hline, List.countP_append, countP_space, List.countP_cons, hbehind]
    split <;> decide

/-- A piece that looks like a keyword is the first that is not a single space. -/
theorem findIdx?_of_keywordRole (h : (line s)[i]? = some p) (hrole : p.role ∈ keywordRoles) :
    (line s).findIdx? (·.text ≠ " ") = some i := by
  have hspace : p ≠ .space := by
    rintro rfl
    exact absurd hrole (by decide)
  rcases line_cases s with ⟨n, hline⟩ | ⟨n, k, rest, hsplit, hline⟩
  · rw [hline] at h
    exact (hspace (List.eq_of_mem_replicate (List.mem_of_getElem? h))).elim
  · rw [hline] at h ⊢
    rcases cases_of_getElem? h with hp | ⟨rfl, -⟩ | ⟨j, -, hbehind⟩
    · exact (hspace hp).elim
    · exact findIdx?_keyword (keyword_ne_space hsplit) _
    · exact (not_mem_keywordRoles (role_of_mem_behind (List.mem_of_getElem? hbehind)) hrole).elim

/-- A coordinate or a heading stands in the token next to PLACE. -/
theorem part_of_getElem?_line (h : (line s)[i]? = some p)
    (hrole : p.role = .coordinate ∨ p.role = .heading) :
    ∃ n argument rest j,
      Text.split ' ' s = List.replicate n "" ++ "PLACE" :: argument :: rest ∧
      (line s)[n]? = some ⟨.place, "PLACE"⟩ ∧ i = n + 2 + 2 * j ∧
      (Text.split ',' argument)[j]? = some p.text ∧ p.role = partRole j p.text := by
  have hspace : p ≠ .space := by
    rintro rfl
    exact (ne_separator_of_role hrole).1 rfl
  rcases line_cases s with ⟨n, hline⟩ | ⟨n, k, rest, hsplit, hline⟩
  · rw [hline] at h
    exact (hspace (List.eq_of_mem_replicate (List.mem_of_getElem? h))).elim
  · rw [hline] at h
    rcases cases_of_getElem? h with hp | ⟨-, rfl⟩ | ⟨j, rfl, hbehind⟩
    · exact (hspace hp).elim
    · exact (hrole.elim (keywordRole_ne k).1 (keywordRole_ne k).2).elim
    · obtain ⟨rfl, argument, rest, j, rfl, rfl, hpart, hpartRole⟩ :=
        part_of_getElem?_behind hbehind hrole
      refine ⟨n, argument, rest, j, hsplit, ?_, by omega, hpart, hpartRole⟩
      rw [hline, List.getElem?_append_right (by simp)]
      simp [keywordRole]

/-- Nothing of a line is lost in its pieces, and their looks, of which no two are alike, tell where
they stand. One piece at most has the look of a keyword, and it is the first that is not a single
space. A piece that looks like a coordinate or a heading is a part of the token next to PLACE: one of
the first two, or the third. -/
theorem pieces_in_place (s : String) :
    Function.Injective Role.style ∧
    String.join ((line s).map Piece.text) = s ∧
    ((line s).countP (·.role ∈ keywordRoles) ≤ 1 ∧
      ∀ i p, (line s)[i]? = some p → p.role ∈ keywordRoles →
        (line s).findIdx? (·.text ≠ " ") = some i) ∧
    ∀ i p, (line s)[i]? = some p → p.role = .coordinate ∨ p.role = .heading →
      ∃ n argument rest j,
        Text.split ' ' s = List.replicate n "" ++ "PLACE" :: argument :: rest ∧
        (line s)[n]? = some ⟨.place, "PLACE"⟩ ∧ i = n + 2 + 2 * j ∧
        (Text.split ',' argument)[j]? = some p.text ∧
        (p.role = .coordinate → j < 2) ∧ (p.role = .heading → j = 2) := by
  refine ⟨Role.style_injective, ?_, ⟨countP_keywordRoles_le_one s, ?_⟩, ?_⟩
  · rw [← String.toList_inj, String.toList_join, List.flatMap_map]
    exact shown_line s
  · intro i p h hrole
    exact findIdx?_of_keywordRole h hrole
  · intro i p h hrole
    obtain ⟨n, argument, rest, j, hsplit, hplace, hi, hpart, hpartRole⟩ :=
      part_of_getElem?_line h hrole
    refine ⟨n, argument, rest, j, hsplit, hplace, hi, hpart, ?_, ?_⟩
    · rw [hpartRole]
      exact lt_two_of_partRole
    · rw [hpartRole]
      exact eq_two_of_partRole

/-- The good parts of a bad argument are shown as such, and a second argument is not. -/
theorem pieces_in_place_of_crowded_line :
    let s := "  PLACE x,-07,EAST, 1,2,WEST"
    (line s)[2]? = some ⟨.place, "PLACE"⟩ ∧ (line s)[6]? = some ⟨.coordinate, "-07"⟩ ∧
      (line s)[8]? = some ⟨.heading, "EAST"⟩ ∧
      (line s).findIdx? (·.text ≠ " ") = some 2 ∧
      (∃ n argument rest j,
        Text.split ' ' s = List.replicate n "" ++ "PLACE" :: argument :: rest ∧
        (line s)[n]? = some ⟨.place, "PLACE"⟩ ∧ 6 = n + 2 + 2 * j ∧
        (Text.split ',' argument)[j]? = some "-07" ∧ j < 2) ∧
      ∃ n argument rest j,
        Text.split ' ' s = List.replicate n "" ++ "PLACE" :: argument :: rest ∧
        (line s)[n]? = some ⟨.place, "PLACE"⟩ ∧ 8 = n + 2 + 2 * j ∧
        (Text.split ',' argument)[j]? = some "EAST" ∧ j = 2 := by
  intro s
  have hplace : (line s)[2]? = some ⟨.place, "PLACE"⟩ := by decide
  have hcoordinate : (line s)[6]? = some ⟨.coordinate, "-07"⟩ := by decide
  have hheading : (line s)[8]? = some ⟨.heading, "EAST"⟩ := by decide
  obtain ⟨-, -, ⟨-, hkeyword⟩, hparts⟩ := pieces_in_place s
  obtain ⟨n, argument, rest, j, hsplit, hn, hi, hj, hlt, -⟩ := hparts 6 _ hcoordinate (.inl rfl)
  obtain ⟨n', argument', rest', j', hsplit', hn', hi', hj', -, htwo⟩ :=
    hparts 8 _ hheading (.inr rfl)
  exact ⟨hplace, hcoordinate, hheading, hkeyword 2 _ hplace (by decide),
    ⟨n, argument, rest, j, hsplit, hn, hi, hj, hlt rfl⟩,
    n', argument', rest', j', hsplit', hn', hi', hj', htwo rfl⟩

end Highlight

end Tabletop
