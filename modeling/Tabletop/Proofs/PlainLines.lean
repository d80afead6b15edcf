import Mathlib.Data.List.Forall2
import Tabletop.Toml.Document

/-!
Documents of plain lines: headers of a table with a bare key, and entries of a bare key and a bare
value. Lines are read one by one, and a document says what they say in their order.
-/

namespace Tabletop.Toml

variable {c : Char} {cs rest k w : List Char} {t : Token} {statement : Statement}

theorem foldLineEnds_eq_self (h : '\r' ∉ cs) : foldLineEnds cs = cs := by
  fun_induction foldLineEnds cs with
  | case1 => exact (h List.mem_cons_self).elim
  | case2 c cs _ ih => rw [ih fun hmem => h (List.mem_cons_of_mem _ hmem)]
  | case3 => rfl

theorem characters_eq_toList {s : String} (hreturn : '\r' ∉ s.toList)
    (hmark : '\uFEFF' ∉ s.toList) : characters s = s.toList := by
  rw [characters]
  split
  · next h => exact (hmark (h ▸ List.mem_cons_self)).elim
  · exact foldLineEnds_eq_self hreturn

theorem tokens?_of_ofChar? (h : Token.ofChar? c = some t) :
    tokens? (c :: cs) = (tokens? cs).map (t :: ·) := by
  rw [tokens?, h]

theorem ofChar?_of_isWord (h : isWord c = true) : Token.ofChar? c = none := by
  unfold Token.ofChar?
  split <;> first | rfl | cases h

/-- Characters that make one word: they neither start with a quote nor end early. -/
structure IsBareWord (w : List Char) : Prop where
  ne_nil : w ≠ []
  word : ∀ c ∈ w, isWord c = true
  unquoted : ∀ c ∈ w.head?, c ≠ '"' ∧ c ≠ '\''

theorem takeWhile_append_stop {p : Char → Bool} (hw : ∀ c ∈ w, p c = true)
    (hrest : ∀ c ∈ rest.head?, p c = false) :
    (w ++ rest).takeWhile p = w ∧ (w ++ rest).dropWhile p = rest := by
  rw [List.takeWhile_append_of_pos hw, List.dropWhile_append_of_pos hw]
  cases rest with
  | nil => exact ⟨List.append_nil w, rfl⟩
  | cons c rest =>
    have hc : ¬ p c = true := by
      rw [hrest c rfl]
      exact Bool.false_ne_true
    rw [List.takeWhile_cons_of_neg hc, List.dropWhile_cons_of_neg hc]
    exact ⟨List.append_nil w, rfl⟩

theorem tokens?_word (hw : IsBareWord w) (hrest : ∀ c ∈ rest.head?, isWord c = false) :
    tokens? (w ++ rest) = (tokens? rest).map (.word w :: ·) := by
  obtain ⟨hne, hword, hquote⟩ := hw
  obtain ⟨c, cs, rfl⟩ := List.exists_cons_of_ne_nil hne
  rw [List.forall_mem_cons] at hword
  have hc := hword.1
  obtain ⟨htake, hdrop⟩ := takeWhile_append_stop hword.2 hrest
  have hcomment : c ≠ '#' := by
    rintro rfl
    cases hc
  have hgap : isGap c = false := by
    rw [isWord, Bool.not_eq_true', Bool.or_eq_false_iff] at hc
    exact hc.1
  have hunquoted : ¬ (c = '"' ∨ c = '\'') := by
    rw [not_or]
    exact hquote c rfl
  rw [List.cons_append, tokens?]
  simp only [ofChar?_of_isWord hc, if_neg hcomment, if_neg hunquoted, hgap, hc, if_true, htake,
    hdrop, Bool.false_eq_true, if_false]

theorem tokens?_space (hrest : ∀ c ∈ rest.head?, isGap c = false) :
    tokens? (' ' :: rest) = (tokens? rest).map (.blank [' '] :: ·) := by
  obtain ⟨htake, hdrop⟩ := takeWhile_append_stop (w := []) (fun _ h => nomatch h) hrest
  rw [List.nil_append] at htake hdrop
  have hchar : Token.ofChar? ' ' = none := rfl
  have hcomment : ¬ ' ' = '#' := by decide
  have hunquoted : ¬ (' ' = '"' ∨ ' ' = '\'') := by decide
  have hgap : isGap ' ' = true := rfl
  rw [tokens?]
  simp only [hchar, if_neg hcomment, if_neg hunquoted, hgap, if_true, htake, hdrop]

/-- The characters of a line that make tokens of their own, wherever the line ends. -/
def Lexes (cs : List Char) (ts : List Token) : Prop :=
  ∀ rest, (∀ c ∈ rest.head?, c = '\n') →
    tokens? (cs ++ rest) = (tokens? rest).map (ts ++ ·)

/-- Tokens whose brackets are all closed again. -/
def Groups (ts : List Token) (trees : List Tree) : Prop :=
  ∀ rest now, group? (ts ++ rest) now [] = group? rest (trees.reverse ++ now) []

/-- A line without its line feed that makes a statement by itself. -/
def Says (line : List Char) (statement : Statement) : Prop :=
  ∃ ts trees, Lexes line ts ∧ Groups ts trees ∧ (∀ t ∈ trees, t.isNewline = false) ∧
    Statement.ofLine? trees = some statement

theorem group?_newline (ts : List Token) (now : List Tree) :
    group? (.newline :: ts) now [] = group? ts (.token .newline :: now) [] :=
  rfl

theorem trees_of_says {lines : List (List Char)} {statements : List Statement}
    (h : List.Forall₂ Says lines statements) (hne : lines ≠ []) :
    ∃ ts trees, tokens? (['\n'].intercalate lines) = some ts ∧
      (∀ now, group? ts now [] = some (now.reverse ++ trees)) ∧
      (trees.splitOnP Tree.isNewline).mapM Statement.ofLine? = some statements := by
  induction h with
  | nil => exact (hne rfl).elim
  | @cons line statement lines statements hline hlines ih =>
    obtain ⟨ts, trees, hlex, hgroup, hplain, hread⟩ := hline
    cases lines with
    | nil =>
      cases hlines
      refine ⟨ts, trees, ?_, ?_, ?_⟩
      · have hend := hlex [] fun _ h => nomatch h
        rw [List.append_nil, tokens?, Option.map_some, List.append_nil] at hend
        rw [List.intercalate_singleton, hend]
      · intro now
        have hend := hgroup [] now
        rw [List.append_nil, group?, List.reverse_append, List.reverse_reverse] at hend
        exact hend
      · rw [List.splitOnP_eq_singleton hplain, List.mapM_cons, hread]
        rfl
    | cons next lines =>
      -- A line closes its brackets, so the line feed behind it is a tree of its own.
      obtain ⟨ts', trees', hlex', hgroup', hread'⟩ := ih (List.cons_ne_nil _ _)
      refine ⟨ts ++ .newline :: ts', trees ++ .token .newline :: trees', ?_, ?_, ?_⟩
      · have hstop : ∀ c ∈ ('\n' :: ['\n'].intercalate (next :: lines)).head?, c = '\n' := by
          rintro c ⟨⟩
          rfl
        rw [List.intercalate_cons_of_ne_nil (List.cons_ne_nil _ _), List.append_assoc,
          List.singleton_append, hlex _ hstop, tokens?_of_ofChar? (t := .newline) rfl, hlex']
        rfl
      · intro now
        rw [hgroup, group?_newline, hgroup', List.reverse_cons, List.reverse_append,
          List.reverse_reverse, List.append_assoc, List.append_assoc, List.singleton_append]
      · rw [List.splitOnP_append_cons_of_forall_mem hplain _ rfl, List.mapM_cons, hread, hread']
        rfl

theorem not_mem_intercalate {sep : Char} {lines : List (List Char)} (hsep : c ≠ sep)
    (h : ∀ line ∈ lines, c ∉ line) : c ∉ [sep].intercalate lines := by
  induction lines with
  | nil => exact fun hmem => nomatch hmem
  | cons line lines ih =>
    rw [List.forall_mem_cons] at h
    cases lines with
    | nil =>
      rw [List.intercalate_singleton]
      exact h.1
    | cons next lines =>
      rw [List.intercalate_cons_of_ne_nil (List.cons_ne_nil _ _), List.mem_append, List.mem_append,
        List.mem_singleton]
      rintro ((hline | hc) | hrest)
      · exact h.1 hline
      · exact hsep hc
      · exact ih h.2 hrest

/-- A document of plain lines says what its lines say. -/
theorem ofText?_of_says {lines : List String} {statements : List Statement} (hne : lines ≠ [])
    (hplain : ∀ line ∈ lines, '\r' ∉ line.toList ∧ '\uFEFF' ∉ line.toList)
    (h : List.Forall₂ (fun line => Says line.toList) lines statements) :
    Value.ofText? ("\n".intercalate lines) =
      (statements.foldlM Document.add? ⟨.empty .header, []⟩).map Document.value := by
  have htext : ("\n".intercalate lines).toList = ['\n'].intercalate (lines.map String.toList) :=
    String.toList_intercalate
  have hreturn : '\r' ∉ ("\n".intercalate lines).toList := by
    rw [htext]
    apply not_mem_intercalate (by decide)
    exact List.forall_mem_map.2 fun line hline => (hplain line hline).1
  have hmark : '\uFEFF' ∉ ("\n".intercalate lines).toList := by
    rw [htext]
    apply not_mem_intercalate (by decide)
    exact List.forall_mem_map.2 fun line hline => (hplain line hline).2
  have hsays : List.Forall₂ Says (lines.map String.toList) statements :=
    List.forall₂_map_left_iff.2 h
  obtain ⟨ts, trees, htokens, hgroup, hread⟩ :=
    trees_of_says hsays (mt List.map_eq_nil_iff.1 hne)
  have htrees : trees? ts = some trees := hgroup []
  rw [Value.ofText?, characters_eq_toList hreturn hmark, htext, htokens]
  simp only [Option.bind_eq_bind, Option.bind_some, htrees, hread]
  cases statements.foldlM Document.add? ⟨.empty .header, []⟩ <;> rfl

/-- A key without quotes that is not empty. -/
def IsBareName (k : List Char) : Prop :=
  k ≠ [] ∧ ∀ c ∈ k, isBareKey c = true

theorem isBareName_iff : k ≠ [] ∧ k.all isBareKey = true ↔ IsBareName k := by
  rw [IsBareName, List.all_eq_true]

instance (k : List Char) : Decidable (IsBareName k) :=
  decidable_of_decidable_of_iff isBareName_iff

theorem isWord_of_isBareKey (h : isBareKey c = true) : isWord c = true ∧ c ≠ '"' ∧ c ≠ '\'' := by
  have hstop : [' ', '\t', '\n', '\r', '#', ',', '=', '.', '[', ']', '{', '}', '"', '\''].all
      (fun d => !isBareKey d) = true := by decide
  rw [List.all_eq_true] at hstop
  have hne : c ∉ [' ', '\t', '\n', '\r', '#', ',', '=', '.', '[', ']', '{', '}', '"', '\''] := by
    intro hmem
    have hnot := hstop c hmem
    rw [h] at hnot
    cases hnot
  simp only [List.mem_cons, List.not_mem_nil, or_false, not_or] at hne
  simp [isWord, isGap, hne]

theorem IsBareName.isBareWord (h : IsBareName k) : IsBareWord k := by
  constructor
  · exact h.1
  · exact fun c hc => (isWord_of_isBareKey (h.2 c hc)).1
  · exact fun c hc => (isWord_of_isBareKey (h.2 c (List.mem_of_head? hc))).2

theorem ofTokens?_word (h : IsBareName k) :
    Key.ofTokens? [.word k] = some ⟨[], String.ofList k⟩ := by
  have hall : k.all isBareKey = true := List.all_eq_true.2 h.2
  have hparts : [Token.word k].splitOn .dot = [[.word k]] := List.splitOn_eq_singleton (by simp)
  have hpart : keyPart? [.word k] = some (String.ofList k) := if_pos hall
  rw [Key.ofTokens?, hparts, List.mapM_cons, hpart]
  rfl

theorem says_blank : Says [] .blank := by
  refine ⟨[], [], ?_, ?_, ?_, rfl⟩
  · intro rest _
    rw [List.nil_append]
    cases tokens? rest <;> rfl
  · exact fun _ _ => rfl
  · exact fun _ h => nomatch h

theorem says_header (h : IsBareName k) :
    Says ('[' :: k ++ [']']) (.header ⟨[], String.ofList k⟩) := by
  refine ⟨[.squareOpen, .word k, .squareClose], [.square [.token (.word k)]], ?_, ?_, ?_, ?_⟩
  · intro rest _
    have hstop : ∀ c ∈ (']' :: rest).head?, isWord c = false := by
      rintro c ⟨⟩
      rfl
    rw [List.append_assoc, List.cons_append, List.singleton_append,
      tokens?_of_ofChar? (t := .squareOpen) rfl, tokens?_word h.isBareWord hstop,
      tokens?_of_ofChar? (t := .squareClose) rfl]
    cases tokens? rest <;> rfl
  · intro rest now
    rfl
  · rw [List.forall_mem_singleton]
    rfl
  · have hkey : Key.ofTrees? [.token (.word k)] = some ⟨[], String.ofList k⟩ := ofTokens?_word h
    have hread : Statement.ofLine? [.square [.token (.word k)]] =
        (Key.ofTrees? [.token (.word k)]).map .header := rfl
    rw [hread, hkey]
    rfl

/-- The tokens of a line `key = value`. -/
def entryTokens (k w : List Char) : List Token :=
  [.word k, .blank [' '], .equals, .blank [' '], .word w]

theorem lexes_entry (hk : IsBareWord k) (hw : IsBareWord w) :
    Lexes (k ++ " = ".toList ++ w) (entryTokens k w) := by
  have hspaces : " = ".toList = [' ', '=', ' '] := rfl
  intro rest hrest
  have hend : ∀ c ∈ rest.head?, isWord c = false := by
    intro c hc
    rw [hrest c hc]
    rfl
  have hvalue : ∀ c ∈ (w ++ rest).head?, isGap c = false := by
    obtain ⟨c, cs, rfl⟩ := List.exists_cons_of_ne_nil hw.ne_nil
    rintro _ ⟨⟩
    have hc := hw.word c List.mem_cons_self
    rw [isWord, Bool.not_eq_true', Bool.or_eq_false_iff] at hc
    exact hc.1
  rw [hspaces, List.append_assoc, List.append_assoc, tokens?_word hk (by rintro c ⟨⟩; rfl),
    List.cons_append, tokens?_space (by rintro c ⟨⟩; rfl), List.cons_append,
    tokens?_of_ofChar? (t := .equals) rfl, List.singleton_append, tokens?_space hvalue,
    tokens?_word hw hend]
  cases tokens? rest <;> rfl

theorem items?_tokens (ts : List Token) : items? (ts.map .token) = some (ts.map .token) := by
  induction ts with
  | nil => rw [List.map_nil, items?, List.map_nil]
  | cons t ts ih =>
    rw [List.map_cons, items?, Tree.item?, ih]
    rfl

theorem entry?_entryTokens {scalar : Scalar} (hk : IsBareName k)
    (hscalar : Scalar.ofBare? w = some scalar) :
    entry? ((entryTokens k w).map .token) = some (⟨[], String.ofList k⟩, .scalar scalar) := by
  have hkey : Key.ofItems? [.token (.word k)] = some ⟨[], String.ofList k⟩ := ofTokens?_word hk
  have hvalue : Value.ofItems? [.token (.word w)] = some (.scalar scalar) := by
    have htext : Value.ofItems? [.token (.word w)] =
        (Scalar.ofBare? (w ++ [])).bind fun s => some (.scalar s) := rfl
    rw [htext, List.append_nil, hscalar]
    rfl
  have hentry : entry? ((entryTokens k w).map .token) =
      (Key.ofItems? [.token (.word k)]).bind fun key =>
        (Value.ofItems? [.token (.word w)]).bind fun value => some (key, value) := rfl
  rw [hentry, hkey, hvalue]
  rfl

theorem says_entry {scalar : Scalar} (hk : IsBareName k) (hw : IsBareWord w)
    (hscalar : Scalar.ofBare? w = some scalar) :
    Says (k ++ " = ".toList ++ w) (.entry ⟨[], String.ofList k⟩ (.scalar scalar)) := by
  refine ⟨entryTokens k w, (entryTokens k w).map .token, lexes_entry hk.isBareWord hw,
    fun _ _ => rfl, ?_, ?_⟩
  · simp [entryTokens, Tree.isNewline]
  · have hread : Statement.ofLine? ((entryTokens k w).map .token) = (do
        let items ← items? ((entryTokens k w).map .token)
        let pair ← entry? items
        return .entry pair.1 pair.2) := rfl
    rw [hread, items?_tokens, Option.bind_eq_bind, Option.bind_some,
      entry?_entryTokens hk hscalar]
    rfl

end Tabletop.Toml
