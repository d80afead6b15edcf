import Tabletop.Proofs.BareInteger
import Tabletop.Proofs.PlainLines
import Tabletop.Proofs.TableText
import Tabletop.Toml.Bounds

/-!
Plain tables of integers as documents in TOML: what is read is what their entries decode to.
-/

namespace Tabletop

open Toml

variable {n : Int} {v : Value} {entries : IntegerTable} {key : String} {blanks : Nat}

theorem Toml.isBareWord_toString (n : Int) : IsBareWord (toString n).toList := by
  have hwrites := Numeral.writes_toString n
  have hword (c : Char) (hc : c ∈ (toString n).toList) :
      isWord c = true ∧ c ≠ '"' ∧ c ≠ '\'' := by
    apply isWord_of_isBareKey
    rcases Numeral.mem_toString hc with rfl | hdigit
    · rfl
    · simp only [isBareKey, Char.isAlphanum, hdigit, Bool.or_true, Bool.true_or]
  constructor
  · obtain ⟨ds, hunsigned, hne, -⟩ := digits_of_writes hwrites
    intro hnil
    rw [hnil] at hunsigned
    exact hne hunsigned.symm
  · exact fun c hc => (hword c hc).1
  · exact fun c hc => (hword c (List.mem_of_head? hc)).2

namespace IntegerTable

theorem IsBareKey.isBareName (h : IsBareKey key) : IsBareName key.toList := by
  refine ⟨mt String.toList_eq_nil_iff.1 h.1, fun c hc => ?_⟩
  simp only [isBareKey, Bool.or_eq_true, beq_iff_eq]
  rw [or_assoc]
  exact h.2 c hc

/-- Where a document keeps the entry of a key. -/
def path (key : String) : Path :=
  Bounds.root ++ [.key key]

theorem path_injective {j k : String} (h : path j = path k) : j = k := by
  cases h
  rfl

theorem path_ne_root (key : String) : path key ≠ Bounds.root :=
  nofun

/-- The statement of an entry's line. -/
def statement (e : String × Int) : Statement :=
  .entry ⟨[], e.1⟩ (.scalar (.integer (some e.2)))

theorem says_line {e : String × Int} (h : IsBareKey e.1) :
    Says (line e).toList (statement e) := by
  have hread : Scalar.ofBare? (toString e.2).toList = some (.integer (some e.2)) :=
    ofBare?_of_writes (Numeral.writes_toString e.2) (startsPlainly_toString e.2)
  have hsays := says_entry h.isBareName (isBareWord_toString e.2) hread
  rw [String.ofList_toList] at hsays
  rw [line, String.toList_append, String.toList_append]
  exact hsays

theorem not_mem_line {e : String × Int} {c : Char} (h : IsBareKey e.1)
    (hkey : isBareKey c = false) (hequals : c ∉ " = ".toList) (hnumeral : c ≠ '-' ∧ c.isDigit = false) :
    c ∉ (line e).toList := by
  rw [line, String.toList_append, String.toList_append, List.mem_append, List.mem_append]
  rintro ((hc | hc) | hc)
  · exact Bool.false_ne_true (hkey.symm.trans (h.isBareName.2 c hc))
  · exact hequals hc
  · rcases Numeral.mem_toString hc with hminus | hdigit
    · exact hnumeral.1 hminus
    · exact Bool.false_ne_true (hnumeral.2.symm.trans hdigit)

/-- A value with one more entry. -/
def put (v : Value) (e : String × Int) : Value :=
  v.set (path e.1) (.scalar (.integer (some e.2)))

/-- The value of a document that has only opened the table. -/
def opened : Value :=
  (Value.empty .header).set Bounds.root (.table .header)

theorem node?_opened (key : String) : opened.node? (path key) = none :=
  rfl

theorem node?_put_self (v : Value) (e : String × Int) :
    (put v e).node? (path e.1) = some (.scalar (.integer (some e.2))) :=
  List.lookup_cons_self

theorem node?_put_of_ne {p : Path} {e : String × Int} (h : p ≠ path e.1) :
    (put v e).node? p = v.node? p := by
  rw [put, Value.set, Value.node?, List.lookup_cons, beq_false_of_ne h]
  rfl

/-- What is at the path of a key when entries with different keys have been put. -/
theorem node?_foldl_put (hdistinct : (entries.map Prod.fst).Nodup) (v : Value) (key : String) :
    (entries.foldl put v).node? (path key) =
      match entries.lookup key with
      | some n => some (.scalar (.integer (some n)))
      | none => v.node? (path key) := by
  induction entries generalizing v with
  | nil => rfl
  | cons e rest ih =>
    rw [List.map_cons, List.nodup_cons] at hdistinct
    rw [List.foldl_cons, ih hdistinct.2, List.lookup_cons]
    -- What is put last is found first, so it matters that no later entry has the same key.
    by_cases h : key = e.1
    · have hrest : rest.lookup e.1 = none := by
        rw [List.lookup_eq_none_iff]
        intro d hd
        rw [bne_iff_ne]
        intro hsame
        exact hdistinct.1 (List.mem_map.2 ⟨d, hd, hsame.symm⟩)
      rw [h, hrest, beq_self_eq_true, node?_put_self]
    · rw [beq_false_of_ne h, node?_put_of_ne (mt path_injective h)]

theorem node?_root_foldl_put (entries : IntegerTable) (v : Value) :
    (entries.foldl put v).node? Bounds.root = v.node? Bounds.root := by
  induction entries generalizing v with
  | nil => rfl
  | cons e rest ih => rw [List.foldl_cons, ih, node?_put_of_ne (path_ne_root e.1).symm]

theorem add?_statement {e : String × Int} (hfresh : v.node? (path e.1) = none) :
    Document.add? ⟨v, Bounds.root⟩ (statement e) = some ⟨put v e, Bounds.root⟩ := by
  have hadd : Document.add? ⟨v, Bounds.root⟩ (statement e) =
      (if (v.node? (path e.1)).isSome then none else some (put v e)).map
        fun v => ⟨v, Bounds.root⟩ := rfl
  rw [hadd, hfresh]
  rfl

theorem foldlM_statements (hdistinct : (entries.map Prod.fst).Nodup)
    (hfresh : ∀ e ∈ entries, v.node? (path e.1) = none) :
    (entries.map statement).foldlM Document.add? ⟨v, Bounds.root⟩ =
      some ⟨entries.foldl put v, Bounds.root⟩ := by
  induction entries generalizing v with
  | nil => rfl
  | cons e rest ih =>
    rw [List.map_cons, List.nodup_cons] at hdistinct
    rw [List.forall_mem_cons] at hfresh
    rw [List.map_cons, List.foldlM_cons, add?_statement hfresh.1, List.foldl_cons]
    apply ih hdistinct.2
    intro d hd
    have hne : d.1 ≠ e.1 := by
      intro h
      exact hdistinct.1 (h ▸ List.mem_map_of_mem hd)
    rw [node?_put_of_ne (mt path_injective hne)]
    exact hfresh.2 d hd

theorem header_opens : Document.add? ⟨.empty .header, []⟩ (.header ⟨[], "table"⟩) =
    some ⟨opened, Bounds.root⟩ :=
  rfl

theorem forall_nodes_foldl_put {P : Node → Prop} (hv : ∀ x ∈ v.nodes, P x.2)
    (hentries : ∀ e ∈ entries, P (.scalar (.integer (some e.2)))) :
    ∀ x ∈ (entries.foldl put v).nodes, P x.2 := by
  induction entries generalizing v with
  | nil => exact hv
  | cons e rest ih =>
    rw [List.forall_mem_cons] at hentries
    rw [List.foldl_cons]
    exact ih (List.forall_mem_cons.2 ⟨hentries.1, hv⟩) hentries.2

theorem isRepresentable_integer (h : n ∈ Interval.signed64) :
    (Scalar.integer (some n)).isRepresentable = true := by
  have hlo : wideIntegers.lo ≤ Interval.signed64.lo := by decide
  have hhi : Interval.signed64.hi ≤ wideIntegers.hi := by decide
  exact decide_eq_true ⟨Int.le_trans hlo h.1, Int.le_trans h.2 hhi⟩

theorem isRepresentable_foldl_put (h : ∀ e ∈ entries, e.2 ∈ Interval.signed64) :
    Bounds.isRepresentable (entries.foldl put opened) = true := by
  have hscalar : ∀ x ∈ (entries.foldl put opened).nodes,
      ∀ s, x.2 = .scalar s → s.isRepresentable = true := by
    apply forall_nodes_foldl_put (P := fun node => ∀ s, node = .scalar s → s.isRepresentable = true)
    · intro x hx s hs
      rw [opened, Value.set, Value.empty, List.mem_cons, List.mem_singleton] at hx
      rcases hx with rfl | rfl <;> cases hs
    · rintro e he s ⟨⟩
      exact isRepresentable_integer (h e he)
  rw [Bounds.isRepresentable, List.all_eq_true]
  rintro ⟨p, node⟩ hx
  cases node with
  | scalar s =>
    rw [Bool.or_eq_true]
    exact .inl (hscalar _ hx s rfl)
  | _ => rfl

theorem ofNode?_foldl_put (hdistinct : (entries.map Prod.fst).Nodup) (key : String) :
    Bounds.ofNode? (entries.foldl put opened) (path key) = entries.field? key := by
  rw [Bounds.ofNode?, node?_foldl_put hdistinct, node?_opened, field?]
  cases entries.lookup key <;> rfl

/-- An integer that nothing can represent is a bound, and such a bound does not decode. -/
theorem ofValue?_foldl_put (h : entries.IsPlain) :
    Bounds.ofValue? (entries.foldl put opened) = entries.bounds? := by
  have hroot : (entries.foldl put opened).node? Bounds.root = some (.table .header) :=
    node?_root_foldl_put entries opened
  have hnodes : Bounds.ofNodes? (entries.foldl put opened) (path Axis.x.name) (path Axis.y.name) =
      entries.bounds? := by
    rw [Bounds.ofNodes?, ofNode?_foldl_put h.distinct, ofNode?_foldl_put h.distinct, bounds?]
  by_cases hall : ∀ e ∈ entries, e.2 ∈ Interval.signed64
  · rw [Bounds.ofValue?, if_pos (isRepresentable_foldl_put hall), hroot]
    exact hnodes
  · obtain ⟨e, he, hwide⟩ : ∃ e ∈ entries, e.2 ∉ Interval.signed64 := by
      by_contra hnot
      exact hall fun e he => by_contra fun hwide => hnot ⟨e, he, hwide⟩
    obtain ⟨axis, haxis⟩ := (h.fits e he).resolve_left hwide
    have hnone : entries.bounds? = none := by
      refine bounds?_eq_none_iff.2 ⟨axis, e.2, ?_, ?_⟩
      · exact haxis ▸ (lookup_eq_some_iff h.distinct).2 he
      · rintro ⟨hlo, hhi⟩
        exact hwide ⟨Int.le_trans (by decide) hlo, Int.le_trans hhi (by decide)⟩
    rw [hnone] at hnodes ⊢
    rw [Bounds.ofValue?, hroot]
    split
    · exact hnodes
    · rfl

/-- What the lines of a plain table say. -/
def statements (entries : IntegerTable) (blanks : Nat) : List Statement :=
  .header ⟨[], "table"⟩ :: entries.map statement ++ List.replicate blanks .blank

theorem says_statements (h : ∀ e ∈ entries, IsBareKey e.1) (blanks : Nat) :
    List.Forall₂ (fun line => Says line.toList) (lines entries blanks)
      (statements entries blanks) := by
  have hheader : Says "[table]".toList (.header ⟨[], "table"⟩) :=
    says_header (k := "table".toList) (by decide)
  apply List.rel_append
  · refine .cons hheader ?_
    rw [List.forall₂_map_left_iff, List.forall₂_map_right_iff, List.forall₂_same]
    exact fun e he => says_line (h e he)
  · induction blanks with
    | zero => exact .nil
    | succ blanks ih => exact .cons says_blank ih

theorem plain_of_mem_lines (h : ∀ e ∈ entries, IsBareKey e.1) {line : String}
    (hline : line ∈ lines entries blanks) : '\r' ∉ line.toList ∧ '\uFEFF' ∉ line.toList := by
  rcases List.mem_append.1 hline with hline | hblank
  · rcases List.mem_cons.1 hline with rfl | hentry
    · decide
    · obtain ⟨e, he, rfl⟩ := List.mem_map.1 hentry
      exact ⟨not_mem_line (h e he) (by decide) (by decide) (by decide),
        not_mem_line (h e he) (by decide) (by decide) (by decide)⟩
  · rw [List.eq_of_mem_replicate hblank]
    decide

theorem foldlM_blanks (d : Document) (blanks : Nat) :
    (List.replicate blanks Statement.blank).foldlM Document.add? d = some d := by
  induction blanks with
  | zero => rfl
  | succ blanks ih => exact ih

/-- Read as a document, a plain table is the table of its entries. -/
theorem ofText?_text (h : entries.IsPlain) (blanks : Nat) :
    Value.ofText? (text entries blanks) = some (entries.foldl put opened) := by
  have hne : lines entries blanks ≠ [] := List.cons_ne_nil _ _
  rw [text, ofText?_of_says hne (fun _ => plain_of_mem_lines h.bare)
      (says_statements h.bare blanks),
    statements, List.foldlM_append, List.foldlM_cons, header_opens, Option.bind_eq_bind,
    Option.bind_some, foldlM_statements h.distinct fun e _ => node?_opened e.1, Option.bind_some,
    foldlM_blanks]
  rfl

end IntegerTable

theorem Bounds.readsTables_ofToml : ReadsTables Bounds.ofToml where
  toOption_read entries h blanks := by
    rw [Bounds.toOption_ofToml, IntegerTable.ofText?_text h, Option.bind_some,
      IntegerTable.ofValue?_foldl_put h]

end Tabletop
