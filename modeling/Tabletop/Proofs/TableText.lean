import Tabletop.Bounds

/-!
Configurations written plainly: one table of integers, with an entry on each line. Of a reader of
TOML no more is asked than to read these.
-/

namespace Tabletop

/-- Integers by key, in the order in which they are written. -/
abbrev IntegerTable := List (String × Int)

namespace IntegerTable

/-- The line of an entry. -/
def line (e : String × Int) : String :=
  e.1 ++ " = " ++ toString e.2

/-- The lines of a configuration whose table has these entries, with empty lines at its end. -/
def lines (entries : IntegerTable) (blanks : Nat) : List String :=
  "[table]" :: entries.map line ++ List.replicate blanks ""

/-- The text of such a configuration. With no empty line at its end the last line lacks its line
feed. -/
def text (entries : IntegerTable) (blanks : Nat) : String :=
  "\n".intercalate (lines entries blanks)

/-- A key that needs no quotes. -/
def IsBareKey (k : String) : Prop :=
  k ≠ "" ∧ ∀ c ∈ k.toList, c.isAlphanum = true ∨ c = '_' ∨ c = '-'

/-- Entries that make a table: no key is there twice or in need of quotes, and integers have the 64
bits that TOML asks a reader for. Only the two bounds may be of any size. -/
structure IsPlain (entries : IntegerTable) : Prop where
  distinct : (entries.map Prod.fst).Nodup
  bare : ∀ e ∈ entries, IsBareKey e.1
  fits : ∀ e ∈ entries, e.2 ∈ Interval.signed64 ∨ ∃ axis : Axis, e.1 = axis.name

/-- The 32-bit integer at a key that may be missing. -/
def field? (entries : IntegerTable) (key : String) : Option (Option Int32) :=
  match entries.lookup key with
  | none => some none
  | some n => if n ∈ Interval.signed32 then some (some (.ofInt n)) else none

/-- The bounds that entries decode to, all other entries being passed over. -/
def bounds? (entries : IntegerTable) : Option Bounds := do
  return ⟨← field? entries Axis.x.name, ← field? entries Axis.y.name⟩

theorem lookup_eq_some_iff {entries : IntegerTable} {key : String} {n : Int}
    (hdistinct : (entries.map Prod.fst).Nodup) :
    entries.lookup key = some n ↔ (key, n) ∈ entries := by
  rw [List.lookup_eq_some_iff]
  constructor
  · rintro ⟨before, rest, rfl, -⟩
    exact List.mem_append_right _ List.mem_cons_self
  · intro h
    obtain ⟨before, rest, rfl⟩ := List.append_of_mem h
    rw [List.map_append, List.map_cons, List.nodup_append] at hdistinct
    refine ⟨before, rest, rfl, fun e he => ?_⟩
    rw [bne_iff_ne]
    exact (hdistinct.2.2 e.1 (List.mem_map_of_mem he) key List.mem_cons_self).symm

theorem field?_eq_none_iff {entries : IntegerTable} {key : String} :
    field? entries key = none ↔ ∃ n, entries.lookup key = some n ∧ n ∉ Interval.signed32 := by
  rw [field?]
  cases entries.lookup key with
  | none => exact ⟨nofun, fun ⟨n, h, _⟩ => nomatch h⟩
  | some n =>
    by_cases hn : n ∈ Interval.signed32
    · simp [hn]
    · simp [hn]

theorem bounds?_eq_none_iff {entries : IntegerTable} :
    bounds? entries = none ↔
      ∃ (axis : Axis) (n : Int), entries.lookup axis.name = some n ∧ n ∉ Interval.signed32 := by
  have haxes : bounds? entries = none ↔ ∃ axis : Axis, field? entries axis.name = none := by
    rw [bounds?]
    constructor
    · intro h
      cases hx : field? entries Axis.x.name with
      | none => exact ⟨.x, hx⟩
      | some x =>
        cases hy : field? entries Axis.y.name with
        | none => exact ⟨.y, hy⟩
        | some y =>
          rw [hx, hy] at h
          cases h
    · rintro ⟨axis, h⟩
      cases axis with
      | x => rw [h]; rfl
      | y =>
        rw [h]
        cases field? entries Axis.x.name <;> rfl
  simp only [haxes, field?_eq_none_iff]

end IntegerTable

/-- A reader that knows TOML and the layout of a configuration: it makes of a plain table what its
entries decode to, and refuses it if they do not decode. -/
structure ReadsTables (read : BoundsReader) : Prop where
  toOption_read : ∀ entries : IntegerTable, entries.IsPlain → ∀ blanks,
    (read (entries.text blanks)).toOption = entries.bounds?

end Tabletop
