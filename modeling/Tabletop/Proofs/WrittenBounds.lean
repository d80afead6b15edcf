import Tabletop.Proofs.Resolution
import Tabletop.Proofs.TomlTables

/-!
Bounds written in a configuration. Integers of any size on lines `max_x = a` and `max_y = b` of a
table are the bounds that it sets if all of them have 32 bits, and otherwise it sets none.
-/

namespace Tabletop

open Toml

namespace Axis

theorem isBareKey_name (axis : Axis) : IntegerTable.IsBareKey axis.name := by
  have hne : axis.name ≠ "" := by cases axis <;> decide
  have hall : axis.name.toList.all isBareKey = true := by cases axis <;> decide
  refine ⟨hne, fun c hc => ?_⟩
  have hbare := List.all_eq_true.1 hall c hc
  rwa [isBareKey, Bool.or_eq_true, Bool.or_eq_true, beq_iff_eq, beq_iff_eq, or_assoc] at hbare

theorem name_injective {a b : Axis} (h : a.name = b.name) : a = b := by
  revert h
  cases a <;> cases b <;> decide

end Axis

namespace Bounds

variable {axis : Axis} {n : Int} {entries : List (Axis × Int)} {blanks : Nat}

/-- Bounds by axis as a table of integers by name. -/
def named (entries : List (Axis × Int)) : IntegerTable :=
  entries.map fun e => (e.1.name, e.2)

/-- The text of a configuration that has these bounds and nothing else, one on each line, with empty
lines at its end. -/
def written (entries : List (Axis × Int)) (blanks : Nat) : String :=
  (named entries).text blanks

theorem isPlain_named (hdistinct : (entries.map Prod.fst).Nodup) : (named entries).IsPlain where
  distinct := by
    have hnames : (named entries).map Prod.fst = (entries.map Prod.fst).map Axis.name := by
      rw [named, List.map_map, List.map_map]
      rfl
    rw [hnames, List.nodup_iff_pairwise_ne, List.pairwise_map]
    exact hdistinct.imp (mt Axis.name_injective)
  bare := List.forall_mem_map.2 fun e _ => e.1.isBareKey_name
  fits := List.forall_mem_map.2 fun e _ => .inr ⟨e.1, rfl⟩

theorem lookup_named (entries : List (Axis × Int)) (axis : Axis) :
    (named entries).lookup axis.name = entries.lookup axis := by
  induction entries with
  | nil => rfl
  | cons e rest ih =>
    have hbeq : (axis.name == e.1.name) = (axis == e.1) := by
      cases axis <;> cases e.1 <;> decide
    rw [named, List.map_cons, List.lookup_cons, List.lookup_cons, hbeq]
    cases axis == e.1 with
    | true => rfl
    | false => exact ih

theorem mem_of_lookup (h : entries.lookup axis = some n) : (axis, n) ∈ entries := by
  obtain ⟨before, rest, rfl, -⟩ := List.lookup_eq_some_iff.1 h
  exact List.mem_append_right _ List.mem_cons_self

theorem bounds?_named (hfits : ∀ e ∈ entries, e.2 ∈ Interval.signed32) :
    (named entries).bounds? =
      some ⟨(entries.lookup .x).map Int32.ofInt, (entries.lookup .y).map Int32.ofInt⟩ := by
  have hfield (axis : Axis) : (named entries).field? axis.name =
      some ((entries.lookup axis).map Int32.ofInt) := by
    rw [IntegerTable.field?, lookup_named]
    cases hlookup : entries.lookup axis with
    | none => rfl
    | some n =>
      have hn : n ∈ Interval.signed32 := hfits _ (mem_of_lookup hlookup)
      simp only [if_pos hn, Option.map_some]
  rw [IntegerTable.bounds?, hfield, hfield]
  rfl

theorem bounds?_named_of_over (hdistinct : (entries.map Prod.fst).Nodup)
    (hover : ∃ e ∈ entries, e.2 ∉ Interval.signed32) : (named entries).bounds? = none := by
  obtain ⟨⟨axis, n⟩, hmem, hn⟩ := hover
  refine IntegerTable.bounds?_eq_none_iff.2 ⟨axis, n, ?_, hn⟩
  rw [IntegerTable.lookup_eq_some_iff (isPlain_named hdistinct).distinct]
  exact List.mem_map.2 ⟨_, hmem, rfl⟩

variable {read : BoundsReader} {files : Files} {path : String} {env : Environment}

theorem holds_written (hread : ReadsTables read) (hdistinct : (entries.map Prod.fst).Nodup)
    (htext : files.text path = .ok (written entries blanks))
    (hfits : ∀ e ∈ entries, e.2 ∈ Interval.signed32) :
    Holds read files path
      ⟨(entries.lookup .x).map Int32.ofInt, (entries.lookup .y).map Int32.ofInt⟩ := by
  have h := hread.toOption_read _ (isPlain_named hdistinct) blanks
  rw [bounds?_named hfits, ← written] at h
  refine ⟨_, htext, ?_⟩
  cases hb : read (written entries blanks) with
  | error e =>
    rw [hb] at h
    cases h
  | ok b =>
    rw [hb] at h
    exact congrArg Except.ok (Option.some.inj h)

theorem refuses_written (hread : ReadsTables read) (hdistinct : (entries.map Prod.fst).Nodup)
    (hover : ∃ e ∈ entries, e.2 ∉ Interval.signed32) (blanks : Nat) :
    ∃ e, read (written entries blanks) = .error e := by
  have h := hread.toOption_read _ (isPlain_named hdistinct) blanks
  rw [bounds?_named_of_over hdistinct hover, ← written] at h
  cases hb : read (written entries blanks) with
  | error e => exact ⟨e, rfl⟩
  | ok b =>
    rw [hb] at h
    cases h

theorem exists_takes {n? : Option Int} (h : ∀ n ∈ n?, n ∈ Interval.signed32) :
    ∃ v : Int32, Takes none none (n?.map Int32.ofInt) v ∧ v.toInt = n?.getD 5 := by
  cases n? with
  | none => exact ⟨5, .standard, rfl⟩
  | some n =>
    obtain ⟨hlo, hhi⟩ := h n rfl
    exact ⟨.ofInt n, .file, Int32.toInt_ofInt_of_le hlo (Int.lt_add_one_of_le hhi)⟩

/-- With a reader that reads tables of integers, a configuration sets exactly the bounds that it
writes, all or none. If one of them does not have 32 bits, the file is at fault: asked for it is told
so in the reader's words, and merely found it counts for nothing, the other bound included. Otherwise
it does not matter how the file was come by: a bound that is not written is the standard one, and the
first negative bound is an error. -/
theorem resolve_written (hread : ReadsTables read) (hdistinct : (entries.map Prod.fst).Nodup)
    (htext : files.text path = .ok (written entries blanks))
    (hx : env Axis.x.envName = none) (hy : env Axis.y.envName = none)
    (implicit? : Option String) :
    let x := (entries.lookup .x).getD 5
    let y := (entries.lookup .y).getD 5
    let asked := resolve read {} env files (some path) implicit?
    let found := resolve read {} env files none (some path)
    ((∃ e ∈ entries, e.2 ∉ Interval.signed32) →
        (∃ e, read (written entries blanks) = .error e ∧ asked = .error (.parse path e)) ∧
          found = .ok ⟨5, 5⟩) ∧
      ((∀ e ∈ entries, e.2 ∈ Interval.signed32) →
        found = asked ∧
          (x < 0 → ∃ v : Int32, v.toInt = x ∧ asked = .error (.negative .x v)) ∧
          (0 ≤ x → y < 0 → ∃ v : Int32, v.toInt = y ∧ asked = .error (.negative .y v)) ∧
          (0 ≤ x → 0 ≤ y → ∃ t : Table, t.maxX.toInt = x ∧ t.maxY.toInt = y ∧ asked = .ok t)) := by
  intro x y asked found
  constructor
  · intro hover
    obtain ⟨e, he⟩ := refuses_written hread hdistinct hover blanks
    have hfaulty : Faulty read files path (.parse path e) := .parse htext he
    refine ⟨⟨e, he, resolve_of_faulty hfaulty⟩, ?_⟩
    have htakes {raw? : Option String} (hraw : raw? = none) : Takes none raw? none 5 :=
      hraw ▸ .standard
    exact resolve_of_resolves (.spoiled hfaulty)
      (.settled (htakes hx) (htakes hy) (by decide) (by decide))
  · intro hfits
    have hholds := holds_written hread hdistinct htext hfits
    have hlookup (axis : Axis) : ∀ n ∈ entries.lookup axis, n ∈ Interval.signed32 :=
      fun n hn => hfits _ (mem_of_lookup hn)
    obtain ⟨v, hv, hvx⟩ := exists_takes (hlookup .x)
    obtain ⟨w, hw, hwy⟩ := exists_takes (hlookup .y)
    rw [← hx] at hv
    rw [← hy] at hw
    have hresolves {result : Except BoundsError Table}
        (h : Resolves {} env ⟨(entries.lookup .x).map Int32.ofInt,
          (entries.lookup .y).map Int32.ofInt⟩ result) : asked = result ∧ found = result :=
      ⟨resolve_of_resolves (.asked hholds) h, resolve_of_resolves (.found hholds) h⟩
    have hx' : x = v.toInt := hvx.symm
    have hy' : y = w.toInt := hwy.symm
    rw [hx', hy']
    refine ⟨?_, ?_, ?_, ?_⟩
    · obtain ⟨result, h⟩ := exists_resolves {} env _
      obtain ⟨hasked, hfound⟩ := hresolves h
      rw [hasked, hfound]
    · intro hneg
      exact ⟨v, rfl, (hresolves (.negativeX hv hw hneg)).1⟩
    · intro hnonneg hneg
      exact ⟨w, rfl, (hresolves (.negativeY hv hw hnonneg hneg)).1⟩
    · intro hxnonneg hynonneg
      exact ⟨⟨v, w⟩, rfl, rfl, (hresolves (.settled hv hw hxnonneg hynonneg)).1⟩

theorem resolve_written_of_wide_and_negative :
    let wide : List (Axis × Int) := [(.y, 340282366920938463463374607431768211456), (.x, 3)]
    let negative : List (Axis × Int) := [(.y, -3), (.x, 7)]
    let files : Files :=
      { locate := fun path => .ok (if path = "wide.toml" then 0 else 1)
        entry := fun place =>
          .ok (.file (.ofText (if place = 0 then written wide 0 else written negative 1))) }
    let env : Environment := fun _ => none
    (wide.map Prod.fst).Nodup ∧ (negative.map Prod.fst).Nodup ∧
      written wide 0 = "[table]\nmax_y = 340282366920938463463374607431768211456\nmax_x = 3" ∧
      written negative 1 = "[table]\nmax_y = -3\nmax_x = 7\n" ∧
      files.text "wide.toml" = .ok (written wide 0) ∧
      files.text "robot.toml" = .ok (written negative 1) ∧
      ((∃ e, ofToml (written wide 0) = .error e ∧
          resolve ofToml {} env files (some "wide.toml") none = .error (.parse "wide.toml" e)) ∧
        resolve ofToml {} env files none (some "wide.toml") = .ok ⟨5, 5⟩) ∧
      resolve ofToml {} env files none (some "robot.toml") =
          resolve ofToml {} env files (some "robot.toml") none ∧
        ∃ v : Int32, v.toInt = -3 ∧
          resolve ofToml {} env files (some "robot.toml") none = .error (.negative .y v) := by
  intro wide negative files env
  have hwide : (wide.map Prod.fst).Nodup := by decide
  have hnegative : (negative.map Prod.fst).Nodup := by decide
  have hwideText : files.text "wide.toml" = .ok (written wide 0) := Files.text_eq_ok_iff.2 rfl
  have hnegativeText : files.text "robot.toml" = .ok (written negative 1) :=
    Files.text_eq_ok_iff.2 rfl
  have hx : env Axis.x.envName = none := rfl
  have hy : env Axis.y.envName = none := rfl
  have hover : ∃ e ∈ wide, e.2 ∉ Interval.signed32 := by decide
  have hfits : ∀ e ∈ negative, e.2 ∈ Interval.signed32 := by decide
  obtain ⟨hsame, -, hnegativeY, -⟩ :=
    (resolve_written readsTables_ofToml hnegative hnegativeText hx hy none).2 hfits
  exact ⟨hwide, hnegative, by decide +kernel, by decide +kernel, hwideText, hnegativeText,
    (resolve_written readsTables_ofToml hwide hwideText hx hy none).1 hover, hsame,
    hnegativeY (by decide) (by decide)⟩

end Bounds

end Tabletop
