import Tabletop.Proofs.Decimal
import Tabletop.Proofs.Rules
import Tabletop.Toml.Bounds

/-!
Where the bounds come from and what is wrong with them: each axis has one source that counts, and
of several faults the first in a fixed order is told.
-/

namespace Tabletop

namespace Bounds

/-- The bound of an axis by its flag, its environment variable and the configuration, of which the
first that is there counts. -/
inductive Takes : Option Int32 → Option String → Option Int32 → Int32 → Prop where
  | flag {n : Int32} {raw? : Option String} {file? : Option Int32} : Takes (some n) raw? file? n
  | environment {n : Int32} {raw : String} {file? : Option Int32}
      (h : Numeral.Writes (Text.trim raw).toList n.toInt) : Takes none (some raw) file? n
  | file {n : Int32} : Takes none none (some n) n
  | standard : Takes none none none 5

/-- Without a flag, an environment variable that is set to no 32-bit integer is a fault. -/
structure Garbled (flag? : Option Int32) (raw? : Option String) (raw : String) : Prop where
  no_flag : flag? = none
  is_set : raw? = some raw
  not_writes : ∀ n ∈ Interval.signed32, ¬ Numeral.Writes (Text.trim raw).toList n

/-- What a configuration file that is asked for can be blamed for: that it has no text, or that the
reader refuses its text. -/
inductive Faulty (read : BoundsReader) (files : Files) (path : String) : BoundsError → Prop where
  | read {e : FileError} (h : files.text path = .error e) : Faulty read files path (.read path e)
  | parse {text e : String} (h : files.text path = .ok text) (he : read text = .error e) :
      Faulty read files path (.parse path e)

/-- The text of a configuration file is read as these bounds, of which either may be left open. -/
def Holds (read : BoundsReader) (files : Files) (path : String) (b : Bounds) : Prop :=
  ∃ text, files.text path = .ok text ∧ read text = .ok b

/-- The bounds that the configuration gives: those of the file that is asked for, or else of the one
looked for if it is there and nothing is wrong with it. -/
inductive Configures (read : BoundsReader) (files : Files) :
    Option String → Option String → Bounds → Prop where
  | asked {path : String} {implicit? : Option String} {b : Bounds}
      (h : Holds read files path b) : Configures read files (some path) implicit? b
  | found {path : String} {b : Bounds} (h : Holds read files path b) :
      Configures read files none (some path) b
  | spoiled {path : String} {e : BoundsError} (h : Faulty read files path e) :
      Configures read files none (some path) {}
  | missing {path : String} (h : files.has path = false) : Configures read files none (some path) {}
  | absent : Configures read files none none {}

/-- What is settled on where the bounds of the configuration are known: of all faults the first in
this order, or the table with the bounds that the two axes take. -/
inductive Resolves (flags : Bounds) (env : Environment) (file : Bounds) :
    Except BoundsError Table → Prop where
  | environmentX {raw : String} (hx : Garbled flags.maxX (env "ROBOT_MAX_X") raw) :
      Resolves flags env file (.error (.environment .x raw))
  | environmentY {x : Int32} {raw : String} (hx : Takes flags.maxX (env "ROBOT_MAX_X") file.maxX x)
      (hy : Garbled flags.maxY (env "ROBOT_MAX_Y") raw) :
      Resolves flags env file (.error (.environment .y raw))
  | negativeX {x y : Int32} (hx : Takes flags.maxX (env "ROBOT_MAX_X") file.maxX x)
      (hy : Takes flags.maxY (env "ROBOT_MAX_Y") file.maxY y) (hneg : x.toInt < 0) :
      Resolves flags env file (.error (.negative .x x))
  | negativeY {x y : Int32} (hx : Takes flags.maxX (env "ROBOT_MAX_X") file.maxX x)
      (hy : Takes flags.maxY (env "ROBOT_MAX_Y") file.maxY y) (hnonneg : 0 ≤ x.toInt)
      (hneg : y.toInt < 0) : Resolves flags env file (.error (.negative .y y))
  | settled {x y : Int32} (hx : Takes flags.maxX (env "ROBOT_MAX_X") file.maxX x)
      (hy : Takes flags.maxY (env "ROBOT_MAX_Y") file.maxY y) (hxnonneg : 0 ≤ x.toInt)
      (hynonneg : 0 ≤ y.toInt) : Resolves flags env file (.ok ⟨x, y⟩)

end Bounds

variable {raw : String} {n x y : Int32} {flag? file? : Option Int32} {raw? : Option String}

theorem readInt32?_eq_some_iff {s : String} :
    readInt32? s = some n ↔ Numeral.Writes s.toList n.toInt := by
  have hzero : 0 ∈ Interval.signed32 := by decide
  have hscan {k : Int} : Numeral.read? .signed32 s = some k ↔
      Numeral.Writes s.toList k ∧ k ∈ Interval.signed32 := by
    rw [← Numeral.scan_eq_value_iff hzero, Numeral.read?]
    split <;> simp_all
  rw [readInt32?, Option.map_eq_some_iff]
  constructor
  · rintro ⟨k, hread, rfl⟩
    obtain ⟨hwrites, hlo, hhi⟩ := hscan.1 hread
    rw [Int32.toInt_ofInt_of_le hlo (Int.lt_add_one_of_le hhi)]
    exact hwrites
  · intro hwrites
    have hmem : n.toInt ∈ Interval.signed32 := ⟨n.le_toInt, Int.le_of_lt_add_one n.toInt_lt⟩
    exact ⟨n.toInt, hscan.2 ⟨hwrites, hmem⟩, Int32.ofInt_toInt n⟩

theorem readInt32?_eq_none_iff {s : String} :
    readInt32? s = none ↔ ∀ n ∈ Interval.signed32, ¬ Numeral.Writes s.toList n := by
  rw [Option.eq_none_iff_forall_ne_some]
  constructor
  · intro h n hn hwrites
    apply h (.ofInt n)
    rw [readInt32?_eq_some_iff, Int32.toInt_ofInt_of_le hn.1 (Int.lt_add_one_of_le hn.2)]
    exact hwrites
  · intro h n hread
    exact h n.toInt ⟨n.le_toInt, Int.le_of_lt_add_one n.toInt_lt⟩ (readInt32?_eq_some_iff.1 hread)

namespace Bounds

variable {flags file : Bounds} {env : Environment} {axis : Axis} {e : BoundsError}
variable {read : BoundsReader} {files : Files} {path : String}
variable {explicit? implicit? : Option String}
variable {result : Except BoundsError Table}

theorem pick_of_takes (h : Takes (flags.get axis) (env axis.envName) (file.get axis) n) :
    pick flags env file axis = .ok n := by
  rw [pick]
  generalize flags.get axis = flag?, env axis.envName = raw?, file.get axis = file? at h ⊢
  cases h with
  | flag => rfl
  | environment hwrites => simp only [readInt32?_eq_some_iff.2 hwrites]
  | file => rfl
  | standard => rfl

theorem pick_of_garbled (h : Garbled (flags.get axis) (env axis.envName) raw) :
    pick flags env file axis = .error (.environment axis raw) := by
  simp only [pick, h.no_flag, h.is_set, readInt32?_eq_none_iff.2 h.not_writes]

theorem takes_or_garbled (flag? : Option Int32) (raw? : Option String) (file? : Option Int32) :
    (∃ n, Takes flag? raw? file? n) ∨ ∃ raw, Garbled flag? raw? raw := by
  cases flag? with
  | some n => exact .inl ⟨n, .flag⟩
  | none =>
    cases raw? with
    | none =>
      cases file? with
      | some n => exact .inl ⟨n, .file⟩
      | none => exact .inl ⟨5, .standard⟩
    | some raw =>
      cases hread : readInt32? (Text.trim raw) with
      | some n => exact .inl ⟨n, .environment (readInt32?_eq_some_iff.1 hread)⟩
      | none => exact .inr ⟨raw, rfl, rfl, readInt32?_eq_none_iff.1 hread⟩

theorem ofFile_eq_error_iff : ofFile read files path = .error e ↔ Faulty read files path e := by
  rw [ofFile]
  constructor
  · intro h
    split at h
    · next he =>
      cases h
      exact .read he
    · next text htext =>
      split at h
      · cases h
      · next he =>
        cases h
        exact .parse htext he
  · intro h
    cases h with
    | read he => simp only [he]
    | parse htext he => simp only [htext, he]

theorem ofFile_eq_ok_iff {b : Bounds} : ofFile read files path = .ok b ↔ Holds read files path b := by
  rw [ofFile]
  constructor
  · intro h
    split at h
    · cases h
    · next text htext =>
      split at h
      · next hb =>
        cases h
        exact ⟨text, htext, hb⟩
      · cases h
  · rintro ⟨text, htext, hb⟩
    simp only [htext, hb]

theorem faulty_or_holds (read : BoundsReader) (files : Files) (path : String) :
    (∃ e, Faulty read files path e) ∨ ∃ b, Holds read files path b := by
  cases h : ofFile read files path with
  | error e => exact .inl ⟨e, ofFile_eq_error_iff.1 h⟩
  | ok b => exact .inr ⟨b, ofFile_eq_ok_iff.1 h⟩

theorem Holds.has {b : Bounds} (h : Holds read files path b) : files.has path = true := by
  obtain ⟨text, htext, -⟩ := h
  exact Files.has_of_entryAt_ok (Files.text_eq_ok_iff.1 htext)

/-- That the file is there follows where it holds bounds and does not matter where it is faulty. -/
theorem ofConfig_none_some (read : BoundsReader) (files : Files) (path : String) :
    ofConfig read files none (some path) =
      .ok ((ofFile read files path).toOption.getD {}) := by
  cases h : ofFile read files path with
  | error e =>
    simp only [ofConfig, h]
    exact ite_self _
  | ok b =>
    simp only [ofConfig, (ofFile_eq_ok_iff.1 h).has, if_true, h]
    rfl

theorem ofConfig_of_configures (h : Configures read files explicit? implicit? file) :
    ofConfig read files explicit? implicit? = .ok file := by
  cases h with
  | asked h => exact ofFile_eq_ok_iff.2 h
  | found h =>
    rw [ofConfig_none_some, ofFile_eq_ok_iff.2 h]
    rfl
  | spoiled h =>
    rw [ofConfig_none_some, ofFile_eq_error_iff.2 h]
    rfl
  | missing h => simp only [ofConfig, h, Bool.false_eq_true, if_false]
  | absent => rfl

/-- Of all files only one matters, and of that only what opening its path gives. -/
theorem ofConfig_congr {files' : Files} (h : ∀ path, explicit?.or implicit? = some path →
    files'.entryAt path = files.entryAt path) :
    ofConfig read files' explicit? implicit? = ofConfig read files explicit? implicit? := by
  have hofFile (path : String) (hpath : explicit?.or implicit? = some path) :
      ofFile read files' path = ofFile read files path := by
    rw [ofFile, ofFile, Files.text, Files.text, h path hpath]
  cases explicit? with
  | some path => exact hofFile path rfl
  | none =>
    cases implicit? with
    | none => rfl
    | some path => rw [ofConfig_none_some, ofConfig_none_some, hofFile path rfl]

theorem faulty_or_configures (read : BoundsReader) (files : Files)
    (explicit? implicit? : Option String) :
    (∃ path e, explicit? = some path ∧ Faulty read files path e) ∨
      ∃ file, Configures read files explicit? implicit? file := by
  cases explicit? with
  | some path =>
    rcases faulty_or_holds read files path with ⟨e, h⟩ | ⟨b, h⟩
    · exact .inl ⟨path, e, rfl, h⟩
    · exact .inr ⟨b, .asked h⟩
  | none =>
    cases implicit? with
    | none => exact .inr ⟨{}, .absent⟩
    | some path =>
      rcases faulty_or_holds read files path with ⟨e, h⟩ | ⟨b, h⟩
      · exact .inr ⟨{}, .spoiled h⟩
      · exact .inr ⟨b, .found h⟩

theorem exists_resolves (flags : Bounds) (env : Environment) (file : Bounds) :
    ∃ result, Resolves flags env file result := by
  rcases takes_or_garbled flags.maxX (env "ROBOT_MAX_X") file.maxX with ⟨x, hx⟩ | ⟨raw, hx⟩
  · rcases takes_or_garbled flags.maxY (env "ROBOT_MAX_Y") file.maxY with ⟨y, hy⟩ | ⟨raw, hy⟩
    · by_cases hxneg : x.toInt < 0
      · exact ⟨_, .negativeX hx hy hxneg⟩
      · by_cases hyneg : y.toInt < 0
        · exact ⟨_, .negativeY hx hy (Int.not_lt.1 hxneg) hyneg⟩
        · exact ⟨_, .settled hx hy (Int.not_lt.1 hxneg) (Int.not_lt.1 hyneg)⟩
    · exact ⟨_, .environmentY hx hy⟩
  · exact ⟨_, .environmentX hx⟩

theorem check_of_neg (h : n.toInt < 0) : check axis n = .error (.negative axis n) :=
  if_pos h

theorem check_of_nonneg (h : 0 ≤ n.toInt) : check axis n = .ok n :=
  if_neg (Int.not_lt.2 h)

theorem resolve_of_configures (hfile : Configures read files explicit? implicit? file) :
    resolve read flags env files explicit? implicit? = (do
      let x ← pick flags env file .x
      let y ← pick flags env file .y
      return ⟨← check .x x, ← check .y y⟩) := by
  rw [resolve, ofConfig_of_configures hfile]
  rfl

theorem resolve_of_takes (hfile : Configures read files explicit? implicit? file)
    (hx : Takes flags.maxX (env "ROBOT_MAX_X") file.maxX x)
    (hy : Takes flags.maxY (env "ROBOT_MAX_Y") file.maxY y) :
    resolve read flags env files explicit? implicit? = (do
      return ⟨← check .x x, ← check .y y⟩) := by
  have hpickX : pick flags env file .x = .ok x := pick_of_takes hx
  have hpickY : pick flags env file .y = .ok y := pick_of_takes hy
  rw [resolve_of_configures hfile, hpickX, hpickY]
  rfl

theorem resolve_of_resolves (hfile : Configures read files explicit? implicit? file)
    (h : Resolves flags env file result) :
    resolve read flags env files explicit? implicit? = result := by
  cases h with
  | environmentX hx =>
    have hpickX : pick flags env file .x = _ := pick_of_garbled hx
    rw [resolve_of_configures hfile, hpickX]
    rfl
  | environmentY hx hy =>
    have hpickX : pick flags env file .x = _ := pick_of_takes hx
    have hpickY : pick flags env file .y = _ := pick_of_garbled hy
    rw [resolve_of_configures hfile, hpickX, hpickY]
    rfl
  | negativeX hx hy hneg =>
    rw [resolve_of_takes hfile hx hy, check_of_neg hneg]
    rfl
  | negativeY hx hy hnonneg hneg =>
    rw [resolve_of_takes hfile hx hy, check_of_nonneg hnonneg, check_of_neg hneg]
    rfl
  | settled hx hy hxnonneg hynonneg =>
    rw [resolve_of_takes hfile hx hy, check_of_nonneg hxnonneg, check_of_nonneg hynonneg]
    rfl

/-- What is settled on follows from the sources alone, and at most one thing follows. -/
theorem resolve_eq_iff_resolves (hfile : Configures read files explicit? implicit? file) :
    resolve read flags env files explicit? implicit? = result ↔ Resolves flags env file result := by
  constructor
  · rintro rfl
    obtain ⟨result, h⟩ := exists_resolves flags env file
    rw [resolve_of_resolves hfile h]
    exact h
  · exact resolve_of_resolves hfile

theorem resolve_of_faulty (h : Faulty read files path e) :
    resolve read flags env files (some path) implicit? = .error e := by
  rw [resolve, ofConfig, ofFile_eq_error_iff.2 h]
  rfl

/-- A table that is settled on has bounds that are not negative. -/
theorem nonneg_of_resolve {t : Table}
    (h : resolve read flags env files explicit? implicit? = .ok t) :
    0 ≤ t.maxX.toInt ∧ 0 ≤ t.maxY.toInt := by
  rcases faulty_or_configures read files explicit? implicit? with
    ⟨path, e, rfl, hfaulty⟩ | ⟨file, hfile⟩
  · rw [resolve_of_faulty hfaulty] at h
    cases h
  · cases (resolve_eq_iff_resolves hfile).1 h with
    | settled hx hy hxnonneg hynonneg => exact ⟨hxnonneg, hynonneg⟩

end Bounds

theorem Table.origin_mem {t : Table} (h : 0 ≤ t.maxX.toInt ∧ 0 ≤ t.maxY.toInt) :
    (⟨0, 0⟩ : Point) ∈ t :=
  ⟨⟨Int.le_refl 0, h.1⟩, Int.le_refl 0, h.2⟩

theorem Command.read_place_origin (facing : Heading) :
    Command.read ("PLACE 0,0," ++ facing.name) = .ok (.place 0 0 facing) := by
  cases facing <;> rfl

/-- One precedence and one order of faults for all sources together, whatever reads the text of a
configuration. A file that is asked for and faulty is told whatever the rest says; otherwise the
bounds of the configuration are known, and the outcome is the one that `Resolves` gives. A table that
is settled on has the origin, and the robot can be placed there. -/
theorem Bounds.resolve_precedence (read : BoundsReader) (flags : Bounds) (env : Environment)
    (files : Files) (explicit? implicit? : Option String) :
    (∀ path e, explicit? = some path → Faulty read files path e →
      resolve read flags env files explicit? implicit? = .error e) ∧
    ((∃ path e, explicit? = some path ∧ Faulty read files path e) ∨
      ∃ file, Configures read files explicit? implicit? file) ∧
    (∀ file, Configures read files explicit? implicit? file →
      ∀ result, resolve read flags env files explicit? implicit? = result ↔
        Resolves flags env file result) ∧
    ∀ t, resolve read flags env files explicit? implicit? = .ok t →
      (0 ≤ t.maxX.toInt ∧ 0 ≤ t.maxY.toInt) ∧ (⟨0, 0⟩ : Point) ∈ t ∧
        ∀ (r : Robot) (facing : Heading),
          r.heed t (Command.read ("PLACE 0,0," ++ facing.name)) =
            (⟨⟨⟨0, 0⟩, facing⟩, true⟩, .accepted none) := by
  refine ⟨?faulty, faulty_or_configures read files explicit? implicit?, ?resolves, ?origin⟩
  case faulty =>
    rintro path e rfl hfaulty
    exact resolve_of_faulty hfaulty
  case resolves =>
    intro file hfile result
    exact resolve_eq_iff_resolves hfile
  case origin =>
    intro t ht
    have hnonneg := nonneg_of_resolve ht
    have hmem := Table.origin_mem hnonneg
    refine ⟨hnonneg, hmem, fun r facing => ?_⟩
    rw [Command.read_place_origin]
    exact Robot.obey_place_of_mem facing rfl hmem r

theorem Bounds.resolve_precedence_of_masked_faults :
    let text := "[table]\nmax_x = -9\nmax_y = 3\n"
    let files : Files :=
      { locate := fun path => if path = "robot.toml" then .ok 0 else .error .notFound
        entry := fun _ => .ok (.file (.ofText text)) }
    let broken : Environment := fun name =>
      if name = Axis.y.envName then some " +4_" else none
    let whole : Environment := fun name =>
      if name = Axis.x.envName then some " +4\t" else none
    resolve ofToml {} broken files (some "gone.toml") (some "robot.toml") =
        .error (.read "gone.toml" .notFound) ∧
      resolve ofToml {} broken files (some "robot.toml") none =
        .error (.environment .y " +4_") ∧
      resolve ofToml ⟨none, some 7⟩ broken files none (some "robot.toml") =
        .error (.negative .x (-9)) ∧
      resolve ofToml {} whole files none (some "robot.toml") = .ok ⟨4, 3⟩ := by
  intro text files broken whole
  have hholds : Holds ofToml files "robot.toml" ⟨some (-9), some 3⟩ :=
    ⟨text, Files.text_eq_ok_iff.2 rfl, ofToml_eq_ok (by decide +kernel)⟩
  refine ⟨?_, ?_, ?_, ?_⟩
  · exact (resolve_precedence ofToml {} broken files (some "gone.toml") (some "robot.toml")).1
      "gone.toml" _ rfl (.read rfl)
  · refine ((resolve_precedence ofToml {} broken files (some "robot.toml") none).2.2.1 _
      (.asked hholds) _).2 (.environmentY .file ⟨rfl, rfl, ?_⟩)
    rw [← readInt32?_eq_none_iff]
    decide +kernel
  · exact ((resolve_precedence ofToml ⟨none, some 7⟩ broken files none (some "robot.toml")).2.2.1 _
      (.found hholds) _).2 (.negativeX .file .flag (by decide))
  · refine ((resolve_precedence ofToml {} whole files none (some "robot.toml")).2.2.1 _
      (.found hholds) _).2 (.settled (.environment ?_) .file (by decide) (by decide))
    rw [← readInt32?_eq_some_iff]
    decide +kernel

end Tabletop
