import Tabletop.Proofs.FirstFault
import Tabletop.Proofs.Spelling

/-!
What a coordinate is read as. A text is read from the left: a numeral that leaves 64 bits settles
the coordinate at once, and otherwise the text has to be a numeral as a whole.
-/

namespace Tabletop

variable {n : Int} {raw line a b g : String} {x : Int64} {p : List Char} {rest : List String}

theorem Interval.ofIntClamp_of_mem (h : n ∈ signed64) : Int64.ofIntClamp n = .ofInt n := by
  rw [← Int64.toInt_inj, Int64.toInt_ofIntClamp h.1 h.2,
    Int64.toInt_ofInt_of_le h.1 (Int.lt_add_one_of_le h.2)]

theorem Interval.ofIntClamp_of_not_mem (h : n ∉ signed64) :
    Int64.ofIntClamp n = if n ≤ 0 then Int64.minValue else Int64.maxValue := by
  rw [Int64.ofIntClamp]
  split
  · next hlo =>
    split
    · next hhi => exact (h ⟨hlo, hhi⟩).elim
    · next hhi =>
      have hbeyond : 9223372036854775807 < n := Int.not_le.1 hhi
      rw [if_neg (by omega)]
  · next hlo =>
    have hbeyond : n < -9223372036854775808 := Int.not_le.1 hlo
    rw [if_pos (by omega)]

/-- A coordinate beyond 32 bits lies on no table. -/
theorem Table.not_mem_of_not_mem_signed32 (h : n ∉ Interval.signed32) (t : Table) (z : Int) :
    (⟨n, z⟩ : Point) ∉ t ∧ (⟨z, n⟩ : Point) ∉ t :=
  ⟨fun hmem => h (Table.mem_signed32 hmem).1, fun hmem => h (Table.mem_signed32 hmem).2⟩

namespace Command

theorem readCoordinate_of_overflows (h : Numeral.Overflows .signed64 raw.toList) :
    readCoordinate raw =
      .ok (if raw.toList.head? = some '-' then Int64.minValue else Int64.maxValue) := by
  rw [readCoordinate, Numeral.scan_of_overflows (by decide) h]
  simp only [decide_eq_true_eq]

theorem readCoordinate_of_start (hp : p <+: raw.toList) (hwrites : Numeral.Writes p n)
    (hn : n ∉ Interval.signed64) : readCoordinate raw = .ok (Int64.ofIntClamp n) := by
  have hne : p ≠ [] := by
    rintro rfl
    cases hwrites
    contradiction
  have hsign := hwrites.sign
  have hhead : p.head? = raw.toList.head? := by
    obtain ⟨c, cs, rfl⟩ := List.exists_cons_of_ne_nil hne
    obtain ⟨rest, hrest⟩ := hp
    rw [← hrest]
    rfl
  have hzero : n ≠ 0 := by
    rintro rfl
    exact hn (by decide)
  rw [readCoordinate_of_overflows ⟨p, n, hp, hwrites, hn⟩, Interval.ofIntClamp_of_not_mem hn,
    ← hhead]
  split at hsign
  · next hminus => rw [if_pos hminus, if_pos hsign]
  · next hminus => rw [if_neg hminus, if_neg (by omega)]

theorem readCoordinate_of_writes (h : Numeral.Writes raw.toList n) :
    readCoordinate raw = .ok (Int64.ofIntClamp n) := by
  by_cases hn : n ∈ Interval.signed64
  · rw [readCoordinate, (Numeral.scan_eq_value_iff (by decide)).2 ⟨h, hn⟩,
      Interval.ofIntClamp_of_mem hn]
  · exact readCoordinate_of_start List.prefix_rfl h hn

theorem readCoordinate_of_malformed (hstart : ¬ Numeral.Overflows .signed64 raw.toList)
    (h : ∀ n, ¬ Numeral.Writes raw.toList n) : readCoordinate raw = .error (.coordinate raw) := by
  rw [readCoordinate, (Numeral.scan_eq_malformed_iff (by decide)).2 ⟨hstart, h⟩]

/-- A text is read as a coordinate if a numeral makes up all of it, or starts it and is beyond
64 bits; the coordinate is then the nearest integer within 64 bits. -/
theorem readCoordinate_eq_ok_iff :
    readCoordinate raw = .ok x ↔
      ∃ p n, p <+: raw.toList ∧ Numeral.Writes p n ∧ (p = raw.toList ∨ n ∉ Interval.signed64) ∧
        x = Int64.ofIntClamp n := by
  constructor
  · intro h
    by_cases hstart : Numeral.Overflows .signed64 raw.toList
    · obtain ⟨p, n, hp, hwrites, hn⟩ := hstart
      rw [readCoordinate_of_start hp hwrites hn] at h
      exact ⟨p, n, hp, hwrites, .inr hn, (Except.ok.inj h).symm⟩
    by_cases hwrites : ∃ n, Numeral.Writes raw.toList n
    · obtain ⟨n, hwrites⟩ := hwrites
      rw [readCoordinate_of_writes hwrites] at h
      exact ⟨raw.toList, n, List.prefix_rfl, hwrites, .inl rfl, (Except.ok.inj h).symm⟩
    · rw [readCoordinate_of_malformed hstart (not_exists.1 hwrites)] at h
      cases h
  · rintro ⟨p, n, hp, hwrites, rfl | hn, rfl⟩
    · exact readCoordinate_of_writes hwrites
    · exact readCoordinate_of_start hp hwrites hn

theorem readCoordinate_beyond_tables (h : Numeral.Overflows .signed64 raw.toList) :
    ∃ x, readCoordinate raw = .ok x ∧
      ∀ (t : Table) (z : Int), (⟨x.toInt, z⟩ : Point) ∉ t ∧ (⟨z, x.toInt⟩ : Point) ∉ t := by
  refine ⟨_, readCoordinate_of_overflows h, ?_⟩
  apply Table.not_mem_of_not_mem_signed32
  split <;> decide

/-- Zeros in front of the digits change nothing. -/
theorem readCoordinate_zeros {sign digits : String} (hsign : sign ∈ ["", "+", "-"])
    (hne : digits ≠ "") (hdigits : ∀ c ∈ digits.toList, c.isDigit = true) (zeros : Nat) :
    ∃ x, readCoordinate (sign ++ digits) = .ok x ∧
      readCoordinate (sign ++ String.ofList (List.replicate zeros '0') ++ digits) = .ok x := by
  have hne : digits.toList ≠ [] := mt String.toList_eq_nil_iff.1 hne
  have hzeros : ∀ c ∈ List.replicate zeros '0' ++ digits.toList, c.isDigit = true := by
    intro c hc
    rcases List.mem_append.1 hc with hzero | hc
    · rw [List.eq_of_mem_replicate hzero]
      rfl
    · exact hdigits c hc
  have hshort := Numeral.writes_of_sign hsign hne hdigits
  have hlong := Numeral.writes_of_sign hsign (List.append_ne_nil_of_right_ne_nil _ hne) hzeros
  rw [Numeral.ofDigitChars_zeros] at hlong
  refine ⟨_, readCoordinate_of_writes (by rwa [String.toList_append]), ?_⟩
  apply readCoordinate_of_writes
  rwa [String.toList_append, String.toList_append, String.toList_ofList, List.append_assoc]

/-- A numeral beyond 64 bits at the start of a text settles its coordinate by its sign, whatever
follows; any other text is a coordinate only if it is a numeral as a whole, and then exactly the one
it writes. Zeros in front do not matter, the two ends of the range are read exactly, what is beyond
them is on no table, and what is printed for a coordinate is read as that coordinate. -/
theorem readCoordinate_exact :
    (∀ raw : String,
      (Numeral.Overflows .signed64 raw.toList →
        readCoordinate raw =
          .ok (if raw.toList.head? = some '-' then Int64.minValue else Int64.maxValue)) ∧
      (¬ Numeral.Overflows .signed64 raw.toList →
        (∀ n, Numeral.Writes raw.toList n → ∃ x, readCoordinate raw = .ok x ∧ x.toInt = n) ∧
          ((∀ n, ¬ Numeral.Writes raw.toList n) →
            readCoordinate raw = .error (.coordinate raw)))) ∧
    (∀ sign ∈ ["", "+", "-"], ∀ digits : String, digits ≠ "" →
      (∀ c ∈ digits.toList, c.isDigit = true) → ∀ zeros : Nat, ∃ x,
        readCoordinate (sign ++ digits) = .ok x ∧
          readCoordinate (sign ++ String.ofList (List.replicate zeros '0') ++ digits) = .ok x) ∧
    (readCoordinate "-9223372036854775808" = .ok Int64.minValue ∧
      readCoordinate "9223372036854775807" = .ok Int64.maxValue) ∧
    (∀ (raw : String) (n : Int), Numeral.Writes raw.toList n → n ∉ Interval.signed64 →
      ∃ x, readCoordinate raw = .ok x ∧
        ∀ (t : Table) (z : Int), (⟨x.toInt, z⟩ : Point) ∉ t ∧ (⟨z, x.toInt⟩ : Point) ∉ t) ∧
    ∀ x : Int64, readCoordinate (toString x.toInt) = .ok x := by
  refine ⟨?_, ?_, ⟨readCoordinate_toString Int64.minValue, readCoordinate_toString Int64.maxValue⟩,
    ?_, readCoordinate_toString⟩
  · intro raw
    refine ⟨readCoordinate_of_overflows, fun hstart => ⟨?_, readCoordinate_of_malformed hstart⟩⟩
    intro n hwrites
    have hn : n ∈ Interval.signed64 := by
      by_contra hn
      exact hstart ⟨raw.toList, n, List.prefix_rfl, hwrites, hn⟩
    exact ⟨_, readCoordinate_of_writes hwrites, Int64.toInt_ofIntClamp hn.1 hn.2⟩
  · intro sign hsign digits hne hdigits zeros
    exact readCoordinate_zeros hsign hne hdigits zeros
  · intro raw n hwrites hn
    exact readCoordinate_beyond_tables ⟨raw.toList, n, List.prefix_rfl, hwrites, hn⟩

theorem readCoordinate_exact_at_both_ends :
    let beyond := "-9223372036854775809.5"
    let within := "+007"
    let spoiled := "9223372036854775807x"
    let large := "9223372036854775808"
    (Numeral.Overflows .signed64 beyond.toList ∧ readCoordinate beyond = .ok Int64.minValue) ∧
      (¬ Numeral.Overflows .signed64 within.toList ∧ Numeral.Writes within.toList 7 ∧
        ∃ x, readCoordinate within = .ok x ∧ x.toInt = 7) ∧
      (¬ Numeral.Overflows .signed64 spoiled.toList ∧ (∀ n, ¬ Numeral.Writes spoiled.toList n) ∧
        readCoordinate spoiled = .error (.coordinate spoiled)) ∧
      (∃ x, readCoordinate "-12" = .ok x ∧ readCoordinate "-00000012" = .ok x) ∧
      Numeral.Writes large.toList 9223372036854775808 ∧
      ∃ x, readCoordinate large = .ok x ∧
        (⟨x.toInt, 0⟩ : Point) ∉ (⟨2147483647, 5⟩ : Table) := by
  intro beyond within spoiled large
  have hzero : 0 ∈ Interval.signed64 := by decide
  have hbeyond : Numeral.Overflows .signed64 beyond.toList :=
    Numeral.overflows_of_scan (b := true) hzero (by decide)
  have hvalue : Numeral.scan .signed64 within.toList = .value 7 := by decide
  have hwithin : ¬ Numeral.Overflows .signed64 within.toList := by
    intro h
    rw [Numeral.scan_of_overflows hzero h] at hvalue
    cases hvalue
  have hseven := ((Numeral.scan_eq_value_iff hzero).1 hvalue).1
  have hspoiled : Numeral.scan .signed64 spoiled.toList = .malformed := by decide
  obtain ⟨hstart, hnone⟩ := (Numeral.scan_eq_malformed_iff hzero).1 hspoiled
  have hlarge : Numeral.Writes large.toList 9223372036854775808 :=
    ((Numeral.scan_eq_value_iff (i := ⟨0, 9223372036854775808⟩) (by decide)).1 (by decide)).1
  obtain ⟨hread, hzeros, -, htables, -⟩ := readCoordinate_exact
  have hmin := (hread beyond).1 hbeyond
  rw [if_pos (by decide)] at hmin
  obtain ⟨x, hx, hoff⟩ := htables large _ hlarge (by decide)
  exact ⟨⟨hbeyond, hmin⟩,
    ⟨hwithin, hseven, ((hread within).2 hwithin).1 7 hseven⟩,
    ⟨hstart, hnone, ((hread spoiled).2 hstart).2 hnone⟩,
    hzeros "-" (by decide) "12" (by decide) (List.all_eq_true.1 (by decide)) 6,
    hlarge, x, hx, (hoff _ 0).1⟩

theorem not_ok_of_malformed (hstart : ¬ Numeral.Overflows .signed64 raw.toList)
    (h : ∀ n, ¬ Numeral.Writes raw.toList n) (x : Int64) : readCoordinate raw ≠ .ok x := by
  rw [readCoordinate_of_malformed hstart h]
  exact nofun

/-- Integers are read as coordinates, and nothing else is unless an integer beyond 64 bits starts
it. -/
theorem readsIntegers_iff :
    ((∃ x, readCoordinate raw = .ok x) ↔ ∃ n, Numeral.Writes raw.toList n) ↔
      (Numeral.Overflows .signed64 raw.toList → ∃ n, Numeral.Writes raw.toList n) := by
  constructor
  · intro h hstart
    exact h.1 ⟨_, readCoordinate_of_overflows hstart⟩
  · intro h
    constructor
    · rintro ⟨x, hx⟩
      by_contra hnone
      exact not_ok_of_malformed (mt h hnone) (not_exists.1 hnone) x hx
    · rintro ⟨n, hwrites⟩
      exact ⟨_, readCoordinate_of_writes hwrites⟩

/-- An argument with three parts is blamed for the first of its two coordinates that is not read. -/
theorem exists_blamed_coordinate
    (hline : Text.split ' ' (Text.trim line) = "PLACE" :: raw :: rest)
    (hparts : Text.split ',' raw = [a, b, g])
    (hpart : ∃ part ∈ [a, b], ∀ x, readCoordinate part ≠ .ok x) :
    ∃ blamed ∈ [a, b], (∀ x, readCoordinate blamed ≠ .ok x) ∧
      read line = .error (.malformedPlace (.coordinate blamed)) := by
  have hword : firstWord (Text.trim line) = "PLACE" := (Text.eq_takeWhile_of_split hline).symm
  have hargument : (Text.split ' ' (Text.trim line))[1]? = some raw := by
    rw [hline]
    rfl
  have hread {reason : PlaceError} (h : ArgumentFault (some raw) reason) :
      read line = .error (.malformedPlace reason) :=
    read_eq_error_iff.2 (.malformedPlace hword (hargument ▸ h))
  cases ha : readCoordinate a with
  | error e =>
    have ha := (readCoordinate_eq_error_iff.1 ha).2
    exact ⟨a, List.mem_cons_self, ha, hread (.first hparts ha)⟩
  | ok x =>
    obtain ⟨part, hmem, hpart⟩ := hpart
    rcases List.mem_cons.1 hmem with rfl | hmem
    · exact (hpart x ha).elim
    · rw [List.mem_singleton.1 hmem] at hpart
      exact ⟨b, List.mem_cons_of_mem _ List.mem_cons_self, hpart, hread (.second hparts ha hpart)⟩

/-- A text is read as a coordinate only if it is an integer or starts with an integer beyond 64 bits:
the coordinate is the nearest integer of 64 bits. If it is neither and one of the first two of three
parts of a placement, then the first part that is not read is blamed, and the line is ignored. -/
theorem only_integers_or_beyond (part : String) :
    (∀ x, readCoordinate part = .ok x ↔
      ∃ p n, p <+: part.toList ∧ Numeral.Writes p n ∧ (p = part.toList ∨ n ∉ Interval.signed64) ∧
        x = Int64.ofIntClamp n) ∧
    (((∃ x, readCoordinate part = .ok x) ↔ ∃ n, Numeral.Writes part.toList n) ↔
      (Numeral.Overflows .signed64 part.toList → ∃ n, Numeral.Writes part.toList n)) ∧
    (¬ Numeral.Overflows .signed64 part.toList → (∀ n, ¬ Numeral.Writes part.toList n) →
      ∀ (line raw a b g : String) (rest : List String),
        Text.split ' ' (Text.trim line) = "PLACE" :: raw :: rest →
        Text.split ',' raw = [a, b, g] → part ∈ [a, b] →
        ∃ blamed ∈ [a, b], (∀ n, ¬ Numeral.Writes blamed.toList n) ∧
          ∀ s : Session, s.step line =
            (s, ⟨.error (.malformedPlace (.coordinate blamed)),
              .ignored (.unreadable (.malformedPlace (.coordinate blamed))), s.robot⟩)) := by
  refine ⟨fun x => readCoordinate_eq_ok_iff, readsIntegers_iff, ?_⟩
  intro hstart hnone line raw a b g rest hline hparts hmem
  obtain ⟨blamed, hblamed, hrefused, hread⟩ :=
    exists_blamed_coordinate hline hparts ⟨part, hmem, not_ok_of_malformed hstart hnone⟩
  refine ⟨blamed, hblamed, ?_, ?_⟩
  · intro n hwrites
    exact hrefused _ (readCoordinate_of_writes hwrites)
  · intro s
    rw [Session.step_eq, hread]
    rfl

theorem only_integers_or_beyond_of_two_bad_parts :
    let line := " PLACE 9223372036854775807x,1.0,UP\r"
    let a := "9223372036854775807x"
    (Text.split ' ' (Text.trim line) = ["PLACE", "9223372036854775807x,1.0,UP"] ∧
      Text.split ',' "9223372036854775807x,1.0,UP" = [a, "1.0", "UP"] ∧
      ¬ Numeral.Overflows .signed64 a.toList ∧ ∀ n, ¬ Numeral.Writes a.toList n) ∧
      ∃ blamed ∈ [a, "1.0"], ∀ s : Session, s.step line =
        (s, ⟨.error (.malformedPlace (.coordinate blamed)),
          .ignored (.unreadable (.malformedPlace (.coordinate blamed))), s.robot⟩) := by
  intro line a
  have hline : Text.split ' ' (Text.trim line) = ["PLACE", "9223372036854775807x,1.0,UP"] := by
    decide
  have hparts : Text.split ',' "9223372036854775807x,1.0,UP" = [a, "1.0", "UP"] := by decide
  have hscan : Numeral.scan .signed64 a.toList = .malformed := by decide
  obtain ⟨hstart, hnone⟩ := (Numeral.scan_eq_malformed_iff (by decide)).1 hscan
  obtain ⟨blamed, hblamed, -, hstep⟩ :=
    (only_integers_or_beyond a).2.2 hstart hnone line _ a "1.0" "UP" [] hline hparts
      List.mem_cons_self
  exact ⟨⟨hline, hparts, hstart, hnone⟩, blamed, hblamed, hstep⟩

/-- A text that is no integer is read as a coordinate, and its line as a placement. -/
theorem no_integer_read_beyond :
    let raw := "9223372036854775808x"
    let line := "PLACE 9223372036854775808x,0,NORTH"
    ¬ ((∃ x, readCoordinate raw = .ok x) ↔ ∃ n, Numeral.Writes raw.toList n) ∧
      read line = .ok (.place Int64.maxValue 0 .north) ∧
      (({ table := .standard } : Session).step line).2.outcome =
        .rejected ⟨9223372036854775807, 0⟩ := by
  intro raw line
  have hread : read line = .ok (.place Int64.maxValue 0 .north) := by decide
  refine ⟨?_, hread, ?_⟩
  · -- Read against a wider range, the text is seen not to be an integer.
    have hwide : Numeral.scan ⟨0, 92233720368547758080⟩ raw.toList = .malformed := by decide
    have hnone := ((Numeral.scan_eq_malformed_iff (by decide)).1 hwide).2
    intro h
    exact not_exists.2 hnone (h.1 ⟨Int64.maxValue, by decide⟩)
  · rw [Session.step_eq, hread]
    rfl

end Command

end Tabletop
