import Mathlib.Data.Nat.Digits.Defs
import Tabletop.Proofs.Accounting
import Tabletop.Proofs.Settings

/-!
The table of steps. A script with debugging on writes one row for each line, and each row tells the
line, its report and the robot as the script has them with debugging off. Where no column overflows
the bars of a row stand below those of the head.
-/

namespace Tabletop

variable {number input outcome state line text : String} {k n : Nat}
variable {t : Table} {r r' : Robot} {step : Step}

theorem bytesOn_out_of_out {es : List Emission} (h : ∀ e ∈ es, e.channel = .out) :
    bytesOn .out es = Bytes.ofLines (es.map Emission.text) := by
  have hall : es.filter (fun e => e.channel = .out) = es :=
    List.filter_eq_self.2 fun e he => decide_eq_true (h e he)
  rw [bytesOn, hall, Bytes.ofLines, List.flatMap_map]
  rfl

theorem Bytes.ofLines_append (texts rest : List String) :
    ofLines (texts ++ rest) = ofLines texts ++ ofLines rest := by
  rw [ofLines, List.flatMap_append, ofLines, ofLines]

theorem Step.reported_eq (step : Step) :
    step.reported = Bytes.ofLines (step.outcome.report?.map Pose.text).toList := by
  rw [reported, Bytes.ofLines]
  cases step.outcome.report? <;> rfl

theorem Text.oneLine_column (width : Nat) (h : OneLine text) : OneLine (column width text) := by
  rw [OneLine, toList_column, List.mem_append, not_or]
  refine ⟨h, fun hmem => ?_⟩
  cases List.eq_of_mem_replicate hmem

theorem Text.isPrefix_column (width : Nat) (text : String) :
    text.toList <+: (column width text).toList := by
  rw [toList_column]
  exact List.prefix_append _ _

theorem Text.length_column {width : Nat} (h : text.toList.length ≤ width) :
    (column width text).toList.length = width := by
  rw [toList_column, List.length_append, List.length_replicate, Nat.add_sub_cancel' h]

theorem Robot.bar_not_mem_text (r : Robot) : '|' ∉ r.text.toList := by
  intro h
  rcases Robot.mem_text h with h | h <;> revert h <;> decide

theorem Step.account_of_report {pose : Pose}
    (h : Robot.Obeys t r step.reading r' step.outcome) (hpose : step.outcome.report? = some pose) :
    step.account = "REPORT - OK -> " ++ pose.text := by
  obtain ⟨reading, outcome, robot⟩ := step
  cases h with
  | report hplaced =>
    cases hpose
    rfl
  | _ => cases hpose

/-- The first line of the head, which names the columns. -/
def headline : String :=
  "STEP | INPUT                | OUTCOME                                            | STATE"

/-- The second line of the head. -/
def headrule : String :=
  "-----+----------------------+----------------------------------------------------+-------------"

/-- Where the bars of a row stand when no column overflows. -/
def bars : List Nat :=
  [5, 28, 81]

theorem bar_headline_iff (p : Nat) : headline.toList[p]? = some '|' ↔ p ∈ bars := by
  by_cases hp : p < headline.toList.length
  · have hall : ∀ p < headline.toList.length, headline.toList[p]? = some '|' ↔ p ∈ bars := by
      decide
    exact hall p hp
  · have hbars : ∀ p ∈ bars, p < headline.toList.length := by decide
    rw [List.getElem?_eq_none (Nat.le_of_not_lt hp)]
    exact iff_of_false (fun h => nomatch h) (mt (hbars p) hp)

/-- What a row tells: the number of a line and the line itself, both uncut, what it reported, and
behind the last bar the state of the robot. -/
structure RowTells (n : Nat) (line : String) (report? : Option String) (state row : String) :
    Prop where
  number : (toString n).toList <+: row.toList
  input : (Text.trim line).toList <:+: row.toList
  report : ∀ report ∈ report?, ("REPORT - OK -> " ++ report).toList <:+: row.toList
  state : '|' ∉ state.toList ∧ ∃ before, row = before ++ "| " ++ state

namespace Session

variable {s : Session} {u : Ports} {source : Source}

theorem robot_configure (s : Session) (debug? diagnostics? : Option Bool) :
    (s.configure debug? diagnostics?).robot = s.robot :=
  rfl

theorem robot_step (s : Session) (line : String) :
    (s.step line).1.robot = (s.step line).2.robot := by
  simp only [step_eq]

theorem map_text_debugHeader : debugHeader.map Emission.text = [headline, headrule] := by
  decide

theorem text_debugLine (number input outcome state : String) :
    (debugLine number input outcome state).text =
      Text.column 4 number ++ " | " ++ Text.column 20 input ++ " | " ++ Text.column 50 outcome ++
        " | " ++ state :=
  rfl

theorem toList_debugLine (number input outcome state : String) :
    (debugLine number input outcome state).text.toList =
      (Text.column 4 number).toList ++ " | ".toList ++ (Text.column 20 input).toList ++
        " | ".toList ++ (Text.column 50 outcome).toList ++ " | ".toList ++ state.toList := by
  simp only [text_debugLine, String.toList_append]

/-- A line none of whose columns overflows has its bars in their places. -/
theorem bar_debugLine (hnumber : number.toList.length ≤ 4) (hinput : input.toList.length ≤ 20)
    (houtcome : outcome.toList.length ≤ 50) (state : String) :
    ∀ p ∈ bars, (debugLine number input outcome state).text.toList[p]? = some '|' := by
  have h4 := Text.length_column hnumber
  have h20 := Text.length_column hinput
  have h50 := Text.length_column houtcome
  intro p hp
  rw [toList_debugLine]
  generalize (Text.column 4 number).toList = a at h4
  generalize (Text.column 20 input).toList = b at h20
  generalize (Text.column 50 outcome).toList = c at h50
  simp only [bars, List.mem_cons, List.not_mem_nil, or_false] at hp
  rcases hp with rfl | rfl | rfl <;> simp [List.getElem?_append, h4, h20, h50]

theorem oneLine_debugLine (hnumber : OneLine number) (hinput : OneLine input)
    (houtcome : OneLine outcome) (hstate : OneLine state) :
    OneLine (debugLine number input outcome state).text := by
  have hbar : OneLine " | " := by decide
  rw [text_debugLine]
  exact ((((((Text.oneLine_column 4 hnumber).append hbar).append
    (Text.oneLine_column 20 hinput)).append hbar).append
    (Text.oneLine_column 50 houtcome)).append hbar).append hstate

theorem oneLine_account_step (s : Session) (hline : OneLine line) :
    OneLine (s.step line).2.account := by
  rw [Step.account]
  split
  · next pose _ =>
    exact ((s.oneLine_diagnostic_step hline).append (by decide)).append pose.oneLine_text
  · exact s.oneLine_diagnostic_step hline

theorem oneLine_debugRow (s : Session) (n : Nat) (hline : OneLine line) :
    OneLine (debugRow n line (s.step line).2).text := by
  have htrim : OneLine (Text.trim line) := hline.of_isInfix (Text.trim_isInfix line)
  rw [debugRow]
  exact oneLine_debugLine (oneLine_nat n) htrim (s.oneLine_account_step hline)
    (Robot.oneLine_text _)

/-- Every column of a line stands in it uncut. -/
theorem isInfix_debugLine (number input outcome state : String) :
    number.toList <+: (debugLine number input outcome state).text.toList ∧
      input.toList <:+: (debugLine number input outcome state).text.toList ∧
      outcome.toList <:+: (debugLine number input outcome state).text.toList := by
  have hnumber := Text.isPrefix_column 4 number
  have hinput := (Text.isPrefix_column 20 input).isInfix
  have houtcome := (Text.isPrefix_column 50 outcome).isInfix
  rw [toList_debugLine]
  generalize (Text.column 4 number).toList = a at hnumber
  generalize (Text.column 20 input).toList = b at hinput
  generalize (Text.column 50 outcome).toList = c at houtcome
  refine ⟨?_, ?_, ?_⟩
  · simp only [List.append_assoc]
    exact hnumber.trans (List.prefix_append _ _)
  · apply hinput.trans
    exact ⟨a ++ " | ".toList, " | ".toList ++ c ++ " | ".toList ++ state.toList, by
      simp only [List.append_assoc]⟩
  · apply houtcome.trans
    exact ⟨a ++ " | ".toList ++ b ++ " | ".toList, " | ".toList ++ state.toList, by
      simp only [List.append_assoc]⟩

theorem exists_debugLine_eq (number input outcome state : String) :
    ∃ before, (debugLine number input outcome state).text = before ++ "| " ++ state := by
  refine ⟨Text.column 4 number ++ " | " ++ Text.column 20 input ++ " | " ++
    Text.column 50 outcome ++ " ", ?_⟩
  have hbar : " | " = " " ++ "| " := by decide
  rw [text_debugLine, hbar]
  simp only [String.append_assoc]

theorem rowTells_debugRow (h : Robot.Obeys t r step.reading r' step.outcome) (n : Nat)
    (line : String) :
    RowTells n line (step.outcome.report?.map Pose.text) step.robot.text
      (debugRow n line step).text := by
  obtain ⟨hnumber, hinput, haccount⟩ :=
    isInfix_debugLine (toString n) (Text.trim line) step.account step.robot.text
  rw [debugRow]
  constructor
  · exact hnumber
  · exact hinput
  · intro report hreport
    obtain ⟨pose, hpose, rfl⟩ := Option.map_eq_some_iff.1 hreport
    rw [← Step.account_of_report h hpose]
    exact haccount
  · exact ⟨Robot.bar_not_mem_text _, exists_debugLine_eq _ _ _ _⟩

theorem bar_debugRow (hn : n < 10000) (hline : (Text.trim line).toList.length ≤ 20)
    (haccount : step.account.toList.length ≤ 50) :
    ∀ p ∈ bars, (debugRow n line step).text.toList[p]? = some '|' := by
  have hnumber : (toString n).toList.length ≤ 4 := by
    rw [String.length_toList]
    exact Nat.repr_length n 4 (by decide) hn
  rw [debugRow]
  exact bar_debugLine hnumber hline haccount _

/-- The rows of lines, the first of them numbered `n`. -/
def rows (n : Nat) (s : Session) : List String → List String
  | [] => []
  | line :: rest => (debugRow n line (s.step line).2).text :: rows (n + 1) (s.step line).1 rest

theorem length_rows (n : Nat) (s : Session) (lines : List String) :
    (rows n s lines).length = lines.length := by
  induction lines generalizing n s with
  | nil => rfl
  | cons line rest ih => rw [rows, List.length_cons, ih, List.length_cons]

theorem exists_of_getElem?_rows {lines : List String} {row : String}
    (h : (rows n s lines)[k]? = some row) :
    ∃ line, lines[k]? = some line ∧
      row = (debugRow (n + k) line ((s.stepAll (lines.take k)).step line).2).text := by
  induction lines generalizing n s k with
  | nil => cases h
  | cons line rest ih =>
    cases k with
    | zero =>
      rw [rows, List.getElem?_cons_zero, Option.some.injEq] at h
      rw [List.take_zero, stepAll_nil, Nat.add_zero]
      exact ⟨line, List.getElem?_cons_zero, h.symm⟩
    | succ k =>
      have hnumber : n + (k + 1) = n + 1 + k := by omega
      rw [rows, List.getElem?_cons_succ] at h
      rw [List.take_succ_cons, stepAll_cons, hnumber, List.getElem?_cons_succ]
      exact ih h

theorem map_text_replies (hdebug : s.debug = true) (n : Nat)
    (lines : List (Except ReadFault String)) (summary : Summary) :
    ((replies answer n lines (s, summary)).flatMap Reply.emissions).map Emission.text =
      rows n s (readable lines) := by
  induction lines generalizing n s summary with
  | nil => rfl
  | cons line rest ih =>
    cases line with
    | error fault => rfl
    | ok text =>
      have hdebug' : (s.step text).1.debug = true := (step_debug s text).trans hdebug
      simp only [replies, answer_eq, hdebug, if_true, Bool.false_eq_true, if_false,
        List.flatMap_cons, List.singleton_append, List.map_cons, ih hdebug', readable, rows]

theorem run_out_of_debug (hdebug : s.debug = true) (hu : u.Reliable) (source : Source) :
    (s.run source u).ports.out.bytes =
      u.out.bytes ++ Bytes.ofLines (headline :: headrule :: rows 1 s source.texts) := by
  have hheader := (hu.printAll (.of_out s.out_of_mem_header)).2.1
  have hbytes := (feed_bytes printsDiagFirst_answer
    (hu.printed (if s.debug then debugHeader else [])) 1 source.lines (s, {})).1
  rw [bytesOn_out_of_out s.out_of_mem_header, if_pos hdebug, map_text_debugHeader] at hheader
  rw [bytesOn_out_of_out (replies_answer_out hdebug 1 source.lines {}), map_text_replies hdebug,
    if_pos hdebug, hheader] at hbytes
  rw [run_of_reliable hu, if_pos hdebug, hbytes, List.append_assoc, ← Bytes.ofLines_append]
  rfl

/-- The texts of a source that can be read to its end, cut after some of its lines. -/
theorem texts_firstLines (hok : ∀ line ∈ source.lines, ∃ text, line = .ok text) (k : Nat) :
    (source.firstLines k).texts = source.texts.take k := by
  have hlines : (source.firstLines k).lines = source.lines.take k :=
    Source.lines_firstLines (fun line hline => hok line (List.mem_of_mem_take hline)) (le_refl k)
  rw [Source.texts, hlines, eq_map_readable hok, ← List.map_take, readable_map_ok, ← Source.texts]

theorem state_firstLines (hok : ∀ line ∈ source.lines, ∃ text, line = .ok text) (hu : u.Reliable)
    (debug? diagnostics? : Option Bool) (k : Nat) :
    ((s.configure debug? diagnostics?).run (source.firstLines k) u).state.1 =
      (s.stepAll (source.texts.take k)).configure debug? diagnostics? := by
  rw [run_state hu, texts_firstLines hok, stepAll_configure]

theorem out_firstLines (hok : ∀ line ∈ source.lines, ∃ text, line = .ok text) (hu : u.Reliable)
    (diagnostics? : Option Bool) (k : Nat) :
    ((s.configure (some false) diagnostics?).run (source.firstLines k) u).ports.out.bytes =
      u.out.bytes ++ (s.steps (source.texts.take k)).flatMap Step.reported := by
  have hdebug : (s.configure (some false) diagnostics?).debug = false := rfl
  rw [run_out hdebug hu, texts_firstLines hok, steps_configure]

theorem oneLine_of_mem_rows {lines : List String} (h : ∀ line ∈ lines, OneLine line) (n : Nat)
    (s : Session) : ∀ row ∈ rows n s lines, OneLine row := by
  induction lines generalizing n s with
  | nil => exact fun row hrow => nomatch hrow
  | cons line rest ih =>
    rw [List.forall_mem_cons] at h
    intro row hrow
    rw [rows] at hrow
    rcases List.mem_cons.1 hrow with rfl | hrow
    · exact s.oneLine_debugRow n h.1
    · exact ih h.2 (n + 1) _ row hrow

/-- A script that succeeds with debugging on says nothing on the other channel and writes a table of
one row for each line below a head of two. The row of a line tells what the script run without
debugging does at it: the report that it writes, and the robot it has then. The bars of a row whose
columns do not overflow stand below those of the head. -/
theorem run_table (hdebug : s.debug = true) (hu : u.Reliable)
    (hsuccess : (s.run source u).failure? = none) :
    let quiet := s.configure (some false) none
    let upTo (k : Nat) := quiet.run (source.firstLines k) u
    (s.run source u).ports.diag.bytes = u.diag.bytes ∧
      (∀ p, headline.toList[p]? = some '|' ↔ p ∈ bars) ∧
      ∃ rows : List String,
        (s.run source u).ports.out.bytes =
            u.out.bytes ++ Bytes.ofLines (headline :: headrule :: rows) ∧
          (∀ text ∈ headline :: headrule :: rows, OneLine text) ∧
          rows.length = source.lines.length ∧
          ∀ (k : Nat) (row : String), rows[k]? = some row →
            ∃ (line : String) (report? : Option String),
              source.lines[k]? = some (.ok line) ∧
                (upTo (k + 1)).ports.out.bytes =
                  (upTo k).ports.out.bytes ++ Bytes.ofLines report?.toList ∧
                RowTells (k + 1) line report? (upTo (k + 1)).state.1.robot.text row ∧
                (k + 1 < 10000 → (Text.trim line).toList.length ≤ 20 →
                  ((upTo k).state.1.step line).2.account.toList.length ≤ 50 →
                  ∀ p ∈ bars, row.toList[p]? = some '|') := by
  intro quiet upTo
  have hok := (run_failure_eq_none_iff hu source).1 hsuccess
  have hlines := eq_map_readable hok
  have hstate (k : Nat) : (upTo k).state.1 = _ := state_firstLines hok hu (some false) none k
  have hout (k : Nat) : (upTo k).ports.out.bytes = _ := out_firstLines hok hu none k
  refine ⟨run_diag_of_debug hdebug hu source, bar_headline_iff, rows 1 s source.texts,
    run_out_of_debug hdebug hu source, ?_, ?_, ?_⟩
  · simp only [List.forall_mem_cons]
    refine ⟨by decide, by decide, ?_⟩
    exact oneLine_of_mem_rows
      (fun text htext => Source.oneLine_of_mem_lines (ok_mem_of_mem_readable htext)) 1 s
  · rw [length_rows, ← length_steps s, length_steps_texts hok]
  · intro k row hrow
    obtain ⟨line, hline, rfl⟩ := exists_of_getElem?_rows hrow
    -- Both scripts come to the line in the session that the lines before it leave.
    have htake : source.texts.take (k + 1) = source.texts.take k ++ [line] := by
      rw [List.take_add_one, hline]
      rfl
    rw [Nat.add_comm 1 k]
    generalize hbefore : s.stepAll (source.texts.take k) = before
    refine ⟨line, (before.step line).2.outcome.report?.map Pose.text, ?_, ?_, ?_, ?_⟩
    · rw [hlines, List.getElem?_map]
      exact congrArg _ hline
    · rw [hout, hout, htake, steps_append, hbefore, List.flatMap_append, List.append_assoc, steps,
        steps, List.flatMap_singleton, Step.reported_eq]
    · have hrobot : (upTo (k + 1)).state.1.robot = (before.step line).2.robot := by
        rw [hstate, htake, stepAll_append, hbefore, robot_configure, stepAll_cons, stepAll_nil,
          robot_step]
      rw [hrobot]
      exact rowTells_debugRow (before.step_obeys line) (k + 1) line
    · intro hnumber hinput haccount
      simp only [hstate, hbefore, step_configure] at haccount
      exact bar_debugRow hnumber hinput haccount

theorem run_table_of_barred_lines :
    let s : Session := { table := .standard, debug := true }
    let source : Source := ⟨Bytes.ofText "PLACE 1,2,EAST\n é|o | \r\nREPORT\n|", none⟩
    let quiet := s.configure (some false) none
    let upTo (k : Nat) := quiet.run (source.firstLines k) {}
    s.debug = true ∧ Ports.Reliable {} ∧ (s.run source {}).failure? = none ∧
      (s.run source {}).ports.diag.bytes = [] ∧
      ∃ rows : List String,
        (s.run source {}).ports.out.bytes = Bytes.ofLines (headline :: headrule :: rows) ∧
          rows.length = 4 ∧
          ∀ (k : Nat) (row : String), rows[k]? = some row →
            ∃ (line : String) (report? : Option String),
              source.lines[k]? = some (.ok line) ∧
                (upTo (k + 1)).ports.out.bytes =
                  (upTo k).ports.out.bytes ++ Bytes.ofLines report?.toList ∧
                RowTells (k + 1) line report? (upTo (k + 1)).state.1.robot.text row := by
  intro s source quiet upTo
  have hu : Ports.Reliable {} := .refl _
  have hlines : source.lines = [.ok "PLACE 1,2,EAST", .ok " é|o | ", .ok "REPORT", .ok "|"] := by
    decide
  have hsuccess : (s.run source {}).failure? = none := by
    rw [run_failure hu, hlines]
    rfl
  obtain ⟨hdiag, -, rows, hout, -, hlength, htells⟩ := run_table rfl hu hsuccess
  rw [hlines] at hlength
  refine ⟨rfl, hu, hsuccess, hdiag, rows, hout, hlength, ?_⟩
  intro k row hrow
  obtain ⟨line, report?, hline, hreport, hrowTells, -⟩ := htells k row hrow
  exact ⟨line, report?, hline, hreport, hrowTells⟩

end Session

end Tabletop
