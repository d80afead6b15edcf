import Tabletop.Proofs.Messages
import Tabletop.Proofs.Placement

/-!
What a script prints accounts for its lines: one diagnostic line for each, which tells what became
of it, and one line with a pose on the table for each report.
-/

namespace Tabletop

variable {t : Table} {r r' : Robot} {reading : Reading} {outcome : Outcome} {pose : Pose}
variable {s : Session} {lines : List String} {step : Step}

theorem Robot.Obeys.mem_of_report (h : Obeys t r reading r' outcome) (hr : r.Sound t)
    (hpose : outcome.report? = some pose) : pose.cell.point ∈ t := by
  cases h with
  | report hplaced =>
    cases hpose
    exact hr.of_placed hplaced
  | _ => cases hpose

theorem length_eq_outcomes (steps : List Step) :
    steps.length =
      steps.countP (·.outcome.isAccepted) + steps.countP (·.outcome.isIgnored) +
        steps.countP (·.outcome.isRejected) := by
  induction steps with
  | nil => rfl
  | cons step rest ih =>
    simp only [List.countP_cons, List.length_cons, ih]
    cases step.outcome <;>
    · simp only [Outcome.isAccepted, Outcome.isIgnored, Outcome.isRejected, Bool.false_eq_true,
        if_true, if_false]
      omega

theorem reports_le_accepted (steps : List Step) :
    (steps.filterMap (·.outcome.report?)).length ≤ steps.countP (·.outcome.isAccepted) := by
  rw [List.length_filterMap_eq_countP]
  apply List.countP_mono_left
  intro step _ hreport
  cases houtcome : step.outcome with
  | accepted report => rfl
  | ignored cause => simp [houtcome, Outcome.report?] at hreport
  | rejected target => simp [houtcome, Outcome.report?] at hreport

theorem flatMap_diagnosed (steps : List Step) :
    steps.flatMap Step.diagnosed = Bytes.ofLines (steps.map Step.diagnostic) := by
  rw [Bytes.ofLines, List.flatMap_map]
  rfl

theorem flatMap_reported (steps : List Step) :
    steps.flatMap Step.reported =
      Bytes.ofLines ((steps.filterMap (·.outcome.report?)).map Pose.text) := by
  induction steps with
  | nil => rfl
  | cons step rest ih =>
    rw [List.flatMap_cons, ih, Step.reported]
    cases hreport : step.outcome.report? with
    | none =>
      simp only [List.filterMap_cons, hreport]
      rfl
    | some pose =>
      simp only [List.filterMap_cons, hreport, Option.toList_some, List.map_cons, Bytes.ofLines,
        List.flatMap_cons, List.flatMap_nil, List.append_nil]

namespace Session

theorem exists_of_mem_steps (hs : s.SoundOn t) (h : step ∈ s.steps lines) :
    ∃ (s' : Session) (line : String), s'.SoundOn t ∧ line ∈ lines ∧ step = (s'.step line).2 := by
  induction lines generalizing s with
  | nil => cases h
  | cons line rest ih =>
    rcases List.mem_cons.1 h with rfl | hrest
    · exact ⟨s, line, hs, List.mem_cons_self, rfl⟩
    · obtain ⟨s', line', hs', hline', hstep⟩ := ih (hs.step line) hrest
      exact ⟨s', line', hs', List.mem_cons_of_mem _ hline', hstep⟩

theorem oneLine_diagnostic_step {line : String} (s : Session) (hline : OneLine line) :
    OneLine (s.step line).2.diagnostic := by
  apply Step.oneLine_diagnostic (s.step_obeys line)
  intro e he
  simp only [step_eq] at he
  exact Command.oneLine_message_of_read hline he

theorem oneLine_diagnostics (hs : s.SoundOn t) (h : ∀ line ∈ lines, OneLine line) :
    ∀ text ∈ (s.steps lines).map Step.diagnostic, OneLine text := by
  intro text htext
  obtain ⟨step, hstep, rfl⟩ := List.mem_map.1 htext
  obtain ⟨s', line, -, hline, rfl⟩ := exists_of_mem_steps hs hstep
  exact s'.oneLine_diagnostic_step (h line hline)

theorem oneLine_reports (steps : List Step) :
    ∀ text ∈ (steps.filterMap (·.outcome.report?)).map Pose.text, OneLine text := by
  intro text htext
  obtain ⟨pose, -, rfl⟩ := List.mem_map.1 htext
  exact pose.oneLine_text

theorem mem_of_mem_reports (hs : s.SoundOn t)
    (h : pose ∈ (s.steps lines).filterMap (·.outcome.report?)) : pose.cell.point ∈ t := by
  obtain ⟨step, hstep, hreport⟩ := List.mem_filterMap.1 h
  obtain ⟨s', line, hs', -, rfl⟩ := exists_of_mem_steps hs hstep
  have hmem := (s'.step_obeys line).mem_of_report (hs'.table ▸ hs'.robot) hreport
  rwa [hs'.table] at hmem

theorem toldBy_of_getElem? (hs : s.SoundOn t) {i : Nat} (h : (s.steps lines)[i]? = some step) :
    ((s.steps lines).map Step.diagnostic)[i]? = some step.diagnostic ∧
      step.outcome.ToldBy step.diagnostic := by
  rw [List.getElem?_map, h]
  obtain ⟨s', line, -, -, rfl⟩ := exists_of_mem_steps hs (List.mem_of_getElem? h)
  exact ⟨rfl, Step.toldBy_diagnostic (s'.step_obeys line)⟩

theorem length_steps_texts {source : Source}
    (h : ∀ line ∈ source.lines, ∃ text, line = .ok text) :
    (s.steps source.texts).length = source.lines.length := by
  have hlines := congrArg List.length (eq_map_readable h)
  rw [List.length_map] at hlines
  rw [length_steps, hlines]
  rfl

/-- Of a script that succeeds with diagnostics on, every line is counted once, and the diagnostics
tell of the lines, one line each and in their order; each report is a line of its own, and it is the
pose of a robot on the table. -/
theorem run_accounts (t : Table) (diagnostics debug : Bool) (history : List Operation)
    (source : Source) :
    let s := ({ table := t, diagnostics, debug } : Session).after history
    let e := s.run source {}
    let summary := e.state.2
    let out := e.ports.out.bytes
    let diag := e.ports.diag.bytes
    s.debug = false → s.diagnostics = true → e.failure? = none →
      (summary.lines = source.lines.length ∧
          summary.lines = summary.accepted + summary.ignored + summary.rejected ∧
          diag.Ended ∧ summary.lines = diag.count 0x0A) ∧
        (summary.reports ≤ summary.accepted ∧ out.Ended ∧ summary.reports = out.count 0x0A) ∧
        (∀ (i : Nat) (step : Step), (s.steps source.texts)[i]? = some step →
          ∃ text, diag.completeLines[i]? = some (Bytes.ofText text) ∧ step.outcome.ToldBy text) ∧
        ∀ line ∈ out.completeLines,
          ∃ pose : Pose, pose.cell.point ∈ t ∧ line = Bytes.ofText pose.text := by
  intro s e summary out diag hdebug hdiagnostics hsuccess
  have hu : Ports.Reliable {} := .refl _
  have hnew : ({ table := t, diagnostics, debug } : Session).SoundOn t := ⟨rfl, .inl rfl⟩
  have hs : s.SoundOn t := hnew.after history
  have hok := (run_failure_eq_none_iff hu source).1 hsuccess
  have hdiag : diag = Bytes.ofLines ((s.steps source.texts).map Step.diagnostic) := by
    have h := run_diag hdebug hu source
    rw [if_pos hdiagnostics, flatMap_diagnosed] at h
    exact h
  have hout : out =
      Bytes.ofLines (((s.steps source.texts).filterMap (·.outcome.report?)).map Pose.text) := by
    have h := run_out hdebug hu source
    rw [flatMap_reported] at h
    exact h
  have hdiagLines : ∀ text ∈ (s.steps source.texts).map Step.diagnostic, OneLine text :=
    oneLine_diagnostics hs fun text htext =>
      Source.oneLine_of_mem_lines (ok_mem_of_mem_readable htext)
  have houtLines := oneLine_reports (s.steps source.texts)
  have hsummary : summary = Summary.recordAll {} (s.steps source.texts) :=
    congrArg Prod.snd (run_state hu source)
  simp only [Summary.recordAll_eq, Nat.zero_add] at hsummary
  rw [hsummary, hout, hdiag]
  refine ⟨⟨length_steps_texts hok, length_eq_outcomes _, Bytes.ended_ofLines _, ?_⟩,
    ⟨reports_le_accepted _, Bytes.ended_ofLines _, ?_⟩, ?_, ?_⟩
  · rw [Bytes.count_newline_ofLines hdiagLines, List.length_map]
  · rw [Bytes.count_newline_ofLines houtLines, List.length_map]
  · intro i step hstep
    obtain ⟨hdiagnostic, htold⟩ := toldBy_of_getElem? hs hstep
    refine ⟨step.diagnostic, ?_, htold⟩
    rw [Bytes.completeLines_ofLines hdiagLines, List.getElem?_map, hdiagnostic]
    rfl
  · intro line hline
    rw [Bytes.completeLines_ofLines houtLines, List.map_map] at hline
    obtain ⟨pose, hpose, rfl⟩ := List.mem_map.1 hline
    exact ⟨pose, mem_of_mem_reports hs hpose, rfl⟩

theorem run_accounts_for_mixed_lines :
    let history : List Operation :=
      [.configure (some true) (some false), .step "PLACE 1,2,EAST",
        .configure (some false) (some true)]
    let s := ({ table := .standard } : Session).after history
    let source : Source :=
      ⟨Bytes.ofText "MOVE\r\nREPORT\nMOVE - OK\n\nignoring input - \rx y\nPLACE 9,9,WEST", none⟩
    let e := s.run source {}
    let summary := e.state.2
    let out := e.ports.out.bytes
    let diag := e.ports.diag.bytes
    s.debug = false ∧ s.diagnostics = true ∧ e.failure? = none ∧
      (summary.lines = source.lines.length ∧
          summary.lines = summary.accepted + summary.ignored + summary.rejected ∧
          diag.Ended ∧ summary.lines = diag.count 0x0A) ∧
        (summary.reports ≤ summary.accepted ∧ out.Ended ∧ summary.reports = out.count 0x0A) ∧
        (∀ (i : Nat) (step : Step), (s.steps source.texts)[i]? = some step →
          ∃ text, diag.completeLines[i]? = some (Bytes.ofText text) ∧ step.outcome.ToldBy text) ∧
        ∀ line ∈ out.completeLines,
          ∃ pose : Pose, pose.cell.point ∈ Table.standard ∧ line = Bytes.ofText pose.text := by
  intro history
  have hu : Ports.Reliable {} := .refl _
  have hdebug : (({ table := .standard } : Session).after history).debug = false := rfl
  have hdiagnostics : (({ table := .standard } : Session).after history).diagnostics = true := rfl
  have hlines : (⟨Bytes.ofText
      "MOVE\r\nREPORT\nMOVE - OK\n\nignoring input - \rx y\nPLACE 9,9,WEST", none⟩ : Source).lines =
      [.ok "MOVE", .ok "REPORT", .ok "MOVE - OK", .ok "", .ok "ignoring input - \rx y",
        .ok "PLACE 9,9,WEST"] := by decide
  have hsuccess : ((({ table := .standard } : Session).after history).run ⟨Bytes.ofText
      "MOVE\r\nREPORT\nMOVE - OK\n\nignoring input - \rx y\nPLACE 9,9,WEST", none⟩ {}).failure? =
      none := by
    rw [run_failure hu, hlines]
    rfl
  exact ⟨hdebug, hdiagnostics, hsuccess,
    run_accounts .standard true false history _ hdebug hdiagnostics hsuccess⟩

end Session

end Tabletop
