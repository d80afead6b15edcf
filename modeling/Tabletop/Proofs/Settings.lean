import Tabletop.Proofs.Composition
import Tabletop.Session.Operation

/-!
The settings of a session say what is written about the robot and never what it does.
-/

namespace Tabletop.Session

variable {s : Session} {u : Ports}

theorem step_configure (s : Session) (debug? diagnostics? : Option Bool) (line : String) :
    (s.configure debug? diagnostics?).step line =
      ((s.step line).1.configure debug? diagnostics?, (s.step line).2) := by
  simp only [step_eq, configure]

theorem steps_configure (s : Session) (debug? diagnostics? : Option Bool) (lines : List String) :
    (s.configure debug? diagnostics?).steps lines = s.steps lines := by
  induction lines generalizing s with
  | nil => rfl
  | cons line rest ih => rw [steps, step_configure, ih, steps]

theorem stepAll_configure (s : Session) (debug? diagnostics? : Option Bool)
    (lines : List String) :
    (s.configure debug? diagnostics?).stepAll lines =
      (s.stepAll lines).configure debug? diagnostics? := by
  induction lines generalizing s with
  | nil => rfl
  | cons line rest ih => rw [stepAll_cons, step_configure, ih, stepAll_cons]

theorem replies_answer_out (hdebug : s.debug = true) (n : Nat)
    (lines : List (Except ReadFault String)) (summary : Summary) :
    ∀ e ∈ (replies answer n lines (s, summary)).flatMap Reply.emissions, e.channel = .out := by
  induction lines generalizing n s summary with
  | nil => exact fun _ he => nomatch he
  | cons line rest ih =>
    cases line with
    | error fault => exact fun _ he => nomatch he
    | ok text =>
      have hdebug' : (s.step text).1.debug = true := (step_debug s text).trans hdebug
      intro e he
      simp only [replies, answer_eq, hdebug, if_true, Bool.false_eq_true, if_false,
        List.flatMap_cons, List.singleton_append] at he
      rcases List.mem_cons.1 he with rfl | he
      · rfl
      · exact ih hdebug' _ _ e he

/-- The table of steps goes to the reports. -/
theorem run_diag_of_debug (hdebug : s.debug = true) (hu : u.Reliable) (source : Source) :
    (s.run source u).ports.diag.bytes = u.diag.bytes := by
  have hheader := (hu.printAll (.of_out s.out_of_mem_header)).2.2
  have hbytes := (feed_bytes printsDiagFirst_answer
    (hu.printed (if s.debug then debugHeader else [])) 1 source.lines (s, {})).2
  rw [bytesOn_diag_of_out s.out_of_mem_header] at hheader
  rw [bytesOn_diag_of_out (replies_answer_out hdebug 1 source.lines {})] at hbytes
  rw [run_of_reliable hu, hbytes, hheader, List.append_nil, List.append_nil]

theorem run_diag_of_quiet (hquiet : s.debug = true ∨ s.diagnostics = false) (hu : u.Reliable)
    (source : Source) : (s.run source u).ports.diag.bytes = u.diag.bytes := by
  cases hdebug : s.debug with
  | true => exact run_diag_of_debug hdebug hu source
  | false =>
    have hoff : s.diagnostics = false :=
      hquiet.resolve_left (hdebug.trans_ne Bool.false_ne_true)
    rw [run_diag hdebug hu, hoff, if_neg Bool.false_ne_true, List.append_nil]

/-- However a script is to be written about, it leaves the same robot, counts the same and fails
alike, and then only for a line that cannot be read. Without debugging it also reports the same; and
it says nothing on the other channel if debugging is on or diagnostics are off. -/
theorem run_configure (s : Session) (debug? diagnostics? : Option Bool) (source : Source)
    {ports : Ports} (hports : ports.Reliable) :
    let s' := s.configure debug? diagnostics?
    let e := s.run source ports
    let e' := s'.run source ports
    (e'.state.1 = e.state.1.configure debug? diagnostics? ∧ e'.state.1.robot = e.state.1.robot ∧
        e'.state.2 = e.state.2 ∧ e'.failure? = e.failure? ∧
        ∀ failure, e.failure? = some failure → ∃ line fault, failure = .read line fault) ∧
      (s.debug = false → s'.debug = false → e'.ports.out.bytes = e.ports.out.bytes) ∧
      (s.debug = true ∨ s.diagnostics = false → e.ports.diag.bytes = ports.diag.bytes) := by
  intro s' e e'
  have hstate : e.state =
      (s.stepAll source.texts, Summary.recordAll {} (s.steps source.texts)) :=
    run_state hports source
  have hstate' : e'.state =
      ((s.stepAll source.texts).configure debug? diagnostics?,
        Summary.recordAll {} (s.steps source.texts)) := by
    rw [run_state hports, stepAll_configure, steps_configure]
  have hfailure : e.failure? = readFailure? 1 source.lines := run_failure hports source
  refine ⟨⟨?_, ?_, ?_, ?_, ?_⟩, ?_, ?_⟩
  · rw [hstate', hstate]
  · rw [hstate', hstate]
    rfl
  · rw [hstate', hstate]
  · rw [hfailure, run_failure hports]
  · intro failure h
    rw [hfailure] at h
    exact eq_read_of_readFailure? h
  · intro hdebug hdebug'
    rw [run_out hdebug' hports, run_out hdebug hports, steps_configure]
  · exact fun hquiet => run_diag_of_quiet hquiet hports source

theorem run_configure_of_cut_line :
    let robot : Robot := ⟨⟨⟨1, 1⟩, .east⟩, true⟩
    let s : Session := { table := .standard, robot, diagnostics := false }
    let source : Source := ⟨Bytes.ofText "MOVE\nREPORT\njump\n" ++ [0xC3, 0x0A], some .broke⟩
    let ports : Ports := ⟨⟨none, false, #[0x2A]⟩, {}⟩
    ports.Reliable ∧ s.debug = false ∧ (s.configure none (some true)).debug = false ∧
      s.diagnostics = false ∧
      ((s.configure none (some true)).run source ports).state.1.robot =
        (s.run source ports).state.1.robot ∧
      ((s.configure none (some true)).run source ports).state.2 = (s.run source ports).state.2 ∧
      ((s.configure none (some true)).run source ports).failure? = (s.run source ports).failure? ∧
      ((s.configure none (some true)).run source ports).ports.out.bytes =
        (s.run source ports).ports.out.bytes ∧
      (s.run source ports).ports.diag.bytes = ports.diag.bytes := by
  intro robot s source ports
  have hports : ports.Reliable := ⟨rfl, rfl, rfl, rfl⟩
  obtain ⟨⟨-, hrobot, hsummary, hfailure, -⟩, hout, hdiag⟩ :=
    run_configure s none (some true) source hports
  exact ⟨hports, rfl, rfl, rfl, hrobot, hsummary, hfailure, hout rfl rfl, hdiag (.inr rfl)⟩

end Tabletop.Session
