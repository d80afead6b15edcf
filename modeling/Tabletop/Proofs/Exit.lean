import Tabletop.Proofs.Composition
import Tabletop.Proofs.MetaLine
import Tabletop.Proofs.OneLine

/-!
A conversation ends at the first line that asks for it, and what follows cannot be observed; a
script knows no such line.
-/

namespace Tabletop

variable {σ : Type} {respond : Nat → String → σ → Reply σ} {n : Nat} {line : String}
variable {lines : List (Except ReadFault String)} {state : σ} {p : Ports}

theorem feed_append_stop
    (hstop : ∀ n state, respond n line state = { state, emissions := [], stop := true })
    (rest : List (Except ReadFault String)) :
    feed respond n (lines ++ .ok line :: rest) state p = feed respond n lines state p := by
  induction lines generalizing n state p with
  | nil =>
    simp only [List.nil_append, feed, hstop, Ports.printAll]
    rfl
  | cons first lines ih =>
    rw [List.cons_append]
    cases first with
    | error fault => rfl
    | ok text =>
      cases hprint : (p.printAll (respond n text state).emissions).2 with
      | some fault => rw [feed_ok_of_fault hprint, feed_ok_of_fault hprint]
      | none => rw [feed_ok_of_none hprint, feed_ok_of_none hprint, ih]

namespace Source

theorem lines_ofText_line {e : String} (he : OneLine e) :
    ∃ text, Text.trim text = Text.trim e ∧
      ∀ (u : Bytes) (fault? : Option ReadFault),
        (⟨Bytes.ofText (e ++ "\n") ++ u, fault?⟩ : Source).lines =
          .ok text :: (⟨u, fault?⟩ : Source).lines := by
  obtain ⟨text, hdecode, htrim⟩ := decode_dropReturn_ofText e
  refine ⟨text, htrim, ?_⟩
  intro u fault?
  have hbytes : Bytes.ofText (e ++ "\n") ++ u = Bytes.ofText e ++ 0x0A :: u := by
    rw [Bytes.ofText_append, List.append_assoc]
    rfl
  rw [hbytes, lines_line (Bytes.newline_not_mem_ofText he), hdecode]

end Source

theorem Summary.recordAll_ignored {step : Step} {cause : IgnoreCause}
    (h : step.outcome = .ignored cause) (steps rest : List Step) :
    recordAll {} (steps ++ step :: rest) =
      { recordAll {} (steps ++ rest) with
        lines := (recordAll {} (steps ++ rest)).lines + 1
        ignored := (recordAll {} (steps ++ rest)).ignored + 1 } := by
  simp [recordAll_eq, h, Outcome.isAccepted, Outcome.isIgnored, Outcome.isRejected,
    Outcome.report?]
  omega

namespace Session

variable {a : Bytes} {e text : String}

/-- To a script a line that would end a conversation is unreadable like any other. -/
theorem step_of_isExit (h : IsExit line) (s : Session) :
    s.step line =
      (s, ⟨.error (.unknownKeyword (Text.trim line)),
        .ignored (.unreadable (.unknownKeyword (Text.trim line))), s.robot⟩) := by
  have hread : Command.read line = .error (.unknownKeyword (Text.trim line)) := by
    rcases h with h | h <;>
    · rw [Command.read, h]
      decide
  rw [step_eq, hread, Robot.heed]

theorem converse_append_exit (s : Session) (ha : a.Ended) (he : OneLine e) (hexit : IsExit e)
    (u : Bytes) (fault? : Option ReadFault) (ports : Ports) :
    s.converse ⟨a ++ Bytes.ofText (e ++ "\n") ++ u, fault?⟩ ports = s.converse ⟨a, none⟩ ports := by
  obtain ⟨text, htrim, hlines⟩ := Source.lines_ofText_line he
  have htext : IsExit text := by
    rw [IsExit, htrim]
    exact hexit
  rw [converse, List.append_assoc, Source.lines_append ha, hlines]
  exact feed_append_stop (fun _ s => respond_of_isExit htext s) _

/-- A script goes on after whole lines with one more line, and then with what follows. -/
theorem run_eq_goOn_line (s : Session) (ha : a.Ended) (he : OneLine e)
    (hlines : (⟨Bytes.ofText (e ++ "\n"), none⟩ : Source).lines = [.ok text]) (u : Bytes)
    (fault? : Option ReadFault) (ports : Ports) :
    s.run ⟨a ++ Bytes.ofText (e ++ "\n") ++ u, fault?⟩ ports =
      ((s.run ⟨a, none⟩ ports).goOn answer (1 + a.count 0x0A) [.ok text]).goOn answer
        (2 + a.count 0x0A) (⟨u, fault?⟩ : Source).lines := by
  have hbytes : a ++ Bytes.ofText (e ++ "\n") = (a ++ Bytes.ofText e) ++ 0x0A :: [] := by
    rw [List.append_assoc]
    exact congrArg (a ++ ·) (Bytes.ofText_append e "\n")
  have hended : (a ++ Bytes.ofText (e ++ "\n")).Ended := by
    rw [hbytes]
    exact Bytes.ended_line_iff.2 (.inl rfl)
  have hnumber : 1 + (a ++ Bytes.ofText (e ++ "\n")).count 0x0A = 2 + a.count 0x0A := by
    rw [hbytes, List.count_append, List.count_append,
      List.count_eq_zero_of_not_mem (Bytes.newline_not_mem_ofText he), List.count_cons_self,
      List.count_nil]
    omega
  rw [run_eq_goOn s hended, run_eq_goOn s ha, hlines, hnumber]

/-- A line without effect does not show in the session, and in the summary only as a line that was
ignored; what is read after it has a number higher by one. -/
theorem run_insert_ignored {cause : IgnoreCause}
    (hstep : ∀ s' : Session, (s'.step text).1 = s' ∧ (s'.step text).2.outcome = .ignored cause)
    {source short : Source} {lines rest : List (Except ReadFault String)}
    (hok : ∀ line ∈ lines, ∃ text, line = .ok text)
    (hsource : source.lines = lines ++ .ok text :: rest) (hshort : short.lines = lines ++ rest)
    (s : Session) :
    (s.run source {}).state =
        ((s.run short {}).state.1,
          { (s.run short {}).state.2 with
            lines := (s.run short {}).state.2.lines + 1
            ignored := (s.run short {}).state.2.ignored + 1 }) ∧
      (s.run source {}).failure? = (s.run short {}).failure?.map (Failure.later 1) := by
  have hu : Ports.Reliable {} := .refl _
  have htexts : source.texts = readable lines ++ text :: readable rest := by
    rw [Source.texts, hsource, readable_append hok]
    rfl
  have hshortTexts : short.texts = readable lines ++ readable rest := by
    rw [Source.texts, hshort, readable_append hok]
  obtain ⟨hself, hignored⟩ := hstep (s.stepAll (readable lines))
  constructor
  · rw [run_state hu, run_state hu, htexts, hshortTexts, stepAll_append, stepAll_cons, hself,
      stepAll_append, steps_append, steps, hself, steps_append,
      Summary.recordAll_ignored hignored]
  · rw [run_failure hu, run_failure hu, hsource, hshort, readFailure?_append hok,
      readFailure?_append hok, readFailure?, readFailure?_add]

/-- A conversation that comes to a line asking to leave ends as if its input had ended before that
line, whatever follows and whatever the ports. To a script the line is one more that is ignored, and
it goes on with what follows. -/
theorem nothing_after_exit (s : Session) (ha : a.Ended) (htext : a.IsText) (he : OneLine e)
    (hexit : IsExit e) :
    let exit := Bytes.ofText (e ++ "\n")
    (∀ (u v : Bytes) (fault? fault?' : Option ReadFault) (ports : Ports),
        s.converse ⟨a ++ exit ++ u, fault?⟩ ports = s.converse ⟨a ++ exit ++ v, fault?'⟩ ports ∧
          s.converse ⟨a ++ exit ++ u, fault?⟩ ports = s.converse ⟨a, none⟩ ports) ∧
      ∃ line, (⟨exit, none⟩ : Source).lines = [.ok line] ∧
        (∀ s' : Session, s'.step line =
          (s', ⟨.error (.unknownKeyword (Text.trim e)),
            .ignored (.unreadable (.unknownKeyword (Text.trim e))), s'.robot⟩)) ∧
        ∀ (u : Bytes) (fault? : Option ReadFault),
          (∀ ports, s.run ⟨a ++ exit ++ u, fault?⟩ ports =
            ((s.run ⟨a, none⟩ ports).goOn answer (1 + a.count 0x0A) [.ok line]).goOn answer
              (2 + a.count 0x0A) (⟨u, fault?⟩ : Source).lines) ∧
          let whole := s.run ⟨a ++ exit ++ u, fault?⟩ {}
          let without := s.run ⟨a ++ u, fault?⟩ {}
          whole.state = (without.state.1,
              { without.state.2 with
                lines := without.state.2.lines + 1, ignored := without.state.2.ignored + 1 }) ∧
            whole.failure? = without.failure?.map (Failure.later 1) := by
  intro exit
  refine ⟨?_, ?_⟩
  · intro u v fault? fault?' ports
    have hu := s.converse_append_exit ha he hexit u fault? ports
    exact ⟨hu.trans (s.converse_append_exit ha he hexit v fault?' ports).symm, hu⟩
  · obtain ⟨line, htrim, hlines⟩ := Source.lines_ofText_line he
    have hline : IsExit line := by
      rw [IsExit, htrim]
      exact hexit
    have hexitLines : (⟨exit, none⟩ : Source).lines = [.ok line] := by
      rw [← List.append_nil exit]
      exact hlines [] none
    have hstep (s' : Session) := step_of_isExit hline s'
    rw [htrim] at hstep
    refine ⟨line, hexitLines, hstep, ?_⟩
    intro u fault?
    constructor
    · exact run_eq_goOn_line s ha he hexitLines u fault?
    · apply run_insert_ignored
        (fun s' => ⟨congrArg Prod.fst (hstep s'), congrArg (·.2.outcome) (hstep s')⟩)
        (Source.lines_of_isText htext) _ (Source.lines_append ha u fault?)
      rw [List.append_assoc, Source.lines_append ha, hlines]

theorem nothing_after_exit_quit :
    let s : Session := { table := .standard, diagnostics := false }
    let a := Bytes.ofText "PLACE 0,0,EAST\nMOVE\n"
    let e := " :quit\r"
    let exit := Bytes.ofText (e ++ "\n")
    let u : Bytes := [0xFF, 0x0A]
    let v := Bytes.ofText "REPORT"
    let ports : Ports := ⟨⟨some 1, false, #[]⟩, ⟨none, true, #[]⟩⟩
    a.Ended ∧ a.IsText ∧ OneLine e ∧ IsExit e ∧
      s.converse ⟨a ++ exit ++ u, some .broke⟩ ports = s.converse ⟨a ++ exit ++ v, none⟩ ports ∧
      s.converse ⟨a ++ exit ++ u, some .broke⟩ ports = s.converse ⟨a, none⟩ ports ∧
      (s.run ⟨a ++ exit ++ u, some .broke⟩ {}).failure? =
        (s.run ⟨a ++ u, some .broke⟩ {}).failure?.map (Failure.later 1) := by
  intro s a e exit u v ports
  have ha : a.Ended := by decide
  have htext : a.IsText := by decide
  have he : OneLine e := by decide
  have hexit : IsExit e := by decide
  obtain ⟨hconverse, line, -, -, hrun⟩ := nothing_after_exit s ha htext he hexit
  obtain ⟨hsame, halone⟩ := hconverse u v (some .broke) none ports
  obtain ⟨-, -, hfailure⟩ := hrun u (some .broke)
  exact ⟨ha, htext, he, hexit, hsame, halone, hfailure⟩

end Session

end Tabletop
