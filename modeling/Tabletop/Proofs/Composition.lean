import Tabletop.Proofs.Script

/-!
Scripts compose: to run whole lines and what follows them is to run the lines and then, in the
session they have left, what follows.
-/

namespace Tabletop

/-- The failure at a line that has `n` more lines before it. -/
def Failure.later (n : Nat) : Failure → Failure
  | read line fault => read (line + n) fault
  | write fault => write fault

instance : Add Summary where
  add a b :=
    { lines := a.lines + b.lines
      accepted := a.accepted + b.accepted
      ignored := a.ignored + b.ignored
      rejected := a.rejected + b.rejected
      reports := a.reports + b.reports }

variable {lines rest : List (Except ReadFault String)}

theorem Summary.recordAll_eq_add (summary : Summary) (steps : List Step) :
    summary.recordAll steps = summary + recordAll {} steps := by
  rw [recordAll_eq, recordAll_eq]
  simp only [Nat.zero_add]
  rfl

theorem readFailure?_add (n k : Nat) (lines : List (Except ReadFault String)) :
    readFailure? (n + k) lines = (readFailure? n lines).map (Failure.later k) := by
  induction lines generalizing n with
  | nil => rfl
  | cons line rest ih =>
    cases line with
    | error fault => rfl
    | ok text =>
      rw [readFailure?, readFailure?, Nat.add_right_comm]
      exact ih (n + 1)

theorem readFailure?_append (h : ∀ line ∈ lines, ∃ text, line = .ok text) (n : Nat) :
    readFailure? n (lines ++ rest) = readFailure? (n + lines.length) rest := by
  induction lines generalizing n with
  | nil => rfl
  | cons line lines ih =>
    obtain ⟨text, rfl⟩ := h line List.mem_cons_self
    have hlength : n + (lines.length + 1) = n + 1 + lines.length := by omega
    rw [List.cons_append, readFailure?, List.length_cons, hlength]
    exact ih (fun line hline => h line (List.mem_cons_of_mem _ hline)) (n + 1)

theorem eq_read_of_readFailure? {n : Nat} {failure : Failure}
    (h : readFailure? n lines = some failure) : ∃ line fault, failure = .read line fault := by
  induction lines generalizing n with
  | nil => cases h
  | cons line rest ih =>
    cases line with
    | error fault =>
      cases h
      exact ⟨n, fault, rfl⟩
    | ok text => exact ih h

theorem readable_append {ε α : Type} {lines rest : List (Except ε α)}
    (h : ∀ line ∈ lines, ∃ a, line = .ok a) :
    readable (lines ++ rest) = readable lines ++ readable rest := by
  induction lines with
  | nil => rfl
  | cons line lines ih =>
    obtain ⟨a, rfl⟩ := h line List.mem_cons_self
    rw [List.cons_append, readable, readable, List.cons_append,
      ih fun line hline => h line (List.mem_cons_of_mem _ hline)]

namespace Session

variable {s : Session} {a : Bytes}

/-- A script goes on after whole lines as if it had not stopped there, whatever its ports. -/
theorem run_eq_goOn (s : Session) (ha : a.Ended) (b : Bytes) (fault? : Option ReadFault)
    (ports : Ports) :
    s.run ⟨a ++ b, fault?⟩ ports =
      (s.run ⟨a, none⟩ ports).goOn answer (1 + a.count 0x0A) (⟨b, fault?⟩ : Source).lines := by
  rw [run_eq_announce, run_eq_announce, Source.lines_append ha]
  cases hheader : (ports.printAll (if s.debug then debugHeader else [])).2 with
  | some fault =>
    rw [announce_of_fault hheader, announce_of_fault hheader, Ports.eq_full_of_printAll hheader]
    rfl
  | none =>
    rw [announce_of_none hheader, announce_of_none hheader, feed_append answer_stop,
      Source.length_lines ha]

theorem run_append_of_success (hdebug : s.debug = false) (ha : a.Ended) (b : Bytes)
    (fault? : Option ReadFault) (hfirst : (s.run ⟨a, none⟩ {}).failure? = none) :
    let first := s.run ⟨a, none⟩ {}
    let second := first.state.1.run ⟨b, fault?⟩ {}
    let whole := s.run ⟨a ++ b, fault?⟩ {}
    whole.state = (second.state.1, first.state.2 + second.state.2) ∧
      whole.ports.out.bytes = first.ports.out.bytes ++ second.ports.out.bytes ∧
      whole.ports.diag.bytes = first.ports.diag.bytes ++ second.ports.diag.bytes ∧
      whole.failure? = second.failure?.map (Failure.later (a.count 0x0A)) := by
  intro first second whole
  have hu : Ports.Reliable {} := .refl _
  have hlines := Source.lines_append ha b fault?
  have hok := (run_failure_eq_none_iff hu _).1 hfirst
  have htexts : (⟨a ++ b, fault?⟩ : Source).texts =
      (⟨a, none⟩ : Source).texts ++ (⟨b, fault?⟩ : Source).texts := by
    rw [Source.texts, hlines, readable_append hok]
    rfl
  have hstate : first.state.1 = s.stepAll (⟨a, none⟩ : Source).texts :=
    congrArg Prod.fst (run_state hu _)
  have hdebug' : first.state.1.debug = false := by
    rw [hstate, stepAll_debug]
    exact hdebug
  have hsecond : second.state =
      ((s.stepAll (⟨a, none⟩ : Source).texts).stepAll (⟨b, fault?⟩ : Source).texts,
        Summary.recordAll {}
          ((s.stepAll (⟨a, none⟩ : Source).texts).steps (⟨b, fault?⟩ : Source).texts)) := by
    rw [run_state hu, hstate]
  refine ⟨?_, ?_, ?_, ?_⟩
  · rw [hsecond, run_state hu, run_state hu, htexts, stepAll_append, steps_append,
      Summary.recordAll_append, Summary.recordAll_eq_add]
  · rw [run_out hdebug hu, run_out hdebug hu, run_out hdebug' hu, htexts, hstate, steps_append,
      List.flatMap_append]
    rfl
  · rw [run_diag hdebug hu, run_diag hdebug hu, run_diag hdebug' hu, htexts, hstate,
      steps_append, stepAll_diagnostics]
    split
    · rw [List.flatMap_append]
      rfl
    · rfl
  · rw [run_failure hu, run_failure hu, hlines, readFailure?_append hok,
      readFailure?_add, Source.length_lines ha]

theorem run_append_of_failure (s : Session) (ha : a.Ended) (b : Bytes) (fault? : Option ReadFault)
    (hfirst : (s.run ⟨a, none⟩ {}).failure? ≠ none) :
    s.run ⟨a ++ b, fault?⟩ {} = s.run ⟨a, none⟩ {} := by
  have hu : Ports.Reliable {} := .refl _
  obtain ⟨failure, hfailure⟩ := Option.ne_none_iff_exists'.1 hfirst
  have hread := hfailure
  rw [run_failure hu] at hread
  obtain ⟨line, fault, rfl⟩ := eq_read_of_readFailure? hread
  -- After a line that cannot be read nothing goes on.
  have hwhole := s.run_eq_goOn ha b fault? {}
  rw [Ending.goOn, hfailure] at hwhole
  exact hwhole

/-- Where a script is cut at the end of a line, it is run as its two parts: if the first part can be
run, the second goes on in the session that it leaves, and both together print and count what each
of them does; otherwise the second part changes nothing. -/
theorem run_append (hdebug : s.debug = false) (ha : a.Ended) (b : Bytes)
    (fault? : Option ReadFault) :
    let first := s.run ⟨a, none⟩ {}
    let second := first.state.1.run ⟨b, fault?⟩ {}
    let whole := s.run ⟨a ++ b, fault?⟩ {}
    (first.failure? = none →
        whole.state = (second.state.1, first.state.2 + second.state.2) ∧
          whole.ports.out.bytes = first.ports.out.bytes ++ second.ports.out.bytes ∧
          whole.ports.diag.bytes = first.ports.diag.bytes ++ second.ports.diag.bytes ∧
          whole.failure? = second.failure?.map (Failure.later (a.count 0x0A))) ∧
      (first.failure? ≠ none → whole = first) := by
  intro first second whole
  exact ⟨run_append_of_success hdebug ha b fault?, s.run_append_of_failure ha b fault?⟩

theorem run_append_of_walk :
    let s : Session := { table := .standard }
    let a := Bytes.ofText "PLACE 1,2,EAST\nMOVE\r\n"
    let b := Bytes.ofText "REPORT\n" ++ [0xFF, 0x0A]
    let first := s.run ⟨a, none⟩ {}
    let second := first.state.1.run ⟨b, some .broke⟩ {}
    let whole := s.run ⟨a ++ b, some .broke⟩ {}
    s.debug = false ∧ a.Ended ∧ b.Ended ∧
      (first.failure? = none ∧ whole.state = (second.state.1, first.state.2 + second.state.2) ∧
        whole.ports.out.bytes = first.ports.out.bytes ++ second.ports.out.bytes ∧
        whole.ports.diag.bytes = first.ports.diag.bytes ++ second.ports.diag.bytes ∧
        whole.failure? = second.failure?.map (Failure.later (a.count 0x0A))) ∧
      (s.run ⟨b, none⟩ {}).failure? ≠ none ∧ s.run ⟨b ++ a, none⟩ {} = s.run ⟨b, none⟩ {} := by
  intro s a b
  have hu : Ports.Reliable {} := .refl _
  have hdebug : s.debug = false := rfl
  have ha : a.Ended := by decide
  have hb : b.Ended := by decide
  have hlines : (⟨a, none⟩ : Source).lines = [.ok "PLACE 1,2,EAST", .ok "MOVE"] := rfl
  have hlines' : (⟨b, none⟩ : Source).lines = [.ok "REPORT", .error .notUtf8] := rfl
  have hfirst : (s.run ⟨a, none⟩ {}).failure? = none := by
    rw [run_failure hu, hlines]
    rfl
  have hfails : (s.run ⟨b, none⟩ {}).failure? ≠ none := by
    rw [run_failure hu, hlines']
    exact nofun
  exact ⟨hdebug, ha, hb, ⟨hfirst, (run_append hdebug ha b (some .broke)).1 hfirst⟩, hfails,
    (run_append hdebug hb a none).2 hfails⟩

end Session

end Tabletop
