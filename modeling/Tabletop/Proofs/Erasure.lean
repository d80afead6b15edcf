import Mathlib.Data.Set.Basic
import Tabletop.Proofs.Rules
import Tabletop.Proofs.Script

/-!
Lines without effect can be left out: the other lines do what they did before.
-/

namespace Tabletop

variable {α : Type} {D : Set Nat} [DecidablePred (· ∈ D)] {n : Nat} {l : List α} {a : α}

/-- A list without the members whose number is in `D`; its first member has number `n`. -/
def without (D : Set Nat) [DecidablePred (· ∈ D)] : Nat → List α → List α
  | _, [] => []
  | n, a :: l => if n ∈ D then without D (n + 1) l else a :: without D (n + 1) l

theorem without_of_mem (h : n ∈ D) (a : α) (l : List α) :
    without D n (a :: l) = without D (n + 1) l :=
  if_pos h

theorem without_of_not_mem (h : n ∉ D) (a : α) (l : List α) :
    without D n (a :: l) = a :: without D (n + 1) l :=
  if_neg h

/-- What is known of the members of a list by their numbers is known of those of its tail. -/
theorem forall_getElem?_tail {P : Nat → α → Prop} (h : ∀ i b, (a :: l)[i]? = some b → P (n + i) b) :
    ∀ i b, l[i]? = some b → P (n + 1 + i) b := by
  intro i b hb
  rw [Nat.add_right_comm]
  exact h (i + 1) b hb

theorem without_eq_filter {keep : α → Bool}
    (h : ∀ i a, l[i]? = some a → (n + i ∈ D ↔ keep a = false)) :
    without D n l = l.filter keep := by
  induction l generalizing n with
  | nil => rfl
  | cons b l ih =>
    have hrest := ih (n := n + 1)
      (forall_getElem?_tail (P := fun i a => i ∈ D ↔ keep a = false) h)
    by_cases hn : n ∈ D
    · have hb : ¬ keep b = true := by rw [(h 0 b rfl).1 hn]; exact Bool.false_ne_true
      rw [without_of_mem hn, hrest, List.filter_cons_of_neg hb]
    · have hb : keep b = true := by rw [← Bool.not_eq_false]; exact mt (h 0 b rfl).2 hn
      rw [without_of_not_mem hn, hrest, List.filter_cons_of_pos hb]

theorem forall_mem_without_iff {P : α → Prop} (h : ∀ i a, l[i]? = some a → n + i ∈ D → P a) :
    (∀ a ∈ without D n l, P a) ↔ ∀ a ∈ l, P a := by
  induction l generalizing n with
  | nil => rfl
  | cons b l ih =>
    have hrest := ih (n := n + 1) (forall_getElem?_tail (P := fun i a => i ∈ D → P a) h)
    by_cases hn : n ∈ D
    · rw [without_of_mem hn, hrest, List.forall_mem_cons]
      exact (and_iff_right (h 0 b rfl hn)).symm
    · rw [without_of_not_mem hn, List.forall_mem_cons, List.forall_mem_cons, hrest]

theorem readable_without {ε : Type} {lines : List (Except ε α)}
    (h : ∀ i, n + i ∈ D → i < (readable lines).length) :
    readable (without D n lines) = without D n (readable lines) := by
  induction lines generalizing n with
  | nil => rfl
  | cons line rest ih =>
    cases line with
    | error e =>
      have hn : n ∉ D := fun hn => Nat.not_lt_zero 0 (h 0 hn)
      rw [without_of_not_mem hn]
      rfl
    | ok a =>
      have hrest := ih (n := n + 1) fun i hi => by
        have hlt := h (i + 1) (by rwa [Nat.add_right_comm] at hi)
        exact Nat.lt_of_succ_lt_succ hlt
      by_cases hn : n ∈ D
      · rw [without_of_mem hn, hrest, readable, without_of_mem hn]
      · rw [without_of_not_mem hn, readable, hrest, readable, without_of_not_mem hn]

theorem getElem?_of_lt_readable {ε : Type} {lines : List (Except ε α)} {i : Nat}
    (h : i < (readable lines).length) : ∃ a, lines[i]? = some (.ok a) := by
  induction lines generalizing i with
  | nil => exact (Nat.not_lt_zero i h).elim
  | cons line rest ih =>
    cases line with
    | error e => exact (Nat.not_lt_zero i h).elim
    | ok a =>
      cases i with
      | zero => exact ⟨a, rfl⟩
      | succ i => exact ih (Nat.lt_of_succ_lt_succ h)

/-- Bytes without their lines whose number is in `D`, each with its line feed; the first of the bytes
belong to line `n`. -/
def Bytes.withoutLines (D : Set Nat) [DecidablePred (· ∈ D)] : Nat → Bytes → Bytes
  | _, [] => []
  | n, b :: bs =>
    if n ∈ D then withoutLines D (if b = 0x0A then n + 1 else n) bs
    else b :: withoutLines D (if b = 0x0A then n + 1 else n) bs

theorem Bytes.withoutLines_unfinished {l : Bytes} (h : 0x0A ∉ l) (n : Nat) :
    withoutLines D n l = if n ∈ D then [] else l := by
  induction l with
  | nil => rw [withoutLines, ite_self]
  | cons b l ih =>
    obtain ⟨hb, hl⟩ := List.ne_and_not_mem_of_not_mem_cons h
    rw [withoutLines, if_neg (Ne.symm hb), ih hl]
    split <;> rfl

theorem Bytes.withoutLines_line {l : Bytes} (h : 0x0A ∉ l) (r : Bytes) (n : Nat) :
    withoutLines D n (l ++ 0x0A :: r) =
      if n ∈ D then withoutLines D (n + 1) r else l ++ 0x0A :: withoutLines D (n + 1) r := by
  induction l with
  | nil => rfl
  | cons b l ih =>
    obtain ⟨hb, hl⟩ := List.ne_and_not_mem_of_not_mem_cons h
    rw [List.cons_append, withoutLines, if_neg (Ne.symm hb), ih hl]
    split <;> rfl

namespace Source

/-- A source without its lines whose number is in `D`, counted from 0. -/
def withoutLines (D : Set Nat) [DecidablePred (· ∈ D)] (source : Source) : Source :=
  ⟨source.bytes.withoutLines D 0, source.fault?⟩

theorem lines_withoutLines {bs : Bytes} {fault? : Option ReadFault}
    (h : ∀ i line, (⟨bs, fault?⟩ : Source).lines[i]? = some line → n + i ∈ D →
      ∃ text, line = .ok text) :
    (⟨bs.withoutLines D n, fault?⟩ : Source).lines = without D n (⟨bs, fault?⟩ : Source).lines := by
  induction bs using Bytes.lineInduction generalizing n with
  | unfinished l hl =>
    rw [Bytes.withoutLines_unfinished hl]
    by_cases hn : n ∈ D
    · rw [if_pos hn, lines_unfinished hl]
      rw [lines_unfinished hl] at h
      cases fault? with
      | some fault =>
        -- The unfinished line of a source that breaks is not read, so it is not in `D`.
        obtain ⟨text, htext⟩ := h 0 _ rfl hn
        cases htext
      | none =>
        simp only
        split
        · rfl
        · rw [without_of_mem hn]
          rfl
    · rw [if_neg hn, lines_unfinished hl]
      cases fault? with
      | some fault => rw [without_of_not_mem hn]; rfl
      | none =>
        simp only
        split
        · rfl
        · rw [without_of_not_mem hn]; rfl
  | line l r hl ih =>
    rw [lines_line hl] at h ⊢
    let Readable (i : Nat) (line : Except ReadFault String) := i ∈ D → ∃ text, line = .ok text
    have hrest := ih (n := n + 1) (forall_getElem?_tail (P := Readable) h)
    rw [Bytes.withoutLines_line hl]
    by_cases hn : n ∈ D
    · rw [if_pos hn, hrest, without_of_mem hn]
    · rw [if_neg hn, lines_line hl, hrest, without_of_not_mem hn]

end Source

def Step.Idle (step : Step) : Prop :=
  step.outcome.isAccepted = false ∨ step.reading = .ok .report

namespace Session

variable {s : Session} {lines : List String} {source : Source} {i : Nat}

theorem step_eq_self {line : String} (hidle : (s.step line).2.Idle) : (s.step line).1 = s :=
  step_eq_self_of_robot ((s.step_obeys line).eq_self hidle)

/-- An idle line leaves what it found, so the lines after it take the same steps without it. -/
theorem steps_without (h : ∀ i step, (s.steps lines)[i]? = some step → n + i ∈ D → step.Idle) :
    s.steps (without D n lines) = without D n (s.steps lines) ∧
      s.stepAll (without D n lines) = s.stepAll lines := by
  induction lines generalizing n s with
  | nil => exact ⟨rfl, rfl⟩
  | cons line rest ih =>
    rw [steps] at h
    obtain ⟨hsteps, hall⟩ := ih (n := n + 1)
      (forall_getElem?_tail (P := fun i (step : Step) => i ∈ D → step.Idle) h)
    by_cases hn : n ∈ D
    · have hself : (s.step line).1 = s := step_eq_self (h 0 _ rfl hn)
      rw [hself] at hsteps hall
      rw [without_of_mem hn, hsteps, hall, steps, hself, without_of_mem hn, stepAll_cons, hself]
      exact ⟨rfl, rfl⟩
    · rw [without_of_not_mem hn, steps, hsteps, steps, without_of_not_mem hn, stepAll_cons, hall,
        stepAll_cons]
      exact ⟨rfl, rfl⟩

/-- The numbers of the lines of a script that are not accepted, counted from 0. -/
def refused (s : Session) (source : Source) : Set Nat :=
  {i | ((s.steps source.texts)[i]?.any fun step => !step.outcome.isAccepted) = true}

instance (s : Session) (source : Source) : DecidablePred (· ∈ s.refused source) :=
  fun _ => inferInstanceAs (Decidable (_ = true))

theorem mem_refused_iff :
    i ∈ s.refused source ↔
      ∃ step, (s.steps source.texts)[i]? = some step ∧ step.outcome.isAccepted = false := by
  change ((s.steps source.texts)[i]?.any fun step => !step.outcome.isAccepted) = true ↔ _
  simp only [Option.any_eq_true, Bool.not_eq_true']

theorem lt_of_mem_refused (h : i ∈ s.refused source) : i < (readable source.lines).length := by
  obtain ⟨step, hstep, -⟩ := mem_refused_iff.1 h
  obtain ⟨hi, -⟩ := List.getElem?_eq_some_iff.1 hstep
  rwa [length_steps] at hi

theorem ok_of_mem_refused : ∀ i line, source.lines[i]? = some line → 0 + i ∈ s.refused source →
    ∃ text, line = .ok text := by
  intro i line hline hi
  rw [Nat.zero_add] at hi
  obtain ⟨text, htext⟩ := getElem?_of_lt_readable (lt_of_mem_refused hi)
  rw [hline] at htext
  exact ⟨text, Option.some.inj htext⟩

theorem lines_withoutLines_refused (s : Session) (source : Source) :
    (source.withoutLines (s.refused source)).lines = without (s.refused source) 0 source.lines :=
  Source.lines_withoutLines ok_of_mem_refused

theorem texts_withoutLines_refused (s : Session) (source : Source) :
    (source.withoutLines (s.refused source)).texts = without (s.refused source) 0 source.texts := by
  rw [Source.texts, lines_withoutLines_refused, readable_without]
  · rfl
  · intro i hi
    rw [Nat.zero_add] at hi
    exact lt_of_mem_refused hi

/-- Only the accepted steps are left when the other lines are. -/
theorem steps_withoutLines_refused (s : Session) (source : Source) :
    s.steps (source.withoutLines (s.refused source)).texts =
        (s.steps source.texts).filter (·.outcome.isAccepted) ∧
      s.stepAll (source.withoutLines (s.refused source)).texts = s.stepAll source.texts := by
  have hrefused : ∀ i step, (s.steps source.texts)[i]? = some step →
      (0 + i ∈ s.refused source ↔ step.outcome.isAccepted = false) := by
    intro i step hstep
    rw [Nat.zero_add, mem_refused_iff, hstep]
    simp
  have hidle : ∀ i step, (s.steps source.texts)[i]? = some step → 0 + i ∈ s.refused source →
      step.Idle := fun i step hstep hi => .inl ((hrefused i step hstep).1 hi)
  obtain ⟨hsteps, hall⟩ := steps_without hidle
  rw [texts_withoutLines_refused]
  exact ⟨hsteps.trans (without_eq_filter hrefused), hall⟩

theorem flatMap_reported_accepted (steps : List Step) :
    (steps.filter (·.outcome.isAccepted)).flatMap Step.reported = steps.flatMap Step.reported := by
  induction steps with
  | nil => rfl
  | cons step rest ih =>
    obtain ⟨reading, (report | cause | target), robot⟩ := step
    · rw [List.filter_cons_of_pos rfl, List.flatMap_cons, List.flatMap_cons, ih]
    · rw [List.filter_cons_of_neg Bool.false_ne_true, ih]
      rfl
    · rw [List.filter_cons_of_neg Bool.false_ne_true, ih]
      rfl

theorem recordAll_accepted (steps : List Step) :
    Summary.recordAll {} (steps.filter (·.outcome.isAccepted)) =
      { Summary.recordAll {} steps with
        lines := (Summary.recordAll {} steps).accepted, ignored := 0, rejected := 0 } := by
  have hreports : (steps.filter (·.outcome.isAccepted)).filterMap (·.outcome.report?) =
      steps.filterMap (·.outcome.report?) := by
    rw [List.filterMap_filter]
    congr 1
    funext step
    cases step.outcome <;> rfl
  have hignored : (steps.filter (·.outcome.isAccepted)).countP (·.outcome.isIgnored) = 0 := by
    rw [List.countP_filter, List.countP_eq_zero]
    intro step _
    cases step.outcome <;> simp [Outcome.isIgnored, Outcome.isAccepted]
  have hrejected : (steps.filter (·.outcome.isAccepted)).countP (·.outcome.isRejected) = 0 := by
    rw [List.countP_filter, List.countP_eq_zero]
    intro step _
    cases step.outcome <;> simp [Outcome.isRejected, Outcome.isAccepted]
  have haccepted : (steps.filter (·.outcome.isAccepted)).countP (·.outcome.isAccepted) =
      steps.countP (·.outcome.isAccepted) := by
    rw [List.countP_filter]
    simp only [Bool.and_self]
  rw [Summary.recordAll_eq, Summary.recordAll_eq, hreports, hignored, hrejected, haccepted,
    ← List.countP_eq_length_filter]

/-- Any lines that are not accepted or only report can be left out: the other lines have the same
outcomes and lead to the same state. Without any of its lines that are not accepted a script
reports the same and leaves the same session, and its summary only loses what was left out. -/
theorem erase_without_effect (s : Session) :
    (∀ (lines : List String) (D : Set Nat) [DecidablePred (· ∈ D)],
        (∀ i ∈ D, ∀ step, (s.steps lines)[i]? = some step →
          step.outcome.isAccepted = false ∨ step.reading = .ok .report) →
        s.steps (without D 0 lines) = without D 0 (s.steps lines) ∧
          s.stepAll (without D 0 lines) = s.stepAll lines) ∧
      (s.debug = false → ∀ (source : Source) (ports : Ports), ports.Reliable →
        let whole := s.run source ports
        let rest := s.run (source.withoutLines (s.refused source)) ports
        rest.ports.out.bytes = whole.ports.out.bytes ∧ rest.state.1 = whole.state.1 ∧
          rest.state.2 =
            { whole.state.2 with lines := whole.state.2.accepted, ignored := 0, rejected := 0 } ∧
          (rest.failure? = none ↔ whole.failure? = none)) := by
  constructor
  · intro lines D _ h
    apply steps_without
    intro i step hstep hi
    rw [Nat.zero_add] at hi
    exact h i hi step hstep
  · intro hdebug source ports hports
    obtain ⟨hsteps, hall⟩ := steps_withoutLines_refused s source
    refine ⟨?_, ?_, ?_, ?_⟩
    · rw [run_out hdebug hports, run_out hdebug hports, hsteps, flatMap_reported_accepted]
    · rw [run_state hports, run_state hports, hall]
    · rw [run_state hports, run_state hports, hsteps, recordAll_accepted]
    · rw [run_failure_eq_none_iff hports, run_failure_eq_none_iff hports,
        lines_withoutLines_refused]
      exact forall_mem_without_iff ok_of_mem_refused

theorem erase_without_effect_of_walk :
    let s : Session := { table := .standard, robot := ⟨⟨⟨4, 4⟩, .east⟩, true⟩ }
    let lines := ["MOVE", "REPORT", "MOVE", "HOP", "LEFT", "PLACE 9,9,NORTH", "REPORT"]
    let source : Source := ⟨Bytes.ofText "MOVE\nMOVE\r\n\nREPORT\n" ++ [0xFF, 0x0A], none⟩
    let ports : Ports := ⟨⟨none, false, #[0x2A]⟩, {}⟩
    (∀ i ∈ {i | i ∈ [1, 2, 3, 5]}, ∀ step, (s.steps lines)[i]? = some step →
        step.outcome.isAccepted = false ∨ step.reading = .ok .report) ∧
      (s.steps (without {i | i ∈ [1, 2, 3, 5]} 0 lines) =
          without {i | i ∈ [1, 2, 3, 5]} 0 (s.steps lines) ∧
        s.stepAll (without {i | i ∈ [1, 2, 3, 5]} 0 lines) = s.stepAll lines) ∧
      s.debug = false ∧ ports.Reliable ∧
      (let whole := s.run source ports
      let rest := s.run (source.withoutLines (s.refused source)) ports
      rest.ports.out.bytes = whole.ports.out.bytes ∧ rest.state.1 = whole.state.1 ∧
        rest.state.2 =
          { whole.state.2 with lines := whole.state.2.accepted, ignored := 0, rejected := 0 } ∧
        (rest.failure? = none ↔ whole.failure? = none)) := by
  intro s lines source ports
  have hports : ports.Reliable := ⟨rfl, rfl, rfl, rfl⟩
  have hchecked : ∀ i ∈ [1, 2, 3, 5], (s.steps lines)[i]?.all (fun step =>
      !step.outcome.isAccepted || decide (step.reading = .ok .report)) = true := by decide
  have hidle : ∀ i ∈ {i | i ∈ [1, 2, 3, 5]}, ∀ step, (s.steps lines)[i]? = some step →
      step.outcome.isAccepted = false ∨ step.reading = .ok .report := by
    intro i hi step hstep
    have h := hchecked i hi
    rw [hstep] at h
    simpa using h
  obtain ⟨hlist, hrun⟩ := erase_without_effect s
  exact ⟨hidle, hlist lines {i | i ∈ [1, 2, 3, 5]} hidle, rfl, hports,
    hrun rfl source ports hports⟩

end Session

end Tabletop
