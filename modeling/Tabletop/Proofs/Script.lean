import Tabletop.Proofs.ReadFailure
import Tabletop.Proofs.Replay
import Tabletop.Session.Steps

/-!
What a script does in terms of its steps, when its output can be written.
-/

namespace Tabletop

/-- The values before the first error. -/
def readable {ε α : Type} : List (Except ε α) → List α
  | [] => []
  | .error _ :: _ => []
  | .ok a :: rest => a :: readable rest

theorem eq_map_readable {ε α : Type} {lines : List (Except ε α)}
    (h : ∀ line ∈ lines, ∃ a, line = .ok a) : lines = (readable lines).map .ok := by
  induction lines with
  | nil => rfl
  | cons line rest ih =>
    obtain ⟨a, rfl⟩ := h line List.mem_cons_self
    rw [readable, List.map_cons, ← ih fun line hline => h line (List.mem_cons_of_mem _ hline)]

theorem readable_map_ok {ε α : Type} (as : List α) :
    readable (as.map Except.ok : List (Except ε α)) = as := by
  induction as with
  | nil => rfl
  | cons a as ih => rw [List.map_cons, readable, ih]

theorem ok_mem_of_mem_readable {ε α : Type} {lines : List (Except ε α)} {a : α}
    (h : a ∈ readable lines) : .ok a ∈ lines := by
  induction lines with
  | nil => cases h
  | cons line rest ih =>
    cases line with
    | error e => cases h
    | ok b =>
      rcases List.mem_cons.1 h with rfl | hrest
      · exact List.mem_cons_self
      · exact List.mem_cons_of_mem _ (ih hrest)

/-- The lines of a source that come before the first that cannot be read. -/
def Source.texts (source : Source) : List String :=
  readable source.lines

/-- The failure of the first line that cannot be read; the first line has number `n`. -/
def readFailure? (n : Nat) : List (Except ReadFault String) → Option Failure
  | [] => none
  | .error fault :: _ => some (.read n fault)
  | .ok _ :: rest => readFailure? (n + 1) rest

theorem readFailure?_eq_none_iff {n : Nat} {lines : List (Except ReadFault String)} :
    readFailure? n lines = none ↔ ∀ line ∈ lines, ∃ text, line = .ok text := by
  induction lines generalizing n with
  | nil => simp [readFailure?]
  | cons line rest ih =>
    cases line with
    | error fault => simp [readFailure?]
    | ok text =>
      rw [readFailure?, ih]
      simp

/-- What a step sends to the diagnostics, if they are wanted. -/
def Step.diagnosed (step : Step) : Bytes :=
  Bytes.ofText (step.diagnostic ++ "\n")

/-- What a step sends to the reports. -/
def Step.reported (step : Step) : Bytes :=
  step.outcome.report?.toList.flatMap fun pose => Bytes.ofText (pose.text ++ "\n")

def Outcome.isIgnored : Outcome → Bool
  | ignored _ => true
  | _ => false

def Outcome.isRejected : Outcome → Bool
  | rejected _ => true
  | _ => false

def Summary.recordAll (summary : Summary) (steps : List Step) : Summary :=
  steps.foldl (fun summary step => summary.record step.outcome) summary

theorem Summary.recordAll_cons (summary : Summary) (step : Step) (rest : List Step) :
    summary.recordAll (step :: rest) = (summary.record step.outcome).recordAll rest :=
  rfl

theorem Summary.recordAll_append (summary : Summary) (steps rest : List Step) :
    summary.recordAll (steps ++ rest) = (summary.recordAll steps).recordAll rest := by
  rw [recordAll, List.foldl_append, recordAll, recordAll]

theorem Summary.recordAll_eq (summary : Summary) (steps : List Step) :
    summary.recordAll steps =
      { lines := summary.lines + steps.length
        accepted := summary.accepted + steps.countP (·.outcome.isAccepted)
        ignored := summary.ignored + steps.countP (·.outcome.isIgnored)
        rejected := summary.rejected + steps.countP (·.outcome.isRejected)
        reports := summary.reports + (steps.filterMap (·.outcome.report?)).length } := by
  induction steps generalizing summary with
  | nil => rfl
  | cons step rest ih =>
    rw [recordAll_cons, ih]
    obtain ⟨reading, (_ | pose) | cause | target, robot⟩ := step <;>
    · simp [record, Outcome.isAccepted, Outcome.isIgnored, Outcome.isRejected, Outcome.report?]
      omega

namespace Session

variable {s : Session} {u : Ports} {lines rest : List (Except ReadFault String)} {n : Nat}
variable {text : String} {summary : Summary}

theorem bytesOn_out_emissions (s : Session) (step : Step) :
    bytesOn .out (s.emissions step) = step.reported := by
  unfold emissions bytesOn Step.reported
  cases s.diagnostics <;> cases step.outcome.report? <;> simp [Emission.bytes]

theorem bytesOn_diag_emissions (s : Session) (step : Step) :
    bytesOn .diag (s.emissions step) = if s.diagnostics then step.diagnosed else [] := by
  unfold emissions bytesOn Step.diagnosed
  cases s.diagnostics <;> cases step.outcome.report? <;> simp [Emission.bytes]

theorem feed_answer_ok (hu : u.Reliable) :
    feed answer n (.ok text :: rest) (s, summary) u =
      feed answer (n + 1) rest ((s.step text).1, summary.record (s.step text).2.outcome)
        (u.printAll (answer n text (s, summary)).emissions).1 := by
  have hprint := (hu.printAll (printsDiagFirst_answer n text (s, summary))).1
  have hstop : ¬ (answer n text (s, summary)).stop = true := by
    rw [answer_stop]
    exact Bool.false_ne_true
  rw [feed_ok_of_none hprint, if_neg hstop]
  simp only [answer_eq]

theorem feed_answer_state (hu : u.Reliable) (n : Nat) (lines : List (Except ReadFault String))
    (s : Session) (summary : Summary) :
    (feed answer n lines (s, summary) u).state =
      (s.stepAll (readable lines), summary.recordAll (s.steps (readable lines))) := by
  induction lines generalizing n s summary u with
  | nil => rfl
  | cons line rest ih =>
    cases line with
    | error fault => rfl
    | ok text =>
      rw [feed_answer_ok hu, ih (hu.printed _), readable, steps, stepAll_cons,
        Summary.recordAll_cons]

theorem emissions_step (s : Session) (line : String) :
    (s.step line).1.emissions = s.emissions := by
  funext step
  simp only [emissions, step_diagnostics]

theorem replies_answer_emissions (hdebug : s.debug = false) (n : Nat)
    (lines : List (Except ReadFault String)) (summary : Summary) :
    (replies answer n lines (s, summary)).flatMap Reply.emissions =
      (s.steps (readable lines)).flatMap s.emissions := by
  induction lines generalizing n s summary with
  | nil => rfl
  | cons line rest ih =>
    cases line with
    | error fault => rfl
    | ok text =>
      have hdebug' : (s.step text).1.debug = false := (step_debug s text).trans hdebug
      simp only [replies, answer_eq, hdebug, Bool.false_eq_true, if_false, List.flatMap_cons,
        ih hdebug', readable, steps, emissions_step]

theorem feed_answer_failure (hu : u.Reliable) (n : Nat) (lines : List (Except ReadFault String))
    (s : Session) (summary : Summary) :
    (feed answer n lines (s, summary) u).failure? = readFailure? n lines := by
  induction lines generalizing n s summary u with
  | nil =>
    rw [feed, hu.flushed]
    rfl
  | cons line rest ih =>
    cases line with
    | error fault => rfl
    | ok text =>
      rw [feed_answer_ok hu, ih (hu.printed _)]
      rfl

theorem run_state (hu : u.Reliable) (source : Source) :
    (s.run source u).state =
      (s.stepAll source.texts, Summary.recordAll {} (s.steps source.texts)) := by
  rw [run_of_reliable hu]
  exact feed_answer_state (hu.printed _) 1 source.lines s {}

/-- Everything that is printed about lines. -/
def printed (s : Session) (lines : List String) : List Emission :=
  (s.steps lines).flatMap s.emissions

theorem run_prints (hdebug : s.debug = false) (hu : u.Reliable) (source : Source) :
    (s.run source u).ports.out.bytes = u.out.bytes ++ bytesOn .out (s.printed source.texts) ∧
      (s.run source u).ports.diag.bytes =
        u.diag.bytes ++ bytesOn .diag (s.printed source.texts) := by
  have hbytes := feed_bytes printsDiagFirst_answer hu 1 source.lines (s, {})
  rw [replies_answer_emissions hdebug] at hbytes
  rw [run_eq_feed hdebug]
  exact hbytes

theorem run_out (hdebug : s.debug = false) (hu : u.Reliable) (source : Source) :
    (s.run source u).ports.out.bytes =
      u.out.bytes ++ (s.steps source.texts).flatMap Step.reported := by
  rw [(run_prints hdebug hu source).1, printed, bytesOn_flatMap]
  simp only [bytesOn_out_emissions]

theorem run_diag (hdebug : s.debug = false) (hu : u.Reliable) (source : Source) :
    (s.run source u).ports.diag.bytes =
      u.diag.bytes ++
        if s.diagnostics then (s.steps source.texts).flatMap Step.diagnosed else [] := by
  rw [(run_prints hdebug hu source).2, printed, bytesOn_flatMap]
  simp only [bytesOn_diag_emissions]
  split
  · rfl
  · rw [List.flatMap_eq_nil_iff.2 fun _ _ => rfl]

theorem run_failure (hu : u.Reliable) (source : Source) :
    (s.run source u).failure? = readFailure? 1 source.lines := by
  rw [run_of_reliable hu]
  exact feed_answer_failure (hu.printed _) 1 source.lines s {}

theorem run_failure_eq_none_iff (hu : u.Reliable) (source : Source) :
    (s.run source u).failure? = none ↔ ∀ line ∈ source.lines, ∃ text, line = .ok text := by
  rw [run_failure hu, readFailure?_eq_none_iff]

end Session

end Tabletop
