import Tabletop.Outcome
import Tabletop.Stream.Feed

/-!
A session keeps one robot on one table and feeds it lines. A script is a whole source of lines;
its reports and diagnostics go to two sinks, or, when debugging, a table of all steps to one.
-/

namespace Tabletop

/-- A robot on a table, and what is written about it. -/
structure Session where
  table : Table
  robot : Robot := .initial
  diagnostics : Bool := true
  debug : Bool := false
  deriving DecidableEq

/-- One line, what became of it, and the robot afterwards. -/
structure Step where
  reading : Reading
  outcome : Outcome
  robot : Robot

/-- The line that tells what became of the input. -/
def Step.diagnostic (s : Step) : String :=
  match s.outcome with
  | .accepted _ => s.reading.keyword?.getD "input" ++ " - OK"
  | .rejected _ => s.reading.keyword?.getD "input" ++ " - avoid fall"
  | .ignored cause => "ignoring input - " ++ cause.message

/-- The diagnostic together with the report that was given, if any. -/
def Step.account (s : Step) : String :=
  match s.outcome.report? with
  | some pose => s.diagnostic ++ " -> " ++ pose.text
  | none => s.diagnostic

/-- How many lines a script had, by what became of them. -/
structure Summary where
  lines : Nat := 0
  accepted : Nat := 0
  ignored : Nat := 0
  rejected : Nat := 0
  reports : Nat := 0
  deriving DecidableEq

/-- Counts one more line. -/
def Summary.record (s : Summary) : Outcome → Summary
  | .accepted report =>
    { s with
      lines := s.lines + 1
      accepted := s.accepted + 1
      reports := s.reports + report.toList.length }
  | .ignored _ => { s with lines := s.lines + 1, ignored := s.ignored + 1 }
  | .rejected _ => { s with lines := s.lines + 1, rejected := s.rejected + 1 }

namespace Session

/-- Takes the robot off the table. -/
def reset (s : Session) : Session :=
  { s with robot := .initial }

/-- Reads a line and applies it to the robot. -/
def step (s : Session) (line : String) : Session × Step :=
  let reading := Command.read line
  let (robot, outcome) := s.robot.heed s.table reading
  ({ s with robot }, ⟨reading, outcome, robot⟩)

theorem step_eq (s : Session) (line : String) :
    s.step line =
      ({ s with robot := (s.robot.heed s.table (Command.read line)).1 },
        ⟨Command.read line, (s.robot.heed s.table (Command.read line)).2,
          (s.robot.heed s.table (Command.read line)).1⟩) := by
  simp only [step]

@[simp] theorem step_table (s : Session) (line : String) : (s.step line).1.table = s.table := by
  simp only [step_eq]

@[simp] theorem step_diagnostics (s : Session) (line : String) :
    (s.step line).1.diagnostics = s.diagnostics := by
  simp only [step_eq]

@[simp] theorem step_debug (s : Session) (line : String) : (s.step line).1.debug = s.debug := by
  simp only [step_eq]

theorem step_robot (s : Session) (line : String) :
    (s.step line).1.robot = (s.robot.heed s.table (Command.read line)).1 := by
  simp only [step_eq]

/-- What is printed about a step: its diagnostic, if wanted, and then its report, if any. -/
def emissions (s : Session) (step : Step) : List Emission :=
  (if s.diagnostics then [⟨.diag, step.diagnostic⟩] else []) ++
    step.outcome.report?.toList.map fun pose => ⟨.out, pose.text⟩

/-- Steps a line and prints about it. -/
def emit (s : Session) (line : String) (ports : Ports) : Ending Session :=
  let (next, step) := s.step line
  let (ports, fault) := ports.printAll (next.emissions step)
  { state := next, ports, failure? := fault.map .write }

theorem emit_eq (s : Session) (line : String) (ports : Ports) :
    s.emit line ports =
      { state := (s.step line).1
        ports := (ports.printAll ((s.step line).1.emissions (s.step line).2)).1
        failure? :=
          (ports.printAll ((s.step line).1.emissions (s.step line).2)).2.map .write } := by
  simp only [emit]

/-- A line of the table of steps. Columns are filled up by characters and never cut. -/
def debugLine (number input outcome state : String) : Emission :=
  ⟨.out, Text.column 4 number ++ " | " ++ Text.column 20 input ++ " | " ++
    Text.column 50 outcome ++ " | " ++ state⟩

/-- The two lines at the head of the table of steps. -/
def debugHeader : List Emission :=
  [debugLine "STEP" "INPUT" "OUTCOME" "STATE",
   ⟨.out, "+".intercalate ([5, 22, 52, 13].map fun n => String.ofList (List.replicate n '-'))⟩]

/-- The row of a step. -/
def debugRow (number : Nat) (line : String) (step : Step) : Emission :=
  debugLine (toString number) (Text.trim line) step.account step.robot.text

/-- Answers a line of a script. -/
def answer (number : Nat) (line : String) : Session × Summary → Reply (Session × Summary)
  | (s, summary) =>
    let (next, step) := s.step line
    { state := (next, summary.record step.outcome)
      emissions := if s.debug then [debugRow number line step] else next.emissions step }

theorem answer_eq (number : Nat) (line : String) (s : Session) (summary : Summary) :
    answer number line (s, summary) =
      { state := ((s.step line).1, summary.record (s.step line).2.outcome)
        emissions :=
          if s.debug then [debugRow number line (s.step line).2]
          else (s.step line).1.emissions (s.step line).2 } := by
  simp only [answer]

/-- Runs a script to the end of its source. -/
def run (s : Session) (source : Source) (ports : Ports) : Ending (Session × Summary) :=
  match ports.printAll (if s.debug then debugHeader else []) with
  | (ports, some fault) => .failed (s, {}) ports (.write fault)
  | (ports, none) => feed answer 1 source.lines (s, {}) ports

end Session

end Tabletop
