import Tabletop.Session

/-!
The console reads commands and, on lines that start with a colon, meta commands about the session
itself. What a meta command prints does not depend on whether diagnostics are wanted.
-/

namespace Tabletop

/-- A line that is about the session and not for the robot. -/
inductive MetaCommand where
  | exit
  | help
  | reset
  | state
  | unknown (name : String)
  deriving DecidableEq

namespace MetaCommand

def ofName : String → MetaCommand
  | "exit" | "quit" => exit
  | "help" => help
  | "reset" => reset
  | "state" => state
  | name => unknown name

/-- The meta command of a line whose first character that is not blank is a colon. -/
def ofLine? (line : String) : Option MetaCommand :=
  match Text.trimChars line.toList with
  | ':' :: name => some (ofName (String.ofList name))
  | _ => none

def helpText : String :=
  "Meta commands (line starts with \":\")\n" ++
  "  :exit    Exit immediately (code 0)\n" ++
  "  :help    Show this help\n" ++
  "  :reset   Take the robot off the table\n" ++
  "  :state   Print the current state, placed or not"

end MetaCommand

/-- The bounds of a table as the console shows them. -/
def Table.text (t : Table) : String :=
  "table 0..=" ++ toString t.maxX.toInt ++ ", 0..=" ++ toString t.maxY.toInt

namespace Session

/-- Answers a meta command. -/
def perform (s : Session) : MetaCommand → Reply Session
  | .exit => { state := s, emissions := [], stop := true }
  | .help => { state := s, emissions := [⟨.diag, MetaCommand.helpText⟩] }
  | .reset => { state := s.reset, emissions := [⟨.diag, "robot removed from the table"⟩] }
  | .state => { state := s, emissions := [⟨.out, s.robot.text ++ " (" ++ s.table.text ++ ")"⟩] }
  | .unknown name =>
    { state := s
      emissions := [⟨.diag, "unknown meta command ':" ++ name ++ "' (try :help)"⟩] }

/-- Answers a line of the console. -/
def respond (line : String) (s : Session) : Reply Session :=
  match MetaCommand.ofLine? line with
  | some m => s.perform m
  | none =>
    let (next, step) := s.step line
    { state := next, emissions := next.emissions step }

theorem respond_of_meta {line : String} {m : MetaCommand} (h : MetaCommand.ofLine? line = some m)
    (s : Session) : respond line s = s.perform m := by
  simp only [respond, h]

theorem respond_of_command {line : String} (h : MetaCommand.ofLine? line = none) (s : Session) :
    respond line s =
      { state := (s.step line).1, emissions := (s.step line).1.emissions (s.step line).2 } := by
  simp only [respond, h]

/-- Answers one line and prints the answer; `true` tells that the console goes on. -/
def handle (s : Session) (line : String) (ports : Ports) : Ending Session × Bool :=
  let reply := s.respond line
  let (ports, fault) := ports.printAll reply.emissions
  ({ state := reply.state, ports, failure? := fault.map .write }, !reply.stop)

theorem handle_eq (s : Session) (line : String) (ports : Ports) :
    s.handle line ports =
      ({ state := (respond line s).state
         ports := (ports.printAll (respond line s).emissions).1
         failure? := (ports.printAll (respond line s).emissions).2.map .write },
        !(respond line s).stop) := by
  simp only [handle]

/-- Answers the lines of a source until it ends or a line asks to leave. -/
def converse (s : Session) (source : Source) (ports : Ports) : Ending Session :=
  feed (fun _ => respond) 1 source.lines s ports

end Session

end Tabletop
