import Tabletop.Arguments
import Tabletop.Program.Usage

/-!
The program as a function of its arguments and surroundings: what it writes and how it exits. There
is no terminal, so a session is always a plain one, and logging is off (`ROBOT_LOG=off`), so that
nothing is written but what is written here. Interrupts do not come; only that their handler cannot
be set makes a difference.
-/

namespace Tabletop

/-- What the program leaves to libraries: to read its arguments, refusing them in its own name, to
read a configuration, and to know the directory of configurations. -/
structure Libraries where
  arguments (program : String) : ArgumentsReader
  bounds : BoundsReader
  configHome? : Environment → Option String

/-- What surrounds the program. -/
structure World where
  stdin : Source
  environment : Environment
  files : Files
  /-- Why no handler of interrupts can be set, if none can. -/
  handlerFault? : Option String := none

/-- Why a session cannot be held as wished. -/
inductive ModeError where
  | noTerminal (byFlag : Bool)
  | unknown (value : String)
  deriving DecidableEq

/-- What makes the program fail. -/
inductive Trouble where
  | mode (e : ModeError)
  | bounds (e : BoundsError)
  | handler (description : String)
  | commandFile (path : String) (e : FileError)
  | session (f : Failure)
  deriving DecidableEq

def Mode.envName : String := "ROBOT_REPL_MODE"

def ModeError.message : ModeError → String
  | noTerminal true =>
    "cannot start editor: stdin is not a TTY (use --bare or " ++ Mode.envName ++ "=bare)"
  | noTerminal false =>
    "cannot start editor: stdin is not a TTY (use " ++ Mode.envName ++ "=bare)"
  | unknown value =>
    "invalid " ++ Mode.envName ++ " value: " ++ value ++ ", must be 'bare' or 'editor'"

def Trouble.message : Trouble → String
  | mode e => e.message
  | bounds e => e.message
  | handler description => "failed to set ctrl+c handler: " ++ description
  | commandFile path e => "failed to open command file " ++ path ++ ": " ++ e.message
  | session f => f.message

/-- How the program ended. -/
inductive Conclusion where
  | misused (text : String)
  | explained (text : String)
  | finished (ports : Ports) (trouble? : Option Trouble)

namespace Conclusion

/-- The exit code. -/
def code : Conclusion → Nat
  | misused _ => 2
  | explained _ => 0
  | finished _ none => 0
  | finished _ (some _) => 1

/-- The bytes on standard output. -/
def out : Conclusion → Bytes
  | finished ports _ => ports.out.bytes
  | _ => []

/-- The bytes on standard error. What went wrong comes last, after the program's name. -/
def diag (program : String) : Conclusion → Bytes
  | misused text => Bytes.ofText text
  | explained text => Bytes.ofText text
  | finished ports none => ports.diag.bytes
  | finished ports (some t) =>
    ports.diag.bytes ++ Bytes.ofText (program ++ ": " ++ t.message ++ "\n")

/-- An ending before anything was written. -/
def refused (t : Trouble) : Conclusion :=
  finished {} (some t)

def ofEnding {σ : Type} (e : Ending σ) : Conclusion :=
  finished e.ports (e.failure?.map .session)

end Conclusion

/-- The name of the configuration that is looked for when none is named. -/
def configName : String := "robot.toml"

namespace World

/-- Whether a plain session can be held: the option for the mode decides, then the environment. -/
def checkMode (w : World) : Option Mode → Except ModeError Unit
  | some .bare => .ok ()
  | some .editor => .error (.noTerminal true)
  | none =>
    match w.environment Mode.envName with
    | none => .ok ()
    | some raw =>
      match String.ofList ((Text.trimChars raw.toList).map Char.toLower) with
      | "bare" => .ok ()
      | "editor" => .error (.noTerminal false)
      | _ => .error (.unknown raw)

/-- Opens the source of commands. A directory can be opened, but no line of it can be read. -/
def openScript (w : World) : Option String → Except FileError Source
  | none => .ok w.stdin
  | some path =>
    match w.files.entryAt path with
    | .ok (.file bytes) => .ok { bytes }
    | .ok .directory => .ok { bytes := [], fault? := some .isDirectory }
    | .error e => .error e

variable (lib : Libraries)

/-- The configuration file that is looked for when none is named. -/
def implicitConfig? (w : World) : Option String :=
  (lib.configHome? w.environment).map fun directory => pathUnder directory configName

def table (w : World) (a : TableArguments) : Except BoundsError Table :=
  Bounds.resolve lib.bounds a.flags w.environment w.files a.config? (w.implicitConfig? lib)

/-- Runs a script from a file or standard input. -/
def run (w : World) (a : RunArguments) : Conclusion :=
  match w.table lib a.table with
  | .error e => .refused (.bounds e)
  | .ok table =>
    match w.openScript a.file? with
    | .error e => .refused (.commandFile (a.file?.getD "<stdin>") e)
    | .ok source =>
      .ofEnding <| Session.run { table, diagnostics := !a.quiet, debug := a.debug } source {}

/-- Holds a session on standard input. -/
def repl (w : World) (a : ReplArguments) : Conclusion :=
  match w.checkMode a.mode? with
  | .error e => .refused (.mode e)
  | .ok () =>
    match w.table lib a.table with
    | .error e => .refused (.bounds e)
    | .ok table =>
      match w.handlerFault? with
      | some description => .refused (.handler description)
      | none => .ofEnding <| Session.converse { table, diagnostics := !a.quiet } w.stdin {}

/-- Carries out a task for a program of a given name. -/
def perform (w : World) (program : String) : Task → Conclusion
  | .run a => if a.help then .explained (Usage.run program) else w.run lib a
  | .repl a => if a.help then .explained (Usage.repl program) else w.repl lib a

/-- Does what the arguments of a program ask for. -/
def execute (w : World) (program : String) (arguments : List String) : Conclusion :=
  match lib.arguments program arguments with
  | .error text => .misused text
  | .ok a =>
    if a.help then .explained (Usage.program program) else w.perform lib program a.task

variable {lib} {w : World} {program : String} {arguments : List String} {a : Arguments}

theorem execute_of_read (hread : lib.arguments program arguments = .ok a)
    (hhelp : a.help = false) :
    w.execute lib program arguments = w.perform lib program a.task := by
  simp only [execute, hread, hhelp, Bool.false_eq_true, if_false]

end World

end Tabletop
