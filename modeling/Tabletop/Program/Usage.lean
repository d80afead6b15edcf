import Tabletop.Session.Console

/-!
The texts that explain the command line, for a program of a given name.
-/

namespace Tabletop.Usage

/-- Lines of text, each ended. -/
def lines (ls : List String) : String :=
  String.join (ls.map (· ++ "\n"))

/-- The whole program. -/
def program (name : String) : String :=
  lines [
    "Usage:",
    "  " ++ name ++ " run  [--debug|-d] [--quiet|-q]                # Run commands from STDIN",
    "  " ++ name ++ " run  [--debug|-d] [--quiet|-q] --file <PATH>  # Run commands from a file",
    "  " ++ name ++ " repl [--bare|--editor]                        # Start a toy robot REPL",
    "  " ++ name ++ "                                               # Same as \"" ++
      name ++ " repl\"",
    "",
    "Run \"" ++ name ++ " <subcommand> --help\" for more info.",
    "",
    "Environment:",
    "  ROBOT_MAX_X, ROBOT_MAX_Y   Table bounds when no --max-x/--max-y flag is given",
    "  ROBOT_REPL_MODE            bare|editor, overrides REPL mode auto-detection",
    "  ROBOT_LOG                  tracing filter for logs on stderr (default: warn)",
    ""]

/-- The subcommand that runs a script. -/
def run (name : String) : String :=
  lines [
    "Usage:",
    "  " ++ name ++ " run [--debug|-d] [--quiet|-q]                # Read commands from STDIN",
    "  " ++ name ++ " run [--debug|-d] [--quiet|-q] --file <PATH>  # Read commands from a file",
    "",
    "Options:",
    "  --file,  -f <PATH>  Read commands from PATH instead of STDIN",
    "  --debug, -d         Print a step-by-step table of outcomes instead of reports",
    "  --quiet, -q         Suppress per-line diagnostics (reports are still printed)",
    "  --max-x <N>         Inclusive upper bound for x (fallback ROBOT_MAX_X; default 5)",
    "  --max-y <N>         Inclusive upper bound for y (fallback ROBOT_MAX_Y; default 5)",
    "  --config <PATH>     Read [table] max_x/max_y from PATH " ++
      "(default: robot.toml in the XDG config dir)",
    "  --help,  -h         Show this help",
    "",
    "Commands (one per line):",
    "  PLACE X,Y,F   Put the robot at X,Y facing F (NORTH, EAST, SOUTH or WEST)",
    "  MOVE          Move one unit forward",
    "  LEFT, RIGHT   Rotate 90 degrees without moving",
    "  REPORT        Print X,Y,F",
    "",
    "Notes:",
    "- Reports go to stdout; diagnostics such as \"MOVE - avoid fall\" go to stderr.",
    "- Commands before the first valid PLACE are ignored.",
    "- Moves that would fall off the table are ignored.",
    "",
    "Examples:",
    "- Run a script:",
    "    " ++ name ++ " run --file ./commands.txt",
    "- Pipe commands on stdin:",
    "    printf 'PLACE 0,0,NORTH\\nMOVE\\nREPORT\\n' | " ++ name ++ " run",
    ""]

/-- The subcommand that holds a session. -/
def repl (name : String) : String :=
  lines [
    "Usage:",
    "  " ++ name ++ " repl   # Start a toy robot REPL (read-eval-print loop)",
    "",
    "Options:",
    "  --help,  -h         Show this help",
    "  --bare              Read commands from stdin without a line editor",
    "  --editor            Use the highlighting line editor (stdin must be a TTY)",
    "  --quiet, -q         Suppress per-line diagnostics",
    "  --max-x <N>         Inclusive upper bound for x (fallback ROBOT_MAX_X; default 5)",
    "  --max-y <N>         Inclusive upper bound for y (fallback ROBOT_MAX_Y; default 5)",
    "  --config <PATH>     Read [table] max_x/max_y from PATH",
    "",
    "Description:",
    "  Starts a session where each line is one robot command. The robot keeps its",
    "  position between lines until :reset.",
    "",
    MetaCommand.helpText,
    "",
    "Notes:",
    "    - Reports go to stdout; diagnostics and meta output go to stderr.",
    "    - Ctrl+C or Ctrl+D exits the REPL.",
    "    - The session mode comes from --bare/--editor if given, else from",
    "      ROBOT_REPL_MODE=bare|editor, else editor on a TTY and bare otherwise.",
    "    - The banner is only shown when stderr is a TTY.",
    ""]

end Tabletop.Usage
