import Tabletop.Bounds

/-!
What the arguments of the program ask for. There are two subcommands, to run a script and to hold a
session, with some options of their own and some in common.
-/

namespace Tabletop

/-- How a session on standard input is to be held. -/
inductive Mode where
  | bare
  | editor
  deriving DecidableEq

/-- The options about the table. -/
structure TableArguments where
  flags : Bounds := {}
  config? : Option String := none
  deriving DecidableEq

structure RunArguments where
  file? : Option String := none
  debug : Bool := false
  quiet : Bool := false
  table : TableArguments := {}
  help : Bool := false
  deriving DecidableEq

structure ReplArguments where
  bare : Bool := false
  editor : Bool := false
  quiet : Bool := false
  table : TableArguments := {}
  help : Bool := false
  deriving DecidableEq

/-- The mode that is asked for. -/
def ReplArguments.mode? (a : ReplArguments) : Option Mode :=
  if a.bare then some .bare
  else if a.editor then some .editor
  else none

inductive Task where
  | run (a : RunArguments)
  | repl (a : ReplArguments)
  deriving DecidableEq

namespace Task

/-- Whether only an explanation is asked for. -/
def help : Task → Bool
  | run a => a.help
  | repl a => a.help

def table : Task → TableArguments
  | run a => a.table
  | repl a => a.table

/-- The file that the lines come from, if it is not standard input. -/
def file? : Task → Option String
  | run a => a.file?
  | repl _ => none

end Task

/-- The arguments as a whole, whose help is about the program. -/
structure Arguments where
  help : Bool := false
  task? : Option Task := none
  deriving DecidableEq

/-- What is to be done. Without a subcommand that is a session. -/
def Arguments.task (a : Arguments) : Task :=
  a.task?.getD (.repl {})

/-- A parser of arguments: what they ask for, or the text of what is wrong with them. -/
abbrev ArgumentsReader := List String → Except String Arguments

/-- What a parser makes of the words that are common to all uses of the program: nothing and the
bare subcommands, the options that a session shares with a script, and one option in front of
others that do not give it. -/
structure ReadsArguments (parse : ArgumentsReader) : Prop where
  nothing : parse [] = .ok {}
  run : parse ["run"] = .ok { task? := some (.run {}) }
  shared : ∀ words (a : RunArguments),
    parse ("run" :: words) = .ok { task? := some (.run a) } → a.file? = none → a.debug = false →
      parse ("repl" :: words) =
        .ok { task? := some (.repl { quiet := a.quiet, table := a.table, help := a.help }) }
  bare : ∀ words (a : ReplArguments),
    parse ("repl" :: words) = .ok { task? := some (.repl a) } → a.mode? = none →
      parse ("repl" :: "--bare" :: words) = .ok { task? := some (.repl { a with bare := true }) }
  fileJoined : ∀ path words (a : RunArguments),
    parse ("run" :: words) = .ok { task? := some (.run a) } → a.file? = none →
      parse ("run" :: ("--file=" ++ path) :: words) =
        .ok { task? := some (.run { a with file? := some path }) }
  fileNext : ∀ path words (a : RunArguments),
    parse ("run" :: words) = .ok { task? := some (.run a) } → a.file? = none →
      path.toList.head? ≠ some '-' →
        parse ("run" :: "--file" :: path :: words) =
          .ok { task? := some (.run { a with file? := some path }) }

end Tabletop
