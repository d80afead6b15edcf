import Tabletop.Libraries

namespace Tabletop.Main

/-- The environment variables that can matter. -/
def variableNames : List String :=
  [Axis.x.envName, Axis.y.envName, Mode.envName, "XDG_CONFIG_HOME", "HOME"]

/-- What stopped a file from being read. -/
def fileError : IO.Error → FileError
  | .noFileOrDirectory .. => .notFound
  | .inappropriateType none _ _ => .isDirectory
  | .inappropriateType .. => .notDirectory
  | .invalidArgument .. => .nameTooLong
  | e => .other (toString e)

/-- Reads what is at a path. -/
def readEntry (path : String) : IO (Except FileError FileEntry) := do
  if '\x00' ∈ path.toList then
    return .error .nulInPath
  try
    return .ok (.file (← IO.FS.readBinFile path).data.toList)
  catch e =>
    match fileError e with
    | .isDirectory => return .ok .directory
    | e => return .error e

/-- The files at some paths, each at a place of its own. Nothing is written to files, so it does not
matter that one file is at two places then. -/
def readFiles (paths : List String) : IO Files := do
  let entries ← paths.mapM readEntry
  return {
    locate := fun path => ((paths.idxOf? path).map Except.ok).getD (.error .notFound)
    entry := fun place => entries.getD place (.error .notFound) }

/-- Reads everything that a task may need before it is carried out. -/
def gather (lib : Libraries) (task? : Option Task) : IO World := do
  let mut values : List (String × String) := []
  for name in variableNames do
    if let some value ← IO.getEnv name then
      values := (name, value) :: values
  let environment : Environment := fun name => values.lookup name
  let implicit? := (lib.configHome? environment).map (pathUnder · configName)
  let named := task?.elim [] fun t => t.table.config?.toList ++ t.file?.toList
  let files ← readFiles (implicit?.toList ++ named)
  let readsInput := task?.any (·.file?.isNone)
  let input ← if readsInput then (← IO.getStdin).readBinToEnd else pure .empty
  return { stdin := { bytes := input.data.toList }, environment, files }

/-- The task of some arguments, unless only an explanation is asked for. -/
def task? (a : Arguments) : Option Task :=
  if a.help || a.task.help then none else some a.task

end Tabletop.Main

def main (arguments : List String) : IO UInt32 := do
  let lib := Tabletop.Libraries.standard
  let task? := (lib.arguments "robot" arguments).toOption.bind Tabletop.Main.task?
  let conclusion := (← Tabletop.Main.gather lib task?).execute lib "robot" arguments
  (← IO.getStdout).write conclusion.out.toByteArray
  (← IO.getStderr).write (conclusion.diag "robot").toByteArray
  return conclusion.code.toUInt32
