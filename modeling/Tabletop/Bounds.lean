import Tabletop.Files
import Tabletop.Numeral
import Tabletop.Table
import Tabletop.Text

/-!
Where the bounds of the table come from. Each axis takes its flag, else its environment variable,
else the configuration file, else the standard bound. A configuration that is asked for has to be
readable; one that is merely looked for may be anything. How the text of a configuration is written
is left to a reader.
-/

namespace Tabletop

/-- Bounds of which either may be left open. -/
structure Bounds where
  maxX : Option Int32 := none
  maxY : Option Int32 := none
  deriving DecidableEq

inductive Axis where
  | x
  | y
  deriving DecidableEq

namespace Axis

/-- The name of an axis's bound in files and messages. -/
def name : Axis → String
  | x => "max_x"
  | y => "max_y"

/-- The environment variable of an axis's bound. -/
def envName : Axis → String
  | x => "ROBOT_MAX_X"
  | y => "ROBOT_MAX_Y"

end Axis

def Bounds.get (b : Bounds) : Axis → Option Int32
  | .x => b.maxX
  | .y => b.maxY

/-- Reads a 32-bit integer with an optional sign. -/
def readInt32? (s : String) : Option Int32 :=
  (Numeral.read? .signed32 s).map Int32.ofInt

/-- Why no table could be settled on. -/
inductive BoundsError where
  | read (path : String) (error : FileError)
  | parse (path error : String)
  | environment (axis : Axis) (value : String)
  | negative (axis : Axis) (value : Int32)
  deriving DecidableEq

def BoundsError.message : BoundsError → String
  | read path e => "failed to read config file " ++ path ++ ": " ++ e.message
  | parse path e => "invalid config file " ++ path ++ ": " ++ e
  | environment axis value =>
    "invalid value for " ++ axis.envName ++ ": '" ++ value ++ "' is not an integer"
  | negative axis value =>
    "table bound " ++ axis.name ++ " must be >= 0 (got " ++ toString value.toInt ++ ")"

/-- The values of environment variables. -/
abbrev Environment := String → Option String

/-- A reader of configurations: the bounds in a text, or the text of what is wrong with it. -/
abbrev BoundsReader := String → Except String Bounds

namespace Bounds

/-- Reads a configuration file. -/
def ofFile (read : BoundsReader) (files : Files) (path : String) : Except BoundsError Bounds :=
  match files.text path with
  | .error e => .error (.read path e)
  | .ok text =>
    match read text with
    | .ok b => .ok b
    | .error e => .error (.parse path e)

/-- The bounds of the file asked for, or else of the one looked for, which need not be there and of
which all faults are forgiven. -/
def ofConfig (read : BoundsReader) (files : Files) (explicit? implicit? : Option String) :
    Except BoundsError Bounds :=
  match explicit?, implicit? with
  | some path, _ => ofFile read files path
  | none, some path =>
    if files.has path then
      match ofFile read files path with
      | .ok b => .ok b
      | .error _ => .ok {}
    else .ok {}
  | none, none => .ok {}

/-- The bound of one axis by precedence. -/
def pick (flags : Bounds) (env : Environment) (file : Bounds) (axis : Axis) :
    Except BoundsError Int32 :=
  match flags.get axis with
  | some n => .ok n
  | none =>
    match env axis.envName with
    | some raw =>
      match readInt32? (Text.trim raw) with
      | some n => .ok n
      | none => .error (.environment axis raw)
    | none => .ok ((file.get axis).getD Table.defaultMax)

/-- A bound that leaves at least one cell. -/
def check (axis : Axis) (n : Int32) : Except BoundsError Int32 :=
  if n.toInt < 0 then .error (.negative axis n) else .ok n

/-- Settles on a table. -/
def resolve (read : BoundsReader) (flags : Bounds) (env : Environment) (files : Files)
    (explicit? implicit? : Option String) : Except BoundsError Table := do
  let file ← ofConfig read files explicit? implicit?
  let x ← pick flags env file .x
  let y ← pick flags env file .y
  return ⟨← check .x x, ← check .y y⟩

end Bounds

end Tabletop
