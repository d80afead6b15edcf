import Tabletop.Heading
import Tabletop.Numeral
import Tabletop.Text

/-!
Commands and how a line is read as one. A line holds one command: trimmed, it is cut at single
spaces into tokens; the first is the keyword, PLACE takes the second as its argument, and all
further tokens are passed over. An unreadable line is blamed on its first fault.
-/

namespace Tabletop

/-- What a robot can be told. The coordinates of a placement are wider than any table, so that a
placement far away is still a placement. -/
inductive Command where
  | place (x y : Int64) (heading : Heading)
  | move
  | left
  | right
  | report
  deriving DecidableEq

/-- Why the argument of PLACE is not `X,Y,F`. -/
inductive PlaceError where
  | missing
  | arity (found : Nat) (raw : String)
  | coordinate (raw : String)
  | heading (raw : String)
  deriving DecidableEq

/-- Why a line is not a command. -/
inductive ParseError where
  | empty
  | unknownKeyword (keyword : String)
  | malformedPlace (reason : PlaceError)
  deriving DecidableEq

/-- What a line says: a command, or the fault that makes it unreadable. -/
abbrev Reading := Except ParseError Command

def PlaceError.message : PlaceError → String
  | missing => "expected X,Y,F after PLACE"
  | arity found raw =>
    "expected 3 comma-separated values, found " ++ toString found ++ " in '" ++ raw ++ "'"
  | coordinate raw => "coordinate '" ++ raw ++ "' is not an integer"
  | heading raw => "unknown orientation '" ++ raw ++ "'"

def ParseError.message : ParseError → String
  | empty => "no command given"
  | unknownKeyword keyword => "not a valid command: " ++ keyword
  | malformedPlace reason => "malformed PLACE arguments: " ++ reason.message

namespace Command

def keyword : Command → String
  | place .. => "PLACE"
  | move => "MOVE"
  | left => "LEFT"
  | right => "RIGHT"
  | report => "REPORT"

/-- The line that gives this command. -/
def text : Command → String
  | place x y h => "PLACE " ++ toString x.toInt ++ "," ++ toString y.toInt ++ "," ++ h.name
  | c => c.keyword

/-- Reads a coordinate. An integer beyond 64 bits becomes the nearest one within. -/
def readCoordinate (raw : String) : Except PlaceError Int64 :=
  match Numeral.scan .signed64 raw.toList with
  | .value n => .ok (.ofInt n)
  | .beyond negative => .ok (if negative then Int64.minValue else Int64.maxValue)
  | .malformed => .error (.coordinate raw)

def readHeading (raw : String) : Except PlaceError Heading :=
  match Heading.ofName? raw with
  | some h => .ok h
  | none => .error (.heading raw)

/-- Reads a placement from the parts of its argument, `raw`, between the commas. -/
def ofParts (raw : String) : List String → Except PlaceError Command
  | [x, y, h] => do
    return .place (← readCoordinate x) (← readCoordinate y) (← readHeading h)
  | parts => .error (.arity parts.length raw)

/-- Reads the argument of PLACE. -/
def readPlace : Option String → Except PlaceError Command
  | none => .error .missing
  | some raw => if raw.isEmpty then .error .missing else ofParts raw (Text.split ',' raw)

/-- Reads the tokens of a line that is not blank. -/
def ofTokens : List String → Reading
  | "PLACE" :: arguments => (readPlace arguments.head?).mapError .malformedPlace
  | "MOVE" :: _ => .ok move
  | "LEFT" :: _ => .ok left
  | "RIGHT" :: _ => .ok right
  | "REPORT" :: _ => .ok report
  | tokens => .error (.unknownKeyword (tokens.headD ""))

/-- Reads a line. -/
def read (line : String) : Reading :=
  if (Text.trim line).isEmpty then .error .empty else ofTokens (Text.split ' ' (Text.trim line))

end Command

/-- The keyword that was read, if the line is a command. -/
def Reading.keyword? : Reading → Option String
  | .ok c => some c.keyword
  | .error _ => none

/-- The command's own line, or the fault between angle brackets. -/
def Reading.text : Reading → String
  | .ok c => c.text
  | .error e => "<" ++ e.message ++ ">"

end Tabletop
