import Tabletop.Stream.Bytes

/-!
Byte sources read line by line. A line feed ends a line, a carriage return just before it belongs
to the end, and each line has to be valid UTF-8 on its own.
-/

namespace Tabletop

/-- Why a line could not be read. -/
inductive ReadFault where
  | notUtf8
  | broke
  | isDirectory
  deriving DecidableEq

def ReadFault.message : ReadFault → String
  | notUtf8 => "stream did not contain valid UTF-8"
  | broke => "source broke"
  | isDirectory => "Is a directory (os error 21)"

/-- Bytes to read, and the fault that comes after them if they do not simply end. -/
structure Source where
  bytes : Bytes
  fault? : Option ReadFault := none

namespace Source

/-- A complete line without the carriage return of its end. -/
def dropReturn (line : Bytes) : Bytes :=
  if line.getLast? = some 0x0D then line.dropLast else line

def decode (line : Bytes) : Except ReadFault String :=
  match line.text? with
  | some s => .ok s
  | none => .error .notUtf8

/-- The lines of a source, in order, with what reading each gives. A faulty source loses its
unfinished last line; otherwise that line counts unless it is empty. -/
def lines (s : Source) : List (Except ReadFault String) :=
  let parts := s.bytes.splitOn 0x0A
  let rest := parts.getLast?.getD []
  parts.dropLast.map (fun line => decode (dropReturn line)) ++
    match s.fault? with
    | some fault => [.error fault]
    | none => if rest.isEmpty then [] else [decode rest]

end Source

end Tabletop
