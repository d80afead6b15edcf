import Tabletop.Command

/-!
A line cut into pieces by the part each plays, for display while it is typed. Nothing of the line
is lost: the texts of the pieces, put together, are the line.
-/

namespace Tabletop

/-- The part that a piece of a line plays. -/
inductive Role where
  | place
  | movement
  | turn
  | report
  | console
  | coordinate
  | heading
  | separator
  | invalid
  | space
  deriving DecidableEq

structure Piece where
  role : Role
  text : String
  deriving DecidableEq

namespace Piece

/-- The single space between two tokens. -/
def space : Piece :=
  ⟨.space, " "⟩

end Piece

namespace Highlight

/-- The role of the first token that is not empty. -/
def keywordRole : String → Role
  | "PLACE" => .place
  | "MOVE" => .movement
  | "LEFT" => .turn
  | "RIGHT" => .turn
  | "REPORT" => .report
  | token => if token.toList.head? = some ':' then .console else .invalid

/-- The role of the part of a PLACE argument that has `index` commas before it. -/
def partRole (index : Nat) (part : String) : Role :=
  match index with
  | 0 | 1 => if (Command.readCoordinate part).toOption.isSome then .coordinate else .invalid
  | 2 => if (Heading.ofName? part).isSome then .heading else .invalid
  | _ => .invalid

/-- The parts of a PLACE argument from the one with `index` commas before it, with the comma before
each but the first. -/
def parts (index : Nat) : List String → List Piece
  | [] => []
  | part :: rest =>
    (if index = 0 then [] else [⟨.separator, ","⟩]) ++
      ⟨partRole index part, part⟩ :: parts (index + 1) rest

/-- A token that says nothing: it is shown unless it is empty. -/
def idle (token : String) : List Piece :=
  if token.isEmpty then [] else [⟨.separator, token⟩]

/-- Tokens that say nothing, each after its space. -/
def idleTail (tokens : List String) : List Piece :=
  tokens.flatMap fun token => Piece.space :: idle token

/-- The tokens after PLACE: only the very next one is its argument. -/
def placeTail : List String → List Piece
  | [] => []
  | token :: rest =>
    Piece.space :: (if token.isEmpty then [] else parts 0 (Text.split ',' token)) ++ idleTail rest

/-- The tokens of a line; the first that is not empty is the keyword. -/
def tokens : List String → List Piece
  | [] => []
  | token :: rest =>
    if token.isEmpty then
      if rest.isEmpty then [] else Piece.space :: tokens rest
    else
      ⟨keywordRole token, token⟩ :: if token = "PLACE" then placeTail rest else idleTail rest

/-- The pieces of a line. -/
def line (s : String) : List Piece :=
  tokens (Text.split ' ' s)

end Highlight

end Tabletop
