import Tabletop.Toml.Token

/-!
Tokens grouped by their brackets. What stands inside brackets is one tree, so that a line feed in
an array or an inline table does not end a line.
-/

namespace Tabletop.Toml

inductive Tree where
  | token (t : Token)
  | square (inner : List Tree)
  | curly (inner : List Tree)

/-- An open bracket and the trees that stand before it, the last one first. -/
structure Opening where
  curly : Bool
  before : List Tree

/-- How deep brackets may be nested. -/
def maxDepth : Nat := 80

/-- Groups tokens into trees. `now` holds the trees since the innermost open bracket, the last one
first, and `opened` the open brackets from the inside out. -/
def group? : List Token → List Tree → List Opening → Option (List Tree)
  | [], now, [] => some now.reverse
  | [], _, _ :: _ => none
  | .squareOpen :: ts, now, opened =>
    if opened.length < maxDepth then group? ts [] (⟨false, now⟩ :: opened) else none
  | .curlyOpen :: ts, now, opened =>
    if opened.length < maxDepth then group? ts [] (⟨true, now⟩ :: opened) else none
  | .squareClose :: ts, now, ⟨false, before⟩ :: opened =>
    group? ts (.square now.reverse :: before) opened
  | .curlyClose :: ts, now, ⟨true, before⟩ :: opened =>
    group? ts (.curly now.reverse :: before) opened
  | .squareClose :: _, _, _ => none
  | .curlyClose :: _, _, _ => none
  | t :: ts, now, opened => group? ts (.token t :: now) opened

/-- The trees of a document. -/
def trees? (ts : List Token) : Option (List Tree) :=
  group? ts [] []

def Tree.isNewline : Tree → Bool
  | token .newline => true
  | _ => false

end Tabletop.Toml
