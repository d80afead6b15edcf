import Tabletop.Toml.Value

/-!
Documents, line by line. A header opens a table, and the entries after it go there.
-/

namespace Tabletop.Toml

/-- What a line of a document says. -/
inductive Statement where
  | blank
  | header (k : Key)
  | element (k : Key)
  | entry (k : Key) (v : Value)

def Tree.token? : Tree → Option Token
  | token t => some t
  | _ => none

def Tree.isGap : Tree → Bool
  | token (.blank _) => true
  | _ => false

def Key.ofTrees? (ts : List Tree) : Option Key := do
  Key.ofTokens? (← ts.mapM Tree.token?)

/-- Reads a line without the gaps around it. -/
def Statement.ofTrees? : List Tree → Option Statement
  | [] => some .blank
  | [.square [.square inner]] => (Key.ofTrees? inner).map .element
  | [.square inner] => (Key.ofTrees? inner).map .header
  | ts => do
    let (k, v) ← entry? (← items? ts)
    return .entry k v

def Statement.ofLine? (line : List Tree) : Option Statement :=
  Statement.ofTrees? ((line.dropWhile Tree.isGap).reverse.dropWhile Tree.isGap).reverse

/-- A document that is being read, and the table that entries go to. -/
structure Document where
  value : Value
  current : Path

def Document.add? (d : Document) : Statement → Option Document
  | .blank => some d
  | .header k => (d.value.openTable? k).map fun (v, p) => ⟨v, p⟩
  | .element k => (d.value.openElement? k).map fun (v, p) => ⟨v, p⟩
  | .entry k w => (d.value.enter? d.current k w).map fun v => ⟨v, d.current⟩

/-- The table that a text writes. -/
def Value.ofText? (s : String) : Option Value := do
  let trees ← trees? (← tokens? (characters s))
  let statements ← (trees.splitOnP Tree.isNewline).mapM Statement.ofLine?
  let document ← statements.foldlM Document.add? ⟨.empty .header, []⟩
  return document.value

end Tabletop.Toml
