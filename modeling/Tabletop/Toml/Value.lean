import Tabletop.Toml.Scalar
import Tabletop.Toml.Tree

/-!
Values as maps from paths to nodes. A table can be written in several places of a document; the
node of a table keeps how it came about, which decides what may still be added to it.
-/

namespace Tabletop.Toml

/-- A step from a table or an array to something in it. -/
inductive Label where
  | key (k : String)
  | index (i : Nat)
  deriving DecidableEq

abbrev Path := List Label

/-- How a table came about: named by a header, passed through by a header, passed through by a
dotted key, or written between braces. -/
inductive Origin where
  | header
  | implied
  | dotted
  | inline
  deriving DecidableEq

inductive Node where
  | scalar (s : Scalar)
  | array
  | table (origin : Origin)
  /-- A table for each header in double brackets so far. -/
  | tables (count : Nat)
  deriving DecidableEq

/-- A value with all that is in it. The value itself has the empty path, and of two nodes with one
path the first counts. -/
structure Value where
  nodes : List (Path × Node)

/-- A key with the tables that its dots pass through. -/
structure Key where
  tables : List String
  name : String
  deriving DecidableEq

namespace Value

def node? (v : Value) (p : Path) : Option Node :=
  v.nodes.lookup p

def set (v : Value) (p : Path) (n : Node) : Value :=
  ⟨(p, n) :: v.nodes⟩

/-- Puts a value at a path. -/
def graft (v : Value) (p : Path) (w : Value) : Value :=
  ⟨w.nodes.map (fun (q, n) => (p ++ q, n)) ++ v.nodes⟩

def scalar (s : Scalar) : Value :=
  ⟨[([], .scalar s)]⟩

/-- A table without entries. -/
def empty (origin : Origin) : Value :=
  ⟨[([], .table origin)]⟩

def array (items : List Value) : Value :=
  ⟨([], .array) ::
    items.zipIdx.flatMap fun (v, i) => v.nodes.map fun (q, n) => (.index i :: q, n)⟩

/-- Goes from a table to the one that the keys lead to and adds the tables that are missing. A way
through an array of tables leads to its last one. Braces keep a table closed, and a dotted key also
keeps out of tables that have a header. -/
def descend? (dotted : Bool) (v : Value) (start : Path) : List String → Option (Value × Path)
  | [] => some (v, start)
  | k :: ks =>
    let p := start ++ [.key k]
    match v.node? p with
    | none => descend? dotted (v.set p (.table (if dotted then .dotted else .implied))) p ks
    | some (.tables n) => descend? dotted v (p ++ [.index (n - 1)]) ks
    | some (.table origin) =>
      if origin = .inline ∨ (dotted ∧ origin = .header) then none else descend? dotted v p ks
    | some _ => none

/-- Adds an entry to the table at a path. Its key must be new, and a table that its dots lead to
must be one that only dotted keys have made. -/
def enter? (v : Value) (start : Path) (k : Key) (w : Value) : Option Value := do
  let (v, parent) ← v.descend? true start k.tables
  let p := parent ++ [.key k.name]
  if k.tables ≠ [] ∧ v.node? parent ≠ some (.table .dotted) then none
  else if (v.node? p).isSome then none
  else some (v.graft p w)

/-- Opens the table of a header in single brackets: a new one, or one that other headers have passed
through. -/
def openTable? (v : Value) (k : Key) : Option (Value × Path) := do
  let (v, parent) ← v.descend? false [] k.tables
  let p := parent ++ [.key k.name]
  match v.node? p with
  | none | some (.table .implied) => some (v.set p (.table .header), p)
  | _ => none

/-- Opens the next table of a header in double brackets. -/
def openElement? (v : Value) (k : Key) : Option (Value × Path) := do
  let (v, parent) ← v.descend? false [] k.tables
  let p := parent ++ [.key k.name]
  let element (n : Nat) : Value × Path :=
    ((v.set p (.tables (n + 1))).set (p ++ [.index n]) (.table .header), p ++ [.index n])
  match v.node? p with
  | none => some (element 0)
  | some (.tables n) => some (element n)
  | _ => none

end Value

/-! ### Values from trees -/

/-- A tree whose brackets have been read as a value. -/
inductive Item where
  | token (t : Token)
  | value (v : Value)

namespace Item

def token? : Item → Option Token
  | token t => some t
  | value _ => none

/-- The space between other items where lines may end. -/
def isFiller : Item → Bool
  | token (.blank _) => true
  | token .newline => true
  | _ => false

def isComma : Item → Bool
  | token .comma => true
  | _ => false

def isEquals : Item → Bool
  | token .equals => true
  | _ => false

/-- Items without the filler around them. -/
def strip (items : List Item) : List Item :=
  ((items.dropWhile isFiller).reverse.dropWhile isFiller).reverse

/-- The items between commas; a comma may stand at the end. -/
def between (items : List Item) : List (List Item) :=
  let parts := (items.splitOnP isComma).map strip
  if (parts.getLast?.getD []).isEmpty then parts.dropLast else parts

end Item

/-- A character of a key without quotes. -/
def isBareKey (c : Char) : Bool :=
  c.isAlphanum || c == '_' || c == '-'

def isBlankToken : Token → Bool
  | .blank _ => true
  | _ => false

/-- The part of a key between dots. -/
def keyPart? (ts : List Token) : Option String :=
  match ts.filter (!isBlankToken ·) with
  | [.word cs] => if cs.all isBareKey then some (String.ofList cs) else none
  | [.quoted s false] => some s
  | _ => none

/-- The most parts that a key may have. -/
def Key.maxParts : Nat := 80

/-- A key, with gaps allowed around its dots. -/
def Key.ofTokens? (ts : List Token) : Option Key := do
  let parts ← (ts.splitOn .dot).mapM keyPart?
  if parts.length > maxParts then none else return ⟨parts.dropLast, ← parts.getLast?⟩

def Key.ofItems? (items : List Item) : Option Key := do
  Key.ofTokens? (← items.mapM Item.token?)

/-- The text of a token that can be part of a bare value. -/
def bareText? : Token → Option (List Char)
  | .word cs => some cs
  | .dot => some ['.']
  | .blank cs => some cs
  | _ => none

namespace Value

/-- The value that stripped items write. -/
def ofItems? : List Item → Option Value
  | [.value v] => some v
  | [.token (.quoted s _)] => some (scalar (.text s))
  | items => do
    let texts ← (← items.mapM Item.token?).mapM bareText?
    return scalar (← Scalar.ofBare? texts.flatten)

def ofArray? (items : List Item) : Option Value := do
  return array (← (Item.between items).mapM ofItems?)

end Value

/-- An entry, `key = value`. -/
def entry? (items : List Item) : Option (Key × Value) := do
  let key ← Key.ofItems? (Item.strip (items.takeWhile (!·.isEquals)))
  let value ← Value.ofItems? (Item.strip (items.dropWhile (!·.isEquals)).tail)
  return (key, value)

def Value.ofInline? (items : List Item) : Option Value :=
  (Item.between items).foldlM (fun v part => do
    let (key, w) ← entry? part
    v.enter? [] key w) (.empty .inline)

mutual

/-- Reads the brackets of a tree as an array or an inline table. -/
def Tree.item? : Tree → Option Item
  | .token t => some (.token t)
  | .square inner => (items? inner).bind fun items => (Value.ofArray? items).map .value
  | .curly inner => (items? inner).bind fun items => (Value.ofInline? items).map .value

def items? : List Tree → Option (List Item)
  | [] => some []
  | t :: ts => t.item?.bind fun item => (items? ts).map (item :: ·)

end

end Tabletop.Toml
