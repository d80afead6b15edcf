import Tabletop.Bounds
import Tabletop.Toml.Document

/-!
A reader of configurations in TOML. What a text is refused for is not told apart.
-/

namespace Tabletop

namespace Bounds

open Toml

/-- The bound at a path, if there is one; it has to be a 32-bit integer. -/
def ofNode? (v : Value) (p : Path) : Option (Option Int32) :=
  match v.node? p with
  | none => some none
  | some (.scalar (.integer (some n))) =>
    if n ∈ Interval.signed32 then some (some (.ofInt n)) else none
  | some _ => none

/-- Reads both bounds at two paths. -/
def ofNodes? (v : Value) (px py : Path) : Option Bounds := do
  return ⟨← ofNode? v px, ← ofNode? v py⟩

/-- The path of the entry that holds the bounds. -/
def root : Path :=
  [.key "table"]

/-- Whether a path leads past the two bounds of an array. -/
def isBeyondPair (p : Path) : Bool :=
  match p with
  | .key "table" :: .index i :: _ => 2 ≤ i
  | _ => false

/-- Whether every value that reading a configuration comes across can be represented. Of an array
with the bounds only the first two values are looked at. -/
def isRepresentable (v : Value) : Bool :=
  v.nodes.all fun (p, n) =>
    match n with
    | .scalar s => s.isRepresentable || (v.node? root == some .array && isBeyondPair p)
    | _ => true

/-- The bounds in a configuration: the entries `max_x` and `max_y` of `table`, or the first two
values of `table` as an array. -/
def ofValue? (v : Value) : Option Bounds :=
  if isRepresentable v then
    match v.node? root with
    | none => some {}
    | some (.table _) => ofNodes? v (root ++ [.key Axis.x.name]) (root ++ [.key Axis.y.name])
    | some .array => ofNodes? v (root ++ [.index 0]) (root ++ [.index 1])
    | some (.scalar .dateTime) => some {}
    | some _ => none
  else none

/-- The bounds in a text. -/
def ofToml : BoundsReader := fun text =>
  match (Value.ofText? text).bind ofValue? with
  | some b => .ok b
  | none => .error "no bounds in TOML"

theorem ofToml_eq_ok {text : String} {b : Bounds}
    (h : (Value.ofText? text).bind ofValue? = some b) : ofToml text = .ok b := by
  rw [ofToml, h]

theorem toOption_ofToml (text : String) :
    (ofToml text).toOption = (Value.ofText? text).bind ofValue? := by
  rw [ofToml]
  cases (Value.ofText? text).bind ofValue? <;> rfl

end Bounds

end Tabletop
