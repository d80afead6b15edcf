import Tabletop.Heading

/-!
Cells with 32-bit coordinates, targets with 64-bit ones, and the table. A placement names a target
and a move looks one cell ahead; either may lead beyond what a cell can hold.
-/

namespace Tabletop

/-- The sum of two 32-bit integers, if 32 bits hold it. A sum that wraps around comes to lie on the
wrong side of its first summand. -/
def addChecked? (a b : Int32) : Option Int32 :=
  if a + b < a ↔ b < 0 then some (a + b) else none

/-- A 64-bit integer in 32 bits, if they hold it. -/
def narrow? (n : Int64) : Option Int32 :=
  if Int32.minValue.toInt64 ≤ n ∧ n ≤ Int32.maxValue.toInt64 then some n.toInt32 else none

/-- A grid point with 32-bit coordinates. -/
structure Cell where
  x : Int32
  y : Int32
  deriving DecidableEq

/-- A grid point with 64-bit coordinates: where a command aims. -/
structure Target where
  x : Int64
  y : Int64
  deriving DecidableEq

/-- The cell at a target, if its coordinates fit 32 bits; no table is involved. -/
def Target.cell? (p : Target) : Option Cell := do
  return ⟨← narrow? p.x, ← narrow? p.y⟩

namespace Cell

/-- The cell one step further, if its coordinates fit 32 bits; no table is involved. -/
def ahead? (c : Cell) (h : Heading) : Option Cell := do
  return ⟨← addChecked? c.x h.delta.1, ← addChecked? c.y h.delta.2⟩

/-- The target one step further, which 64 bits always hold. -/
def aim (c : Cell) (h : Heading) : Target :=
  ⟨c.x.toInt64 + h.delta.1.toInt64, c.y.toInt64 + h.delta.2.toInt64⟩

end Cell

/-- A table with the cells from the origin up to two inclusive bounds. A negative bound leaves it
without cells. -/
structure Table where
  maxX : Int32
  maxY : Int32
  deriving DecidableEq

namespace Table

/-- The bound of either axis where nothing else is said. -/
def defaultMax : Int32 := 5

def standard : Table :=
  ⟨defaultMax, defaultMax⟩

def contains (t : Table) (c : Cell) : Bool :=
  (0 ≤ c.x && c.x ≤ t.maxX) && (0 ≤ c.y && c.y ≤ t.maxY)

end Table

end Tabletop
