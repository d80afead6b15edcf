namespace Tabletop

/-- The four directions in which a robot can face. -/
inductive Heading where
  | north
  | east
  | south
  | west
  deriving DecidableEq

namespace Heading

/-- The heading after a quarter turn counter-clockwise. -/
def left : Heading → Heading
  | north => west
  | west => south
  | south => east
  | east => north

/-- The heading after a quarter turn clockwise. -/
def right : Heading → Heading
  | north => east
  | east => south
  | south => west
  | west => north

/-- The changes of x and y in one step forward. -/
def delta : Heading → Int32 × Int32
  | north => (0, 1)
  | east => (1, 0)
  | south => (0, -1)
  | west => (-1, 0)

def name : Heading → String
  | north => "NORTH"
  | east => "EAST"
  | south => "SOUTH"
  | west => "WEST"

/-- The heading with exactly this name. -/
def ofName? : String → Option Heading
  | "NORTH" => some north
  | "EAST" => some east
  | "SOUTH" => some south
  | "WEST" => some west
  | _ => none

@[simp] theorem right_left (h : Heading) : h.left.right = h := by
  cases h <;> rfl

@[simp] theorem left_right (h : Heading) : h.right.left = h := by
  cases h <;> rfl

@[simp] theorem ofName?_name (h : Heading) : ofName? h.name = some h := by
  cases h <;> rfl

theorem ofName?_eq_some_iff {s : String} {h : Heading} : ofName? s = some h ↔ s = h.name := by
  constructor
  · intro hs
    unfold ofName? at hs
    split at hs <;> cases hs <;> rfl
  · rintro rfl
    exact ofName?_name h

end Heading

end Tabletop
