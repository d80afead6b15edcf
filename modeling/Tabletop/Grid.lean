import Tabletop.Numeral
import Tabletop.Table

/-!
The unbounded integer grid that cells, targets and tables stand for. Sums that are checked and
integers that are narrowed are there just if the exact ones fit, so the cell ahead of a cell and the
cell at a target are those of exact integers.
-/

namespace Tabletop

/-- A point of the unbounded integer grid. -/
structure Point where
  x : Int
  y : Int
  deriving DecidableEq

namespace Heading

/-- The change of x in one step forward. -/
def dx : Heading → Int
  | east => 1
  | west => -1
  | _ => 0

/-- The change of y in one step forward. -/
def dy : Heading → Int
  | north => 1
  | south => -1
  | _ => 0

theorem toInt_delta (h : Heading) : h.delta.1.toInt = h.dx ∧ h.delta.2.toInt = h.dy := by
  cases h <;> decide

end Heading

/-- The point one step further in a direction. -/
def Point.ahead (p : Point) (h : Heading) : Point :=
  ⟨p.x + h.dx, p.y + h.dy⟩

def Cell.point (c : Cell) : Point :=
  ⟨c.x.toInt, c.y.toInt⟩

def Target.point (p : Target) : Point :=
  ⟨p.x.toInt, p.y.toInt⟩

instance : Membership Point Table where
  mem t p := (0 ≤ p.x ∧ p.x ≤ t.maxX.toInt) ∧ 0 ≤ p.y ∧ p.y ≤ t.maxY.toInt

theorem Table.mem_iff {t : Table} {p : Point} :
    p ∈ t ↔ (0 ≤ p.x ∧ p.x ≤ t.maxX.toInt) ∧ 0 ≤ p.y ∧ p.y ≤ t.maxY.toInt :=
  Iff.rfl

instance (p : Point) (t : Table) : Decidable (p ∈ t) :=
  decidable_of_iff _ Table.mem_iff.symm

variable {a b c : Int32} {n : Int64} {t : Table} {p : Point} {cell cell' : Cell}
variable {target target' : Target} {heading : Heading}

theorem addChecked?_eq_some_iff : addChecked? a b = some c ↔ c.toInt = a.toInt + b.toInt := by
  have ha := a.le_toInt
  have ha' := a.toInt_lt
  have hb := b.le_toInt
  have hb' := b.toInt_lt
  have hc := c.le_toInt
  have hc' := c.toInt_lt
  have hsum : (a + b).toInt = (a.toInt + b.toInt).bmod (2 ^ 32) := Int32.toInt_add a b
  have hzero : (0 : Int32).toInt = 0 := rfl
  rw [Int.bmod_eq_emod] at hsum
  simp only [addChecked?, Int32.lt_iff_toInt_lt, hzero, Option.ite_none_right_eq_some,
    Option.some.injEq, ← Int32.toInt_inj, hsum]
  split <;> omega

theorem narrow?_eq_some_iff : narrow? n = some c ↔ c.toInt = n.toInt := by
  have hn := n.le_toInt
  have hn' := n.toInt_lt
  have hc := c.le_toInt
  have hc' := c.toInt_lt
  have hmin : Int32.minValue.toInt64.toInt = -2147483648 := rfl
  have hmax : Int32.maxValue.toInt64.toInt = 2147483647 := rfl
  have hnarrow : n.toInt32.toInt = n.toInt.bmod (2 ^ 32) := Int64.toInt_toInt32 n
  rw [Int.bmod_eq_emod] at hnarrow
  simp only [narrow?, Int64.le_iff_toInt_le, hmin, hmax, Option.ite_none_right_eq_some,
    Option.some.injEq, ← Int32.toInt_inj, hnarrow]
  split <;> omega

/-- The sum of two 32-bit integers is exact in 64 bits. -/
theorem toInt_add_toInt64 (a b : Int32) :
    (a.toInt64 + b.toInt64).toInt = a.toInt + b.toInt := by
  have ha := a.le_toInt
  have ha' := a.toInt_lt
  have hb := b.le_toInt
  have hb' := b.toInt_lt
  rw [Int64.toInt_add, Int32.toInt_toInt64, Int32.toInt_toInt64, Int.bmod_eq_of_le] <;> omega

theorem Cell.eq_of_point_eq (h : cell.point = cell'.point) : cell = cell' := by
  obtain ⟨x, y⟩ := cell
  obtain ⟨x', y'⟩ := cell'
  simp only [point, Point.mk.injEq, Int32.toInt_inj] at h
  rw [h.1, h.2]

theorem Target.eq_of_point_eq (h : target.point = target'.point) : target = target' := by
  obtain ⟨x, y⟩ := target
  obtain ⟨x', y'⟩ := target'
  simp only [point, Point.mk.injEq, Int64.toInt_inj] at h
  rw [h.1, h.2]

@[simp] theorem Cell.point_aim (cell : Cell) (heading : Heading) :
    (cell.aim heading).point = cell.point.ahead heading := by
  obtain ⟨hdx, hdy⟩ := heading.toInt_delta
  simp only [aim, Target.point, toInt_add_toInt64, hdx, hdy, Cell.point, Point.ahead]

/-- The cell at a point, if there is one. -/
def IsCellAt (p : Point) (cell? : Option Cell) : Prop :=
  ∀ cell, cell? = some cell ↔ cell.point = p

theorem isCellAt_of_coordinates {x? y? : Option Int32} (hx : ∀ x, x? = some x ↔ x.toInt = p.x)
    (hy : ∀ y, y? = some y ↔ y.toInt = p.y) : IsCellAt p (do return ⟨← x?, ← y?⟩) := by
  rintro ⟨x, y⟩
  simp only [Option.bind_eq_bind, Option.bind_eq_some_iff, Option.pure_def, Option.some.injEq,
    Cell.mk.injEq, hx, hy]
  constructor
  · rintro ⟨x', hx', y', hy', rfl, rfl⟩
    rw [Cell.point, hx', hy']
  · rintro rfl
    exact ⟨x, rfl, y, rfl, rfl, rfl⟩

/-- The cell ahead is there just if the exact point ahead is that of a cell. -/
theorem Cell.isCellAt_ahead? (cell : Cell) (heading : Heading) :
    IsCellAt (cell.aim heading).point (cell.ahead? heading) := by
  obtain ⟨hdx, hdy⟩ := heading.toInt_delta
  rw [point_aim]
  refine isCellAt_of_coordinates ?_ ?_
  · intro x
    rw [addChecked?_eq_some_iff, hdx, Point.ahead, Cell.point]
  · intro y
    rw [addChecked?_eq_some_iff, hdy, Point.ahead, Cell.point]

theorem Target.isCellAt_cell? (target : Target) : IsCellAt target.point target.cell? :=
  isCellAt_of_coordinates (fun _ => narrow?_eq_some_iff) (fun _ => narrow?_eq_some_iff)

theorem Table.contains_iff : t.contains cell = true ↔ cell.point ∈ t := by
  have hzero : (0 : Int32).toInt = 0 := rfl
  simp only [contains, Bool.and_eq_true, decide_eq_true_eq, Int32.le_iff_toInt_le, hzero,
    Table.mem_iff, Cell.point]

theorem Table.mem_signed32 (h : p ∈ t) : p.x ∈ Interval.signed32 ∧ p.y ∈ Interval.signed32 := by
  have hx := t.maxX.toInt_lt
  have hy := t.maxY.toInt_lt
  simp only [Table.mem_iff, Interval.mem_iff, Interval.signed32] at h ⊢
  omega

/-- Every point of a table is that of a cell. -/
theorem Table.exists_cell (h : p ∈ t) : ∃ cell : Cell, cell.point = p := by
  obtain ⟨⟨hxlo, hxhi⟩, hylo, hyhi⟩ := Table.mem_signed32 h
  refine ⟨⟨.ofInt p.x, .ofInt p.y⟩, ?_⟩
  rw [Cell.point, Int32.toInt_ofInt_of_le hxlo (Int.lt_add_one_of_le hxhi),
    Int32.toInt_ofInt_of_le hylo (Int.lt_add_one_of_le hyhi)]

theorem Point.exists_target (hx : p.x ∈ Interval.signed64) (hy : p.y ∈ Interval.signed64) :
    ∃ target : Target, target.point = p := by
  refine ⟨⟨.ofInt p.x, .ofInt p.y⟩, ?_⟩
  rw [Target.point, Int64.toInt_ofInt_of_le hx.1 (Int.lt_add_one_of_le hx.2),
    Int64.toInt_ofInt_of_le hy.1 (Int.lt_add_one_of_le hy.2)]

end Tabletop
