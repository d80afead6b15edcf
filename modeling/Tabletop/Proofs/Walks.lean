import Tabletop.Course
import Tabletop.Proofs.Rules

/-!
Walks: moves and turns that a robot makes one after the other, each of them accepted.
-/

namespace Tabletop

variable {t : Table} {r r' r'' : Robot} {p : Point} {cell : Cell} {heading : Heading} {k n : Nat}

/-- A leg of a walk: a step forward, or a quarter turn on the spot. -/
inductive Leg where
  | move
  | left
  | right
  deriving DecidableEq

def Leg.reading : Leg → Reading
  | move => .ok .move
  | left => .ok .left
  | right => .ok .right

/-- The point `n` steps further in a direction. -/
def Point.advance (p : Point) (h : Heading) (n : Nat) : Point :=
  ⟨p.x + n * h.dx, p.y + n * h.dy⟩

theorem Point.advance_zero (p : Point) (h : Heading) : p.advance h 0 = p := by
  simp [advance]

theorem Point.advance_succ (p : Point) (h : Heading) (n : Nat) :
    p.advance h (n + 1) = (p.ahead h).advance h n := by
  simp only [advance, ahead, Point.mk.injEq]
  cases h <;> simp only [Heading.dx, Heading.dy] <;> omega

theorem Point.advance_one (p : Point) (h : Heading) : p.advance h 1 = p.ahead h := by
  rw [advance_succ, advance_zero]

/-- A table has no gaps. -/
theorem Table.advance_mem_of_le (hp : p ∈ t) (hn : p.advance heading n ∈ t) (hk : k ≤ n) :
    p.advance heading k ∈ t := by
  rw [Table.mem_iff] at hp hn ⊢
  cases heading <;> simp only [Point.advance, Heading.dx, Heading.dy] at hn ⊢ <;> omega

namespace Robot

/-- The robot has been placed and stands on a cell of the table. -/
structure StandsOn (t : Table) (r : Robot) : Prop where
  placed : r.placed = true
  mem : r.pose.cell.point ∈ t

theorem StandsOn.face (h : r.StandsOn t) (facing : Heading) : (r.face facing).StandsOn t :=
  ⟨h.placed, h.mem⟩

variable {leg : Leg} {walk rest : List Leg} {outcome : Outcome} {reading : Reading}

/-- What a leg does when it is accepted. -/
inductive Goes (t : Table) (r : Robot) : Leg → Robot → Prop where
  | move (cell : Cell) (hcell : cell.point = r.pose.cell.point.ahead r.pose.heading)
      (hmem : cell.point ∈ t) : Goes t r .move ⟨⟨cell, r.pose.heading⟩, true⟩
  | left : Goes t r .left (r.face r.pose.heading.left)
  | right : Goes t r .right (r.face r.pose.heading.right)

theorem Obeys.goes (h : Obeys t r reading r' outcome) (hleg : leg.reading = reading)
    (haccepted : outcome.isAccepted = true) : Goes t r leg r' ∧ outcome = .accepted none := by
  cases h with
  | moved cell hr hcell hmem =>
    cases leg <;> cases hleg
    exact ⟨.move cell hcell hmem, rfl⟩
  | left hr =>
    cases leg <;> cases hleg
    exact ⟨.left, rfl⟩
  | right hr =>
    cases leg <;> cases hleg
    exact ⟨.right, rfl⟩
  | placed => cases leg <;> cases hleg
  | report => cases leg <;> cases hleg
  | _ => cases haccepted

theorem Goes.heed (h : Goes t r leg r') (hr : r.placed = true) :
    r.heed t leg.reading = (r', .accepted none) := by
  cases h with
  | move cell hcell hmem => exact obey_move_of_mem hr hcell hmem
  | left => exact if_pos hr
  | right => exact if_pos hr

theorem Goes.standsOn (h : Goes t r leg r') (hr : r.StandsOn t) : r'.StandsOn t := by
  cases h with
  | move cell hcell hmem => exact ⟨rfl, hmem⟩
  | left => exact hr.face r.pose.heading.left
  | right => exact hr.face r.pose.heading.right

/-- Legs that are all accepted, one after the other, and take a robot to another. -/
structure Walks (t : Table) (r : Robot) (walk : List Leg) (r' : Robot) : Prop where
  accepted : ∀ result ∈ r.course t (walk.map Leg.reading), result.2.isAccepted = true
  arrives : r.follow t (walk.map Leg.reading) = r'

theorem Walks.nil (t : Table) (r : Robot) : Walks t r [] r :=
  ⟨fun _ h => (nomatch h), rfl⟩

theorem walks_cons_iff : Walks t r (leg :: walk) r' ↔
    (r.heed t leg.reading).2.isAccepted = true ∧ Walks t (r.heed t leg.reading).1 walk r' := by
  constructor
  · rintro ⟨haccepted, harrives⟩
    rw [List.map_cons, course, List.forall_mem_cons] at haccepted
    exact ⟨haccepted.1, haccepted.2, harrives⟩
  · rintro ⟨hleg, haccepted, harrives⟩
    constructor
    · rw [List.map_cons, course, List.forall_mem_cons]
      exact ⟨hleg, haccepted⟩
    · exact harrives

theorem Walks.append (h : Walks t r walk r') (h' : Walks t r' rest r'') :
    Walks t r (walk ++ rest) r'' := by
  induction walk generalizing r with
  | nil =>
    rw [← h.arrives] at h'
    exact h'
  | cons leg walk ih =>
    obtain ⟨hleg, hwalk⟩ := walks_cons_iff.1 h
    exact walks_cons_iff.2 ⟨hleg, ih hwalk⟩

/-- No leg reports anything. -/
theorem Walks.outcomes (h : Walks t r walk r') :
    (r.course t (walk.map Leg.reading)).map Prod.snd =
      List.replicate walk.length (.accepted none) := by
  induction walk generalizing r with
  | nil => rfl
  | cons leg walk ih =>
    obtain ⟨hleg, hwalk⟩ := walks_cons_iff.1 h
    have houtcome := ((obeys_heed t r leg.reading).goes rfl hleg).2
    rw [List.map_cons, course, List.map_cons, ih hwalk, houtcome, List.length_cons,
      List.replicate_succ]

theorem Goes.walks (h : Goes t r leg r') (hr : r.placed = true) : Walks t r [leg] r' := by
  rw [walks_cons_iff, h.heed hr]
  exact ⟨rfl, .nil t r'⟩

theorem walks_about (hr : r.placed = true) :
    Walks t r [.right, .right] (r.face r.pose.heading.right.right) :=
  (Goes.right.walks hr).append (Goes.right.walks hr)

/-- A robot can go straight on to any cell of the table ahead of it. -/
theorem walks_straight (hr : r.StandsOn t)
    (hcell : cell.point = r.pose.cell.point.advance r.pose.heading n) (hmem : cell.point ∈ t) :
    Walks t r (List.replicate n .move) ⟨⟨cell, r.pose.heading⟩, true⟩ := by
  induction n generalizing r with
  | zero =>
    rw [Point.advance_zero] at hcell
    rw [Cell.eq_of_point_eq hcell, ← hr.placed]
    exact .nil t r
  | succ n ih =>
    have hahead : r.pose.cell.point.ahead r.pose.heading ∈ t := by
      rw [← Point.advance_one]
      exact Table.advance_mem_of_le hr.mem (hcell ▸ hmem) (Nat.le_add_left 1 n)
    obtain ⟨next, hnext⟩ := Table.exists_cell hahead
    have hgoes : Goes t r .move ⟨⟨next, r.pose.heading⟩, true⟩ :=
      .move next hnext (hnext ▸ hahead)
    rw [Point.advance_succ, ← hnext] at hcell
    exact (hgoes.walks hr.placed).append (ih (hgoes.standsOn hr) hcell)

end Robot

end Tabletop
