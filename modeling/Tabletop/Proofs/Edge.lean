import Tabletop.Proofs.Walks

/-!
The edge of the table: how far it is, and what becomes of a robot that is told to move on.
-/

namespace Tabletop

variable {t : Table} {r : Robot} {p : Point}

/-- How many steps it is from a point of the table to the edge in a direction. -/
def Table.room (t : Table) (p : Point) : Heading → Int
  | .north => t.maxY.toInt - p.y
  | .east => t.maxX.toInt - p.x
  | .south => p.y
  | .west => p.x

/-- The point one step beyond the edge straight ahead. -/
def Table.beyond (t : Table) (p : Point) : Heading → Point
  | .north => ⟨p.x, t.maxY.toInt + 1⟩
  | .east => ⟨t.maxX.toInt + 1, p.y⟩
  | .south => ⟨p.x, -1⟩
  | .west => ⟨-1, p.y⟩

theorem Table.room_nonneg (hp : p ∈ t) (h : Heading) : 0 ≤ t.room p h := by
  rw [Table.mem_iff] at hp
  cases h <;> simp only [room] <;> omega

theorem Table.advance_mem_iff (hp : p ∈ t) (h : Heading) (n : Nat) :
    p.advance h n ∈ t ↔ (n : Int) ≤ t.room p h := by
  rw [Table.mem_iff] at hp ⊢
  cases h <;> simp only [Point.advance, Heading.dx, Heading.dy, room] <;> omega

theorem Table.ahead_of_room {h : Heading} {n : Nat} (hn : (n : Int) = t.room p h) :
    (p.advance h n).ahead h = t.beyond p h := by
  cases h <;>
    simp only [Point.ahead, Point.advance, Heading.dx, Heading.dy, beyond, room,
      Point.mk.injEq] at hn ⊢ <;> omega

theorem Table.beyond_not_mem (t : Table) (p : Point) (h : Heading) : t.beyond p h ∉ t := by
  rw [Table.mem_iff]
  cases h <;> simp only [beyond] <;> omega

theorem Table.exists_target_beyond (hp : p ∈ t) (h : Heading) :
    ∃ told : Target, told.point = t.beyond p h := by
  obtain ⟨⟨hxlo, hxhi⟩, hylo, hyhi⟩ := Table.mem_signed32 hp
  have hx := t.maxX.le_toInt
  have hx' := t.maxX.toInt_lt
  have hy := t.maxY.le_toInt
  have hy' := t.maxY.toInt_lt
  simp only [Interval.signed32] at hxlo hxhi hylo hyhi
  apply Point.exists_target <;> cases h <;>
    simp only [beyond, Interval.mem_iff, Interval.signed64] <;> omega

namespace Robot

/-- A robot that stands before the edge stays there. -/
theorem moves_at_edge (hr : r.placed = true)
    (hoff : r.pose.cell.point.ahead r.pose.heading ∉ t) (n : Nat) :
    r.course t (List.replicate n (.ok .move)) =
        List.replicate n (r, .rejected (r.pose.cell.aim r.pose.heading)) ∧
      r.follow t (List.replicate n (.ok .move)) = r := by
  have hmove : r.heed t (.ok .move) = (r, .rejected (r.pose.cell.aim r.pose.heading)) :=
    obey_move_of_not_mem hr hoff
  induction n with
  | zero => exact ⟨rfl, rfl⟩
  | succ n ih =>
    rw [List.replicate_succ, course, follow_cons, hmove, ih.1, ih.2, List.replicate_succ]
    exact ⟨rfl, rfl⟩

/-- A robot can make as many moves as there is room for. -/
theorem walks_ahead (hr : r.StandsOn t) {n : Nat}
    (hn : (n : Int) ≤ t.room r.pose.cell.point r.pose.heading) :
    ∃ cell : Cell, cell.point = r.pose.cell.point.advance r.pose.heading n ∧
      Walks t r (List.replicate n .move) ⟨⟨cell, r.pose.heading⟩, true⟩ := by
  have hmem := (Table.advance_mem_iff hr.mem r.pose.heading n).2 hn
  obtain ⟨cell, hcell⟩ := Table.exists_cell hmem
  exact ⟨cell, hcell, walks_straight hr hcell (hcell ▸ hmem)⟩

/-- Told to move any number of times, a robot goes as far as the edge and is then turned down at one
and the same point beyond it. -/
theorem moves_stop_at_edge (t : Table) {r : Robot} (hr : r.placed = true)
    (hmem : r.pose.cell.point ∈ t) (n : Nat) :
    let p := r.pose.cell.point
    let facing := r.pose.heading
    let moves : List Reading := List.replicate n (.ok .move)
    let made := min n (t.room p facing).toNat
    0 ≤ t.room p facing ∧
      (∃ told : Target, told.point = t.beyond p facing ∧
        (r.course t moves).map Prod.snd =
          List.replicate made (.accepted none) ++
            List.replicate (n - made) (.rejected told)) ∧
      (r.follow t moves).placed = true ∧ (r.follow t moves).pose.heading = facing ∧
      (r.follow t moves).pose.cell.point =
        ⟨p.x + made * facing.dx, p.y + made * facing.dy⟩ := by
  intro p facing moves made
  have hroom : 0 ≤ t.room p facing := Table.room_nonneg hmem facing
  have hmade : (made : Int) ≤ t.room p facing := by omega
  have hmoves : moves =
      List.replicate made (.ok .move) ++ List.replicate (n - made) (.ok .move) := by
    rw [List.replicate_append_replicate, Nat.add_sub_cancel' (Nat.min_le_left _ _)]
  obtain ⟨told, htold⟩ := Table.exists_target_beyond hmem facing
  obtain ⟨cell, hcell, hwalk⟩ := walks_ahead ⟨hr, hmem⟩ hmade
  have houtcomes := hwalk.outcomes
  have harrives := hwalk.arrives
  rw [List.map_replicate, Leg.reading] at houtcomes harrives
  rw [hmoves, course_append, follow_append, List.map_append, houtcomes, harrives,
    List.length_replicate]
  -- What is left after the moves that were made: none, or those made in vain at the edge.
  obtain hrest | hedge : n - made = 0 ∨ (made : Int) = t.room p facing := by omega
  · rw [hrest]
    exact ⟨hroom, ⟨told, htold, rfl⟩, rfl, rfl, hcell⟩
  · have hbeyond : cell.point.ahead facing = t.beyond p facing := by
      rw [hcell]
      exact Table.ahead_of_room hedge
    have hoff : cell.point.ahead facing ∉ t := hbeyond ▸ Table.beyond_not_mem t p facing
    obtain ⟨hcourse, hfollow⟩ :=
      moves_at_edge (r := ⟨⟨cell, facing⟩, true⟩) rfl hoff (n - made)
    have haim : cell.aim facing = told := by
      apply Target.eq_of_point_eq
      rw [Cell.point_aim, hbeyond, htold]
    rw [hcourse, hfollow, List.map_replicate]
    exact ⟨hroom, ⟨told, htold, by rw [← haim]⟩, rfl, rfl, hcell⟩

theorem moves_stop_at_edge_of_widest_table :
    let t : Table := ⟨2147483647, 5⟩
    let r : Robot := ⟨⟨⟨2147483646, 3⟩, .east⟩, true⟩
    r.placed = true ∧ r.pose.cell.point ∈ t ∧
      (r.course t (List.replicate 3 (.ok .move))).map Prod.snd =
        [.accepted none, .rejected ⟨2147483648, 3⟩, .rejected ⟨2147483648, 3⟩] ∧
      (r.follow t (List.replicate 3 (.ok .move))).pose.heading = .east ∧
      (r.follow t (List.replicate 3 (.ok .move))).pose.cell.point = ⟨2147483647, 3⟩ := by
  intro t r
  have hmem : r.pose.cell.point ∈ t := by decide
  obtain ⟨-, ⟨told, htold, houtcomes⟩, -, hheading, hpoint⟩ :=
    moves_stop_at_edge t (r := r) rfl hmem 3
  have hedge : told = ⟨2147483648, 3⟩ := Target.eq_of_point_eq htold
  rw [hedge] at houtcomes
  exact ⟨rfl, hmem, houtcomes.trans (by decide), hheading, hpoint.trans (by decide)⟩

end Robot

end Tabletop
