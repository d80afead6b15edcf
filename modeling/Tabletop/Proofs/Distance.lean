import Tabletop.Proofs.Walks

/-!
How many moves it takes from one cell of the table to another: as many as the two coordinates
differ by, whatever the shape of the table, and never fewer.
-/

namespace Tabletop

variable {t : Table} {r r' : Robot} {cell : Cell} {n : Nat}

/-- The number of unit steps between two points of the grid. -/
def Point.distance (p q : Point) : Nat :=
  (q.x - p.x).natAbs + (q.y - p.y).natAbs

theorem Point.distance_self (p : Point) : p.distance p = 0 := by
  simp [distance]

theorem Point.distance_ahead (p : Point) (h : Heading) : p.distance (p.ahead h) = 1 := by
  cases h <;> simp only [distance, ahead, Heading.dx, Heading.dy] <;> omega

theorem Point.distance_triangle (p q s : Point) : p.distance s ≤ p.distance q + q.distance s := by
  simp only [distance]
  omega

/-- Going round does not change whether the number of steps is even. -/
theorem Point.distance_parity (p q s : Point) :
    (p.distance q + q.distance s) % 2 = p.distance s % 2 := by
  have hround (a b c : Int) : ((b - a).natAbs + (c - b).natAbs) % 2 = (c - a).natAbs % 2 := by
    omega
  rw [distance, distance, Nat.add_add_add_comm, Nat.add_mod, hround, hround, ← Nat.add_mod,
    distance]

/-- One goes straight to a point on the same line of the grid. -/
theorem Point.exists_advance {p q : Point} (h : p.x = q.x ∨ p.y = q.y) :
    ∃ facing, q = p.advance facing (p.distance q) := by
  obtain ⟨x, y⟩ := p
  obtain ⟨x', y'⟩ := q
  rcases h with rfl | rfl
  · rcases Int.le_total y y' with hle | hle
    · refine ⟨.north, ?_⟩
      simp only [advance, distance, Heading.dx, Heading.dy, Point.mk.injEq]
      omega
    · refine ⟨.south, ?_⟩
      simp only [advance, distance, Heading.dx, Heading.dy, Point.mk.injEq]
      omega
  · rcases Int.le_total x x' with hle | hle
    · refine ⟨.east, ?_⟩
      simp only [advance, distance, Heading.dx, Heading.dy, Point.mk.injEq]
      omega
    · refine ⟨.west, ?_⟩
      simp only [advance, distance, Heading.dx, Heading.dy, Point.mk.injEq]
      omega

/-- Nothing is lost by going to the corner first. -/
theorem Point.distance_corner (p q : Point) :
    p.distance ⟨q.x, p.y⟩ + (⟨q.x, p.y⟩ : Point).distance q = p.distance q := by
  simp [distance]

theorem Heading.eq_turned (h h' : Heading) :
    h' = h ∨ h' = h.right ∨ h' = h.right.right ∨ h' = h.left := by
  cases h <;> cases h' <;> decide

namespace Robot

theorem exists_walk_facing (hr : r.placed = true) (facing : Heading) :
    ∃ walk : List Leg, walk.count .move = 0 ∧ Walks t r walk (r.face facing) := by
  rcases r.pose.heading.eq_turned facing with rfl | rfl | rfl | rfl
  · exact ⟨[], rfl, .nil t r⟩
  · exact ⟨[.right], rfl, Goes.right.walks hr⟩
  · exact ⟨[.right, .right], rfl, walks_about hr⟩
  · exact ⟨[.left], rfl, Goes.left.walks hr⟩

theorem exists_walk_along (hr : r.StandsOn t) {facing : Heading}
    (hcell : cell.point = r.pose.cell.point.advance facing n) (hmem : cell.point ∈ t) :
    ∃ walk : List Leg, walk.count .move = n ∧ Walks t r walk ⟨⟨cell, facing⟩, true⟩ := by
  obtain ⟨turns, hturns, hface⟩ := exists_walk_facing (t := t) hr.placed facing
  have hstraight := walks_straight (hr.face facing) hcell hmem
  refine ⟨turns ++ List.replicate n .move, ?_, hface.append hstraight⟩
  rw [List.count_append, hturns, List.count_replicate_self, Nat.zero_add]

/-- From one cell to another a robot goes along one axis and then along the other. -/
theorem exists_walk (hr : r.StandsOn t) (hr' : r'.StandsOn t) :
    ∃ walk : List Leg,
      walk.count .move = r.pose.cell.point.distance r'.pose.cell.point ∧ Walks t r walk r' := by
  let corner : Cell := ⟨r'.pose.cell.x, r.pose.cell.y⟩
  have hcorner : corner.point ∈ t := ⟨hr'.mem.1, hr.mem.2⟩
  obtain ⟨facing, hacross⟩ := Point.exists_advance (p := r.pose.cell.point) (q := corner.point)
    (.inr rfl)
  obtain ⟨facing', hup⟩ := Point.exists_advance (p := corner.point) (q := r'.pose.cell.point)
    (.inl rfl)
  obtain ⟨across, hcountAcross, hwalkAcross⟩ := exists_walk_along hr hacross hcorner
  obtain ⟨up, hcountUp, hwalkUp⟩ :=
    exists_walk_along (r := ⟨⟨corner, facing⟩, true⟩) ⟨rfl, hcorner⟩ hup hr'.mem
  obtain ⟨turns, hcountTurns, hwalkTurns⟩ :=
    exists_walk_facing (t := t) (r := ⟨⟨r'.pose.cell, facing'⟩, true⟩) rfl r'.pose.heading
  have hend : face ⟨⟨r'.pose.cell, facing'⟩, true⟩ r'.pose.heading = r' := by
    rw [← hr'.placed]
    rfl
  rw [hend] at hwalkTurns
  refine ⟨across ++ up ++ turns, ?_, (hwalkAcross.append hwalkUp).append hwalkTurns⟩
  rw [List.count_append, List.count_append, hcountAcross, hcountUp, hcountTurns, Nat.add_zero]
  exact Point.distance_corner r.pose.cell.point r'.pose.cell.point

/-- How many of the moves that readings ask for are made. -/
def movesMade (t : Table) (r : Robot) (readings : List Reading) : Nat :=
  (readings.zip (r.course t readings)).countP fun step =>
    step.1.keyword? = some "MOVE" && step.2.2.isAccepted

theorem movesMade_cons (t : Table) (r : Robot) (reading : Reading) (rest : List Reading) :
    r.movesMade t (reading :: rest) =
      (if reading.keyword? = some "MOVE" ∧ (r.heed t reading).2.isAccepted = true then 1 else 0) +
        (r.heed t reading).1.movesMade t rest := by
  simp only [movesMade, course, List.zip_cons_cons, List.countP_cons, Bool.and_eq_true,
    decide_eq_true_eq]
  exact Nat.add_comm _ _

/-- Without a placement each move that is made takes a robot one step, and nothing else does. -/
theorem Obeys.distance {reading : Reading} {outcome : Outcome} (h : Obeys t r reading r' outcome)
    (hno : reading.keyword? ≠ some "PLACE") :
    r.pose.cell.point.distance r'.pose.cell.point =
      if reading.keyword? = some "MOVE" ∧ outcome.isAccepted = true then 1 else 0 := by
  cases h with
  | placed x y heading cell hcell hmem => exact absurd rfl hno
  | placedOff x y heading hmem => exact absurd rfl hno
  | moved cell hr hcell hmem =>
    rw [if_pos ⟨rfl, rfl⟩]
    simp only [hcell, Point.distance_ahead]
  | left hr => exact Point.distance_self r.pose.cell.point
  | right hr => exact Point.distance_self r.pose.cell.point
  | _ => simp [Reading.keyword?, Command.keyword, Outcome.isAccepted, Point.distance_self]

theorem distance_follow {readings : List Reading}
    (hno : ∀ reading ∈ readings, reading.keyword? ≠ some "PLACE") (r : Robot) :
    let distance := r.pose.cell.point.distance (r.follow t readings).pose.cell.point
    distance ≤ r.movesMade t readings ∧ r.movesMade t readings % 2 = distance % 2 := by
  induction readings generalizing r with
  | nil =>
    rw [follow_nil, Point.distance_self]
    exact ⟨Nat.zero_le _, rfl⟩
  | cons reading rest ih =>
    rw [List.forall_mem_cons] at hno
    obtain ⟨hle, hparity⟩ := ih hno.2 (r.heed t reading).1
    have hfirst := (obeys_heed t r reading).distance hno.1
    have htriangle := r.pose.cell.point.distance_triangle (r.heed t reading).1.pose.cell.point
      ((r.heed t reading).1.follow t rest).pose.cell.point
    have hround := r.pose.cell.point.distance_parity (r.heed t reading).1.pose.cell.point
      ((r.heed t reading).1.follow t rest).pose.cell.point
    rw [follow_cons, movesMade_cons, ← hfirst]
    omega

/-- Any two cells of the table are joined by a walk with as many moves as they are apart. Without a
placement no course from one to the other makes fewer moves, and all make an even number of them or
all an odd one. -/
theorem moves_measure_distance (t : Table) {r r' : Robot} (hr : r.placed = true)
    (hmem : r.pose.cell.point ∈ t) (hr' : r'.placed = true) (hmem' : r'.pose.cell.point ∈ t) :
    let p := r.pose.cell.point
    let p' := r'.pose.cell.point
    let distance := (p'.x - p.x).natAbs + (p'.y - p.y).natAbs
    (∃ walk : List Leg, walk.count .move = distance ∧ Walks t r walk r') ∧
      ∀ readings : List Reading, (∀ reading ∈ readings, reading.keyword? ≠ some "PLACE") →
        r.follow t readings = r' →
        distance ≤ r.movesMade t readings ∧ r.movesMade t readings % 2 = distance % 2 := by
  intro p p' distance
  refine ⟨exists_walk ⟨hr, hmem⟩ ⟨hr', hmem'⟩, ?_⟩
  rintro readings hno rfl
  exact distance_follow hno r

theorem moves_measure_distance_on_narrow_table :
    let t : Table := ⟨0, 3⟩
    let r : Robot := ⟨⟨⟨0, 1⟩, .east⟩, true⟩
    let r' : Robot := ⟨⟨⟨0, 3⟩, .west⟩, true⟩
    let detour : List Reading :=
      [.ok .move, .ok .left, .ok .move, .ok .move, .ok .move, .ok .left, .ok .left, .ok .move,
        .error .empty, .ok .right, .ok .right, .ok .report, .ok .move, .ok .left]
    r.placed = true ∧ r.pose.cell.point ∈ t ∧ r'.placed = true ∧ r'.pose.cell.point ∈ t ∧
      (∃ walk : List Leg, walk.count .move = 2 ∧ Walks t r walk r') ∧
      (∀ reading ∈ detour, reading.keyword? ≠ some "PLACE") ∧ r.follow t detour = r' ∧
      r.movesMade t detour = 4 ∧ 2 ≤ r.movesMade t detour ∧
        r.movesMade t detour % 2 = 2 % 2 := by
  intro t r r' detour
  have hr' : r'.placed = true := rfl
  have hmem : r.pose.cell.point ∈ t := by decide
  have hmem' : r'.pose.cell.point ∈ t := by decide
  have hno : ∀ reading ∈ detour, reading.keyword? ≠ some "PLACE" := by decide
  have hfollow : r.follow t detour = r' := by decide
  obtain ⟨hwalk, hmeasure⟩ := moves_measure_distance t (r := r) rfl hmem hr' hmem'
  exact ⟨rfl, hmem, hr', hmem', hwalk, hno, hfollow, by decide, hmeasure detour hno hfollow⟩

end Robot

end Tabletop
