import Tabletop.Proofs.Rules

/-!
The rules of the table in exact integers: where a command aims, whether it gets there, and what it
leaves alone, for every robot and every bounds that 32 bits hold. Placements are narrowed from 64
bits and moves are checked sums in 32; neither can be told from the exact integers.
-/

namespace Tabletop

variable {t : Table} {r : Robot} {heading : Heading} {result : Robot × Outcome}

/-- Sending a robot to a point: it gets there exactly if the point lies within the bounds, and is
told of that very point if it does not. -/
structure Robot.Sent (t : Table) (r : Robot) (target : Point) (heading : Heading)
    (result : Robot × Outcome) : Prop where
  isAccepted_iff : result.2.isAccepted = true ↔
    (0 ≤ target.x ∧ target.x ≤ t.maxX.toInt) ∧ 0 ≤ target.y ∧ target.y ≤ t.maxY.toInt
  arrives : result.2.isAccepted = true →
    result.2 = .accepted none ∧ result.1.pose.cell.x.toInt = target.x ∧
      result.1.pose.cell.y.toInt = target.y ∧ result.1.pose.heading = heading ∧
      result.1.placed = true
  stays : result.2.isAccepted = false →
    result.1 = r ∧
      (∃ told : Target, result.2 = .rejected told ∧ told.x.toInt = target.x ∧
        told.y.toInt = target.y) ∧
      result.2.reason? =
        some ("(" ++ toString target.x ++ "," ++ toString target.y ++ ") is off the table")

namespace Robot

theorem sent_goTo (r : Robot) {cell? : Option Cell} {target : Target}
    (hcell? : IsCellAt target.point cell?) (heading : Heading) :
    Sent t r target.point heading (r.goTo t cell? target heading) := by
  by_cases hmem : target.point ∈ t
  · obtain ⟨cell, hcell⟩ := Table.exists_cell hmem
    rw [goTo_of_mem hcell? hcell hmem, ← hcell]
    exact ⟨iff_of_true rfl (hcell ▸ hmem), fun _ => ⟨rfl, rfl, rfl, rfl, rfl⟩, nofun⟩
  · rw [goTo_of_not_mem hcell? hmem]
    exact ⟨iff_of_false Bool.false_ne_true hmem, nofun,
      fun _ => ⟨rfl, ⟨target, rfl, rfl, rfl⟩, rfl⟩⟩

theorem sent_place (t : Table) (r : Robot) (x y : Int64) (heading : Heading) :
    Sent t r ⟨x.toInt, y.toInt⟩ heading (r.obey t (.place x y heading)) :=
  sent_goTo r (Target.isCellAt_cell? ⟨x, y⟩) heading

theorem sent_move (t : Table) (hr : r.placed = true) :
    Sent t r (r.pose.cell.point.ahead r.pose.heading) r.pose.heading (r.obey t .move) := by
  rw [obey, if_pos hr, ← Cell.point_aim]
  exact sent_goTo r (Cell.isCellAt_ahead? _ _) r.pose.heading

theorem Obeys.off_of_rejected {reading : Reading} {r' : Robot} {target : Target}
    (h : Obeys t r reading r' (.rejected target)) :
    target.point ∉ t ∧ (reading.keyword? = some "PLACE" ∨ reading.keyword? = some "MOVE") := by
  cases h with
  | placedOff x y heading hmem => exact ⟨hmem, .inl rfl⟩
  | movedOff hr hmem =>
    rw [Cell.point_aim]
    exact ⟨hmem, .inr rfl⟩

theorem Obeys.report?_eq_some_iff {reading : Reading} {r' : Robot} {outcome : Outcome}
    (h : Obeys t r reading r' outcome) (pose : Pose) :
    outcome.report? = some pose ↔ reading = .ok .report ∧ r.placed = true ∧ r.pose = pose := by
  cases h with
  | report hr => simp [Outcome.report?, hr]
  | notPlaced c hc hr => simp [Outcome.report?, hr]
  | _ => simp [Outcome.report?]

/-- A placement aims at its coordinates and a move at the next point ahead, in exact integers; they
succeed exactly if that point lies within the bounds, and only they are ever rejected. A robot off
the table hears nothing but placements. Whatever is not accepted changes nothing. -/
theorem heed_exact (t : Table) (r : Robot) :
    (∀ x y heading,
        Sent t r ⟨x.toInt, y.toInt⟩ heading (r.heed t (.ok (.place x y heading)))) ∧
      (r.placed = true →
        let x := r.pose.cell.x.toInt
        let y := r.pose.cell.y.toInt
        let target : Point :=
          match r.pose.heading with
          | .north => ⟨x, y + 1⟩
          | .east => ⟨x + 1, y⟩
          | .south => ⟨x, y - 1⟩
          | .west => ⟨x - 1, y⟩
        Sent t r target r.pose.heading (r.heed t (.ok .move)) ∧
          r.heed t (.ok .left) = (r.face r.pose.heading.left, .accepted none) ∧
          r.heed t (.ok .right) = (r.face r.pose.heading.right, .accepted none) ∧
          r.heed t (.ok .report) = (r, .accepted (some r.pose))) ∧
      (r.placed = false → ∀ c : Command, c.keyword ≠ "PLACE" →
        r.heed t (.ok c) = (r, .ignored .notPlaced)) ∧
      (∀ e, r.heed t (.error e) = (r, .ignored (.unreadable e))) ∧
      ∀ reading,
        (∀ target, (r.heed t reading).2 = .rejected target →
          target.point ∉ t ∧ (reading.keyword? = some "PLACE" ∨ reading.keyword? = some "MOVE")) ∧
        (∀ pose, (r.heed t reading).2.report? = some pose ↔
          reading = .ok .report ∧ r.placed = true ∧ r.pose = pose) ∧
        ((r.heed t reading).2.isAccepted = false ∨ reading = .ok .report →
          (r.heed t reading).1 = r) := by
  refine ⟨?_, ?_, ?_, ?_, ?_⟩
  · intro x y heading
    exact sent_place t r x y heading
  · intro hr x y target
    have htarget : target = r.pose.cell.point.ahead r.pose.heading := by
      simp only [target, Point.ahead, Cell.point, x, y]
      cases r.pose.heading <;> simp [Heading.dx, Heading.dy, Int.sub_eq_add_neg]
    refine ⟨?_, if_pos hr, if_pos hr, if_pos hr⟩
    rw [htarget]
    exact sent_move t hr
  · intro hr c hc
    exact obey_of_not_placed hc hr
  · intro e
    rfl
  · intro reading
    have hobeys := obeys_heed t r reading
    refine ⟨?_, hobeys.report?_eq_some_iff, hobeys.eq_self⟩
    intro target houtcome
    rw [houtcome] at hobeys
    exact hobeys.off_of_rejected

/-- At the edge of the widest table a move aims beyond 32 bits, and off the table nothing is heard
but a placement. -/
theorem heed_exact_at_widest_edge :
    let t : Table := ⟨2147483647, 5⟩
    let r : Robot := ⟨⟨⟨2147483647, 0⟩, .east⟩, true⟩
    r.placed = true ∧ (r.heed t (.ok .move)).2.isAccepted = false ∧
      (r.heed t (.ok .move)).1 = r ∧
      (r.heed t (.ok .move)).2.reason? = some "(2147483648,0) is off the table" ∧
      (r.heed t (.ok (.place 2147483647 6 .west))).1 = r ∧
      initial.placed = false ∧ initial.heed t (.ok .report) = (initial, .ignored .notPlaced) ∧
      (initial.heed t (.ok (.place 2147483647 5 .west))).2.isAccepted = true ∧
      (initial.heed t (.ok (.place 2147483647 5 .west))).1.pose.cell.x.toInt = 2147483647 := by
  intro t r
  have hr : r.placed = true := rfl
  have hmove : (r.heed t (.ok .move)).2.isAccepted = false := by decide
  have hoff : (r.heed t (.ok (.place 2147483647 6 .west))).2.isAccepted = false := by decide
  have hon : (initial.heed t (.ok (.place 2147483647 5 .west))).2.isAccepted = true := by decide
  obtain ⟨-, hplaced, -, -, hall⟩ := heed_exact t r
  obtain ⟨hplace, -, hunplaced, -, -⟩ := heed_exact t initial
  obtain ⟨hstays, -, hreason⟩ := (hplaced hr).1.stays hmove
  exact ⟨hr, hmove, hstays, hreason.trans (by decide +kernel), (hall _).2.2 (.inl hoff), rfl,
    hunplaced rfl .report (by decide), hon, ((hplace _ _ _).arrives hon).2.1⟩

end Robot

end Tabletop
