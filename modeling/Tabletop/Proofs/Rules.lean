import Tabletop.Grid
import Tabletop.Session

/-!
The rules of the table: everything a line can do to a robot, one rule for each way it can end.
-/

namespace Tabletop

variable {t : Table} {r r' : Robot} {reading : Reading} {outcome : Outcome} {target : Target}
variable {heading : Heading} {cell : Cell} {cell? : Option Cell} {x y : Int64}

namespace Robot

theorem goTo_of_mem (hcell? : IsCellAt target.point cell?) (hcell : cell.point = target.point)
    (hmem : target.point ∈ t) :
    r.goTo t cell? target heading = (⟨⟨cell, heading⟩, true⟩, .accepted none) := by
  have hcontains : t.contains cell = true := Table.contains_iff.2 (hcell ▸ hmem)
  rw [goTo, (hcell? cell).2 hcell, Option.filter_some, if_pos hcontains]

theorem goTo_of_not_mem (hcell? : IsCellAt target.point cell?) (hmem : target.point ∉ t) :
    r.goTo t cell? target heading = (r, .rejected target) := by
  have hnone : cell?.filter t.contains = none := by
    rw [Option.filter_eq_none_iff]
    intro cell hcell hcontains
    rw [Table.contains_iff, (hcell? cell).1 hcell] at hcontains
    exact hmem hcontains
  rw [goTo, hnone]

theorem obey_place_of_mem (heading : Heading) (hcell : cell.point = ⟨x.toInt, y.toInt⟩)
    (hmem : cell.point ∈ t) (r : Robot) :
    r.obey t (.place x y heading) = (⟨⟨cell, heading⟩, true⟩, .accepted none) := by
  have htarget : (⟨x.toInt, y.toInt⟩ : Point) ∈ t := hcell ▸ hmem
  exact goTo_of_mem (Target.isCellAt_cell? ⟨x, y⟩) hcell htarget

theorem obey_place_of_not_mem (hmem : ⟨x.toInt, y.toInt⟩ ∉ t) :
    r.obey t (.place x y heading) = (r, .rejected ⟨x, y⟩) :=
  goTo_of_not_mem (Target.isCellAt_cell? ⟨x, y⟩) hmem

theorem obey_move_of_mem (hr : r.placed = true)
    (hcell : cell.point = r.pose.cell.point.ahead r.pose.heading) (hmem : cell.point ∈ t) :
    r.obey t .move = (⟨⟨cell, r.pose.heading⟩, true⟩, .accepted none) := by
  rw [← Cell.point_aim] at hcell
  exact (if_pos hr).trans (goTo_of_mem (Cell.isCellAt_ahead? _ _) hcell (hcell ▸ hmem))

theorem obey_move_of_not_mem (hr : r.placed = true)
    (hmem : r.pose.cell.point.ahead r.pose.heading ∉ t) :
    r.obey t .move = (r, .rejected (r.pose.cell.aim r.pose.heading)) := by
  rw [← Cell.point_aim] at hmem
  exact (if_pos hr).trans (goTo_of_not_mem (Cell.isCellAt_ahead? _ _) hmem)

/-- How a reading takes a robot to the next and with which outcome. -/
inductive Obeys (t : Table) (r : Robot) : Reading → Robot → Outcome → Prop where
  | unreadable (e : ParseError) : Obeys t r (.error e) r (.ignored (.unreadable e))
  | notPlaced (c : Command) (hc : c.keyword ≠ "PLACE") (hr : r.placed = false) :
      Obeys t r (.ok c) r (.ignored .notPlaced)
  | placed (x y : Int64) (heading : Heading) (cell : Cell) (hcell : cell.point = ⟨x.toInt, y.toInt⟩)
      (hmem : cell.point ∈ t) :
      Obeys t r (.ok (.place x y heading)) ⟨⟨cell, heading⟩, true⟩ (.accepted none)
  | placedOff (x y : Int64) (heading : Heading) (hmem : ⟨x.toInt, y.toInt⟩ ∉ t) :
      Obeys t r (.ok (.place x y heading)) r (.rejected ⟨x, y⟩)
  | moved (cell : Cell) (hr : r.placed = true)
      (hcell : cell.point = r.pose.cell.point.ahead r.pose.heading) (hmem : cell.point ∈ t) :
      Obeys t r (.ok .move) ⟨⟨cell, r.pose.heading⟩, true⟩ (.accepted none)
  | movedOff (hr : r.placed = true) (hmem : r.pose.cell.point.ahead r.pose.heading ∉ t) :
      Obeys t r (.ok .move) r (.rejected (r.pose.cell.aim r.pose.heading))
  | left (hr : r.placed = true) :
      Obeys t r (.ok .left) (r.face r.pose.heading.left) (.accepted none)
  | right (hr : r.placed = true) :
      Obeys t r (.ok .right) (r.face r.pose.heading.right) (.accepted none)
  | report (hr : r.placed = true) : Obeys t r (.ok .report) r (.accepted (some r.pose))

theorem obeys_place (x y : Int64) (heading : Heading) :
    Obeys t r (.ok (.place x y heading)) (r.obey t (.place x y heading)).1
      (r.obey t (.place x y heading)).2 := by
  by_cases hmem : (⟨x.toInt, y.toInt⟩ : Point) ∈ t
  · obtain ⟨cell, hcell⟩ := Table.exists_cell hmem
    rw [← hcell] at hmem
    rw [obey_place_of_mem heading hcell hmem]
    exact .placed x y heading cell hcell hmem
  · rw [obey_place_of_not_mem hmem]
    exact .placedOff x y heading hmem

theorem obeys_move (hr : r.placed = true) :
    Obeys t r (.ok .move) (r.obey t .move).1 (r.obey t .move).2 := by
  by_cases hmem : r.pose.cell.point.ahead r.pose.heading ∈ t
  · obtain ⟨cell, hcell⟩ := Table.exists_cell hmem
    rw [← hcell] at hmem
    rw [obey_move_of_mem hr hcell hmem]
    exact .moved cell hr hcell hmem
  · rw [obey_move_of_not_mem hr hmem]
    exact .movedOff hr hmem

theorem obey_of_not_placed {c : Command} (hc : c.keyword ≠ "PLACE") (hr : r.placed = false) :
    r.obey t c = (r, .ignored .notPlaced) := by
  cases c with
  | place x y heading => exact (hc rfl).elim
  | move => rw [obey, hr, if_neg Bool.false_ne_true]
  | left => rw [obey, hr, if_neg Bool.false_ne_true]
  | right => rw [obey, hr, if_neg Bool.false_ne_true]
  | report => rw [obey, hr, if_neg Bool.false_ne_true]

theorem obeys_of_placed (hr : r.placed = true) (c : Command) :
    Obeys t r (.ok c) (r.obey t c).1 (r.obey t c).2 := by
  cases c with
  | place x y heading => exact obeys_place x y heading
  | move => exact obeys_move hr
  | left =>
    rw [obey, if_pos hr]
    exact .left hr
  | right =>
    rw [obey, if_pos hr]
    exact .right hr
  | report =>
    rw [obey, if_pos hr]
    exact .report hr

theorem obeys_of_not_placed (hr : r.placed = false) (c : Command) :
    Obeys t r (.ok c) (r.obey t c).1 (r.obey t c).2 := by
  by_cases hplace : c.keyword = "PLACE"
  · cases c with
    | place x y heading => exact obeys_place x y heading
    | move => exact absurd hplace (by decide)
    | left => exact absurd hplace (by decide)
    | right => exact absurd hplace (by decide)
    | report => exact absurd hplace (by decide)
  · rw [obey_of_not_placed hplace hr]
    exact .notPlaced c hplace hr

theorem obeys_heed (t : Table) (r : Robot) (reading : Reading) :
    Obeys t r reading (r.heed t reading).1 (r.heed t reading).2 := by
  cases reading with
  | error e => exact .unreadable e
  | ok c =>
    cases hr : r.placed with
    | false => exact obeys_of_not_placed hr c
    | true => exact obeys_of_placed hr c

/-- What is not accepted, and a report, leave the robot alone. -/
theorem Obeys.eq_self (h : Obeys t r reading r' outcome)
    (hidle : outcome.isAccepted = false ∨ reading = .ok .report) : r' = r := by
  cases h with
  | unreadable => rfl
  | notPlaced => rfl
  | placedOff => rfl
  | movedOff => rfl
  | report => rfl
  | placed => rcases hidle with h | h <;> cases h
  | moved => rcases hidle with h | h <;> cases h
  | left => rcases hidle with h | h <;> cases h
  | right => rcases hidle with h | h <;> cases h

theorem Obeys.placed_of_placed (h : Obeys t r reading r' outcome) (hr : r.placed = true) :
    r'.placed = true := by
  cases h with
  | placed => rfl
  | moved => rfl
  | _ => exact hr

theorem Obeys.not_ignored {c : Command} (h : Obeys t r (.ok c) r' outcome) (hr : r.placed = true)
    (cause : IgnoreCause) : outcome ≠ .ignored cause := by
  cases h with
  | notPlaced c hc hr' => exact absurd (hr'.symm.trans hr) Bool.false_ne_true
  | _ => exact nofun

theorem Obeys.ignored_of_not_placed {c : Command} (h : Obeys t r (.ok c) r' outcome)
    (hr : r.placed = false) (hc : c.keyword ≠ "PLACE") : outcome = .ignored .notPlaced := by
  cases h with
  | notPlaced => rfl
  | placed => exact (hc rfl).elim
  | placedOff => exact (hc rfl).elim
  | moved cell hr' => exact absurd (hr.symm.trans hr') Bool.false_ne_true
  | movedOff hr' => exact absurd (hr.symm.trans hr') Bool.false_ne_true
  | left hr' => exact absurd (hr.symm.trans hr') Bool.false_ne_true
  | right hr' => exact absurd (hr.symm.trans hr') Bool.false_ne_true
  | report hr' => exact absurd (hr.symm.trans hr') Bool.false_ne_true

end Robot

namespace Session

variable {s : Session}

theorem step_obeys (s : Session) (line : String) :
    Robot.Obeys s.table s.robot (s.step line).2.reading (s.step line).1.robot
      (s.step line).2.outcome := by
  simp only [step_eq]
  exact Robot.obeys_heed s.table s.robot (Command.read line)

theorem step_eq_self_of_robot {line : String} (h : (s.step line).1.robot = s.robot) :
    (s.step line).1 = s := by
  simp only [step_eq] at h ⊢
  rw [h]

end Session

end Tabletop
