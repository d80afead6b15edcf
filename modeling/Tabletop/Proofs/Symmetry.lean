import Tabletop.Course
import Tabletop.Proofs.Rules

/-!
The world in a mirror. A reflection of the grid turns left into right; where it takes the points of
a table to those of a table, reflected commands take a reflected robot along the reflected course.
-/

namespace Tabletop

namespace Heading

/-- The heading with the two axes exchanged. -/
def swap : Heading → Heading
  | north => east
  | east => north
  | south => west
  | west => south

/-- The heading in a mirror that stands along the y axis. -/
def mirror : Heading → Heading
  | north => north
  | east => west
  | south => south
  | west => east

end Heading

/-- The table with its two bounds exchanged. -/
def Table.swap (t : Table) : Table :=
  ⟨t.maxY, t.maxX⟩

/-- A reflection of the integer grid, with what it does to directions. -/
structure Reflection where
  point : Point → Point
  heading : Heading → Heading
  point_ahead : ∀ p h, point (p.ahead h) = (point p).ahead (heading h)
  heading_left : ∀ h, heading h.left = (heading h).right
  heading_right : ∀ h, heading h.right = (heading h).left

namespace Reflection

/-- The reflection that exchanges the two axes. -/
def diagonal : Reflection where
  point p := ⟨p.y, p.x⟩
  heading := Heading.swap
  point_ahead p h := by cases h <;> rfl
  heading_left h := by cases h <;> rfl
  heading_right h := by cases h <;> rfl

/-- The reflection that takes every x to `m - x`. -/
def across (m : Int) : Reflection where
  point p := ⟨m - p.x, p.y⟩
  heading := Heading.mirror
  point_ahead p h := by
    simp only [Point.ahead, Point.mk.injEq]
    cases h <;> simp only [Heading.mirror, Heading.dx, Heading.dy, and_true] <;> omega
  heading_left h := by cases h <;> rfl
  heading_right h := by cases h <;> rfl

variable (σ : Reflection)

def cell (c : Cell) : Cell :=
  ⟨.ofInt (σ.point c.point).x, .ofInt (σ.point c.point).y⟩

def pose (p : Pose) : Pose :=
  ⟨σ.cell p.cell, σ.heading p.heading⟩

def robot (r : Robot) : Robot :=
  ⟨σ.pose r.pose, r.placed⟩

def target (p : Target) : Target :=
  ⟨.ofInt (σ.point p.point).x, .ofInt (σ.point p.point).y⟩

def command : Command → Command
  | .place x y h => .place (σ.target ⟨x, y⟩).x (σ.target ⟨x, y⟩).y (σ.heading h)
  | .move => .move
  | .left => .right
  | .right => .left
  | .report => .report

/-- An unreadable line is the same in a mirror. -/
def reading : Reading → Reading :=
  Except.map σ.command

def outcome : Outcome → Outcome
  | .accepted report => .accepted (report.map σ.pose)
  | .ignored cause => .ignored cause
  | .rejected p => .rejected (σ.target p)

/-- The reflection takes the points of one table to those of another, and no others. -/
def Maps (t t' : Table) : Prop :=
  ∀ p, σ.point p ∈ t' ↔ p ∈ t

/-- The reflected cell has 32-bit coordinates. -/
def FitsCell (c : Cell) : Prop :=
  (σ.cell c).point = σ.point c.point

/-- The reflected target has 64-bit coordinates. -/
def FitsTarget (p : Target) : Prop :=
  (σ.target p).point = σ.point p.point

/-- The reflected placement, if it is one, has 64-bit coordinates. -/
def FitsReading (reading : Reading) : Prop :=
  ∀ x y h, reading = .ok (.place x y h) →
    (σ.point ⟨x.toInt, y.toInt⟩).x ∈ Interval.signed64 ∧
      (σ.point ⟨x.toInt, y.toInt⟩).y ∈ Interval.signed64

variable {σ} {t t' : Table} {r r' : Robot} {c c' : Cell} {p p' : Target} {x y : Int64}
variable {h : Heading} {said : Reading} {result : Outcome}

theorem eq_cell (hc : c'.point = σ.point c.point) : c' = σ.cell c := by
  rw [cell, ← hc, Cell.point, Int32.ofInt_toInt, Int32.ofInt_toInt]

theorem eq_target (hp : p'.point = σ.point p.point) : p' = σ.target p := by
  rw [target, ← hp, Target.point, Int64.ofInt_toInt, Int64.ofInt_toInt]

theorem fitsCell_of_mem (hσ : σ.Maps t t') (hc : c.point ∈ t) : σ.FitsCell c := by
  obtain ⟨c', hc'⟩ := Table.exists_cell ((hσ c.point).2 hc)
  rw [FitsCell, ← eq_cell hc', hc']

theorem fitsTarget_of_fitsReading (h : σ.FitsReading (.ok (.place x y h))) :
    σ.FitsTarget ⟨x, y⟩ := by
  obtain ⟨⟨hxlo, hxhi⟩, hylo, hyhi⟩ := h x y _ rfl
  have hx := Int64.toInt_ofInt_of_le hxlo (Int.lt_add_one_of_le hxhi)
  have hy := Int64.toInt_ofInt_of_le hylo (Int.lt_add_one_of_le hyhi)
  rw [FitsTarget, target]
  exact (Point.mk.injEq ..).mpr ⟨hx, hy⟩

/-- A reflected robot aims at the reflection of where the robot aims. -/
theorem point_aim_reflected (hcell : σ.FitsCell c) (h : Heading) :
    ((σ.cell c).aim (σ.heading h)).point = σ.point (c.aim h).point := by
  rw [Cell.point_aim, Cell.point_aim, σ.point_ahead, hcell]

theorem goTo_reflected (hσ : σ.Maps t t') (r : Robot) {cell? cell?' : Option Cell}
    (hcell? : IsCellAt p.point cell?) (hcell?' : IsCellAt p'.point cell?')
    (hp : p'.point = σ.point p.point) (h : Heading) :
    (σ.robot r).goTo t' cell?' p' (σ.heading h) =
      (r.goTo t cell? p h).map σ.robot σ.outcome := by
  have hmaps : p'.point ∈ t' ↔ p.point ∈ t := hp ▸ hσ p.point
  by_cases hmem : p.point ∈ t
  · obtain ⟨c, hc⟩ := Table.exists_cell hmem
    obtain ⟨c', hc'⟩ := Table.exists_cell (hmaps.2 hmem)
    have hreflected : c' = σ.cell c := by
      apply eq_cell
      rw [hc', hp, hc]
    rw [Robot.goTo_of_mem hcell? hc hmem, Robot.goTo_of_mem hcell?' hc' (hmaps.2 hmem), hreflected]
    rfl
  · rw [Robot.goTo_of_not_mem hcell? hmem, Robot.goTo_of_not_mem hcell?' (mt hmaps.1 hmem),
      eq_target hp]
    rfl

theorem obey_place_reflected (hσ : σ.Maps t t') (r : Robot)
    (hfits : σ.FitsReading (.ok (.place x y h))) :
    (σ.robot r).obey t' (σ.command (.place x y h)) =
      (r.obey t (.place x y h)).map σ.robot σ.outcome :=
  goTo_reflected hσ r (Target.isCellAt_cell? _) (Target.isCellAt_cell? _)
    (fitsTarget_of_fitsReading hfits) h

theorem obey_reflected_of_placed (hσ : σ.Maps t t') (hr : r.placed = true)
    (hcell : σ.FitsCell r.pose.cell) {c : Command} (hc : σ.FitsReading (.ok c)) :
    (σ.robot r).obey t' (σ.command c) = (r.obey t c).map σ.robot σ.outcome := by
  have hr' : (σ.robot r).placed = true := hr
  cases c with
  | place x y h => exact obey_place_reflected hσ r hc
  | move =>
    rw [command, Robot.obey, Robot.obey, if_pos hr, if_pos hr']
    exact goTo_reflected hσ r (Cell.isCellAt_ahead? _ _) (Cell.isCellAt_ahead? _ _)
      (point_aim_reflected hcell _) _
  | left =>
    rw [command, Robot.obey, Robot.obey, if_pos hr, if_pos hr']
    change ((σ.robot r).face (σ.heading r.pose.heading).right, _) = _
    rw [← σ.heading_left]
    rfl
  | right =>
    rw [command, Robot.obey, Robot.obey, if_pos hr, if_pos hr']
    change ((σ.robot r).face (σ.heading r.pose.heading).left, _) = _
    rw [← σ.heading_right]
    rfl
  | report =>
    rw [command, Robot.obey, Robot.obey, if_pos hr, if_pos hr']
    rfl

theorem keyword_command (σ : Reflection) {c : Command} (hc : c.keyword ≠ "PLACE") :
    (σ.command c).keyword ≠ "PLACE" := by
  cases c with
  | place x y h => exact hc
  | move => exact hc
  | left => exact (by decide : Command.right.keyword ≠ "PLACE")
  | right => exact (by decide : Command.left.keyword ≠ "PLACE")
  | report => exact hc

theorem obey_reflected_of_not_placed (hσ : σ.Maps t t') (hr : r.placed = false) {c : Command}
    (hc : σ.FitsReading (.ok c)) :
    (σ.robot r).obey t' (σ.command c) = (r.obey t c).map σ.robot σ.outcome := by
  by_cases hplace : c.keyword = "PLACE"
  · cases c with
    | place x y h => exact obey_place_reflected hσ r hc
    | _ => exact absurd hplace (by decide)
  · have hr' : (σ.robot r).placed = false := hr
    rw [Robot.obey_of_not_placed hplace hr,
      Robot.obey_of_not_placed (σ.keyword_command hplace) hr']
    rfl

theorem heed_reflected (hσ : σ.Maps t t') (hcell : σ.FitsCell r.pose.cell)
    (hsaid : σ.FitsReading said) :
    (σ.robot r).heed t' (σ.reading said) = (r.heed t said).map σ.robot σ.outcome := by
  cases said with
  | error e => rfl
  | ok c =>
    cases hr : r.placed with
    | true => exact obey_reflected_of_placed hσ hr hcell hsaid
    | false => exact obey_reflected_of_not_placed hσ hr hsaid

/-- What a reading leaves fits if what it found does. -/
theorem fits_of_obeys (hσ : σ.Maps t t') (hcell : σ.FitsCell r.pose.cell)
    (hsaid : σ.FitsReading said) (hobeys : Robot.Obeys t r said r' result) :
    σ.FitsCell r'.pose.cell ∧ ∀ p, result = .rejected p → σ.FitsTarget p := by
  cases hobeys with
  | placed x y h c hc hmem => exact ⟨fitsCell_of_mem hσ hmem, nofun⟩
  | moved c hr hc hmem => exact ⟨fitsCell_of_mem hσ hmem, nofun⟩
  | placedOff x y h hmem =>
    refine ⟨hcell, ?_⟩
    rintro p ⟨⟩
    exact fitsTarget_of_fitsReading hsaid
  | movedOff hr hmem =>
    refine ⟨hcell, ?_⟩
    rintro p ⟨⟩
    have haim := point_aim_reflected hcell r.pose.heading
    rw [FitsTarget, ← eq_target haim, haim]
  | _ => exact ⟨hcell, nofun⟩

theorem course_reflected (hσ : σ.Maps t t') (hcell : σ.FitsCell r.pose.cell)
    {readings : List Reading} (hreadings : ∀ said ∈ readings, σ.FitsReading said) :
    (σ.robot r).course t' (readings.map σ.reading) =
      (r.course t readings).map (Prod.map σ.robot σ.outcome) := by
  induction readings generalizing r with
  | nil => rfl
  | cons said rest ih =>
    rw [List.forall_mem_cons] at hreadings
    rw [List.map_cons, Robot.course, heed_reflected hσ hcell hreadings.1, Robot.course,
      List.map_cons]
    have hfits := fits_of_obeys hσ hcell hreadings.1 (Robot.obeys_heed t r said)
    exact congrArg _ (ih hfits.1 hreadings.2)

/-- Every robot of a course that starts from one that fits does so too, and every target. -/
theorem fits_of_mem_course (hσ : σ.Maps t t') (hcell : σ.FitsCell r.pose.cell)
    {readings : List Reading} (hreadings : ∀ said ∈ readings, σ.FitsReading said) :
    ∀ next ∈ r.course t readings, σ.FitsCell next.1.pose.cell ∧
      ∀ p, next.2 = .rejected p → σ.FitsTarget p := by
  induction readings generalizing r with
  | nil => exact fun _ hnext => (nomatch hnext)
  | cons said rest ih =>
    rw [List.forall_mem_cons] at hreadings
    have hfirst := fits_of_obeys hσ hcell hreadings.1 (Robot.obeys_heed t r said)
    rw [Robot.course, List.forall_mem_cons]
    exact ⟨hfirst, ih hfirst.1 hreadings.2⟩

theorem maps_diagonal (t : Table) : diagonal.Maps t t.swap :=
  fun _ => and_comm

theorem maps_across (t : Table) : (across t.maxX.toInt).Maps t t := by
  intro p
  simp only [across, Table.mem_iff]
  omega

theorem fitsCell_diagonal (c : Cell) : diagonal.FitsCell c := by
  simp only [FitsCell, cell, diagonal, Cell.point, Int32.ofInt_toInt]

theorem fitsReading_diagonal (said : Reading) : diagonal.FitsReading said := by
  intro x y h _
  have hbounds (n : Int64) : n.toInt ∈ Interval.signed64 :=
    ⟨n.le_toInt, Int.le_of_lt_add_one n.toInt_lt⟩
  exact ⟨hbounds y, hbounds x⟩

end Reflection

namespace Robot

/-- The world is the same with its axes exchanged, for every robot and every course. In a mirror
across the table it is the same for a robot on the table, as long as the placements in the mirror
have 64-bit coordinates; the cells in the mirror then have 32-bit ones, and the targets 64-bit
ones. -/
theorem course_symmetric (t : Table) (r : Robot) (readings : List Reading) :
    let swap := Reflection.diagonal
    let mirror := Reflection.across t.maxX.toInt
    (swap.robot r).course t.swap (readings.map swap.reading) =
        (r.course t readings).map (Prod.map swap.robot swap.outcome) ∧
      (r.placed = true → r.pose.cell.point ∈ t →
        (∀ said ∈ readings, mirror.FitsReading said) →
        (mirror.robot r).course t (readings.map mirror.reading) =
            (r.course t readings).map (Prod.map mirror.robot mirror.outcome) ∧
          mirror.FitsCell r.pose.cell ∧
          ∀ next ∈ r.course t readings, mirror.FitsCell next.1.pose.cell ∧
            ∀ target, next.2 = .rejected target → mirror.FitsTarget target) := by
  intro swap mirror
  constructor
  · apply Reflection.course_reflected (Reflection.maps_diagonal t)
    · exact Reflection.fitsCell_diagonal r.pose.cell
    · intro said _
      exact Reflection.fitsReading_diagonal said
  · intro _ hmem hreadings
    have hmaps := Reflection.maps_across t
    have hcell := Reflection.fitsCell_of_mem hmaps hmem
    exact ⟨Reflection.course_reflected hmaps hcell hreadings, hcell,
      Reflection.fits_of_mem_course hmaps hcell hreadings⟩

theorem course_symmetric_of_walk :
    let t : Table := ⟨2, 5⟩
    let r : Robot := ⟨⟨⟨2, 1⟩, .east⟩, true⟩
    let readings : List Reading :=
      [.ok .move, .ok .left, .ok .move, .ok (.place 5 2 .west), .error .empty, .ok .report]
    let mirror := Reflection.across t.maxX.toInt
    let r' : Robot := ⟨⟨⟨0, 1⟩, .west⟩, true⟩
    r.placed = true ∧ r.pose.cell.point ∈ t ∧ (∀ said ∈ readings, mirror.FitsReading said) ∧
      r'.course t
          [.ok .move, .ok .right, .ok .move, .ok (.place (-3) 2 .east), .error .empty,
            .ok .report] =
        (r.course t readings).map (Prod.map mirror.robot mirror.outcome) := by
  intro t r readings mirror r'
  have hmem : r.pose.cell.point ∈ t := by decide
  have hreadings : ∀ said ∈ readings, mirror.FitsReading said := by
    intro said hsaid x y h hplace
    subst hplace
    simp only [readings, List.mem_cons, Except.ok.injEq, Command.place.injEq, reduceCtorEq,
      List.not_mem_nil, or_false, false_or] at hsaid
    obtain ⟨rfl, rfl, rfl⟩ := hsaid
    decide
  exact ⟨rfl, hmem, hreadings, ((course_symmetric t r readings).2 rfl hmem hreadings).1⟩

end Robot

end Tabletop
