import Mathlib.Algebra.BigOperators.Group.Finset.Basic
import Tabletop.Proofs.Rules
import Tabletop.Session.Operation
import Tabletop.Session.Steps

/-!
Dead reckoning: where a robot stands and faces follows from its last placement and the turns and
moves after it, counted in exact integers.
-/

namespace Tabletop

/-- The heading after `n` quarter turns clockwise; negative numbers turn the other way. -/
def Heading.turn (h : Heading) (n : Int) : Heading :=
  right^[(n % 4).toNat] h

theorem Heading.turn_add_one (h : Heading) (n : Int) : h.turn (n + 1) = (h.turn n).right := by
  have hn : n % 4 = 0 ∨ n % 4 = 1 ∨ n % 4 = 2 ∨ n % 4 = 3 := by omega
  rw [turn, turn, Int.add_emod]
  rcases hn with hn | hn | hn | hn <;> rw [hn] <;> cases h <;> rfl

theorem Heading.turn_sub_one (h : Heading) (n : Int) : h.turn (n - 1) = (h.turn n).left := by
  have hback := h.turn_add_one (n - 1)
  rw [Int.sub_add_cancel] at hback
  rw [hback, left_right]

variable {t : Table} {r r' : Robot} {reading : Reading} {outcome : Outcome} {f : Heading}
variable {step : Step} {origin : Point} {done later : List Step}

def Step.isPlacement (step : Step) : Bool :=
  step.outcome.isAccepted && step.reading.keyword? = some "PLACE"

def Step.isMove (step : Step) : Bool :=
  step.outcome.isAccepted && step.reading = .ok .move

/-- The turns to the right that steps ask for, less those to the left. -/
def turns (steps : List Step) : Int :=
  steps.countP (·.reading = .ok .right) - steps.countP (·.reading = .ok .left)

/-- The sum of one coordinate of the unit steps of all moves made, each in the heading that `f` has
become by the turns before it. -/
def displacement (unit : Heading → Int) (f : Heading) (steps : List Step) : Int :=
  ∑ i ∈ Finset.range steps.length with steps[i]?.any Step.isMove,
    unit (f.turn (turns (steps.take i)))

theorem turns_append_singleton (steps : List Step) (step : Step) :
    turns (steps ++ [step]) =
      turns steps + (if step.reading = .ok .right then 1 else 0) -
        (if step.reading = .ok .left then 1 else 0) := by
  simp only [turns, List.countP_append, List.countP_singleton, decide_eq_true_eq]
  split <;> split <;> grind

theorem displacement_append_singleton (unit : Heading → Int) (f : Heading) (steps : List Step)
    (step : Step) :
    displacement unit f (steps ++ [step]) =
      displacement unit f steps + if step.isMove then unit (f.turn (turns steps)) else 0 := by
  simp only [displacement, Finset.sum_filter]
  rw [List.length_append, List.length_singleton, Finset.sum_range_succ]
  congr 1
  · -- What came before a step does not change when one is added at the end.
    apply Finset.sum_congr rfl
    intro i hi
    have hlt := Finset.mem_range.1 hi
    rw [List.getElem?_append_left hlt, List.take_append_of_le_length (Nat.le_of_lt hlt)]
  · simp

/-- The robot was placed at `origin` with heading `f`, and `later` is what happened since. -/
structure Reckoned (origin : Point) (f : Heading) (later : List Step) (r : Robot) : Prop where
  placed : r.placed = true
  heading : r.pose.heading = f.turn (turns later)
  point : r.pose.cell.point =
    ⟨origin.x + displacement Heading.dx f later, origin.y + displacement Heading.dy f later⟩

theorem Reckoned.still (h : Reckoned origin f later r) (hmove : step.isMove = false)
    (hright : step.reading ≠ .ok .right) (hleft : step.reading ≠ .ok .left) :
    Reckoned origin f (later ++ [step]) r := by
  obtain ⟨hplaced, hheading, hpoint⟩ := h
  have hturns : turns (later ++ [step]) = turns later := by
    rw [turns_append_singleton, if_neg hright, if_neg hleft, Int.add_zero, Int.sub_zero]
  constructor
  · exact hplaced
  · rw [hturns, hheading]
  · simp only [displacement_append_singleton, hmove, Bool.false_eq_true, if_false, Int.add_zero]
    exact hpoint

theorem Reckoned.of_placement {cell : Cell} (hcell : cell.point = origin) :
    Reckoned origin f [] ⟨⟨cell, f⟩, true⟩ := by
  constructor
  · rfl
  · rfl
  · rw [hcell]
    simp [displacement]

theorem Reckoned.moved {cell : Cell} (h : Reckoned origin f later r)
    (hcell : cell.point = r.pose.cell.point.ahead r.pose.heading) (hmove : step.isMove = true)
    (hreading : step.reading = .ok .move) :
    Reckoned origin f (later ++ [step]) ⟨⟨cell, r.pose.heading⟩, true⟩ := by
  obtain ⟨-, hheading, hpoint⟩ := h
  have hturns : turns (later ++ [step]) = turns later := by
    simp [turns_append_singleton, hreading]
  constructor
  · rfl
  · rw [hturns]
    exact hheading
  · simp only [displacement_append_singleton, hmove, if_true]
    rw [hcell, hpoint, ← hheading, Point.ahead, Int.add_assoc, Int.add_assoc]

theorem Reckoned.faced (h : Reckoned origin f later r) {heading : Heading}
    (hmove : step.isMove = false) (hheading : heading = f.turn (turns (later ++ [step]))) :
    Reckoned origin f (later ++ [step]) (r.face heading) := by
  obtain ⟨hplaced, -, hpoint⟩ := h
  constructor
  · exact hplaced
  · exact hheading
  · simp only [displacement_append_singleton, hmove, Bool.false_eq_true, if_false, Int.add_zero]
    exact hpoint

theorem Reckoned.obeys (h : Reckoned origin f later r)
    (hobeys : Robot.Obeys t r step.reading r' step.outcome) (hno : step.isPlacement = false) :
    Reckoned origin f (later ++ [step]) r' := by
  obtain ⟨reading, outcome, robot⟩ := step
  cases hobeys with
  | unreadable e => exact h.still rfl nofun nofun
  | notPlaced c hc hr => exact absurd (hr.symm.trans h.placed) Bool.false_ne_true
  | placed x y heading cell hcell hmem => cases hno
  | placedOff x y heading hmem => exact h.still rfl nofun nofun
  | moved cell hr hcell hmem => exact h.moved hcell rfl rfl
  | movedOff hr hmem => exact h.still rfl nofun nofun
  | left hr =>
    apply h.faced rfl
    rw [h.heading, ← Heading.turn_sub_one]
    simp [turns_append_singleton]
  | right hr =>
    apply h.faced rfl
    rw [h.heading, ← Heading.turn_add_one]
    simp [turns_append_singleton]
  | report hr => exact h.still rfl nofun nofun

theorem Reckoned.of_obeys {x y : Int64}
    (hobeys : Robot.Obeys t r (.ok (.place x y f)) r' outcome)
    (haccepted : outcome.isAccepted = true) : Reckoned ⟨x.toInt, y.toInt⟩ f [] r' := by
  cases hobeys with
  | placed _ _ _ cell hcell hmem => exact .of_placement hcell
  | notPlaced _ hc _ => exact (hc rfl).elim
  | placedOff => cases haccepted

theorem Robot.Obeys.eq_self_of_no_placement (h : Obeys t r step.reading r' step.outcome)
    (hr : r.placed = false) (hno : step.isPlacement = false) : r' = r := by
  obtain ⟨reading, outcome, robot⟩ := step
  cases h with
  | placed => cases hno
  | moved cell hr' => exact absurd (hr.symm.trans hr') Bool.false_ne_true
  | left hr' => exact absurd (hr.symm.trans hr') Bool.false_ne_true
  | right hr' => exact absurd (hr.symm.trans hr') Bool.false_ne_true
  | _ => rfl

namespace Session

variable {s : Session} {lines : List String} {place : Step} {earlier : List Step}

theorem reckoned_stepAll (h : Reckoned origin f done s.robot)
    (hno : ∀ step ∈ s.steps lines, step.isPlacement = false) :
    Reckoned origin f (done ++ s.steps lines) (s.stepAll lines).robot := by
  -- `done` takes in each step as it is made, so the invariant is about all steps so far.
  induction lines generalizing s done with
  | nil =>
    rw [steps, List.append_nil]
    exact h
  | cons line rest ih =>
    rw [steps, List.forall_mem_cons] at hno
    have hnext := h.obeys (s.step_obeys line) hno.1
    rw [steps, stepAll_cons, List.append_cons]
    exact ih hnext hno.2

theorem not_ignored_of_placed (hr : s.robot.placed = true) :
    ∀ step ∈ s.steps lines, ∀ c, step.reading = .ok c → ∀ cause, step.outcome ≠ .ignored cause := by
  induction lines generalizing s with
  | nil =>
    intro step hstep
    cases hstep
  | cons line rest ih =>
    have hobeys := s.step_obeys line
    rw [steps, List.forall_mem_cons]
    refine ⟨?_, ih (hobeys.placed_of_placed hr)⟩
    intro c hc
    rw [hc] at hobeys
    exact hobeys.not_ignored hr

/-- Until a first placement nothing changes, and every command that is no placement is ignored. -/
theorem stepAll_eq_self_of_no_placement (hr : s.robot.placed = false)
    (hno : ∀ step ∈ s.steps lines, step.isPlacement = false) :
    s.stepAll lines = s ∧
      ∀ step ∈ s.steps lines, ∀ c, step.reading = .ok c → c.keyword ≠ "PLACE" →
        step.outcome = .ignored .notPlaced := by
  induction lines with
  | nil =>
    refine ⟨rfl, ?_⟩
    intro step hstep
    cases hstep
  | cons line rest ih =>
    rw [steps, List.forall_mem_cons] at hno
    have hobeys := s.step_obeys line
    have hself := step_eq_self_of_robot (hobeys.eq_self_of_no_placement hr hno.1)
    rw [steps, stepAll_cons, List.forall_mem_cons]
    rw [hself] at hno ⊢
    obtain ⟨hall, hignored⟩ := ih hno.2
    refine ⟨hall, ?_, hignored⟩
    intro c hc hkeyword
    rw [hc] at hobeys
    exact hobeys.ignored_of_not_placed hr hkeyword

/-- The lines behind a part of the steps. -/
theorem exists_lines_of_steps_eq (h : s.steps lines = earlier ++ place :: later) :
    ∃ before line after, lines = before ++ line :: after ∧
      place = ((s.stepAll before).step line).2 ∧
      later = ((s.stepAll before).step line).1.steps after := by
  induction earlier generalizing s lines with
  | nil =>
    cases lines with
    | nil => cases h
    | cons line rest =>
      rw [steps, List.nil_append, List.cons.injEq] at h
      exact ⟨[], line, rest, rfl, h.1.symm, h.2.symm⟩
  | cons step earlier ih =>
    cases lines with
    | nil => cases h
    | cons line rest =>
      rw [steps, List.cons_append, List.cons.injEq] at h
      obtain ⟨before, line', after, rfl, hplace, hlater⟩ := ih h.2
      refine ⟨line :: before, line', after, rfl, ?_, ?_⟩
      · rw [stepAll_cons]
        exact hplace
      · rw [stepAll_cons]
        exact hlater

theorem after_append_steps (s : Session) (before : List Operation) (lines : List String) :
    s.after (before ++ lines.map .step) = (s.after before).stepAll lines := by
  simp only [after, List.foldl_append, List.foldl_map, carryOut, stepAll]

theorem after_reset_robot (s : Session) (earlier : List Operation) :
    (s.after (earlier ++ [.reset])).robot = .initial := by
  simp only [after, List.foldl_append, List.foldl_cons, List.foldl_nil, carryOut, reset]

/-- Since the last accepted placement no command is ignored, and the robot is where the placement,
the turns and the moves have brought it. -/
theorem reckoned_since_placement {x y : Int64} (hsteps : s.steps lines = earlier ++ place :: later)
    (hreading : place.reading = .ok (.place x y f)) (haccepted : place.outcome.isAccepted = true)
    (hlast : ∀ step ∈ later, step.isPlacement = false) :
    (∀ step ∈ later, ∀ c, step.reading = .ok c → ∀ cause, step.outcome ≠ .ignored cause) ∧
      Reckoned ⟨x.toInt, y.toInt⟩ f later (s.stepAll lines).robot := by
  obtain ⟨before, line, after, rfl, hplace, hlater⟩ := exists_lines_of_steps_eq hsteps
  subst hplace hlater
  have hobeys := (s.stepAll before).step_obeys line
  rw [hreading] at hobeys
  have hstart := Reckoned.of_obeys hobeys haccepted
  rw [stepAll_append, stepAll_cons]
  exact ⟨not_ignored_of_placed hstart.placed, reckoned_stepAll hstart hlast⟩

/-- Since the last reset: without an accepted placement the robot is as at first and every command
but PLACE is ignored; after the last one no command is ignored, and the robot stands and faces
where dead reckoning says. -/
theorem dead_reckoning (t : Table) (diagnostics debug : Bool) (before : List Operation)
    (hbefore : before = [] ∨ ∃ earlier, before = earlier ++ [.reset]) (lines : List String) :
    let new : Session := { table := t, diagnostics, debug }
    let steps := (new.after before).steps lines
    let r := (new.after (before ++ lines.map .step)).robot
    ((∀ step ∈ steps, step.isPlacement = false) →
        r = .initial ∧ ∀ step ∈ steps, ∀ c, step.reading = .ok c → c.keyword ≠ "PLACE" →
          step.outcome = .ignored .notPlaced) ∧
      ∀ earlier place later x y f, steps = earlier ++ place :: later →
        place.reading = .ok (.place x y f) → place.outcome.isAccepted = true →
        (∀ step ∈ later, step.isPlacement = false) →
        (∀ step ∈ later, ∀ c, step.reading = .ok c → ∀ cause, step.outcome ≠ .ignored cause) ∧
          r.placed = true ∧ r.pose.heading = f.turn (turns later) ∧
          r.pose.cell.point = ⟨x.toInt + displacement Heading.dx f later,
            y.toInt + displacement Heading.dy f later⟩ := by
  intro new steps r
  have hstart : (new.after before).robot = .initial := by
    rcases hbefore with rfl | ⟨earlier, rfl⟩
    · rfl
    · exact after_reset_robot new earlier
  have hr : r = ((new.after before).stepAll lines).robot := by rw [← after_append_steps]
  rw [hr]
  constructor
  · intro hno
    have hunplaced : (new.after before).robot.placed = false := by rw [hstart]; rfl
    obtain ⟨hself, hignored⟩ := stepAll_eq_self_of_no_placement hunplaced hno
    rw [hself]
    exact ⟨hstart, hignored⟩
  · intro earlier place later x y f hsteps hreading haccepted hlast
    obtain ⟨hheeded, hreckoned⟩ := reckoned_since_placement hsteps hreading haccepted hlast
    exact ⟨hheeded, hreckoned.placed, hreckoned.heading, hreckoned.point⟩

theorem dead_reckoning_of_walk :
    let new : Session := { table := .standard }
    let before := [.step "PLACE 2,2,EAST", .reset]
    let s := new.after before
    let unplaced := ["MOVE", "PLACE 9,9,NORTH", "REPORT"]
    let place := s.step "PLACE 2,3,NORTH"
    let lines := ["MOVE", "LEFT", "nonsense", "PLACE 2,9,EAST", "RIGHT", "RIGHT", "MOVE"]
    let later := place.1.steps lines
    let r := (new.after (before ++ ("PLACE 2,3,NORTH" :: lines).map .step)).robot
    ((∀ step ∈ s.steps unplaced, step.isPlacement = false) ∧
        (new.after (before ++ unplaced.map .step)).robot = .initial) ∧
      (place.2.reading = .ok (.place 2 3 .north) ∧ place.2.outcome.isAccepted = true ∧
        ∀ step ∈ later, step.isPlacement = false) ∧
      r.placed = true ∧ r.pose.heading = Heading.north.turn (turns later) ∧
        r.pose.cell.point = ⟨2 + displacement Heading.dx .north later,
          3 + displacement Heading.dy .north later⟩ ∧
        r.pose.text = "3,4,EAST" := by
  obtain ⟨hinitial, -⟩ := dead_reckoning .standard true false
    [.step "PLACE 2,2,EAST", .reset] (.inr ⟨[.step "PLACE 2,2,EAST"], rfl⟩)
    ["MOVE", "PLACE 9,9,NORTH", "REPORT"]
  obtain ⟨-, hsince⟩ := dead_reckoning .standard true false
    [.step "PLACE 2,2,EAST", .reset] (.inr ⟨[.step "PLACE 2,2,EAST"], rfl⟩)
    ["PLACE 2,3,NORTH", "MOVE", "LEFT", "nonsense", "PLACE 2,9,EAST", "RIGHT", "RIGHT", "MOVE"]
  obtain ⟨-, hplaced, hheading, hpoint⟩ :=
    hsince [] _ _ 2 3 .north (by rw [steps, List.nil_append]) (by decide) (by decide) (by decide)
  exact ⟨⟨by decide, (hinitial (by decide)).1⟩, ⟨by decide, by decide, by decide⟩, hplaced,
    hheading, hpoint, by decide⟩

end Session

end Tabletop
