import Tabletop.Outcome

/-!
Readings taken one after the other: the robots they lead through and what becomes of each.
-/

namespace Tabletop

/-- The robot after each reading, with the outcome. -/
def Robot.course (t : Table) (r : Robot) : List Reading → List (Robot × Outcome)
  | [] => []
  | reading :: rest => r.heed t reading :: (r.heed t reading).1.course t rest

/-- The robot that readings leave. -/
def Robot.follow (t : Table) (r : Robot) (readings : List Reading) : Robot :=
  readings.foldl (fun r reading => (r.heed t reading).1) r

@[simp] theorem Robot.follow_nil (t : Table) (r : Robot) : r.follow t [] = r :=
  rfl

@[simp] theorem Robot.follow_cons (t : Table) (r : Robot) (reading : Reading)
    (rest : List Reading) :
    r.follow t (reading :: rest) = (r.heed t reading).1.follow t rest :=
  rfl

theorem Robot.follow_append (t : Table) (r : Robot) (readings rest : List Reading) :
    r.follow t (readings ++ rest) = (r.follow t readings).follow t rest := by
  rw [follow, List.foldl_append, follow, follow]

theorem Robot.course_append (t : Table) (r : Robot) (readings rest : List Reading) :
    r.course t (readings ++ rest) =
      r.course t readings ++ (r.follow t readings).course t rest := by
  induction readings generalizing r with
  | nil => rfl
  | cons reading readings ih =>
    rw [List.cons_append, course, course, follow_cons, List.cons_append, ih]

end Tabletop
