import Tabletop.Session

/-!
Lines taken one after the other, apart from all reading and printing.
-/

namespace Tabletop.Session

def steps (s : Session) : List String → List Step
  | [] => []
  | line :: rest => (s.step line).2 :: (s.step line).1.steps rest

/-- The session that lines leave. -/
def stepAll (s : Session) (lines : List String) : Session :=
  lines.foldl (fun s line => (s.step line).1) s

@[simp] theorem stepAll_nil (s : Session) : s.stepAll [] = s :=
  rfl

@[simp] theorem stepAll_cons (s : Session) (line : String) (rest : List String) :
    s.stepAll (line :: rest) = (s.step line).1.stepAll rest := by
  rw [stepAll, List.foldl_cons, stepAll]

@[simp] theorem length_steps (s : Session) (lines : List String) :
    (s.steps lines).length = lines.length := by
  induction lines generalizing s with
  | nil => rfl
  | cons line rest ih => rw [steps, List.length_cons, ih, List.length_cons]

@[simp] theorem stepAll_diagnostics (s : Session) (lines : List String) :
    (s.stepAll lines).diagnostics = s.diagnostics := by
  induction lines generalizing s with
  | nil => rfl
  | cons line rest ih => rw [stepAll_cons, ih, step_diagnostics]

@[simp] theorem stepAll_debug (s : Session) (lines : List String) :
    (s.stepAll lines).debug = s.debug := by
  induction lines generalizing s with
  | nil => rfl
  | cons line rest ih => rw [stepAll_cons, ih, step_debug]

theorem steps_append (s : Session) (lines rest : List String) :
    s.steps (lines ++ rest) = s.steps lines ++ (s.stepAll lines).steps rest := by
  induction lines generalizing s with
  | nil => rfl
  | cons line lines ih => rw [List.cons_append, steps, steps, stepAll_cons, List.cons_append, ih]

theorem stepAll_append (s : Session) (lines rest : List String) :
    s.stepAll (lines ++ rest) = (s.stepAll lines).stepAll rest := by
  rw [stepAll, List.foldl_append, stepAll, stepAll]

end Tabletop.Session
