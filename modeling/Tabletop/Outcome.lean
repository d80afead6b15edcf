import Tabletop.Command
import Tabletop.Robot

/-!
What a command does to a robot on a table. A command is accepted, ignored or rejected; only an
accepted one changes the robot, and a robot on the table stays on it.
-/

namespace Tabletop

/-- Why a line was passed over. -/
inductive IgnoreCause where
  | unreadable (error : ParseError)
  | notPlaced
  deriving DecidableEq

/-- What became of a line. A rejected command carries the target off the table it aimed at. -/
inductive Outcome where
  | accepted (report : Option Pose)
  | ignored (cause : IgnoreCause)
  | rejected (target : Target)
  deriving DecidableEq

def IgnoreCause.message : IgnoreCause → String
  | unreadable e => e.message
  | notPlaced => "still expecting first PLACE"

namespace Outcome

def isAccepted : Outcome → Bool
  | accepted _ => true
  | _ => false

def report? : Outcome → Option Pose
  | accepted report => report
  | _ => none

/-- Why the line had no effect. -/
def reason? : Outcome → Option String
  | accepted _ => none
  | ignored cause => some cause.message
  | rejected p =>
    some ("(" ++ toString p.x.toInt ++ "," ++ toString p.y.toInt ++ ") is off the table")

end Outcome

namespace Robot

/-- Puts the robot on a cell of the table. Where there is no such cell, the command that aimed there
is refused. -/
def goTo (t : Table) (r : Robot) (cell? : Option Cell) (target : Target) (h : Heading) :
    Robot × Outcome :=
  match cell?.filter t.contains with
  | some cell => (⟨⟨cell, h⟩, true⟩, .accepted none)
  | none => (r, .rejected target)

/-- Turns the robot on the spot. -/
def face (r : Robot) (h : Heading) : Robot :=
  ⟨⟨r.pose.cell, h⟩, r.placed⟩

/-- Applies a command. Until the first accepted placement every other command is ignored. -/
def obey (t : Table) (r : Robot) : Command → Robot × Outcome
  | .place x y h => r.goTo t (Target.cell? ⟨x, y⟩) ⟨x, y⟩ h
  | .move =>
    if r.placed then
      r.goTo t (r.pose.cell.ahead? r.pose.heading) (r.pose.cell.aim r.pose.heading) r.pose.heading
    else (r, .ignored .notPlaced)
  | .left =>
    if r.placed then (r.face r.pose.heading.left, .accepted none) else (r, .ignored .notPlaced)
  | .right =>
    if r.placed then (r.face r.pose.heading.right, .accepted none) else (r, .ignored .notPlaced)
  | .report => if r.placed then (r, .accepted (some r.pose)) else (r, .ignored .notPlaced)

/-- Applies what a line says; an unreadable line is ignored. -/
def heed (t : Table) (r : Robot) : Reading → Robot × Outcome
  | .ok c => r.obey t c
  | .error e => (r, .ignored (.unreadable e))

end Robot

end Tabletop
