import Tabletop.Table

namespace Tabletop

/-- Where a robot stands and which way it faces. -/
structure Pose where
  cell : Cell
  heading : Heading
  deriving DecidableEq

/-- The text `X,Y,F` of a pose, which is also what a report prints. -/
def Pose.text (p : Pose) : String :=
  toString p.cell.x.toInt ++ "," ++ toString p.cell.y.toInt ++ "," ++ p.heading.name

/-- A robot and whether it has been put on the table. The pose of a robot that is not on the table
carries no meaning, but commands without effect keep it. -/
structure Robot where
  pose : Pose
  placed : Bool
  deriving DecidableEq

namespace Robot

/-- The robot at the start of a session and after a reset. -/
def initial : Robot :=
  ⟨⟨⟨0, 0⟩, .north⟩, false⟩

/-- What the robot reports: its pose, once it is on the table. -/
def report? (r : Robot) : Option Pose :=
  if r.placed then some r.pose else none

def text (r : Robot) : String :=
  match r.report? with
  | some p => p.text
  | none => "unplaced"

end Robot

end Tabletop
