import Tabletop.Session.Console

/-!
Everything that can be done to a session, as data, so that a history is a list of operations.
-/

namespace Tabletop

inductive Operation where
  | step (line : String)
  | reset
  | configure (debug? diagnostics? : Option Bool)
  | emit (line : String) (ports : Ports)
  | handle (line : String) (ports : Ports)
  | run (source : Source) (ports : Ports)
  | converse (source : Source) (ports : Ports)

/-- What an operation shows to its caller, apart from the session it leaves. -/
inductive Answer where
  | silent
  | stepped (step : Step)
  | printed (ports : Ports) (failure? : Option Failure)
  | handled (ports : Ports) (failure? : Option Failure) (goesOn : Bool)
  | ran (ports : Ports) (failure? : Option Failure) (summary : Summary)

namespace Session

/-- Changes the settings that are given. -/
def configure (s : Session) (debug? diagnostics? : Option Bool) : Session :=
  { s with debug := debug?.getD s.debug, diagnostics := diagnostics?.getD s.diagnostics }

/-- Carries out an operation. -/
def carryOut (s : Session) : Operation → Session × Answer
  | .step line => ((s.step line).1, .stepped (s.step line).2)
  | .reset => (s.reset, .silent)
  | .configure debug? diagnostics? => (s.configure debug? diagnostics?, .silent)
  | .emit line ports =>
    let e := s.emit line ports
    (e.state, .printed e.ports e.failure?)
  | .handle line ports =>
    let (e, goesOn) := s.handle line ports
    (e.state, .handled e.ports e.failure? goesOn)
  | .run source ports =>
    let e := s.run source ports
    (e.state.1, .ran e.ports e.failure? e.state.2)
  | .converse source ports =>
    let e := s.converse source ports
    (e.state, .printed e.ports e.failure?)

/-- The session that a history of operations leaves. -/
def after (s : Session) (history : List Operation) : Session :=
  history.foldl (fun s op => (s.carryOut op).1) s

end Session

end Tabletop
