import Tabletop.Proofs.Grammar
import Tabletop.Proofs.MetaLine
import Tabletop.Proofs.Rules
import Tabletop.Session.Operation

/-!
Where the robot is put on the table or taken off it, all that happened to it before is forgotten:
nothing that is done to the session afterwards can tell it from another one.
-/

namespace Tabletop

variable {t : Table} {line : String} {x y : Int64}

theorem not_isMeta_of_read {c : Command} (h : Command.read line = .ok c) : ¬ IsMeta line := by
  intro hmeta
  obtain ⟨name, htrim⟩ := isMeta_iff.1 hmeta
  obtain ⟨r, hline⟩ := Command.exists_append_of_read h
  have hfirst := congrArg (·.toList.head?) (htrim.symm.trans hline)
  cases c <;> simp [Command.keyword] at hfirst

/-- A line that places the robot on a point of the table. -/
def PlacesOn (t : Table) (line : String) : Prop :=
  ∃ (x y : Int64) (heading : Heading),
    Command.read line = .ok (.place x y heading) ∧ ⟨x.toInt, y.toInt⟩ ∈ t

/-- An operation that puts the robot on the table or takes it off, wherever it was before. -/
inductive Operation.Overwrites (t : Table) : Operation → Prop where
  | reset : Overwrites t .reset
  | step (line : String) (h : PlacesOn t line) : Overwrites t (.step line)
  | emit (line : String) (ports : Ports) (h : PlacesOn t line) : Overwrites t (.emit line ports)
  | handle (line : String) (ports : Ports) (h : PlacesOn t line) :
      Overwrites t (.handle line ports)

namespace Session

/-- What each operation of a history shows, and the session that it leaves. -/
def transcript (s : Session) : List Operation → List (Answer × Session)
  | [] => []
  | op :: rest => ((s.carryOut op).2, (s.carryOut op).1) :: (s.carryOut op).1.transcript rest

variable {op : Operation}

theorem step_of_placesOn (s : Session) (r : Robot) (h : PlacesOn s.table line) :
    s.step line = { s with robot := r }.step line := by
  obtain ⟨x, y, heading, hread, hmem⟩ := h
  obtain ⟨cell, hcell⟩ := Table.exists_cell hmem
  have hobey := Robot.obey_place_of_mem heading hcell (hcell ▸ hmem)
  simp only [step_eq, hread, Robot.heed, hobey]

theorem respond_of_placesOn (s : Session) (r : Robot) (h : PlacesOn s.table line) :
    respond line s = respond line { s with robot := r } := by
  have hstep := s.step_of_placesOn r h
  obtain ⟨x, y, heading, hread, -⟩ := h
  have hplain := not_isMeta_of_read hread
  rw [respond_of_not_isMeta hplain, respond_of_not_isMeta hplain, hstep]

/-- What an overwriting operation shows and leaves does not depend on the robot. -/
theorem carryOut_of_overwrites (s : Session) (r : Robot) (h : op.Overwrites s.table) :
    s.carryOut op = { s with robot := r }.carryOut op := by
  cases h with
  | reset => rfl
  | step line hline => simp only [carryOut, s.step_of_placesOn r hline]
  | emit line ports hline => simp only [carryOut, emit_eq, s.step_of_placesOn r hline]
  | handle line ports hline => simp only [carryOut, handle_eq, s.respond_of_placesOn r hline]

/-- Two sessions that differ only in the robot cannot be told apart by what is done to them once the
robot has been put on the table by a line, or taken off it; in the latter case they cannot be told
from a new session either. -/
theorem transcript_of_overwrites (t : Table) (diagnostics debug : Bool) (r r' : Robot)
    (hop : op.Overwrites t) (continuation : List Operation) :
    let s : Session := { table := t, robot := r, diagnostics, debug }
    let s' : Session := { table := t, robot := r', diagnostics, debug }
    let new : Session := { table := t, diagnostics, debug }
    (s.carryOut op).1 = (s'.carryOut op).1 ∧
      s.transcript (op :: continuation) = s'.transcript (op :: continuation) ∧
      s.reset = new ∧ s.reset.transcript continuation = new.transcript continuation := by
  intro s s' new
  have hsame : s.carryOut op = s'.carryOut op := s.carryOut_of_overwrites r' hop
  refine ⟨congrArg Prod.fst hsame, ?_, rfl, rfl⟩
  rw [transcript, transcript, hsame]

theorem transcript_of_overwrites_place :
    let s : Session := { table := .standard, robot := ⟨⟨⟨-7, 99⟩, .west⟩, false⟩ }
    let s' : Session := { table := .standard, robot := ⟨⟨⟨5, 0⟩, .south⟩, true⟩ }
    let place : Operation := .step " PLACE 1,+02,EAST now"
    let continuation : List Operation :=
      [.converse ⟨Bytes.ofText "MOVE\n:state\nREPORT\n", some .broke⟩
        ⟨⟨some 30, false, #[]⟩, ⟨none, true, #[]⟩⟩, .step "REPORT"]
    place.Overwrites .standard ∧ s.robot ≠ s'.robot ∧
      (s.carryOut place).1 = (s'.carryOut place).1 ∧
      s.transcript (place :: continuation) = s'.transcript (place :: continuation) := by
  intro s s' place continuation
  have hplace : place.Overwrites .standard :=
    .step _ ⟨1, 2, .east, rfl, by decide⟩
  obtain ⟨hstate, htranscript, -⟩ :=
    transcript_of_overwrites .standard true false s.robot s'.robot hplace continuation
  exact ⟨hplace, by decide, hstate, htranscript⟩

end Session

end Tabletop
