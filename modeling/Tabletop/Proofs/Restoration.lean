import Tabletop.Proofs.Placement
import Tabletop.Proofs.Rules
import Tabletop.Proofs.Script
import Tabletop.Proofs.Spelling

/-!
What a robot reports is the argument of the placement that puts a robot there.
-/

namespace Tabletop

variable {t : Table} {s : Session} {r r' : Robot} {p q : Pose}

/-- The command that puts a robot in a pose. -/
def Pose.placement (p : Pose) : Command :=
  .place p.cell.x.toInt64 p.cell.y.toInt64 p.heading

theorem Pose.text_placement (p : Pose) : p.placement.text = "PLACE " ++ p.text := by
  simp only [placement, Command.text, Pose.text, Int32.toInt_toInt64, String.append_assoc]

theorem Pose.read_text (p : Pose) : Command.read ("PLACE " ++ p.text) = .ok p.placement := by
  rw [← text_placement]
  exact Command.read_text _

theorem Pose.eq_of_placement_eq (h : p.placement = q.placement) : p = q := by
  obtain ⟨⟨x, y⟩, heading⟩ := p
  obtain ⟨⟨x', y'⟩, heading'⟩ := q
  simp only [placement, Command.place.injEq, ← Int64.toInt_inj, Int32.toInt_toInt64,
    Int32.toInt_inj] at h
  obtain ⟨rfl, rfl, rfl⟩ := h
  rfl

theorem Pose.eq_of_text_eq (h : p.text = q.text) : p = q := by
  have hread := p.read_text
  rw [h, q.read_text, Except.ok.injEq] at hread
  exact (Pose.eq_of_placement_eq hread).symm

theorem Robot.text_of_placed (hr : r.placed = true) : r.text = r.pose.text := by
  simp only [text, report?, hr, if_true]

theorem Robot.eq_of_text_eq (hr : r.placed = true) (hr' : r'.placed = true)
    (h : r.text = r'.text) : r = r' := by
  rw [text_of_placed hr, text_of_placed hr'] at h
  have hpose := Pose.eq_of_text_eq h
  obtain ⟨p, placed⟩ := r
  obtain ⟨p', placed'⟩ := r'
  cases hr
  cases hr'
  cases hpose
  rfl

theorem Robot.obey_placement (hp : p.cell.point ∈ t) :
    r.obey t p.placement = (⟨p, true⟩, .accepted none) := by
  have htarget : p.cell.point = ⟨p.cell.x.toInt64.toInt, p.cell.y.toInt64.toInt⟩ := by
    simp only [Int32.toInt_toInt64, Cell.point]
  exact obey_place_of_mem p.heading htarget hp r

namespace Session

theorem step_placement (hp : p.cell.point ∈ s.table) :
    s.step ("PLACE " ++ p.text) =
      ({ s with robot := ⟨p, true⟩ }, ⟨.ok p.placement, .accepted none, ⟨p, true⟩⟩) := by
  rw [step_eq, p.read_text, Robot.heed, Robot.obey_placement hp]

theorem step_report (hr : s.robot.placed = true) :
    s.step "REPORT" = (s, ⟨.ok .report, .accepted (some s.robot.pose), s.robot⟩) := by
  have hread : Command.read "REPORT" = .ok .report :=
    (Command.read_eq_bare_iff (by decide)).2 (.inl (by decide))
  rw [step_eq, hread, Robot.heed, Robot.obey, if_pos hr]

theorem out_bytes_emit (s : Session) (line : String) :
    (s.emit line {}).ports.out.bytes = (s.step line).2.reported := by
  have hu : Ports.Reliable {} := .refl _
  have hprint := (hu.printAll (diagFirst_emissions (s.step line).1 (s.step line).2)).2.1
  rw [emit_eq, hprint, bytesOn_out_emissions]
  exact List.nil_append _

theorem out_bytes_emit_report (hr : s.robot.placed = true) :
    (s.emit "REPORT" {}).ports.out.bytes = Bytes.ofText (s.robot.text ++ "\n") := by
  rw [out_bytes_emit, step_report hr, Robot.text_of_placed hr]
  exact List.append_nil _

/-- The line that places a robot where a reachable robot reports to be is accepted in every state of
a session on the same table, and brings about exactly the state of that robot; different states of
placed robots have different texts. -/
theorem report_restores (t : Table) (diagnostics debug : Bool) (history : List Operation) :
    let s := ({ table := t, diagnostics, debug } : Session).after history
    (s.robot.placed = true →
        (s.emit "REPORT" {}).ports.out.bytes = Bytes.ofText (s.robot.text ++ "\n") ∧
          ∀ s' : Session, s'.table = t →
            (s'.step ("PLACE " ++ s.robot.text)).1 = { s' with robot := s.robot } ∧
              (s'.step ("PLACE " ++ s.robot.text)).2.outcome.isAccepted = true) ∧
      ∀ r r' : Robot, r.placed = true → r'.placed = true → r.text = r'.text → r = r' := by
  intro s
  refine ⟨?_, fun r r' => Robot.eq_of_text_eq⟩
  intro hr
  refine ⟨out_bytes_emit_report hr, ?_⟩
  intro s' ht
  -- A reachable robot stands on the table, so the placement is not rejected.
  have hnew : ({ table := t, diagnostics, debug } : Session).SoundOn t := ⟨rfl, .inl rfl⟩
  have hmem : s.robot.pose.cell.point ∈ s'.table := by
    rw [ht]
    exact (hnew.after history).robot.of_placed hr
  have hrobot : (⟨s.robot.pose, true⟩ : Robot) = s.robot := by rw [← hr]
  rw [Robot.text_of_placed hr, step_placement hmem, hrobot]
  exact ⟨rfl, rfl⟩

theorem report_restores_after_walk :
    let s := ({ table := .standard } : Session).after [.step "PLACE 3,4,WEST", .step " MOVE\r"]
    let s' : Session := { table := .standard, robot := ⟨⟨⟨-1, 99⟩, .south⟩, true⟩ }
    let r : Robot := ⟨⟨⟨2, 4⟩, .west⟩, true⟩
    (s.robot.placed = true ∧ s'.table = .standard ∧
        (s'.step ("PLACE " ++ s.robot.text)).1 = { s' with robot := s.robot } ∧
        (s'.step ("PLACE " ++ s.robot.text)).2.outcome.isAccepted = true) ∧
      s.robot.text = r.text ∧ s.robot = r := by
  obtain ⟨hrestores, hinjective⟩ :=
    report_restores .standard true false [.step "PLACE 3,4,WEST", .step " MOVE\r"]
  exact ⟨⟨by decide, rfl, (hrestores (by decide)).2 _ rfl⟩, by decide,
    hinjective _ _ (by decide) rfl (by decide)⟩

end Session

end Tabletop
