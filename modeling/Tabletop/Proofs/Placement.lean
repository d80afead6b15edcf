import Tabletop.Grid
import Tabletop.Proofs.Feed
import Tabletop.Session.Operation

/-!
A robot is either as it was at the start or stands on its table, whatever is done to its session.
-/

namespace Tabletop

variable {t : Table} {r : Robot} {s : Session}

/-- A robot that is not on the table has never moved, and one that is stands on a cell of it. -/
def Robot.Sound (t : Table) (r : Robot) : Prop :=
  r = .initial ∨ r.placed = true ∧ r.pose.cell.point ∈ t

theorem Robot.Sound.of_placed (h : r.Sound t) (hp : r.placed = true) : r.pose.cell.point ∈ t := by
  rcases h with rfl | h
  · cases hp
  · exact h.2

theorem Robot.Sound.goTo (h : r.Sound t) (cell? : Option Cell) (target : Target)
    (facing : Heading) : (r.goTo t cell? target facing).1.Sound t := by
  unfold Robot.goTo
  split
  · next cell hcell =>
    have hcontains := (Option.filter_eq_some_iff.1 hcell).2
    exact .inr ⟨rfl, Table.contains_iff.1 hcontains⟩
  · exact h

theorem Robot.Sound.face (h : r.Sound t) (hp : r.placed = true) (facing : Heading) :
    (r.face facing).Sound t :=
  .inr ⟨hp, h.of_placed hp⟩

theorem Robot.Sound.obey (h : r.Sound t) (c : Command) : (r.obey t c).1.Sound t := by
  cases c with
  | place x y facing => exact h.goTo _ _ _
  | move =>
    simp only [Robot.obey]
    split
    · exact h.goTo _ _ _
    · exact h
  | left =>
    simp only [Robot.obey]
    split
    · next hp => exact h.face hp _
    · exact h
  | right =>
    simp only [Robot.obey]
    split
    · next hp => exact h.face hp _
    · exact h
  | report =>
    simp only [Robot.obey]
    split <;> exact h

theorem Robot.Sound.heed (h : r.Sound t) (reading : Reading) : (r.heed t reading).1.Sound t := by
  cases reading with
  | ok c => exact h.obey c
  | error e => exact h

/-- A session on the given table, with a sound robot. -/
structure Session.SoundOn (t : Table) (s : Session) : Prop where
  table : s.table = t
  robot : s.robot.Sound t

namespace Session

theorem SoundOn.step (h : s.SoundOn t) (line : String) : (s.step line).1.SoundOn t := by
  obtain ⟨rfl, hr⟩ := h
  refine ⟨step_table s line, ?_⟩
  rw [step_robot]
  exact hr.heed (Command.read line)

theorem SoundOn.reset (h : s.SoundOn t) : s.reset.SoundOn t :=
  ⟨h.table, .inl rfl⟩

theorem SoundOn.perform (h : s.SoundOn t) (m : MetaCommand) : (s.perform m).state.SoundOn t := by
  cases m with
  | reset => exact h.reset
  | exit => exact h
  | help => exact h
  | state => exact h
  | unknown name => exact h

theorem SoundOn.respond (h : s.SoundOn t) (line : String) : (respond line s).state.SoundOn t := by
  cases hm : MetaCommand.ofLine? line with
  | some m =>
    simp only [respond_of_meta hm]
    exact h.perform m
  | none =>
    simp only [respond_of_command hm]
    exact h.step line

theorem SoundOn.run (h : s.SoundOn t) (source : Source) (ports : Ports) :
    (s.run source ports).state.1.SoundOn t := by
  unfold Session.run
  split
  · exact h
  · apply feed_state (P := fun state : Session × Summary => state.1.SoundOn t) _ h
    rintro n line ⟨s, summary⟩ hs
    simp only [answer_eq]
    exact hs.step line

theorem SoundOn.converse (h : s.SoundOn t) (source : Source) (ports : Ports) :
    (s.converse source ports).state.SoundOn t :=
  feed_state (P := SoundOn t) (fun _ line _ hs => hs.respond line) h

theorem SoundOn.carryOut (h : s.SoundOn t) (op : Operation) : (s.carryOut op).1.SoundOn t := by
  cases op with
  | step line =>
    simp only [Session.carryOut]
    exact h.step line
  | reset => exact h.reset
  | configure debug? diagnostics? => exact ⟨h.table, h.robot⟩
  | emit line ports =>
    simp only [Session.carryOut, emit_eq]
    exact h.step line
  | handle line ports =>
    simp only [Session.carryOut, handle_eq]
    exact h.respond line
  | run source ports => exact h.run source ports
  | converse source ports => exact h.converse source ports

theorem SoundOn.after (h : s.SoundOn t) (history : List Operation) : (s.after history).SoundOn t := by
  induction history generalizing s with
  | nil => exact h
  | cons op rest ih => exact ih (h.carryOut op)

/-- Whatever was done to a new session, with whatever failures, its table is the one it was made
with, and its robot is untouched or on that table. -/
theorem after_sound (t : Table) (diagnostics debug : Bool) (history : List Operation) :
    let s := ({ table := t, diagnostics, debug } : Session).after history
    s.table = t ∧
      (s.robot = .initial ∨ s.robot.placed = true ∧ s.robot.pose.cell.point ∈ t) := by
  have hnew : ({ table := t, diagnostics, debug } : Session).SoundOn t := ⟨rfl, .inl rfl⟩
  have h := hnew.after history
  exact ⟨h.table, h.robot⟩

end Session

end Tabletop
