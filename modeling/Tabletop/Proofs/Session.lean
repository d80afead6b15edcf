import Tabletop.Proofs.Feed
import Tabletop.Session.Console

/-!
Scripts and conversations as feeds.
-/

namespace Tabletop

namespace Session

theorem diagFirst_emissions (s : Session) (step : Step) : DiagFirst (s.emissions step) := by
  have hreport : DiagFirst (step.outcome.report?.toList.map fun pose => ⟨.out, pose.text⟩) := by
    apply DiagFirst.of_out
    intro e he
    obtain ⟨pose, -, rfl⟩ := List.mem_map.1 he
    rfl
  rw [emissions]
  split
  · rw [DiagFirst, List.singleton_append, List.pairwise_cons]
    exact ⟨fun e _ hdiag => (nomatch hdiag), hreport⟩
  · exact hreport

theorem printsDiagFirst_answer : PrintsDiagFirst Session.answer := by
  rintro n line ⟨s, summary⟩
  simp only [answer_eq]
  split
  · exact List.pairwise_singleton _ _
  · exact diagFirst_emissions _ _

theorem answer_stop (n : Nat) (line : String) (state : Session × Summary) :
    (answer n line state).stop = false := by
  obtain ⟨s, summary⟩ := state
  simp only [answer_eq]

theorem diagFirst_perform (s : Session) (m : MetaCommand) : DiagFirst (s.perform m).emissions := by
  cases m with
  | exit => exact List.Pairwise.nil
  | help => exact List.pairwise_singleton _ _
  | reset => exact List.pairwise_singleton _ _
  | state => exact List.pairwise_singleton _ _
  | unknown name => exact List.pairwise_singleton _ _

theorem printsDiagFirst_respond : PrintsDiagFirst fun _ => Session.respond := by
  intro n line s
  cases hm : MetaCommand.ofLine? line with
  | some m =>
    simp only [respond_of_meta hm]
    exact diagFirst_perform s m
  | none =>
    simp only [respond_of_command hm]
    exact diagFirst_emissions _ _

theorem run_eq_announce (s : Session) (source : Source) (ports : Ports) :
    s.run source ports =
      announce (if s.debug then debugHeader else []) answer source.lines (s, {}) ports :=
  rfl

theorem converse_eq_announce (s : Session) (source : Source) (ports : Ports) :
    s.converse source ports = announce [] (fun _ => Session.respond) source.lines s ports :=
  rfl

/-- Scripts and conversations flush nothing before they end; then they flush `out`, and `diag` after
it unless `out` fails. -/
theorem run_converse_flushes (s : Session) (source : Source) (ports : Ports) :
    (s.run source ports).flushes = ports.flushesAt (s.run source ports).failure? ∧
      (s.converse source ports).flushes =
        ports.flushesAt (s.converse source ports).failure? := by
  rw [run_eq_announce, converse_eq_announce]
  exact ⟨announce_flushes _ _ _ _, announce_flushes _ _ _ _⟩

theorem out_of_mem_header (s : Session) :
    ∀ e ∈ (if s.debug then debugHeader else []), e.channel = .out := by
  intro e he
  split at he
  · rcases List.mem_cons.1 he with rfl | he
    · rfl
    · rw [List.mem_singleton.1 he]
  · cases he

end Session

end Tabletop
