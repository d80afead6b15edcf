import Tabletop.Proofs.MetaLine
import Tabletop.Proofs.Session

/-!
Scripts and conversations do the same to lines that are commands: they step each line and print
about it.
-/

namespace Tabletop

variable {σ τ : Type}
variable {respond : Nat → String → σ → Reply σ} {respond' : Nat → String → τ → Reply τ}
variable {f : σ → τ} {lines : List (Except ReadFault String)} {p : Ports}

def Reply.map (f : σ → τ) (r : Reply σ) : Reply τ :=
  { state := f r.state, emissions := r.emissions, stop := r.stop }

def Ending.map (f : σ → τ) (e : Ending σ) : Ending τ :=
  { e with state := f e.state }

/-- Two ways to answer lines that correspond on each line, while `P` holds of the lines to come and
the state they come to, end in the same way. -/
theorem feed_map_along {P : List (Except ReadFault String) → σ → Prop}
    (hrespond : ∀ n text rest state, P (.ok text :: rest) state →
      respond' n text (f state) = (respond n text state).map f ∧
        P rest (respond n text state).state)
    (n : Nat) (state : σ) (h : P lines state) :
    feed respond' n lines (f state) p = (feed respond n lines state p).map f := by
  induction lines generalizing n state p with
  | nil => rfl
  | cons line rest ih =>
    cases line with
    | error fault => rfl
    | ok text =>
      obtain ⟨hhead, hrest⟩ := hrespond n text rest state h
      have hprinted : (p.printAll (respond' n text (f state)).emissions) =
          p.printAll (respond n text state).emissions := by
        rw [hhead]
        rfl
      cases hprint : (p.printAll (respond n text state).emissions).2 with
      | some fault =>
        rw [feed_ok_of_fault hprint, feed_ok_of_fault (hprinted ▸ hprint), hprinted, hhead]
        rfl
      | none =>
        rw [feed_ok_of_none hprint, feed_ok_of_none (hprinted ▸ hprint), hprinted, hhead]
        by_cases hstop : (respond n text state).stop = true
        · rw [if_pos hstop]
          exact if_pos hstop
        · rw [if_neg hstop]
          exact (if_neg hstop).trans (ih (n + 1) _ hrest)

theorem feed_map {P : σ → Prop}
    (hkeep : ∀ n text state, P state → P (respond n text state).state)
    (hrespond : ∀ n text state, .ok text ∈ lines → P state →
      respond' n text (f state) = (respond n text state).map f)
    (n : Nat) (state : σ) (h : P state) :
    feed respond' n lines (f state) p = (feed respond n lines state p).map f := by
  apply feed_map_along (P := fun rest state => (∀ line ∈ rest, line ∈ lines) ∧ P state)
  · rintro n text rest state ⟨hrest, hstate⟩
    rw [List.forall_mem_cons] at hrest
    exact ⟨hrespond n text state hrest.1 hstate, hrest.2, hkeep n text state hstate⟩
  · exact ⟨fun _ hline => hline, h⟩

namespace Session

variable {s : Session} {source : Source}

/-- Takes the next line of a script, with its number, unless something failed before it. -/
def replayLine (e : Ending Session) : Except ReadFault String × Nat → Ending Session
  | (line, n) =>
    match e.failure?, line with
    | some _, _ => e
    | none, .error fault => { e with failure? := some (.read n fault) }
    | none, .ok text => e.state.emit text e.ports

/-- Flushes the sinks, unless something failed before. -/
def finish (e : Ending Session) : Ending Session :=
  match e.failure? with
  | none => .flushed e.state e.ports
  | some _ => e

/-- Steps the lines of a source in order, printing about each before the next, up to the first
failure. -/
def replay (s : Session) (source : Source) (ports : Ports) : Ending Session :=
  finish ((source.lines.zipIdx 1).foldl replayLine { state := s, ports, failure? := none })

theorem foldl_replayLine_of_failure {e : Ending Session} {failure : Failure}
    (h : e.failure? = some failure) (numbered : List (Except ReadFault String × Nat)) :
    numbered.foldl replayLine e = e := by
  induction numbered with
  | nil => rfl
  | cons line rest ih =>
    have hline : replayLine e line = e := by
      simp only [replayLine, h]
    rw [List.foldl_cons, hline, ih]

theorem replay_lines_eq_feed (hdebug : s.debug = false) (summary : Summary) (n : Nat) :
    finish ((lines.zipIdx n).foldl replayLine { state := s, ports := p, failure? := none }) =
      (feed answer n lines (s, summary) p).map Prod.fst := by
  induction lines generalizing n s summary p with
  | nil => rfl
  | cons line rest ih =>
    rw [List.zipIdx_cons, List.foldl_cons]
    cases line with
    | error fault =>
      simp only [replayLine]
      rw [foldl_replayLine_of_failure rfl]
      rfl
    | ok text =>
      have hanswer : (answer n text (s, summary)).emissions =
          (s.step text).1.emissions (s.step text).2 := by
        simp only [answer_eq, hdebug, Bool.false_eq_true, if_false]
      simp only [replayLine, emit_eq]
      rw [← hanswer]
      cases hprint : (p.printAll (answer n text (s, summary)).emissions).2 with
      | some fault =>
        rw [feed_ok_of_fault hprint, foldl_replayLine_of_failure rfl]
        simp only [answer_eq, finish, Ending.map, Ending.failed, Option.map_some]
      | none =>
        have hdebug' : (s.step text).1.debug = false := (step_debug s text).trans hdebug
        have hnext : (answer n text (s, summary)).state =
            ((s.step text).1, summary.record (s.step text).2.outcome) := by
          simp only [answer_eq]
        have hstop : ¬ (answer n text (s, summary)).stop = true := by
          rw [answer_stop]
          exact Bool.false_ne_true
        rw [feed_ok_of_none hprint, if_neg hstop, hnext]
        exact ih hdebug' _ (n + 1)

theorem run_eq_feed (hdebug : s.debug = false) (source : Source) (ports : Ports) :
    s.run source ports = feed answer 1 source.lines (s, {}) ports := by
  rw [run, hdebug]
  rfl

theorem run_eq_replay (hdebug : s.debug = false) (source : Source) (ports : Ports) :
    (s.run source ports).map Prod.fst = s.replay source ports := by
  rw [run_eq_feed hdebug, replay, replay_lines_eq_feed hdebug]

theorem respond_eq_answer (hdebug : s.debug = false) {text : String}
    (hplain : (Text.trim text).toList.head? ≠ some ':') (n : Nat) (summary : Summary) :
    Session.respond text s = (answer n text (s, summary)).map Prod.fst := by
  rw [respond_of_not_isMeta hplain]
  simp only [answer_eq, hdebug, Bool.false_eq_true, if_false, Reply.map]

theorem converse_eq_run (hdebug : s.debug = false)
    (hplain : ∀ text, .ok text ∈ source.lines → (Text.trim text).toList.head? ≠ some ':')
    (ports : Ports) : s.converse source ports = (s.run source ports).map Prod.fst := by
  rw [run_eq_feed hdebug]
  change feed (fun _ => Session.respond) 1 source.lines (Prod.fst (s, ({} : Summary))) ports = _
  refine feed_map (P := fun state : Session × Summary => state.1.debug = false) ?_ ?_ 1 (s, {}) hdebug
  · rintro n text ⟨s, summary⟩ hs
    simp only [answer_eq]
    exact (step_debug s text).trans hs
  · rintro n text ⟨s, summary⟩ hmem hs
    exact respond_eq_answer hs (hplain text hmem) n summary

/-- Without debugging and without meta commands, running a script, holding a conversation and
replaying the lines one by one leave the same session, print the same, fail alike and flush the
same channels. -/
theorem run_converse_replay_agree (hdebug : s.debug = false)
    (hplain : ∀ text, .ok text ∈ source.lines → (Text.trim text).toList.head? ≠ some ':')
    (ports : Ports) :
    ((s.run source ports).state.1 = (s.converse source ports).state ∧
        (s.run source ports).ports = (s.converse source ports).ports ∧
        (s.run source ports).failure? = (s.converse source ports).failure? ∧
        (s.run source ports).flushes = (s.converse source ports).flushes) ∧
      s.converse source ports = s.replay source ports := by
  have hconverse := converse_eq_run hdebug hplain ports
  refine ⟨?_, hconverse.trans (run_eq_replay hdebug source ports)⟩
  rw [hconverse]
  exact ⟨rfl, rfl, rfl, rfl⟩

theorem run_converse_replay_agree_cut_short :
    let s : Session := { table := .standard }
    let source : Source :=
      ⟨Bytes.ofText "PLACE 1,2,EAST\nREPORT\r\n" ++ [0xFF, 0x0A] ++ Bytes.ofText "MOVE", some .broke⟩
    let ports : Ports := ⟨⟨some 4, false, #[]⟩, ⟨none, true, #[]⟩⟩
    ((s.run source ports).state.1 = (s.converse source ports).state ∧
        (s.run source ports).ports = (s.converse source ports).ports ∧
        (s.run source ports).failure? = (s.converse source ports).failure? ∧
        (s.run source ports).flushes = (s.converse source ports).flushes) ∧
      s.converse source ports = s.replay source ports := by
  intro s source ports
  have hlines : source.lines =
      [.ok "PLACE 1,2,EAST", .ok "REPORT", .error .notUtf8, .error .broke] := rfl
  apply run_converse_replay_agree
  · rfl
  · intro text htext
    rw [hlines] at htext
    simp only [List.mem_cons, Except.ok.injEq, reduceCtorEq, List.not_mem_nil, or_false] at htext
    rcases htext with rfl | rfl <;> decide

end Session

end Tabletop
