import Tabletop.Proofs.Exactness
import Tabletop.Proofs.Script

/-!
Wider tables. A robot can tell one table from a wider one only by a placement or a move that the
first rejects, so lines that are never rejected do the same on both.
-/

namespace Tabletop

variable {t t' : Table} {reading : Reading}

theorem Table.mem_of_le (hx : t.maxX ≤ t'.maxX) (hy : t.maxY ≤ t'.maxY) {p : Point} (h : p ∈ t) :
    p ∈ t' := by
  rw [Int32.le_iff_toInt_le] at hx hy
  rw [Table.mem_iff] at h ⊢
  omega

theorem Outcome.isAccepted_of_isRejected {outcome : Outcome} (h : outcome.isRejected = true) :
    outcome.isAccepted = false := by
  cases outcome with
  | accepted report => cases h
  | ignored cause => rfl
  | rejected target => rfl

/-- The second result is the first, or the first is a rejection that the second does not share. -/
def SameOrFreed (result result' : Robot × Outcome) : Prop :=
  result' = result ∨ result.2.isRejected = true ∧ result'.2.isAccepted = true

namespace Robot

theorem goTo_wider (hsub : ∀ p ∈ t, p ∈ t') (r : Robot) {cell? : Option Cell} {target : Target}
    (hcell? : IsCellAt target.point cell?) (heading : Heading) :
    SameOrFreed (r.goTo t cell? target heading) (r.goTo t' cell? target heading) := by
  by_cases hmem' : target.point ∈ t'
  · obtain ⟨cell, hcell⟩ := Table.exists_cell hmem'
    rw [goTo_of_mem (t := t') hcell? hcell hmem']
    by_cases hmem : target.point ∈ t
    · rw [goTo_of_mem hcell? hcell hmem]
      exact .inl rfl
    · rw [goTo_of_not_mem hcell? hmem]
      exact .inr ⟨rfl, rfl⟩
  · rw [goTo_of_not_mem hcell? hmem', goTo_of_not_mem hcell? (mt (hsub _) hmem')]
    exact .inl rfl

theorem obey_wider (hsub : ∀ p ∈ t, p ∈ t') (r : Robot) (c : Command) :
    SameOrFreed (r.obey t c) (r.obey t' c) := by
  cases c with
  | place x y heading => exact goTo_wider hsub r (Target.isCellAt_cell? _) heading
  | move =>
    rw [obey, obey]
    split
    · exact goTo_wider hsub r (Cell.isCellAt_ahead? _ _) _
    · exact .inl rfl
  | left => exact .inl rfl
  | right => exact .inl rfl
  | report => exact .inl rfl

theorem heed_wider (hsub : ∀ p ∈ t, p ∈ t') (r : Robot) (reading : Reading) :
    SameOrFreed (r.heed t reading) (r.heed t' reading) := by
  cases reading with
  | ok c => exact obey_wider hsub r c
  | error e => exact .inl rfl

theorem Obeys.keyword?_of_isRejected {r r' : Robot} {outcome : Outcome}
    (h : Obeys t r reading r' outcome) (hrejected : outcome.isRejected = true) :
    reading.keyword? = some "PLACE" ∨ reading.keyword? = some "MOVE" := by
  cases outcome with
  | accepted report => cases hrejected
  | ignored cause => cases hrejected
  | rejected target => exact h.off_of_rejected.2

end Robot

namespace Session

variable {s : Session} {lines : List String}

/-- The session with its robot and its settings, carried over to another table. -/
def onTable (s : Session) (t : Table) : Session :=
  { s with table := t }

@[simp] theorem onTable_debug (s : Session) (t : Table) : (s.onTable t).debug = s.debug :=
  rfl

@[simp] theorem emissions_onTable (s : Session) (t : Table) :
    (s.onTable t).emissions = s.emissions :=
  rfl

theorem step_wider (hsub : ∀ p ∈ s.table, p ∈ t') (line : String) :
    (((s.onTable t').step line).1 = (s.step line).1.onTable t' ∧
        ((s.onTable t').step line).2 = (s.step line).2) ∨
      (s.step line).2.outcome.isRejected = true ∧
        ((s.onTable t').step line).2.outcome.isAccepted = true := by
  rcases Robot.heed_wider hsub s.robot (Command.read line) with hsame | hfreed
  · left
    simp only [step_eq, onTable, hsame, and_self]
  · right
    simp only [step_eq]
    exact hfreed

theorem step_wider_of_not_rejected (hsub : ∀ p ∈ s.table, p ∈ t') {line : String}
    (h : (s.step line).2.outcome.isRejected = false) :
    ((s.onTable t').step line).1 = (s.step line).1.onTable t' ∧
      ((s.onTable t').step line).2 = (s.step line).2 := by
  rcases step_wider hsub line with hsame | hfreed
  · exact hsame
  · exact absurd (h.symm.trans hfreed.1) Bool.false_ne_true

theorem steps_wider (hsub : ∀ p ∈ s.table, p ∈ t')
    (h : ∀ step ∈ s.steps lines, step.outcome.isRejected = false) :
    (s.onTable t').steps lines = s.steps lines := by
  induction lines generalizing s with
  | nil => rfl
  | cons line rest ih =>
    rw [steps, List.forall_mem_cons] at h
    obtain ⟨hnext, hstep⟩ := step_wider_of_not_rejected hsub h.1
    rw [steps, hnext, hstep, steps, ih (by rwa [step_table]) h.2]

/-- Where two runs on tables of different width part, the narrower table rejects what the wider one
accepts. -/
theorem freed_of_first_difference (hsub : ∀ p ∈ s.table, p ∈ t') {i : Nat} {step step' : Step}
    (hstep : (s.steps lines)[i]? = some step)
    (hstep' : ((s.onTable t').steps lines)[i]? = some step')
    (hbefore : ((s.onTable t').steps lines).take i = (s.steps lines).take i) (hne : step' ≠ step) :
    step'.reading = step.reading ∧
      (step.reading.keyword? = some "PLACE" ∨ step.reading.keyword? = some "MOVE") ∧
      step.outcome.isRejected = true ∧ step'.outcome.isAccepted = true := by
  induction i generalizing s lines with
  | zero =>
    cases lines with
    | nil => cases hstep
    | cons line rest =>
      rw [steps, List.getElem?_cons_zero, Option.some.injEq] at hstep hstep'
      subst hstep hstep'
      rcases step_wider hsub line with hsame | ⟨hrejected, haccepted⟩
      · exact absurd hsame.2 hne
      · have hreading : ((s.onTable t').step line).2.reading = (s.step line).2.reading := by
          simp only [step_eq]
        exact ⟨hreading, (s.step_obeys line).keyword?_of_isRejected hrejected, hrejected, haccepted⟩
  | succ i ih =>
    cases lines with
    | nil => cases hstep
    | cons line rest =>
      rw [steps, steps, List.take_succ_cons, List.take_succ_cons, List.cons.injEq] at hbefore
      -- The runs agree on this line, so it was not one that only the narrower table rejects.
      have hnext : ((s.onTable t').step line).1 = (s.step line).1.onTable t' := by
        rcases step_wider hsub line with hsame | ⟨hrejected, haccepted⟩
        · exact hsame.1
        · rw [hbefore.1, Outcome.isAccepted_of_isRejected hrejected] at haccepted
          exact absurd haccepted Bool.false_ne_true
      rw [steps, List.getElem?_cons_succ] at hstep hstep'
      rw [hnext] at hstep' hbefore
      exact ih (by rwa [step_table]) hstep hstep' hbefore.2

/-- A session whose table lies within another and that will reject none of the lines to come. -/
structure Unhindered (t' : Table) (rest : List (Except ReadFault String)) (s : Session) : Prop where
  subset : ∀ p ∈ s.table, p ∈ t'
  not_rejected : ∀ step ∈ s.steps (readable rest), step.outcome.isRejected = false

variable {rest : List (Except ReadFault String)} {text : String}

theorem Unhindered.next (h : s.Unhindered t' (.ok text :: rest)) :
    (s.step text).1.Unhindered t' rest := by
  obtain ⟨hsub, hsteps⟩ := h
  rw [readable, steps, List.forall_mem_cons] at hsteps
  exact ⟨by rwa [step_table], hsteps.2⟩

theorem Unhindered.answer (h : s.Unhindered t' (.ok text :: rest)) (n : Nat) (summary : Summary) :
    Session.answer n text (s.onTable t', summary) =
      (Session.answer n text (s, summary)).map (Prod.map (·.onTable t') id) := by
  obtain ⟨hsub, hsteps⟩ := h
  rw [readable, steps, List.forall_mem_cons] at hsteps
  obtain ⟨hnext, hstep⟩ := step_wider_of_not_rejected hsub hsteps.1
  simp only [answer_eq, hnext, hstep, onTable_debug, emissions_onTable, Reply.map, Prod.map_apply,
    id_eq]

/-- A script of which no line is rejected is run alike on a wider table, into whatever ports. -/
theorem run_wider (hsub : ∀ p ∈ s.table, p ∈ t') {source : Source}
    (h : ∀ step ∈ s.steps source.texts, step.outcome.isRejected = false) (ports : Ports) :
    (s.onTable t').run source ports =
      (s.run source ports).map (Prod.map (·.onTable t') id) := by
  have hfeed (p : Ports) : feed answer 1 source.lines (s.onTable t', {}) p =
      (feed answer 1 source.lines (s, {}) p).map (Prod.map (·.onTable t') id) := by
    refine feed_map_along (f := Prod.map (·.onTable t') id)
      (P := fun rest (state : Session × Summary) => Unhindered t' rest state.1) ?_ 1 (s, {})
      ⟨hsub, h⟩
    rintro n text rest ⟨s, summary⟩ h
    refine ⟨h.answer n summary, ?_⟩
    simp only [answer_eq]
    exact h.next
  rw [run_eq_announce, run_eq_announce, onTable_debug]
  cases hheader : (ports.printAll (if s.debug then debugHeader else [])).2 with
  | some fault =>
    rw [announce_of_fault hheader, announce_of_fault hheader]
    rfl
  | none => rw [announce_of_none hheader, announce_of_none hheader, hfeed]

/-- Lines of which none is rejected take the same steps on a wider table, and a script of such lines
reports, says and counts the same and fails alike. Where the steps of other lines first differ, a
placement or a move is rejected on the narrower table and accepted on the wider one. -/
theorem alike_on_wider_table (s : Session) {t' : Table} (hx : s.table.maxX ≤ t'.maxX)
    (hy : s.table.maxY ≤ t'.maxY) :
    let s' := s.onTable t'
    (∀ lines, (∀ step ∈ s.steps lines, step.outcome.isRejected = false) →
        s'.steps lines = s.steps lines) ∧
      (∀ source ports, (∀ step ∈ s.steps source.texts, step.outcome.isRejected = false) →
        let e := s.run source ports
        let e' := s'.run source ports
        e'.ports = e.ports ∧ e'.failure? = e.failure? ∧
          e'.state = (e.state.1.onTable t', e.state.2)) ∧
      ∀ lines i step step', (s.steps lines)[i]? = some step → (s'.steps lines)[i]? = some step' →
        (s'.steps lines).take i = (s.steps lines).take i → step' ≠ step →
        step'.reading = step.reading ∧
          (step.reading.keyword? = some "PLACE" ∨ step.reading.keyword? = some "MOVE") ∧
          step.outcome.isRejected = true ∧ step'.outcome.isAccepted = true := by
  intro s'
  have hsub : ∀ p ∈ s.table, p ∈ t' := fun _ => Table.mem_of_le hx hy
  refine ⟨fun lines => steps_wider hsub, ?_, ?_⟩
  · intro source ports h
    rw [run_wider hsub h]
    exact ⟨rfl, rfl, rfl⟩
  · intro lines i step step' hstep hstep'
    exact freed_of_first_difference hsub hstep hstep'

theorem alike_on_wider_table_from_outside :
    let s : Session := { table := ⟨2, -1⟩, robot := ⟨⟨⟨-7, 40⟩, .south⟩, true⟩ }
    let s' := s.onTable ⟨2147483647, 3⟩
    let lines := ["REPORT", "hop", "LEFT", "REPORT"]
    let source : Source := ⟨Bytes.ofText "RIGHT\r\nREPORT\n" ++ [0xFF], none⟩
    let ports : Ports := ⟨⟨some 9, false, #[]⟩, {}⟩
    let parting := ["LEFT", "PLACE 2147483648,0,EAST", "PLACE 2147483647,3,EAST", "MOVE"]
    let step := ((s.step "LEFT").1.step "PLACE 2147483647,3,EAST").2
    let step' := ((s'.step "LEFT").1.step "PLACE 2147483647,3,EAST").2
    (s.table.maxX ≤ s'.table.maxX ∧ s.table.maxY ≤ s'.table.maxY) ∧
      ((∀ step ∈ s.steps lines, step.outcome.isRejected = false) ∧
        s'.steps lines = s.steps lines) ∧
      ((∀ step ∈ s.steps source.texts, step.outcome.isRejected = false) ∧
        (s'.run source ports).ports = (s.run source ports).ports) ∧
      ((s.steps parting)[2]? = some step ∧ (s'.steps parting)[2]? = some step' ∧
        (s'.steps parting).take 2 = (s.steps parting).take 2 ∧ step' ≠ step) ∧
      step.outcome.isRejected = true ∧ step'.outcome.isAccepted = true := by
  intro s s' lines source ports parting step step'
  have hx : s.table.maxX ≤ s'.table.maxX := by decide
  have hy : s.table.maxY ≤ s'.table.maxY := by decide
  have hlines : ∀ step ∈ s.steps lines, step.outcome.isRejected = false := by decide
  have hsource : ∀ step ∈ s.steps source.texts, step.outcome.isRejected = false := by decide
  have hbefore : (s'.steps parting).take 2 = (s.steps parting).take 2 := rfl
  have hne : step' ≠ step := fun h => absurd (congrArg (·.outcome) h) (by decide)
  obtain ⟨hsame, hrun, hpart⟩ := alike_on_wider_table s hx hy
  exact ⟨⟨hx, hy⟩, ⟨hlines, hsame lines hlines⟩, ⟨hsource, (hrun source ports hsource).1⟩,
    ⟨rfl, rfl, hbefore, hne⟩, (hpart parting 2 step step' rfl rfl hbefore hne).2.2⟩

end Session

end Tabletop
