import Tabletop.Proofs.Conversation
import Tabletop.Proofs.Messages

/-!
A conversation is a sequence of scripts. The lines that are about the session cut it where the robot
is taken off the table; otherwise they only print, and the commands between them do what they would
do without them.
-/

namespace Tabletop

variable {line : String} {lines rest first : List String} {others : List (List String)}

namespace Source

/-- A source of given lines. With the carriage return in the line ends, one that belongs to a line
is not lost. -/
def ofLines (lines : List String) : Source :=
  ⟨Bytes.ofLines (lines.map (· ++ "\r")), none⟩

theorem lines_ofLines (h : ∀ line ∈ lines, OneLine line) :
    (ofLines lines).lines = lines.map .ok := by
  induction lines with
  | nil => rfl
  | cons line rest ih =>
    rw [List.forall_mem_cons] at h
    have hline : OneLine (line ++ "\r") := h.1.append (by decide)
    have hreturn : dropReturn (Bytes.ofText (line ++ "\r")) = Bytes.ofText line := by
      rw [Bytes.ofText_append, dropReturn]
      exact (if_pos List.getLast?_concat).trans List.dropLast_concat
    rw [ofLines, List.map_cons, Bytes.ofLines_cons, lines_line (Bytes.newline_not_mem_ofText hline),
      hreturn, decode_eq_ok_iff.2 rfl]
    exact congrArg _ (ih h.2)

theorem texts_ofLines (h : ∀ line ∈ lines, OneLine line) : (ofLines lines).texts = lines := by
  rw [texts, lines_ofLines h, readable_map_ok]

theorem mem_conversation {source : Source} (h : line ∈ source.conversation) :
    OneLine line ∧ ¬ IsExit line := by
  constructor
  · exact oneLine_of_mem_lines (ok_mem_of_mem_readable (List.takeWhile_subset _ h))
  · exact of_decide_eq_true (List.all_eq_true.1 List.all_takeWhile line h)

end Source

/-- The commands of a conversation, cut where the robot is taken off the table. -/
def segments (lines : List String) : List (List String) :=
  (lines.splitOnP fun line => Text.trim line = ":reset").map (·.filter fun line => ¬ IsMeta line)

theorem segments_ne_nil (lines : List String) : segments lines ≠ [] :=
  mt List.map_eq_nil_iff.1 (List.splitOnP_ne_nil _ _)

theorem segments_reset (h : Text.trim line = ":reset") (rest : List String) :
    segments (line :: rest) = [] :: segments rest := by
  rw [segments, List.splitOnP_cons_eq_if_modifyHead, if_pos (decide_eq_true h)]
  rfl

/-- A line that does not cut a conversation belongs to its first segment if it is a command. -/
theorem segments_cons (h : Text.trim line ≠ ":reset") (hrest : segments rest = first :: others) :
    segments (line :: rest) = (if IsMeta line then first else line :: first) :: others := by
  obtain ⟨piece, pieces, hsplit, rfl, rfl⟩ := List.map_eq_cons_iff.1 hrest
  rw [segments, List.splitOnP_cons_eq_if_modifyHead, if_neg (by simpa using h), hsplit,
    List.modifyHead_cons, List.map_cons, List.filter_cons]
  by_cases hmeta : IsMeta line <;> simp [hmeta]

theorem subset_of_mem_segments {segment : List String} (h : segment ∈ segments lines) :
    segment ⊆ lines := by
  induction lines generalizing segment with
  | nil =>
    rw [List.mem_singleton.1 h]
    exact List.Subset.refl _
  | cons line rest ih =>
    by_cases hreset : Text.trim line = ":reset"
    · rw [segments_reset hreset] at h
      rcases List.mem_cons.1 h with rfl | hmem
      · exact List.nil_subset _
      · exact List.subset_cons_of_subset _ (ih hmem)
    · obtain ⟨first, others, hsegments⟩ := List.exists_cons_of_ne_nil (segments_ne_nil rest)
      rw [hsegments, List.forall_mem_cons] at ih
      rw [segments_cons hreset hsegments] at h
      rcases List.mem_cons.1 h with rfl | hmem
      · split
        · exact List.subset_cons_of_subset _ ih.1
        · exact List.cons_subset_cons _ ih.1
      · exact List.subset_cons_of_subset _ (ih.2 _ hmem)

namespace Session

variable {s : Session}

/-- Runs scripts one after the other, with the robot taken off the table in between. -/
def runs (s : Session) : List (List String) → List (Ending (Session × Summary))
  | [] => []
  | first :: rest =>
    s.run (.ofLines first) {} :: rest.map fun lines => s.reset.run (.ofLines lines) {}

theorem runs_reset (s : Session) (segs : List (List String)) :
    s.runs ([] :: segs) = s.run (.ofLines []) {} :: s.reset.runs segs := by
  cases segs <;> rfl

theorem exists_of_mem_runs {run : Ending (Session × Summary)} {segs : List (List String)}
    (h : run ∈ s.runs segs) :
    ∃ segment ∈ segs, ∃ s' : Session, run = s'.run (.ofLines segment) {} := by
  cases segs with
  | nil => cases h
  | cons first rest =>
    rcases List.mem_cons.1 h with rfl | hrest
    · exact ⟨first, List.mem_cons_self, s, rfl⟩
    · obtain ⟨segment, hsegment, rfl⟩ := List.mem_map.1 hrest
      exact ⟨segment, List.mem_cons_of_mem _ hsegment, s.reset, rfl⟩

theorem run_ofLines_failure (s : Session) (h : ∀ line ∈ lines, OneLine line) :
    (s.run (.ofLines lines) {}).failure? = none := by
  rw [run_failure_eq_none_iff (.refl _), Source.lines_ofLines h]
  intro line hline
  obtain ⟨text, -, rfl⟩ := List.mem_map.1 hline
  exact ⟨text, rfl⟩

theorem run_ofLines (s : Session) (hdebug : s.debug = false) (h : ∀ line ∈ lines, OneLine line) :
    (s.run (.ofLines lines) {}).state.1 = s.stepAll lines ∧
      (s.run (.ofLines lines) {}).ports.out.bytes = bytesOn .out (s.printed lines) ∧
      (s.run (.ofLines lines) {}).ports.diag.bytes = bytesOn .diag (s.printed lines) := by
  have hu : Ports.Reliable {} := .refl _
  have htexts := Source.texts_ofLines h
  obtain ⟨hout, hdiag⟩ := run_prints hdebug hu (.ofLines lines)
  rw [run_state hu, hout, hdiag, htexts]
  exact ⟨rfl, rfl, rfl⟩

theorem printed_cons (s : Session) (line : String) (rest : List String) :
    s.printed (line :: rest) = s.emissions (s.step line).2 ++ (s.step line).1.printed rest := by
  rw [printed, steps, List.flatMap_cons, printed, emissions_step]

theorem runs_cons (s : Session) (hdebug : s.debug = false) (hline : OneLine line)
    (hfirst : ∀ text ∈ first, OneLine text) (others : List (List String)) :
    let after := (s.step line).1.runs (first :: others)
    let whole := s.runs ((line :: first) :: others)
    whole.map (·.state.1) = after.map (·.state.1) ∧
      whole.flatMap (·.ports.out.bytes) =
        bytesOn .out (s.emissions (s.step line).2) ++ after.flatMap (·.ports.out.bytes) ∧
      whole.flatMap (·.ports.diag.bytes) =
        bytesOn .diag (s.emissions (s.step line).2) ++ after.flatMap (·.ports.diag.bytes) := by
  have hdebug' : (s.step line).1.debug = false := (step_debug s line).trans hdebug
  have hall : ∀ text ∈ line :: first, OneLine text := List.forall_mem_cons.2 ⟨hline, hfirst⟩
  obtain ⟨hlong, hlongOut, hlongDiag⟩ := s.run_ofLines hdebug hall
  obtain ⟨hshort, hshortOut, hshortDiag⟩ := (s.step line).1.run_ofLines hdebug' hfirst
  -- The command moves at most the robot, so the other scripts start as before.
  have hreset : (s.step line).1.reset = s.reset := by
    simp only [reset, step_eq]
  rw [printed_cons, bytesOn_append] at hlongOut hlongDiag
  simp only [runs, List.map_cons, List.flatMap_cons, hlong, hlongOut, hlongDiag, hshort, hshortOut,
    hshortDiag, hreset, stepAll_cons, List.append_assoc, and_self]

def plain (s : Session) : Session :=
  { s with debug := false }

theorem plain_step (s : Session) (line : String) :
    s.plain.step line = ((s.step line).1.plain, (s.step line).2) := by
  simp only [step_eq, plain]

theorem plain_emissions (s : Session) : s.plain.emissions = s.emissions :=
  rfl

/-- What the commands among lines leave and print is what the runs of the segments do. -/
structure Splits (s : Session) (lines : List String)
    (runs : List (Ending (Session × Summary))) : Prop where
  state : (runs.map (·.state.1)).getLast? = some (s.respondAll lines).plain
  out : bytesOn .out (printedWhere (Text.trim · ≠ ":state") (s.exchanges lines)) =
    runs.flatMap (·.ports.out.bytes)
  diag : bytesOn .diag (printedWhere (¬ IsMeta ·) (s.exchanges lines)) =
    runs.flatMap (·.ports.diag.bytes)

theorem splits_nil (s : Session) : s.Splits [] (s.plain.runs (segments [])) := by
  obtain ⟨hstate, hout, hdiag⟩ := s.plain.run_ofLines rfl (List.forall_mem_nil _)
  constructor
  · exact congrArg some hstate
  · exact (congrArg (· ++ []) hout).symm
  · exact (congrArg (· ++ []) hdiag).symm

theorem splits_reset (h : Text.trim line = ":reset")
    (hrest : s.reset.Splits rest (s.reset.plain.runs (segments rest))) :
    s.Splits (line :: rest) (s.plain.runs (segments (line :: rest))) := by
  have hmeta : IsMeta line := isMeta_iff.2 ⟨"reset", h⟩
  have hstay : ¬ IsExit line := by
    rw [IsExit, h]
    decide
  have hrespond := respond_of_isMeta hmeta hstay s
  rw [h, if_pos rfl] at hrespond
  obtain ⟨-, hout, hdiag⟩ := s.plain.run_ofLines rfl (List.forall_mem_nil _)
  have hruns : s.plain.runs (segments (line :: rest)) =
      s.plain.run (.ofLines []) {} :: s.reset.plain.runs (segments rest) := by
    rw [segments_reset h, runs_reset]
    rfl
  rw [hruns]
  constructor
  · rw [List.map_cons, List.getLast?_cons, hrest.state, respondAll_cons, hrespond]
    rfl
  · rw [exchanges, hrespond, printedWhere_cons, List.flatMap_cons, hout, bytesOn_append, h,
      hrest.out]
    rfl
  · rw [exchanges, hrespond, printedWhere_cons, List.flatMap_cons, hdiag, bytesOn_append,
      if_neg (not_not_intro hmeta), hrest.diag]
    rfl

theorem splits_meta (h : IsMeta line) (hstay : ¬ IsExit line) (hreset : Text.trim line ≠ ":reset")
    (hrest : s.Splits rest (s.plain.runs (segments rest))) :
    s.Splits (line :: rest) (s.plain.runs (segments (line :: rest))) := by
  have hrespond := respond_of_isMeta h hstay s
  rw [if_neg hreset] at hrespond
  obtain ⟨first, others, hsegments⟩ := List.exists_cons_of_ne_nil (segments_ne_nil rest)
  rw [segments_cons hreset hsegments, if_pos h, ← hsegments]
  constructor
  · rw [respondAll_cons, hrespond]
    exact hrest.state
  · rw [exchanges, hrespond, printedWhere_cons, bytesOn_append]
    by_cases hstate : Text.trim line = ":state"
    · rw [if_neg (not_not_intro hstate)]
      exact hrest.out
    · rw [if_pos hstate, if_neg hstate]
      exact hrest.out
  · rw [exchanges, hrespond, printedWhere_cons, bytesOn_append, if_neg (not_not_intro h)]
    exact hrest.diag

theorem splits_command (h : ¬ IsMeta line) (hline : OneLine line)
    (hlines : ∀ segment ∈ segments rest, ∀ text ∈ segment, OneLine text)
    (hrest : (s.step line).1.Splits rest ((s.step line).1.plain.runs (segments rest))) :
    s.Splits (line :: rest) (s.plain.runs (segments (line :: rest))) := by
  have hrespond := respond_of_not_isMeta h s
  rw [emissions_step] at hrespond
  have hreset : Text.trim line ≠ ":reset" := trim_ne_of_not_isMeta h "reset"
  have hstate : Text.trim line ≠ ":state" := trim_ne_of_not_isMeta h "state"
  obtain ⟨first, others, hsegments⟩ := List.exists_cons_of_ne_nil (segments_ne_nil rest)
  rw [hsegments] at hlines hrest
  obtain ⟨hruns, hout, hdiag⟩ :=
    s.plain.runs_cons rfl hline (List.forall_mem_cons.1 hlines).1 others
  rw [plain_step] at hruns hout hdiag
  rw [plain_emissions] at hout hdiag
  rw [segments_cons hreset hsegments, if_neg h]
  constructor
  · rw [hruns, respondAll_cons, hrespond]
    exact hrest.state
  · rw [exchanges, hrespond, printedWhere_cons, bytesOn_append, if_pos hstate, hout, hrest.out]
  · rw [exchanges, hrespond, printedWhere_cons, bytesOn_append, if_pos h, hdiag, hrest.diag]

theorem splits (s : Session) (h : ∀ line ∈ lines, OneLine line ∧ ¬ IsExit line) :
    s.Splits lines (s.plain.runs (segments lines)) := by
  -- The first segment goes on in the session that its first line leaves, hence for every session.
  induction lines generalizing s with
  | nil => exact s.splits_nil
  | cons line rest ih =>
    obtain ⟨⟨hline, hstay⟩, hrest⟩ := List.forall_mem_cons.1 h
    by_cases hreset : Text.trim line = ":reset"
    · exact splits_reset hreset (ih s.reset hrest)
    by_cases hmeta : IsMeta line
    · exact splits_meta hmeta hstay hreset (ih s hrest)
    · apply splits_command hmeta hline
      · intro segment hsegment text htext
        exact (hrest text (subset_of_mem_segments hsegment htext)).1
      · exact ih _ hrest

theorem Splits.exists_last {runs : List (Ending (Session × Summary))} (h : s.Splits lines runs) :
    ∃ last, runs.getLast? = some last ∧ last.state.1 = (s.respondAll lines).plain := by
  have hlast := h.state
  rwa [List.getLast?_map, Option.map_eq_some_iff] at hlast

/-- A conversation is a sequence of scripts: its commands, cut where the robot is taken off the
table, leave and print what they do as scripts without debugging, and each of its other lines prints
one text of its own, whether or not diagnostics are wanted. -/
theorem converse_eq_runs (s : Session) {bs : Bytes} (hbs : bs.IsText) :
    let lines := (⟨bs, none⟩ : Source).conversation
    let runs := s.plain.runs (segments lines)
    let said := s.exchanges lines
    let e := s.converse ⟨bs, none⟩ {}
    e.failure? = none ∧ (∀ run ∈ runs, run.failure? = none) ∧
      (∃ last, runs.getLast? = some last ∧ e.state = { last.state.1 with debug := s.debug }) ∧
      (said.map (·.1) = lines ∧ e.ports.out.bytes = bytesOn .out (said.flatMap (·.2)) ∧
        e.ports.diag.bytes = bytesOn .diag (said.flatMap (·.2))) ∧
      bytesOn .out (printedWhere (Text.trim · ≠ ":state") said) =
        runs.flatMap (·.ports.out.bytes) ∧
      bytesOn .diag (printedWhere (¬ IsMeta ·) said) = runs.flatMap (·.ports.diag.bytes) ∧
      ∀ (i : Nat) (line : String), lines[i]? = some line → IsMeta line →
        ∃ before, (s.plain.runs (segments (lines.take i))).getLast? = some before ∧
          OneLine (shown s.table before.state.1.robot).text ∧
          said[i]? = some (line,
            [if Text.trim line = ":state" then shown s.table before.state.1.robot
              else ⟨.diag, metaText (Text.trim line)⟩]) := by
  intro lines runs said e
  have hlines : ∀ line ∈ lines, OneLine line ∧ ¬ IsExit line := fun _ => Source.mem_conversation
  obtain ⟨hfailure, hstate, hout, hdiag⟩ := s.converse_of_isText hbs
  have hsplits := s.splits hlines
  refine ⟨hfailure, ?_, ?_, ⟨s.map_exchanges lines, hout, hdiag⟩, hsplits.out, hsplits.diag, ?_⟩
  · intro run hrun
    obtain ⟨segment, hsegment, s', rfl⟩ := exists_of_mem_runs hrun
    apply run_ofLines_failure
    exact fun text htext => (hlines text (subset_of_mem_segments hsegment htext)).1
  · obtain ⟨last, hlast, hlastState⟩ := hsplits.exists_last
    refine ⟨last, hlast, ?_⟩
    rw [hlastState, ← congrArg Session.debug (s.respondAll_eq lines)]
    exact hstate
  · intro i line hi hmeta
    have htake : ∀ line ∈ lines.take i, OneLine line ∧ ¬ IsExit line :=
      fun line hline => hlines line (List.mem_of_mem_take hline)
    obtain ⟨before, hbefore, hbeforeState⟩ := (s.splits htake).exists_last
    refine ⟨before, hbefore, ?_, ?_⟩
    · exact ((((Robot.oneLine_text _).append (by decide)).append (Table.oneLine_text _)).append
        (by decide))
    · have hstay := (hlines line (List.mem_of_getElem? hi)).2
      have hsaid := getElem?_exchanges hi s
      rw [respond_of_isMeta hmeta hstay,
        congrArg Session.table (s.respondAll_eq (lines.take i))] at hsaid
      rw [hbeforeState]
      exact hsaid

theorem converse_eq_runs_across_reset :
    let s : Session := { table := .standard, diagnostics := false, debug := true }
    let bs := Bytes.ofText "PLACE 1,2,EAST\n :state\n:help\nMOVE\n:reset\nREPORT\r\n:quit\nLEFT"
    let lines := ["PLACE 1,2,EAST", " :state", ":help", "MOVE", ":reset", "REPORT"]
    let runs := s.plain.runs [["PLACE 1,2,EAST", "MOVE"], ["REPORT"]]
    let said := s.exchanges lines
    let e := s.converse ⟨bs, none⟩ {}
    bs.IsText ∧ (⟨bs, none⟩ : Source).conversation = lines ∧
      e.failure? = none ∧ (∀ run ∈ runs, run.failure? = none) ∧
      (∃ last, runs.getLast? = some last ∧ e.state = { last.state.1 with debug := true }) ∧
      bytesOn .out (printedWhere (Text.trim · ≠ ":state") said) =
        runs.flatMap (·.ports.out.bytes) ∧
      bytesOn .diag (printedWhere (¬ IsMeta ·) said) = runs.flatMap (·.ports.diag.bytes) ∧
      ∃ before, (s.plain.runs [["PLACE 1,2,EAST"]]).getLast? = some before ∧
        said[1]? = some (" :state", [shown .standard before.state.1.robot]) := by
  intro s bs lines
  have hbs : bs.IsText := Bytes.isText_chars _
  have hconversation : (⟨bs, none⟩ : Source).conversation = lines := by decide
  have hsegments : segments lines = [["PLACE 1,2,EAST", "MOVE"], ["REPORT"]] := by decide
  have hbefore : segments (lines.take 1) = [["PLACE 1,2,EAST"]] := by decide
  have h := converse_eq_runs s hbs
  rw [hconversation] at h
  obtain ⟨hfailure, hruns, hstate, -, hout, hdiag, hmeta⟩ := h
  rw [hsegments] at hruns hstate hout hdiag
  obtain ⟨before, hlast, -, hsaid⟩ := hmeta 1 " :state" rfl (by decide)
  rw [hbefore] at hlast
  exact ⟨hbs, hconversation, hfailure, hruns, hstate, hout, hdiag, before, hlast, hsaid⟩

end Session

end Tabletop
