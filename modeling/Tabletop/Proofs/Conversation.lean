import Tabletop.Proofs.MetaLine
import Tabletop.Proofs.Script

/-!
A conversation line by line, as far as it goes, when its output can be written.
-/

namespace Tabletop

variable {line : String} {lines : List String}

/-- The lines of a conversation: those before the first that ends it. -/
def Source.conversation (source : Source) : List String :=
  source.texts.takeWhile fun line => ¬ IsExit line

/-- What is printed for the lines that satisfy `P`, of lines with what is printed for them. -/
def printedWhere (P : String → Prop) [DecidablePred P] (said : List (String × List Emission)) :
    List Emission :=
  (said.filter fun said => P said.1).flatMap (·.2)

theorem printedWhere_cons (P : String → Prop) [DecidablePred P] (line : String)
    (es : List Emission) (said : List (String × List Emission)) :
    printedWhere P ((line, es) :: said) = (if P line then es else []) ++ printedWhere P said := by
  rw [printedWhere, List.filter_cons]
  by_cases h : P line <;> simp [h, printedWhere]

namespace Session

/-- The session after the lines of a conversation. -/
def respondAll (s : Session) (lines : List String) : Session :=
  lines.foldl (fun s line => (respond line s).state) s

/-- The lines of a conversation, each with what the console prints for it. -/
def exchanges (s : Session) : List String → List (String × List Emission)
  | [] => []
  | line :: rest =>
    (line, (respond line s).emissions) :: (respond line s).state.exchanges rest

theorem respondAll_cons (s : Session) (line : String) (rest : List String) :
    s.respondAll (line :: rest) = (respond line s).state.respondAll rest :=
  List.foldl_cons ..

theorem getElem?_exchanges {i : Nat} (h : lines[i]? = some line) (s : Session) :
    (s.exchanges lines)[i]? =
      some (line, (respond line (s.respondAll (lines.take i))).emissions) := by
  induction lines generalizing i s with
  | nil => cases h
  | cons first rest ih =>
    cases i with
    | zero =>
      cases h
      rfl
    | succ i => exact ih h _

theorem map_exchanges (s : Session) (lines : List String) :
    (s.exchanges lines).map (·.1) = lines := by
  induction lines generalizing s with
  | nil => rfl
  | cons line rest ih => rw [exchanges, List.map_cons, ih]

theorem respond_state_eq (line : String) (s : Session) :
    (respond line s).state = { s with robot := (respond line s).state.robot } := by
  by_cases hmeta : IsMeta line
  · by_cases hexit : IsExit line
    · rw [respond_of_isExit hexit]
    · rw [respond_of_isMeta hmeta hexit]
      split <;> rfl
  · rw [respond_of_not_isMeta hmeta]
    simp only [step_eq]

theorem respondAll_eq (s : Session) (lines : List String) :
    s.respondAll lines = { s with robot := (s.respondAll lines).robot } := by
  induction lines generalizing s with
  | nil => rfl
  | cons line rest ih =>
    rw [respondAll_cons, ih, respond_state_eq]

theorem stop_respond (h : ¬ IsExit line) (s : Session) : ¬ (respond line s).stop = true := by
  by_cases hmeta : IsMeta line
  · rw [respond_of_isMeta hmeta h]
    exact Bool.false_ne_true
  · rw [respond_of_not_isMeta hmeta]
    exact Bool.false_ne_true

theorem feed_respond {u : Ports} (hu : u.Reliable) (n : Nat) (texts : List String) (s : Session) :
    let e := feed (fun _ => respond) n (texts.map .ok) s u
    e.failure? = none ∧ e.state = s.respondAll (texts.takeWhile fun line => ¬ IsExit line) := by
  induction texts generalizing n s u with
  | nil =>
    rw [List.map_nil, feed, hu.flushed]
    exact ⟨rfl, rfl⟩
  | cons line rest ih =>
    have hprint := (hu.printAll (printsDiagFirst_respond n line s)).1
    rw [List.map_cons, feed_ok_of_none hprint, List.takeWhile_cons]
    by_cases hexit : IsExit line
    · have hrespond := respond_of_isExit hexit s
      simp only [hrespond, hexit, Ports.printAll, hu.flushed]
      exact ⟨rfl, rfl⟩
    · simp only [if_neg (stop_respond hexit s), hexit]
      exact ih (hu.printed _) (n + 1) (respond line s).state

theorem replies_respond (n : Nat) (texts : List String) (s : Session) :
    (replies (fun _ => respond) n (texts.map .ok) s).flatMap Reply.emissions =
      (s.exchanges (texts.takeWhile fun line => ¬ IsExit line)).flatMap (·.2) := by
  induction texts generalizing n s with
  | nil => rfl
  | cons line rest ih =>
    rw [List.map_cons, replies, List.takeWhile_cons]
    by_cases hexit : IsExit line
    · have hrespond := respond_of_isExit hexit s
      simp only [hrespond, hexit]
      rfl
    · simp only [if_neg (stop_respond hexit s), hexit, List.flatMap_cons, ih]
      rfl

theorem converse_of_isText (s : Session) {bs : Bytes} (hbs : bs.IsText) :
    let lines := (⟨bs, none⟩ : Source).conversation
    let e := s.converse ⟨bs, none⟩ {}
    e.failure? = none ∧ e.state = s.respondAll lines ∧
      e.ports.out.bytes = bytesOn .out ((s.exchanges lines).flatMap (·.2)) ∧
      e.ports.diag.bytes = bytesOn .diag ((s.exchanges lines).flatMap (·.2)) := by
  intro lines e
  have hu : Ports.Reliable {} := .refl _
  have hsource := eq_map_readable (Source.lines_of_isText hbs)
  obtain ⟨hfailure, hstate⟩ := feed_respond hu 1 (⟨bs, none⟩ : Source).texts s
  obtain ⟨hout, hdiag⟩ := feed_bytes printsDiagFirst_respond hu 1
    ((⟨bs, none⟩ : Source).texts.map .ok) s
  rw [replies_respond] at hout hdiag
  rw [Source.texts, ← hsource] at hfailure hstate hout hdiag
  exact ⟨hfailure, hstate, hout, hdiag⟩

end Session

end Tabletop
