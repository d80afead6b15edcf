import Tabletop.Proofs.Decimal
import Tabletop.Proofs.Grammar
import Tabletop.Proofs.OneLine
import Tabletop.Proofs.Rules
import Tabletop.Proofs.Script

/-!
What is said about a line. An error quotes pieces of the line it is about, so what is said of a line
is one line again; and its form tells what became of the line, whatever is quoted.
-/

namespace Tabletop

variable {line : String} {t : Table} {r r' : Robot} {step : Step}

theorem error_of_bind {ε α β : Type} {a : Except ε α} {f : α → Except ε β} {e : ε}
    (h : (a >>= f) = .error e) : a = .error e ∨ ∃ value, a = .ok value ∧ f value = .error e := by
  cases a with
  | error e' =>
    cases h
    exact .inl rfl
  | ok value => exact .inr ⟨value, rfl, h⟩

/-- The texts that an error quotes. -/
def PlaceError.quotes : PlaceError → List String
  | missing => []
  | arity _ raw => [raw]
  | coordinate raw => [raw]
  | heading raw => [raw]

def ParseError.quotes : ParseError → List String
  | empty => []
  | unknownKeyword keyword => [keyword]
  | malformedPlace reason => reason.quotes

namespace Command

variable {raw q : String} {parts tokens : List String} {e : PlaceError}

theorem eq_coordinate_of_readCoordinate (h : readCoordinate raw = .error e) :
    e = .coordinate raw := by
  unfold readCoordinate at h
  split at h <;> cases h
  rfl

theorem eq_heading_of_readHeading (h : readHeading raw = .error e) : e = .heading raw := by
  unfold readHeading at h
  split at h <;> cases h
  rfl

theorem mem_of_quoted_ofParts (h : ofParts raw parts = .error e) (hq : q ∈ e.quotes) :
    q = raw ∨ q ∈ parts := by
  unfold ofParts at h
  split at h
  · next x y heading =>
    right
    rcases error_of_bind h with hx | ⟨_, -, h⟩
    · rw [eq_coordinate_of_readCoordinate hx] at hq
      rw [List.mem_singleton.1 hq]
      exact List.mem_cons_self
    rcases error_of_bind h with hy | ⟨_, -, h⟩
    · rw [eq_coordinate_of_readCoordinate hy] at hq
      rw [List.mem_singleton.1 hq]
      exact List.mem_cons_of_mem _ List.mem_cons_self
    rcases error_of_bind h with hheading | ⟨_, -, h⟩
    · rw [eq_heading_of_readHeading hheading] at hq
      rw [List.mem_singleton.1 hq]
      exact List.mem_cons_of_mem _ (List.mem_cons_of_mem _ List.mem_cons_self)
    · cases h
  · cases h
    exact .inl (List.mem_singleton.1 hq)

theorem isInfix_of_quoted_readPlace {argument : Option String} (h : readPlace argument = .error e)
    (hq : q ∈ e.quotes) : ∃ raw ∈ argument, q.toList <:+: raw.toList := by
  cases argument with
  | none =>
    cases h
    cases hq
  | some raw =>
    refine ⟨raw, rfl, ?_⟩
    rw [readPlace] at h
    split at h
    · cases h
      cases hq
    · rcases mem_of_quoted_ofParts h hq with rfl | hpart
      · exact List.infix_rfl
      · exact (Text.isInfix_of_mem_split hpart).1

theorem isInfix_of_quoted_ofTokens {e : ParseError} (h : ofTokens tokens = .error e)
    (hne : tokens ≠ []) (hq : q ∈ e.quotes) : ∃ token ∈ tokens, q.toList <:+: token.toList := by
  unfold ofTokens at h
  split at h
  · next arguments =>
    cases hplace : readPlace arguments.head? with
    | ok c =>
      rw [hplace] at h
      cases h
    | error reason =>
      rw [hplace] at h
      cases h
      obtain ⟨raw, hraw, hpiece⟩ := isInfix_of_quoted_readPlace hplace hq
      exact ⟨raw, List.mem_cons_of_mem _ (List.mem_of_head? hraw), hpiece⟩
  · cases h
  · cases h
  · cases h
  · cases h
  · cases h
    rw [List.mem_singleton.1 hq]
    cases tokens with
    | nil => exact (hne rfl).elim
    | cons token rest => exact ⟨token, List.mem_cons_self, List.infix_rfl⟩

/-- What the error of a line quotes is a piece of the trimmed line between spaces. -/
theorem isInfix_of_quoted_read {e : ParseError} (h : read line = .error e) (hq : q ∈ e.quotes) :
    q.toList <:+: (Text.trim line).toList ∧ ' ' ∉ q.toList := by
  rw [read] at h
  split at h
  · cases h
    cases hq
  · obtain ⟨token, htoken, hpiece⟩ := isInfix_of_quoted_ofTokens h (Text.split_ne_nil _ _) hq
    obtain ⟨hline, hspace⟩ := Text.isInfix_of_mem_split htoken
    exact ⟨hpiece.trans hline, fun hmem => hspace (hpiece.mem hmem)⟩

end Command

theorem oneLine_int (n : Int) : OneLine (toString n) := by
  intro h
  rcases Numeral.mem_toString h with h | h <;> cases h

theorem oneLine_nat (n : Nat) : OneLine (toString n) :=
  oneLine_int n

/-- The text of a pose has no characters but those of numbers and names, and commas. -/
theorem Pose.mem_text {p : Pose} {c : Char} (hc : c ∈ p.text.toList) :
    c.isAlphanum = true ∨ c ∈ ['-', ','] := by
  have hint {n : Int} (h : c ∈ (toString n).toList) : c.isAlphanum = true ∨ c ∈ ['-', ','] := by
    rcases Numeral.mem_toString h with rfl | hdigit
    · exact .inr (by decide)
    · exact .inl (by rw [Char.isAlphanum, hdigit, Bool.or_true])
  have hcomma (h : c ∈ ",".toList) : c.isAlphanum = true ∨ c ∈ ['-', ','] := by
    rw [List.mem_singleton.1 h]
    exact .inr (by decide)
  have hname : p.heading.name.toList.all Char.isAlphanum = true := by
    cases p.heading <;> rw [Heading.name] <;> decide
  simp only [Pose.text, String.toList_append, List.mem_append] at hc
  rcases hc with (((hc | hc) | hc) | hc) | hc
  · exact hint hc
  · exact hcomma hc
  · exact hint hc
  · exact hcomma hc
  · exact .inl (List.all_eq_true.1 hname c hc)

theorem Robot.mem_text {r : Robot} {c : Char} (hc : c ∈ r.text.toList) :
    c.isAlphanum = true ∨ c ∈ ['-', ','] := by
  rw [Robot.text] at hc
  split at hc
  · exact Pose.mem_text hc
  · have hall : "unplaced".toList.all Char.isAlphanum = true := by decide
    exact .inl (List.all_eq_true.1 hall c hc)

theorem Pose.oneLine_text (p : Pose) : OneLine p.text := by
  intro h
  rcases Pose.mem_text h with h | h <;> revert h <;> decide

theorem Robot.oneLine_text (r : Robot) : OneLine r.text := by
  intro h
  rcases Robot.mem_text h with h | h <;> revert h <;> decide

theorem Table.oneLine_text (t : Table) : OneLine t.text :=
  (((by decide : OneLine "table 0..=").append (oneLine_int _)).append (by decide)).append
    (oneLine_int _)

theorem PlaceError.oneLine_message {e : PlaceError} (h : ∀ q ∈ e.quotes, OneLine q) :
    OneLine e.message := by
  have hopen : OneLine "'" := by decide
  cases e with
  | missing => exact (by decide : OneLine "expected X,Y,F after PLACE")
  | arity found raw =>
    have hraw : OneLine raw := h raw List.mem_cons_self
    exact ((((by decide : OneLine "expected 3 comma-separated values, found ").append
      (oneLine_nat found)).append (by decide)).append hraw).append hopen
  | coordinate raw =>
    have hraw : OneLine raw := h raw List.mem_cons_self
    exact ((by decide : OneLine "coordinate '").append hraw).append (by decide)
  | heading raw =>
    have hraw : OneLine raw := h raw List.mem_cons_self
    exact ((by decide : OneLine "unknown orientation '").append hraw).append hopen

theorem ParseError.oneLine_message {e : ParseError} (h : ∀ q ∈ e.quotes, OneLine q) :
    OneLine e.message := by
  cases e with
  | empty => exact (by decide : OneLine "no command given")
  | unknownKeyword keyword =>
    exact (by decide : OneLine "not a valid command: ").append (h keyword List.mem_cons_self)
  | malformedPlace reason =>
    exact (by decide : OneLine "malformed PLACE arguments: ").append
      (PlaceError.oneLine_message h)

theorem Command.oneLine_message_of_read {e : ParseError} (hline : OneLine line)
    (h : read line = .error e) : OneLine e.message := by
  apply ParseError.oneLine_message
  intro q hq
  apply hline.of_isInfix
  exact (isInfix_of_quoted_read h hq).1.trans (Text.trim_isInfix line)

theorem Command.oneLine_keyword (c : Command) : OneLine c.keyword := by
  cases c <;> rw [keyword] <;> decide

theorem Step.oneLine_diagnostic (h : Robot.Obeys t r step.reading r' step.outcome)
    (herror : ∀ e, step.reading = .error e → OneLine e.message) : OneLine step.diagnostic := by
  obtain ⟨reading, outcome, robot⟩ := step
  have hkeyword (c : Command) : OneLine ((Reading.keyword? (.ok c)).getD "input") :=
    c.oneLine_keyword
  cases h with
  | unreadable e => exact (by decide : OneLine "ignoring input - ").append (herror e rfl)
  | notPlaced c => exact (by decide : OneLine "ignoring input - still expecting first PLACE")
  | placedOff => exact (hkeyword _).append (by decide)
  | movedOff => exact (hkeyword _).append (by decide)
  | _ => exact (hkeyword _).append (by decide)

/-- The diagnostics of lines that would have taken the robot off the table. -/
def avoidedFalls : List String :=
  ["PLACE - avoid fall", "MOVE - avoid fall"]

/-- The diagnostics of lines that were carried out. -/
def confirmations : List String :=
  ["PLACE - OK", "MOVE - OK", "LEFT - OK", "RIGHT - OK", "REPORT - OK"]

/-- The form of a diagnostic tells what became of the line. -/
structure Outcome.ToldBy (outcome : Outcome) (text : String) : Prop where
  ignored : outcome.isIgnored = true ↔ "ignoring input - ".toList <+: text.toList
  rejected : outcome.isRejected = true ↔ text ∈ avoidedFalls
  accepted : outcome.isAccepted = true ↔ text ∈ confirmations

namespace Outcome

variable {text : String}

theorem not_ignoring_of_mem (h : text ∈ avoidedFalls ++ confirmations) :
    ¬ "ignoring input - ".toList <+: text.toList := by
  revert text
  decide

theorem not_mem_confirmations (h : text ∈ avoidedFalls) : text ∉ confirmations := by
  revert text
  decide

theorem toldBy_accepted (report : Option Pose) (h : text ∈ confirmations) :
    (accepted report).ToldBy text := by
  constructor
  · exact iff_of_false Bool.false_ne_true (not_ignoring_of_mem (List.mem_append_right _ h))
  · exact iff_of_false Bool.false_ne_true fun hfall => not_mem_confirmations hfall h
  · exact iff_of_true rfl h

theorem toldBy_rejected (target : Target) (h : text ∈ avoidedFalls) :
    (rejected target).ToldBy text := by
  constructor
  · exact iff_of_false Bool.false_ne_true (not_ignoring_of_mem (List.mem_append_left _ h))
  · exact iff_of_true rfl h
  · exact iff_of_false Bool.false_ne_true (not_mem_confirmations h)

theorem toldBy_ignored (cause : IgnoreCause) (message : String) :
    (ignored cause).ToldBy ("ignoring input - " ++ message) := by
  have hstart : "ignoring input - ".toList <+: ("ignoring input - " ++ message).toList := by
    rw [String.toList_append]
    exact List.prefix_append _ _
  constructor
  · exact iff_of_true rfl hstart
  · exact iff_of_false Bool.false_ne_true fun h =>
      not_ignoring_of_mem (List.mem_append_left _ h) hstart
  · exact iff_of_false Bool.false_ne_true fun h =>
      not_ignoring_of_mem (List.mem_append_right _ h) hstart

end Outcome

theorem Step.confirmed (c : Command) (report : Option Pose) (robot : Robot) :
    diagnostic ⟨.ok c, .accepted report, robot⟩ ∈ confirmations := by
  change c.keyword ++ " - OK" ∈ confirmations
  cases c <;> rw [Command.keyword] <;> decide

theorem Step.toldBy_diagnostic (h : Robot.Obeys t r step.reading r' step.outcome) :
    step.outcome.ToldBy step.diagnostic := by
  obtain ⟨reading, outcome, robot⟩ := step
  cases h with
  | unreadable e => exact Outcome.toldBy_ignored _ _
  | notPlaced c => exact Outcome.toldBy_ignored _ _
  | placedOff => exact Outcome.toldBy_rejected _ List.mem_cons_self
  | movedOff => exact Outcome.toldBy_rejected _ (List.mem_cons_of_mem _ List.mem_cons_self)
  | _ => exact Outcome.toldBy_accepted _ (Step.confirmed _ _ _)

end Tabletop
