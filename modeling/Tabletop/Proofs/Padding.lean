import Mathlib.Data.List.Forall2
import Tabletop.Proofs.Conversation
import Tabletop.Proofs.Exit

/-!
Blank characters around a line and the way it ends do not matter, neither to a script nor to a
conversation, and whether or not the steps are shown as a table.
-/

namespace Tabletop

variable {σ : Type} {respond : Nat → String → σ → Reply σ} {line line' text : String}
variable {lines lines' texts texts' : List String}

/-- Blank characters that do not end a line. -/
def IsPadding (s : String) : Prop :=
  (∀ c ∈ s.toList, Text.isBlank c = true) ∧ OneLine s

-- The characters of the text are gone through, not all characters that there are.
instance (s : String) : Decidable (IsPadding s) :=
  @instDecidableAnd _ _ (List.decidableBAll _ s.toList) (inferInstanceAs (Decidable (OneLine s)))

/-- Texts that are a line with padding on both sides and a line end. -/
inductive Padded (line : String) : String → Prop where
  | intro (front back ending : String) (hfront : IsPadding front) (hback : IsPadding back)
      (hending : ending = "\n" ∨ ending = "\r\n") : Padded line (front ++ line ++ back ++ ending)

theorem Padded.exists_oneLine (h : Padded line text) (hline : OneLine line) :
    ∃ s, text = s ++ "\n" ∧ OneLine s ∧ Text.trim s = Text.trim line := by
  obtain ⟨front, back, ending, hfront, hback, hending⟩ := h
  have hinner : OneLine (front ++ line ++ back) := (hfront.2.append hline).append hback.2
  have htrim : Text.trim (front ++ line ++ back) = Text.trim line := by
    rw [Text.trim_append_blank _ hback.1, Text.trim_blank_append hfront.1]
  rcases hending with rfl | rfl
  · exact ⟨_, rfl, hinner, htrim⟩
  · have hending : "\r\n" = "\r" ++ "\n" := rfl
    have hreturn : IsPadding "\r" := by decide
    refine ⟨front ++ line ++ back ++ "\r", ?_, hinner.append hreturn.2, ?_⟩
    · rw [hending, ← String.append_assoc]
    · rw [Text.trim_append_blank _ hreturn.1, htrim]

namespace Source

/-- The lines of padded texts are the lines themselves but for blank characters at their ends. -/
theorem lines_of_padded (hlines : ∀ line ∈ lines, OneLine line)
    (h : List.Forall₂ Padded lines texts) :
    ∃ found : List String, found.map Text.trim = lines.map Text.trim ∧
      ∀ (u : Bytes) (fault? : Option ReadFault),
        (⟨texts.flatMap Bytes.ofText ++ u, fault?⟩ : Source).lines =
          found.map .ok ++ (⟨u, fault?⟩ : Source).lines := by
  induction h with
  | nil => exact ⟨[], rfl, fun _ _ => rfl⟩
  | cons hpadded _ ih =>
    rw [List.forall_mem_cons] at hlines
    obtain ⟨found, hfound, hrest⟩ := ih hlines.2
    obtain ⟨s, rfl, hs, htrim⟩ := hpadded.exists_oneLine hlines.1
    obtain ⟨first, hfirst, hline⟩ := lines_ofText_line hs
    refine ⟨first :: found, ?_, ?_⟩
    · rw [List.map_cons, List.map_cons, hfound, hfirst, htrim]
    · intro u fault?
      rw [List.flatMap_cons, List.append_assoc, hline, hrest, List.map_cons, List.cons_append]

/-- The line that asks to leave a conversation, by its number from 0. -/
def exitLine? (source : Source) : Option Nat :=
  source.texts.findIdx? fun line => IsExit line

theorem texts_of_lines {source : Source} {rest : List (Except ReadFault String)}
    (h : source.lines = lines.map .ok ++ rest) : source.texts = lines ++ readable rest := by
  have hok : ∀ line ∈ lines.map (Except.ok (ε := ReadFault)), ∃ text, line = .ok text := by
    intro line hline
    obtain ⟨text, -, rfl⟩ := List.mem_map.1 hline
    exact ⟨text, rfl⟩
  rw [texts, h, readable_append hok, readable_map_ok]

theorem exitLine?_eq (source : Source) :
    source.exitLine? =
      (source.texts.map Text.trim).findIdx? fun line => line = ":exit" ∨ line = ":quit" := by
  have hexit (line : String) :
      decide (IsExit line) = decide (Text.trim line = ":exit" ∨ Text.trim line = ":quit") :=
    decide_eq_decide.2 Iff.rfl
  rw [exitLine?, List.findIdx?_map]
  simp only [hexit, Function.comp_def]

end Source

/-- Answers to which blank characters at the ends of a line do not matter. -/
def IgnoresPadding (respond : Nat → String → σ → Reply σ) : Prop :=
  ∀ n line line' state, Text.trim line = Text.trim line' →
    respond n line state = respond n line' state

theorem IgnoresPadding.feed_eq (hrespond : IgnoresPadding respond)
    (h : lines.map Text.trim = lines'.map Text.trim) (rest : List (Except ReadFault String))
    (n : Nat) (state : σ) (p : Ports) :
    feed respond n (lines.map .ok ++ rest) state p =
      feed respond n (lines'.map .ok ++ rest) state p := by
  induction lines generalizing lines' n state p with
  | nil => rw [List.map_eq_nil_iff.1 h.symm]
  | cons line lines ih =>
    obtain ⟨line', lines', rfl, hline, hlines⟩ := List.map_eq_cons_iff.1 h.symm
    have hreply := hrespond n line line' state hline.symm
    rw [List.map_cons, List.map_cons, List.cons_append, List.cons_append]
    simp only [feed, hreply, ih hlines.symm]

theorem IgnoresPadding.replies_eq (hrespond : IgnoresPadding respond)
    (h : lines.map Text.trim = lines'.map Text.trim) (rest : List (Except ReadFault String))
    (n : Nat) (state : σ) :
    replies respond n (lines.map .ok ++ rest) state =
      replies respond n (lines'.map .ok ++ rest) state := by
  induction lines generalizing lines' n state with
  | nil => rw [List.map_eq_nil_iff.1 h.symm]
  | cons line lines ih =>
    obtain ⟨line', lines', rfl, hline, hlines⟩ := List.map_eq_cons_iff.1 h.symm
    have hreply := hrespond n line line' state hline.symm
    rw [List.map_cons, List.map_cons, List.cons_append, List.cons_append]
    simp only [replies, hreply, ih hlines.symm]

theorem Command.read_congr (h : Text.trim line = Text.trim line') : read line = read line' := by
  rw [read, h, read]

theorem MetaCommand.ofLine?_congr (h : Text.trim line = Text.trim line') :
    ofLine? line = ofLine? line' := by
  have hchars := congrArg String.toList h
  rw [Text.toList_trim, Text.toList_trim] at hchars
  rw [ofLine?, hchars, ofLine?]

namespace Session

theorem step_congr (h : Text.trim line = Text.trim line') (s : Session) :
    s.step line = s.step line' := by
  rw [step, Command.read_congr h, step]

theorem ignoresPadding_answer : IgnoresPadding answer := by
  rintro n line line' ⟨s, summary⟩ h
  rw [answer, step_congr h, answer]
  simp only [debugRow, h]

theorem ignoresPadding_respond : IgnoresPadding fun _ => Session.respond := by
  intro n line line' s h
  simp only [Session.respond, MetaCommand.ofLine?_congr h, step_congr h]

/-- The last line that a conversation answers is the one that asks to leave. -/
theorem length_replies_respond {lines : List (Except ReadFault String)} {k : Nat}
    (h : (readable lines).findIdx? (fun line => IsExit line) = some k) (n : Nat) (s : Session) :
    (replies (fun _ => Session.respond) n lines s).length = k + 1 := by
  induction lines generalizing k n s with
  | nil => cases h
  | cons line rest ih =>
    cases line with
    | error fault => cases h
    | ok text =>
      rw [readable, List.findIdx?_cons] at h
      rw [replies, List.length_cons]
      by_cases hexit : IsExit text
      · simp only [hexit, decide_true, if_true] at h
        cases h
        rw [respond_of_isExit hexit]
        rfl
      · simp only [hexit, decide_false, Bool.false_eq_true, if_false] at h
        obtain ⟨k, hk, rfl⟩ := Option.map_eq_some_iff.1 h
        rw [if_neg (stop_respond hexit s), ih hk]

/-- However the lines of a text are padded and ended, and whatever follows them, a script or a
conversation does the same with any ports, and a conversation gives the same answers up to the same
line, the one that asks to leave if there is one. -/
theorem run_converse_padded (s : Session) (hlines : ∀ line ∈ lines, OneLine line)
    (h : List.Forall₂ Padded lines texts) (h' : List.Forall₂ Padded lines texts') (u : Bytes)
    (fault? : Option ReadFault) :
    let source : Source := ⟨texts.flatMap Bytes.ofText ++ u, fault?⟩
    let source' : Source := ⟨texts'.flatMap Bytes.ofText ++ u, fault?⟩
    (∀ ports, s.run source ports = s.run source' ports ∧
        s.converse source ports = s.converse source' ports) ∧
      replies (fun _ => Session.respond) 1 source.lines s =
        replies (fun _ => Session.respond) 1 source'.lines s ∧
      source.exitLine? = source'.exitLine? ∧
      ∀ k, source.exitLine? = some k →
        (replies (fun _ => Session.respond) 1 source.lines s).length = k + 1 := by
  intro source source'
  obtain ⟨found, hfound, hsource⟩ := Source.lines_of_padded hlines h
  obtain ⟨found', hfound', hsource'⟩ := Source.lines_of_padded hlines h'
  have hsame : found.map Text.trim = found'.map Text.trim := hfound.trans hfound'.symm
  have hrun := ignoresPadding_answer.feed_eq hsame (⟨u, fault?⟩ : Source).lines 1 (s, {})
  have hconverse := ignoresPadding_respond.feed_eq hsame (⟨u, fault?⟩ : Source).lines 1 s
  have hreplies := ignoresPadding_respond.replies_eq hsame (⟨u, fault?⟩ : Source).lines 1 s
  rw [← hsource, ← hsource'] at hreplies
  simp only [← hsource, ← hsource'] at hrun hconverse
  refine ⟨fun ports => ⟨?_, hconverse ports⟩, hreplies, ?_,
    fun k hexit => length_replies_respond hexit 1 s⟩
  · simp only [run_eq_announce, announce, source, source', hrun]
  · rw [Source.exitLine?_eq, Source.exitLine?_eq, Source.texts_of_lines (hsource u fault?),
      Source.texts_of_lines (hsource' u fault?), List.map_append, List.map_append, hsame]

theorem run_converse_padded_wide_blanks :
    let s : Session := { table := .standard, debug := true }
    let lines := ["PLACE 1,2,EAST", "", "REPORT", ":quit", "MOVE"]
    let texts := ["PLACE 1,2,EAST\n", "\n", "REPORT\n", ":quit\n", "MOVE\n"]
    let texts' := ["\t\u3000PLACE 1,2,EAST\r\r\n", "\u00a0\r\n", "REPORT \x0b\n",
      "\u2028:quit\u0085\n", "MOVE\r\n"]
    let source : Source := ⟨texts.flatMap Bytes.ofText ++ [0xFF], some .broke⟩
    let source' : Source := ⟨texts'.flatMap Bytes.ofText ++ [0xFF], some .broke⟩
    let ports : Ports := ⟨⟨some 300, true, #[]⟩, ⟨some 5, false, #[]⟩⟩
    (∀ line ∈ lines, OneLine line) ∧ List.Forall₂ Padded lines texts ∧
      List.Forall₂ Padded lines texts' ∧ s.run source ports = s.run source' ports ∧
      s.converse source ports = s.converse source' ports ∧
      source.exitLine? = source'.exitLine? := by
  intro s lines texts texts'
  have hlines : ∀ line ∈ lines, OneLine line := by decide
  have hplain (line : String) : Padded line ("" ++ line ++ "" ++ "\n") :=
    .intro "" "" "\n" (by decide) (by decide) (.inl rfl)
  have h : List.Forall₂ Padded lines texts :=
    .cons (hplain _) (.cons (hplain _) (.cons (hplain _) (.cons (hplain _)
      (.cons (hplain _) .nil))))
  have h' : List.Forall₂ Padded lines texts' :=
    .cons (.intro "\t\u3000" "\r" "\r\n" (by decide) (by decide) (.inr rfl))
      (.cons (.intro "" "\u00a0" "\r\n" (by decide) (by decide) (.inr rfl))
        (.cons (.intro "" " \x0b" "\n" (by decide) (by decide) (.inl rfl))
          (.cons (.intro "\u2028" "\u0085" "\n" (by decide) (by decide) (.inl rfl))
            (.cons (.intro "" "" "\r\n" (by decide) (by decide) (.inr rfl)) .nil))))
  obtain ⟨hsame, -, hexit, -⟩ := s.run_converse_padded hlines h h' [0xFF] (some .broke)
  exact ⟨hlines, h, h', (hsame _).1, (hsame _).2, hexit⟩

end Session

end Tabletop
