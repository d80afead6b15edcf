import Tabletop.Session.Console

/-!
The lines that are about the session, by their trimmed text: what the console answers to each, and
that it never depends on whether diagnostics are wanted.
-/

namespace Tabletop

variable {line name : String}

/-- A line that the console does not pass on to the robot. -/
def IsMeta (line : String) : Prop :=
  (Text.trim line).toList.head? = some ':'

/-- A line that ends a conversation. -/
def IsExit (line : String) : Prop :=
  Text.trim line = ":exit" ∨ Text.trim line = ":quit"

instance (line : String) : Decidable (IsMeta line) :=
  inferInstanceAs (Decidable (_ = _))

instance (line : String) : Decidable (IsExit line) :=
  inferInstanceAs (Decidable (_ ∨ _))

theorem isMeta_iff : IsMeta line ↔ ∃ name, Text.trim line = ":" ++ name := by
  rw [IsMeta, List.head?_eq_some_iff]
  constructor
  · rintro ⟨cs, hcs⟩
    refine ⟨String.ofList cs, ?_⟩
    rw [← String.toList_inj, hcs]
    simp
  · rintro ⟨name, hname⟩
    rw [hname]
    exact ⟨name.toList, by simp⟩

theorem trim_ne_of_not_isMeta (h : ¬ IsMeta line) (name : String) :
    Text.trim line ≠ ":" ++ name :=
  fun htrim => h (isMeta_iff.2 ⟨name, htrim⟩)

theorem IsExit.isMeta (h : IsExit line) : IsMeta line := by
  rcases h with h | h
  · exact isMeta_iff.2 ⟨"exit", h⟩
  · exact isMeta_iff.2 ⟨"quit", h⟩

theorem trim_eq_colon_iff (h : Text.trim line = ":" ++ name) (known : String) :
    Text.trim line = ":" ++ known ↔ name = known := by
  rw [h, String.append_right_inj]

namespace MetaCommand

theorem ofLine?_of_trim (h : Text.trim line = ":" ++ name) :
    ofLine? line = some (ofName name) := by
  have hchars : Text.trimChars line.toList = ':' :: name.toList := by
    rw [← Text.toList_trim, h, String.toList_append]
    rfl
  simp only [ofLine?, hchars, String.ofList_toList]

theorem ofLine?_of_not_isMeta (h : ¬ IsMeta line) : ofLine? line = none := by
  unfold ofLine?
  split
  · next cs hcs =>
    rw [IsMeta, Text.toList_trim, hcs] at h
    exact (h rfl).elim
  · rfl

theorem ofName_eq (name : String) :
    ofName name =
      if name = "exit" ∨ name = "quit" then exit
      else if name = "help" then help
      else if name = "reset" then reset
      else if name = "state" then state
      else unknown name := by
  unfold ofName
  split
  · rfl
  · rfl
  · rfl
  · rfl
  · rfl
  · next hexit hquit hhelp hreset hstate =>
    rw [if_neg (not_or_intro hexit hquit), if_neg hhelp, if_neg hreset, if_neg hstate]

end MetaCommand

/-- What the console says to a meta line, except that it shows the state for `:state`. -/
def metaText (trimmed : String) : String :=
  if trimmed = ":help" then MetaCommand.helpText
  else if trimmed = ":reset" then "robot removed from the table"
  else "unknown meta command '" ++ trimmed ++ "' (try :help)"

namespace Session

/-- The line that shows a robot and its table. -/
def shown (t : Table) (r : Robot) : Emission :=
  ⟨.out, r.text ++ " (" ++ t.text ++ ")"⟩

theorem respond_of_isExit (h : IsExit line) (s : Session) :
    respond line s = { state := s, emissions := [], stop := true } := by
  obtain ⟨name, hname⟩ := isMeta_iff.1 h.isMeta
  have hexit : name = "exit" ∨ name = "quit" :=
    h.imp (trim_eq_colon_iff hname "exit").1 (trim_eq_colon_iff hname "quit").1
  rw [respond_of_meta (MetaCommand.ofLine?_of_trim hname), MetaCommand.ofName_eq, if_pos hexit]
  rfl

theorem respond_of_isMeta (h : IsMeta line) (hstay : ¬ IsExit line) (s : Session) :
    respond line s =
      { state := if Text.trim line = ":reset" then s.reset else s
        emissions :=
          [if Text.trim line = ":state" then shown s.table s.robot
            else ⟨.diag, metaText (Text.trim line)⟩] } := by
  obtain ⟨name, hname⟩ := isMeta_iff.1 h
  have hiff := trim_eq_colon_iff hname
  have hexit : ¬ (name = "exit" ∨ name = "quit") := by
    intro hn
    exact hstay (hn.imp (hiff "exit").2 (hiff "quit").2)
  have hhelp : Text.trim line = ":help" ↔ name = "help" := hiff "help"
  have hreset : Text.trim line = ":reset" ↔ name = "reset" := hiff "reset"
  have hstate : Text.trim line = ":state" ↔ name = "state" := hiff "state"
  rw [respond_of_meta (MetaCommand.ofLine?_of_trim hname), MetaCommand.ofName_eq, if_neg hexit]
  simp only [metaText, hhelp, hreset, hstate]
  split
  · next h =>
    subst h
    rfl
  · split
    · next h =>
      subst h
      rfl
    · split
      · next h =>
        subst h
        rfl
      · rw [hname]
        simp only [perform, ← String.append_assoc]
        rfl

theorem respond_of_not_isMeta (h : ¬ IsMeta line) (s : Session) :
    respond line s =
      { state := (s.step line).1, emissions := (s.step line).1.emissions (s.step line).2 } :=
  respond_of_command (MetaCommand.ofLine?_of_not_isMeta h) s

end Session

end Tabletop
