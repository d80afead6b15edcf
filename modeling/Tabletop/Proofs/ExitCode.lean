import Tabletop.Libraries
import Tabletop.Proofs.Arguments
import Tabletop.Proofs.Conversation
import Tabletop.Proofs.ReadFailure
import Tabletop.Proofs.Resolution

/-!
How the program ends: of everything that can go wrong before a line is read the first thing decides,
and afterwards only a line that is reached and cannot be read.
-/

namespace Tabletop

namespace Task

/-- The lines after which nothing more is read. -/
def leaves : Task → String → Bool
  | run _, _ => false
  | repl _, line => decide (IsExit line)

/-- What becomes of lines once the table is settled on. -/
def conclude (table : Table) (source : Source) : Task → Conclusion
  | run a =>
    .ofEnding <| Session.run { table, diagnostics := !a.quiet, debug := a.debug } source {}
  | repl a => .ofEnding <| Session.converse { table, diagnostics := !a.quiet } source {}

variable {t : Task} {source : Source} {k : Nat} {fault : ReadFault}

theorem stop_respond_eq (a : ReplArguments) (_ : Nat) (line : String) (s : Session) :
    (Session.respond line s).stop = (repl a).leaves line := by
  by_cases hexit : IsExit line
  · rw [Session.respond_of_isExit hexit]
    exact (decide_eq_true hexit).symm
  · rw [Bool.eq_false_iff.2 (Session.stop_respond hexit s)]
    exact (decide_eq_false hexit).symm

theorem conclude_of_readable
    (hok : ∀ line ∈ reached t.leaves source.lines, ∃ text, line = .ok text) (table : Table) :
    (t.conclude table source).code = 0 := by
  have hu : Ports.Reliable {} := .refl _
  cases t with
  | run a =>
    simp only [conclude, Session.run_of_reliable hu, Conclusion.ofEnding]
    rw [feed_failure_of_reached Session.printsDiagFirst_answer Session.answer_stop (hu.printed _)
      hok]
    rfl
  | repl a =>
    simp only [conclude, Session.converse, Conclusion.ofEnding]
    rw [feed_failure_of_reached Session.printsDiagFirst_respond (stop_respond_eq a) hu hok]
    rfl

/-- Up to a line that cannot be read everything is as if the input ended there. -/
theorem conclude_of_unreadable
    (hok : ∀ line ∈ (reached t.leaves source.lines).take k, ∃ text, line = .ok text)
    (herror : (reached t.leaves source.lines)[k]? = some (.error fault)) (table : Table) :
    ∃ ports, t.conclude table source = .finished ports (some (.session (.read (1 + k) fault))) ∧
      t.conclude table (source.firstLines k) = .finished ports none := by
  have hu : Ports.Reliable {} := .refl _
  have hlength : k ≤ (reached t.leaves source.lines).length :=
    Nat.le_of_lt (List.getElem?_eq_some_iff.1 herror).1
  have hfirst : (source.firstLines k).lines = source.lines.take k := by
    apply Source.lines_firstLines _ (Nat.le_refl k)
    rw [take_eq_take_reached hlength]
    exact hok
  cases t with
  | run a =>
    simp only [conclude, Session.run_of_reliable hu, Conclusion.ofEnding, hfirst]
    obtain ⟨hwhole, hbefore⟩ := feed_of_unreadable Session.printsDiagFirst_answer
      Session.answer_stop (hu.printed _) hok herror
    rw [hwhole, hbefore]
    exact ⟨_, rfl, rfl⟩
  | repl a =>
    simp only [conclude, Session.converse, Conclusion.ofEnding, hfirst]
    obtain ⟨hwhole, hbefore⟩ := feed_of_unreadable Session.printsDiagFirst_respond
      (stop_respond_eq a) hu hok herror
    rw [hwhole, hbefore]
    exact ⟨_, rfl, rfl⟩

theorem conclude_code_eq_zero_iff (t : Task) (table : Table) (source : Source) :
    (t.conclude table source).code = 0 ↔
      ∀ line ∈ reached t.leaves source.lines, ∃ text, line = .ok text := by
  constructor
  · intro hcode
    by_contra hnot
    obtain ⟨k, fault, hok, herror⟩ := exists_unreadable hnot
    obtain ⟨ports, hports, -⟩ := conclude_of_unreadable hok herror table
    rw [hports] at hcode
    cases hcode
  · intro hok
    exact conclude_of_readable hok table

end Task

/-- A mode as it is named in the environment, blanks around it and case aside. -/
def Mode.folded (raw : String) : String :=
  String.ofList ((Text.trim raw).toList.map Char.toLower)

namespace World

/-- What is wrong with the wish for a mode: the option decides, and without one the environment. -/
inductive ModeFault (w : World) : Option Mode → ModeError → Prop where
  | editor : ModeFault w (some .editor) (.noTerminal true)
  | namesEditor {raw : String} (hraw : w.environment Mode.envName = some raw)
      (hname : Mode.folded raw = "editor") : ModeFault w none (.noTerminal false)
  | unknown {raw : String} (hraw : w.environment Mode.envName = some raw)
      (hbare : Mode.folded raw ≠ "bare") (heditor : Mode.folded raw ≠ "editor") :
      ModeFault w none (.unknown raw)

/-- The first trouble there is before any line is read: with the mode of a session, then with the
table, and then with the handler of interrupts or the file of a script. -/
inductive Refuses (lib : Libraries) (w : World) : Task → Trouble → Prop where
  | mode {a : ReplArguments} {e : ModeError} (hmode : w.ModeFault a.mode? e) :
      Refuses lib w (.repl a) (.mode e)
  | boundsOfSession {a : ReplArguments} {e : BoundsError} (hmode : ∀ e, ¬ w.ModeFault a.mode? e)
      (htable : w.table lib a.table = .error e) : Refuses lib w (.repl a) (.bounds e)
  | handler {a : ReplArguments} {table : Table} {description : String}
      (hmode : ∀ e, ¬ w.ModeFault a.mode? e) (htable : w.table lib a.table = .ok table)
      (hhandler : w.handlerFault? = some description) :
      Refuses lib w (.repl a) (.handler description)
  | boundsOfScript {a : RunArguments} {e : BoundsError} (htable : w.table lib a.table = .error e) :
      Refuses lib w (.run a) (.bounds e)
  | commandFile {a : RunArguments} {table : Table} {path : String} {e : FileError}
      (htable : w.table lib a.table = .ok table) (hpath : a.file? = some path)
      (hfile : w.files.entryAt path = .error e) : Refuses lib w (.run a) (.commandFile path e)

/-- There is no such trouble: the table that is settled on, and where the lines come from. -/
inductive Opens (lib : Libraries) (w : World) : Task → Table → Source → Prop where
  | session {a : ReplArguments} {table : Table} (hmode : ∀ e, ¬ w.ModeFault a.mode? e)
      (htable : w.table lib a.table = .ok table) (hhandler : w.handlerFault? = none) :
      Opens lib w (.repl a) table w.stdin
  | script {a : RunArguments} {table : Table} {source : Source}
      (htable : w.table lib a.table = .ok table) (hsource : w.openScript a.file? = .ok source) :
      Opens lib w (.run a) table source

/-- The path of the configuration: of the one that is named, or else of the one looked for. -/
def configPath? (lib : Libraries) (w : World) (a : TableArguments) : Option String :=
  a.config?.or (w.implicitConfig? lib)

/-- Surroundings that are alike as far as they are looked at before any line is read. -/
structure AgreesBeforeReading (lib : Libraries) (w : World) (t : Task) (w' : World) : Prop where
  environment : w'.environment = w.environment
  handler : w'.handlerFault? = w.handlerFault?
  config : ∀ path, w.configPath? lib t.table = some path →
    w'.files.entryAt path = w.files.entryAt path
  unopened : ∀ path e, t.file? = some path → w.files.entryAt path = .error e →
    w'.files.entryAt path = .error e

/-- The same surroundings with something else to read: in the place of the script, or on standard
input. -/
def withInput (w : World) (t : Task) (bytes : Bytes) : World :=
  match t.file? with
  | none => { w with stdin := { bytes } }
  | some path =>
    match w.files.locate path with
    | .ok place => { w with files := w.files.put place bytes }
    | .error _ => w

variable {lib : Libraries} {w w' : World} {t : Task} {trouble : Trouble} {table : Table}
variable {source : Source} {mode? : Option Mode} {program : String} {words : List String}
variable {options : TableArguments}

theorem checkMode_of_modeFault {e : ModeError} (h : w.ModeFault mode? e) :
    w.checkMode mode? = .error e := by
  cases h with
  | editor => rfl
  | namesEditor hraw hname =>
    rw [Mode.folded, Text.toList_trim] at hname
    simp only [checkMode, hraw, hname]
  | unknown hraw hbare heditor =>
    rw [Mode.folded, Text.toList_trim] at hbare heditor
    simp only [checkMode, hraw]

theorem checkMode_or_modeFault (w : World) (mode? : Option Mode) :
    (∃ e, w.ModeFault mode? e) ∨ w.checkMode mode? = .ok () := by
  cases mode? with
  | some mode =>
    cases mode with
    | bare => exact .inr rfl
    | editor => exact .inl ⟨_, .editor⟩
  | none =>
    cases hraw : w.environment Mode.envName with
    | none => exact .inr (by simp only [checkMode, hraw])
    | some raw =>
      by_cases hbare : Mode.folded raw = "bare"
      · rw [Mode.folded, Text.toList_trim] at hbare
        exact .inr (by simp only [checkMode, hraw, hbare])
      · by_cases heditor : Mode.folded raw = "editor"
        · exact .inl ⟨_, .namesEditor hraw heditor⟩
        · exact .inl ⟨_, .unknown hraw hbare heditor⟩

theorem checkMode_of_not_modeFault (h : ∀ e, ¬ w.ModeFault mode? e) :
    w.checkMode mode? = .ok () := by
  rcases w.checkMode_or_modeFault mode? with ⟨e, he⟩ | hok
  · exact (h e he).elim
  · exact hok

theorem modeFault_congr (h : w'.environment = w.environment) {e : ModeError}
    (hmode : w'.ModeFault mode? e) : w.ModeFault mode? e := by
  cases hmode with
  | editor => exact .editor
  | namesEditor hraw hname => exact .namesEditor (h ▸ hraw) hname
  | unknown hraw hbare heditor => exact .unknown (h ▸ hraw) hbare heditor

/-- The table depends on the environment and on one file. -/
theorem table_congr (henvironment : w'.environment = w.environment)
    (hconfig : ∀ path, w.configPath? lib options = some path →
      w'.files.entryAt path = w.files.entryAt path) :
    w'.table lib options = w.table lib options := by
  rw [table, table, implicitConfig?, henvironment, ← implicitConfig?, Bounds.resolve,
    Bounds.resolve, Bounds.ofConfig_congr hconfig]

theorem AgreesBeforeReading.table_eq (h : w.AgreesBeforeReading lib t w') :
    w'.table lib t.table = w.table lib t.table :=
  table_congr h.environment h.config

theorem AgreesBeforeReading.refuses (h : w.AgreesBeforeReading lib t w')
    (ht : w.Refuses lib t trouble) : w'.Refuses lib t trouble := by
  have hmode' {mode? : Option Mode} (hmode : ∀ e, ¬ w.ModeFault mode? e) :
      ∀ e, ¬ w'.ModeFault mode? e :=
    fun e he => hmode e (modeFault_congr h.environment he)
  cases ht with
  | mode hmode => exact .mode (modeFault_congr h.environment.symm hmode)
  | boundsOfSession hmode htable =>
    exact .boundsOfSession (hmode' hmode) (h.table_eq.trans htable)
  | handler hmode htable hhandler =>
    exact .handler (hmode' hmode) (h.table_eq.trans htable) (h.handler.trans hhandler)
  | boundsOfScript htable => exact .boundsOfScript (h.table_eq.trans htable)
  | commandFile htable hpath hfile =>
    exact .commandFile (h.table_eq.trans htable) hpath (h.unopened _ _ hpath hfile)

theorem openScript_eq_error {file? : Option String} {path : String} {e : FileError}
    (hpath : file? = some path) (h : w.files.entryAt path = .error e) :
    w.openScript file? = .error e := by
  simp only [openScript, hpath, h]

theorem openScript_or_error (w : World) (file? : Option String) :
    (∃ source, w.openScript file? = .ok source) ∨
      ∃ path e, file? = some path ∧ w.files.entryAt path = .error e := by
  cases file? with
  | none => exact .inl ⟨_, rfl⟩
  | some path =>
    cases h : w.files.entryAt path with
    | error e => exact .inr ⟨path, e, rfl, h⟩
    | ok entry =>
      cases entry with
      | file bytes => exact .inl ⟨⟨bytes, none⟩, by simp only [openScript, h]⟩
      | directory => exact .inl ⟨⟨[], some .isDirectory⟩, by simp only [openScript, h]⟩

theorem refuses_or_opens (lib : Libraries) (w : World) (t : Task) :
    (∃ trouble, w.Refuses lib t trouble) ∨ ∃ table source, w.Opens lib t table source := by
  cases t with
  | run a =>
    cases htable : w.table lib a.table with
    | error e => exact .inl ⟨_, .boundsOfScript htable⟩
    | ok table =>
      rcases w.openScript_or_error a.file? with ⟨source, hsource⟩ | ⟨path, e, hpath, hfile⟩
      · exact .inr ⟨table, source, .script htable hsource⟩
      · exact .inl ⟨_, .commandFile htable hpath hfile⟩
  | repl a =>
    by_cases hmode : ∃ e, w.ModeFault a.mode? e
    · obtain ⟨e, he⟩ := hmode
      exact .inl ⟨_, .mode he⟩
    · have hnone : ∀ e, ¬ w.ModeFault a.mode? e := fun e he => hmode ⟨e, he⟩
      cases htable : w.table lib a.table with
      | error e => exact .inl ⟨_, .boundsOfSession hnone htable⟩
      | ok table =>
        cases hhandler : w.handlerFault? with
        | some description => exact .inl ⟨_, .handler hnone htable hhandler⟩
        | none => exact .inr ⟨table, w.stdin, .session hnone htable hhandler⟩

theorem perform_run {a : RunArguments} (hhelp : (Task.run a).help = false) :
    w.perform lib program (.run a) = w.run lib a :=
  if_neg (Bool.eq_false_iff.1 hhelp)

theorem perform_repl {a : ReplArguments} (hhelp : (Task.repl a).help = false) :
    w.perform lib program (.repl a) = w.repl lib a :=
  if_neg (Bool.eq_false_iff.1 hhelp)

theorem perform_of_refuses (hhelp : t.help = false) (h : w.Refuses lib t trouble) :
    w.perform lib program t = .refused trouble := by
  cases h with
  | mode hmode =>
    simp only [perform_repl hhelp, repl, checkMode_of_modeFault hmode]
  | boundsOfSession hmode htable =>
    simp only [perform_repl hhelp, repl, checkMode_of_not_modeFault hmode, htable]
  | handler hmode htable hhandler =>
    simp only [perform_repl hhelp, repl, checkMode_of_not_modeFault hmode, htable, hhandler]
  | boundsOfScript htable =>
    simp only [perform_run hhelp, run, htable]
  | commandFile htable hpath hfile =>
    simp only [perform_run hhelp, run, htable, openScript_eq_error hpath hfile]
    rw [hpath, Option.getD_some]

theorem perform_of_opens (hhelp : t.help = false) (h : w.Opens lib t table source) :
    w.perform lib program t = t.conclude table source := by
  cases h with
  | session hmode htable hhandler =>
    simp only [perform_repl hhelp, repl, checkMode_of_not_modeFault hmode, htable, hhandler]
    rfl
  | script htable hsource =>
    simp only [perform_run hhelp, run, htable, hsource]
    rfl

/-- Of a file that serves as a named configuration every line can be read. -/
theorem lines_of_config {config script : String} (hconfig : options.config? = some config)
    (htable : w.table lib options = .ok table)
    (hsame : w.files.entryAt script = w.files.entryAt config)
    (hsource : w.openScript (some script) = .ok source) :
    ∀ line ∈ source.lines, ∃ text, line = .ok text := by
  rcases Bounds.faulty_or_holds lib.bounds w.files config with ⟨e, hfaulty⟩ | ⟨b, text, htext, -⟩
  · rw [World.table, hconfig, Bounds.resolve_of_faulty hfaulty] at htable
    cases htable
  · rw [Files.text_eq_ok_iff, ← hsame] at htext
    simp only [openScript, htext] at hsource
    cases hsource
    apply Source.lines_of_isText
    rw [Bytes.IsText, Bytes.text?_ofText]
    rfl

/-- The file of a script is at the same time the configuration that is looked for. -/
def ReadsConfigAsScript (lib : Libraries) (w : World) (t : Task) : Prop :=
  t.table.config? = none ∧ ∃ script config place, t.file? = some script ∧
    w.implicitConfig? lib = some config ∧ w.files.locate script = .ok place ∧
    w.files.locate config = .ok place

theorem withInput_environment (w : World) (t : Task) (bytes : Bytes) :
    (w.withInput t bytes).environment = w.environment := by
  unfold withInput
  repeat' split
  all_goals rfl

theorem withInput_handlerFault? (w : World) (t : Task) (bytes : Bytes) :
    (w.withInput t bytes).handlerFault? = w.handlerFault? := by
  unfold withInput
  repeat' split
  all_goals rfl

theorem withInput_entryAt {path : String}
    (h : ∀ script place, t.file? = some script → w.files.locate script = .ok place →
      w.files.locate path ≠ .ok place) (bytes : Bytes) :
    (w.withInput t bytes).files.entryAt path = w.files.entryAt path := by
  unfold withInput
  split
  · rfl
  · next script hscript =>
    split
    · next place hplace => exact Files.entryAt_put_of_ne (h script place hscript hplace) bytes
    · rfl

theorem withInput_openScript {a : RunArguments} (hsource : w.openScript a.file? = .ok source)
    (bytes : Bytes) : (w.withInput (.run a) bytes).openScript a.file? = .ok ⟨bytes, none⟩ := by
  have hfile : (Task.run a).file? = a.file? := rfl
  cases hpath : a.file? with
  | none => simp only [withInput, hfile, hpath, openScript]
  | some path =>
    cases hplace : w.files.locate path with
    | ok place => simp only [withInput, hfile, hpath, hplace, openScript, Files.entryAt_put hplace]
    | error e =>
      have hentry : w.files.entryAt path = .error e := by
        rw [Files.entryAt, hplace]
        rfl
      rw [openScript_eq_error hpath hentry] at hsource
      cases hsource

theorem Opens.withInput (h : w.Opens lib t table source) {bytes : Bytes}
    (htable : (w.withInput t bytes).table lib t.table = w.table lib t.table) :
    (w.withInput t bytes).Opens lib t table ⟨bytes, none⟩ := by
  cases h with
  | @session a _ hmode hsettled hhandler =>
    have hmode' : ∀ e, ¬ (w.withInput (.repl a) bytes).ModeFault a.mode? e := by
      intro e he
      exact hmode e (modeFault_congr (w.withInput_environment (.repl a) bytes) he)
    have hhandler' := (w.withInput_handlerFault? (.repl a) bytes).trans hhandler
    exact Opens.session hmode' (htable.trans hsettled) hhandler'
  | script hsettled hsource =>
    exact .script (htable.trans hsettled) (withInput_openScript hsource bytes)

/-- An input with a line that cannot be read is no named configuration, so that only its first
lines may stand in its place. -/
theorem Opens.firstLines {fault : ReadFault} (h : w.Opens lib t table source)
    (hmem : .error fault ∈ source.lines) (hconfig : ¬ w.ReadsConfigAsScript lib t) (k : Nat) :
    (w.withInput t (source.firstLines k).bytes).Opens lib t table (source.firstLines k) := by
  refine h.withInput (table_congr (w.withInput_environment t _) fun path hpath => ?_)
  refine withInput_entryAt (fun script place hscript hplace hsame => ?_) _
  cases h with
  | session => cases hscript
  | @script a _ _ htable hsource =>
    rw [configPath?] at hpath
    cases hexplicit : a.table.config? with
    | none =>
      have hpath : w.implicitConfig? lib = some path := by
        rwa [Task.table, hexplicit, Option.none_or] at hpath
      exact hconfig ⟨hexplicit, script, path, place, hscript, hpath, hplace, hsame⟩
    | some config =>
      rw [Task.table, hexplicit, Option.some_or, Option.some.injEq] at hpath
      have hentry : w.files.entryAt script = w.files.entryAt config := by
        rw [Files.entryAt, Files.entryAt, hplace, hpath, hsame]
      have hscript : a.file? = some script := hscript
      rw [hscript] at hsource
      obtain ⟨text, htext⟩ := lines_of_config hexplicit htable hentry hsource _ hmem
      cases htext

/-- The text that tells what went wrong, after the name of the program. -/
def told (program message : String) : Bytes :=
  Bytes.ofText (program ++ ": " ++ message ++ "\n")

/-- The exit code, and what is written when it is not zero, whatever reads the arguments and the
configuration. The first trouble before any line is read decides, and whatever there is to be read
does not change it. Without such trouble the code is zero just if every line that is reached can be
read; before the first that cannot, all is written that its lines before it alone would have written.
Those lines may be put in the place of the input unless that is also the configuration that is looked
for, where they might settle on another table. -/
theorem execute_exits (program : String) {a : Arguments}
    (hread : lib.arguments program words = .ok a) (hhelp : a.help = false)
    (htask : a.task.help = false) :
    let e := w.execute lib program words
    let t := a.task
    ((∃ trouble, w.Refuses lib t trouble) ∨ ∃ table source, w.Opens lib t table source) ∧
      (∀ trouble, w.Refuses lib t trouble →
        (e.code = 1 ∧ e.out = [] ∧ e.diag program = told program trouble.message) ∧
          ∀ w', w.AgreesBeforeReading lib t w' → w'.execute lib program words = e) ∧
      ∀ table source, w.Opens lib t table source →
        let lines := reached t.leaves source.lines
        (e.code = 0 ↔ ∀ line ∈ lines, ∃ text, line = .ok text) ∧
          ∀ k fault, (∀ line ∈ lines.take k, ∃ text, line = .ok text) →
            lines[k]? = some (.error fault) →
            e.code = 1 ∧
              (∀ w' : World, w'.Opens lib t table (source.firstLines k) →
                let before := w'.execute lib program words
                before.code = 0 ∧ e.out = before.out ∧
                  e.diag program = before.diag program ++
                    told program ("failed to read input at line " ++ toString (k + 1) ++ ": " ++
                      fault.message)) ∧
              (¬ w.ReadsConfigAsScript lib t →
                (w.withInput t (source.firstLines k).bytes).Opens lib t table
                  (source.firstLines k)) := by
  intro e t
  have hexecute (w : World) : w.execute lib program words = w.perform lib program t :=
    execute_of_read hread hhelp
  refine ⟨refuses_or_opens lib w t, ?refused, ?opened⟩
  case refused =>
    intro trouble htrouble
    have he : e = .refused trouble := (hexecute w).trans (perform_of_refuses htask htrouble)
    refine ⟨?_, ?_⟩
    · rw [he]
      exact ⟨rfl, rfl, rfl⟩
    · intro w' hw'
      rw [he, hexecute]
      exact perform_of_refuses htask (hw'.refuses htrouble)
  case opened =>
    intro table source hopens lines
    have he : e = t.conclude table source := (hexecute w).trans (perform_of_opens htask hopens)
    refine ⟨?_, ?_⟩
    · rw [he]
      exact t.conclude_code_eq_zero_iff table source
    · intro k fault hok herror
      obtain ⟨ports, hports, hbefore⟩ := Task.conclude_of_unreadable hok herror table
      rw [he, hports]
      refine ⟨rfl, ?_, ?_⟩
      · intro w' hw'
        rw [hexecute, perform_of_opens htask hw', hbefore, Nat.add_comm 1 k]
        exact ⟨rfl, rfl, rfl⟩
      · intro hconfig
        have hmem : .error fault ∈ source.lines :=
          (List.takeWhile_prefix _).subset (List.mem_of_getElem? herror)
        exact hopens.firstLines hmem hconfig k

theorem execute_exits_of_cut_script :
    let script := Bytes.ofText "PLACE 1,2,EAST\nREPORT\njump\n" ++ [0xFF, 0x0A]
    let lib := Libraries.standard
    let w : World :=
      { stdin := { bytes := [] }
        environment := fun name => if name = Mode.envName then some "vi" else none
        files :=
          { locate := fun path => if path = "moves.txt" then .ok 0 else .error .notFound
            entry := fun _ => .ok (.file script) } }
    let t : Task := .run { file? := some "moves.txt", debug := true }
    let words := ["run", "-df", "moves.txt"]
    let e := w.execute lib "robot" words
    let before := (w.withInput t (Bytes.firstLines 3 script)).execute lib "robot" words
    (w.execute lib "robot" []).code = 1 ∧ e.code = 1 ∧ before.code = 0 ∧ e.out = before.out ∧
      e.diag "robot" = before.diag "robot" ++
        told "robot" ("failed to read input at line 4: " ++ ReadFault.notUtf8.message) := by
  intro script lib w t words e before
  have hsession : lib.arguments "robot" [] = .ok {} := rfl
  have hscript : lib.arguments "robot" words = .ok { task? := some t } :=
    Arguments.read_eq_ok_iff.2 (by decide +kernel)
  have hmode : w.Refuses lib (.repl {}) (.mode (.unknown "vi")) :=
    .mode (.unknown rfl (by decide) (by decide))
  have hopens : w.Opens lib t .standard ⟨script, none⟩ := .script rfl rfl
  have hconfig : ¬ w.ReadsConfigAsScript lib t := by
    rintro ⟨-, script, config, place, -, himplicit, -⟩
    cases himplicit
  have hlines : reached t.leaves (⟨script, none⟩ : Source).lines =
      [.ok "PLACE 1,2,EAST", .ok "REPORT", .ok "jump", .error .notUtf8] := rfl
  have hok : ∀ line ∈ (reached t.leaves (⟨script, none⟩ : Source).lines).take 3,
      ∃ text, line = .ok text := by
    rw [hlines]
    simp
  obtain ⟨-, hrefuses, -⟩ := execute_exits (w := w) "robot" hsession rfl rfl
  obtain ⟨-, -, hends⟩ := execute_exits (w := w) "robot" hscript rfl rfl
  obtain ⟨⟨hrefused, -, -⟩, -⟩ := hrefuses _ hmode
  obtain ⟨hcode, hbefore, hopensBefore⟩ :=
    (hends _ _ hopens).2 3 .notUtf8 hok rfl
  obtain ⟨hbeforeCode, hout, hdiag⟩ := hbefore _ (hopensBefore hconfig)
  exact ⟨hrefused, hcode, hbeforeCode, hout, hdiag⟩

/-- A script that is also the configuration looked for: as a whole it is no text, and the standard
table is settled on; its lines that can be read are a configuration with a smaller table. -/
theorem execute_differs_on_configuration :
    let path := "./.config/robot.toml"
    let script := Bytes.ofText
      "[table]\nmax_x = 1\nnote = \"\"\"\nPLACE 3,3,NORTH\nREPORT\n\"\"\"\n" ++ [0xFF]
    let lib := Libraries.standard
    let w : World :=
      { stdin := { bytes := [] }
        environment := fun name => if name = "HOME" then some "." else none
        files :=
          { locate := fun p => if p = path then .ok 0 else .error .notFound
            entry := fun _ => .ok (.file script) } }
    let t : Task := .run { file? := some path, quiet := true }
    let words := ["run", "-qf", path]
    let lines := reached t.leaves (⟨script, none⟩ : Source).lines
    let before := w.withInput t (Bytes.firstLines 6 script)
    lib.arguments "robot" words = .ok { task? := some t } ∧
      w.Opens lib t .standard ⟨script, none⟩ ∧
      (∀ line ∈ lines.take 6, ∃ text, line = .ok text) ∧ lines[6]? = some (.error .notUtf8) ∧
      ¬ (w.execute lib "robot" words).out = (before.execute lib "robot" words).out := by
  intro path script lib w t words lines before
  have hsource : (⟨script, none⟩ : Source).lines =
      [.ok "[table]", .ok "max_x = 1", .ok "note = \"\"\"", .ok "PLACE 3,3,NORTH", .ok "REPORT",
        .ok "\"\"\"", .error .notUtf8] := by
    simp only [script]
    rfl
  have hlines : lines = (⟨script, none⟩ : Source).lines := by
    change reached t.leaves (⟨script, none⟩ : Source).lines = _
    rw [hsource]
    rfl
  have htext : script.text? = none := by decide +kernel
  have hentry : w.files.entryAt path = .ok (.file script) := rfl
  have hread : w.files.text path = .error .notUtf8 := by
    simp only [Files.text, hentry, htext]
  have htable : w.table lib {} = .ok .standard := by
    apply Bounds.resolve_of_resolves (.spoiled (.read hread))
    exact .settled .standard .standard (by decide) (by decide)
  have hopens : w.Opens lib t .standard ⟨script, none⟩ := .script htable rfl
  refine ⟨Arguments.read_eq_ok_iff.2 (by decide +kernel), hopens, ?_, ?_, ?_⟩
  · rw [hlines, hsource]
    simp
  · rw [hlines, hsource]
    rfl
  · decide +kernel

end World

end Tabletop
