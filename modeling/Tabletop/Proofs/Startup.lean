import Tabletop.Libraries
import Tabletop.Proofs.Arguments
import Tabletop.Proofs.Replay

/-!
The ways to start the program. Without meta commands in the input, a session and a script are the
same, however they are asked for; and a script in a file is one on standard input.
-/

namespace Tabletop

/-- The arguments that ask for a session on standard input, with a choice of diagnostics and options
about the table. -/
inductive Arguments.Starts (quiet : Bool) (table : TableArguments) : Arguments → Prop where
  | run : Starts quiet table { task? := some (.run { quiet, table }) }
  | repl : Starts quiet table { task? := some (.repl { quiet, table }) }
  | bare : Starts quiet table { task? := some (.repl { bare := true, quiet, table }) }
  | nothing (hquiet : quiet = false) (htable : table = {}) : Starts quiet table {}

namespace World

/-- Surroundings in which a session is a plain one unless asked for otherwise. -/
def AllowsBare (w : World) : Prop :=
  ∀ raw, w.environment Mode.envName = some raw →
    String.ofList ((Text.trim raw).toList.map Char.toLower) = "bare"

variable {lib : Libraries} {w : World} {program : String} {words : List String}
variable {quiet : Bool} {table : TableArguments} {a : Arguments}

theorem checkMode_of_allowsBare (h : w.AllowsBare) : w.checkMode none = .ok () := by
  rw [checkMode]
  split
  · rfl
  · next raw hraw =>
    have hbare := h raw hraw
    rw [Text.toList_trim] at hbare
    rw [hbare]
    rfl

section Sessions

variable (hplain : ∀ text, .ok text ∈ w.stdin.lines → ¬ IsMeta text)
variable (hhandler : w.handlerFault? = none)
include hplain hhandler

theorem repl_eq_run (r : ReplArguments) (hmode : w.checkMode r.mode? = .ok ()) :
    w.repl lib r = w.run lib { quiet := r.quiet, table := r.table } := by
  rw [repl, run, hmode, hhandler]
  cases w.table lib r.table with
  | error e => rfl
  | ok table =>
    let s : Session := { table, diagnostics := !r.quiet }
    have hconverse : s.converse w.stdin {} = (s.run w.stdin {}).map Prod.fst :=
      Session.converse_eq_run rfl hplain {}
    exact congrArg Conclusion.ofEnding hconverse

theorem perform_of_starts (hbare : w.AllowsBare) (h : a.Starts quiet table) :
    w.perform lib program a.task = w.run lib { quiet, table } := by
  have hmode : w.checkMode none = .ok () := checkMode_of_allowsBare hbare
  cases h with
  | run => rfl
  | repl => exact repl_eq_run hplain hhandler { quiet, table } hmode
  | bare => exact repl_eq_run hplain hhandler { bare := true, quiet, table } rfl
  | nothing hquiet htable =>
    rw [hquiet, htable]
    exact repl_eq_run hplain hhandler {} hmode

theorem execute_of_starts (hbare : w.AllowsBare) (hread : lib.arguments program words = .ok a)
    (h : a.Starts quiet table) :
    w.execute lib program words = w.run lib { quiet, table } := by
  have hhelp : a.help = false := by cases h <;> rfl
  rw [execute_of_read hread hhelp]
  exact perform_of_starts hplain hhandler hbare h

end Sessions

theorem execute_file {path : String} {bytes : Bytes} {r : RunArguments}
    (hpath : w.files.entryAt path = .ok (.file bytes)) (hfile : r.file? = none)
    {withFile without : List String}
    (hwith : lib.arguments program withFile =
      .ok { task? := some (.run { r with file? := some path }) })
    (hwithout : lib.arguments program without = .ok { task? := some (.run r) }) :
    w.execute lib program withFile =
      { w with stdin := { bytes } }.execute lib program without := by
  have hrun : w.run lib { r with file? := some path } =
      { w with stdin := { bytes } }.run lib r := by
    have htable : w.table lib r.table = { w with stdin := { bytes } }.table lib r.table := rfl
    simp only [run, htable, hfile, openScript, hpath]
  rw [execute_of_read hwith rfl, execute_of_read hwithout rfl]
  simp only [Arguments.task, Option.getD_some, perform, hrun]

/-- Where no line is a meta command, all arguments that ask for a plain session with the same options
make the program end alike, and a script in a file ends like one on standard input. If words are read
as they should be, the subcommands ask for that in the same words, and so does no word at all. -/
theorem execute_agree (lib : Libraries) (w : World) (program : String) :
    ((∀ text, .ok text ∈ w.stdin.lines → ¬ IsMeta text) → w.AllowsBare → w.handlerFault? = none →
      (∀ quiet table first second a b,
        lib.arguments program first = .ok a → a.Starts quiet table →
        lib.arguments program second = .ok b → b.Starts quiet table →
        w.execute lib program first = w.execute lib program second) ∧
      (ReadsArguments (lib.arguments program) →
        (∀ words (r : RunArguments),
          lib.arguments program ("run" :: words) = .ok { task? := some (.run r) } →
          r.file? = none → r.debug = false → r.help = false →
          w.execute lib program ("repl" :: words) = w.execute lib program ("run" :: words) ∧
          w.execute lib program ("repl" :: "--bare" :: words) =
            w.execute lib program ("run" :: words)) ∧
        ∀ words ∈ [["run"], ["repl"], ["repl", "--bare"]],
          w.execute lib program [] = w.execute lib program words)) ∧
    ∀ path bytes (r : RunArguments), w.files.entryAt path = .ok (.file bytes) → r.file? = none →
      (∀ withFile without,
        lib.arguments program withFile =
          .ok { task? := some (.run { r with file? := some path }) } →
        lib.arguments program without = .ok { task? := some (.run r) } →
        w.execute lib program withFile =
          { w with stdin := { bytes } }.execute lib program without) ∧
      (ReadsArguments (lib.arguments program) → ∀ words,
        lib.arguments program ("run" :: words) = .ok { task? := some (.run r) } →
        w.execute lib program ("run" :: ("--file=" ++ path) :: words) =
          { w with stdin := { bytes } }.execute lib program ("run" :: words) ∧
        (path.toList.head? ≠ some '-' →
          w.execute lib program ("run" :: "--file" :: path :: words) =
            { w with stdin := { bytes } }.execute lib program ("run" :: words))) := by
  refine ⟨fun hplain hbare hhandler => ⟨?_, fun hwords => ⟨?_, ?_⟩⟩,
    fun path bytes r hpath hfile => ⟨?_, ?_⟩⟩
  · intro quiet table first second a b ha hfirst hb hsecond
    rw [execute_of_starts hplain hhandler hbare ha hfirst,
      execute_of_starts hplain hhandler hbare hb hsecond]
  · intro words r hread hfile hdebug hhelp
    obtain ⟨file?, debug, quiet, table, help⟩ := r
    cases hfile
    cases hdebug
    cases hhelp
    have hrepl := hwords.shared _ _ hread rfl rfl
    have hreplBare := hwords.bare _ _ hrepl rfl
    rw [execute_of_starts hplain hhandler hbare hread .run]
    exact ⟨execute_of_starts hplain hhandler hbare hrepl .repl,
      execute_of_starts hplain hhandler hbare hreplBare .bare⟩
  · have hrepl := hwords.shared _ _ hwords.run rfl rfl
    have hreplBare := hwords.bare _ _ hrepl rfl
    rw [execute_of_starts hplain hhandler hbare hwords.nothing (.nothing rfl rfl),
      List.forall_mem_cons, List.forall_mem_cons, List.forall_mem_singleton]
    exact ⟨(execute_of_starts hplain hhandler hbare hwords.run .run).symm,
      (execute_of_starts hplain hhandler hbare hrepl .repl).symm,
      (execute_of_starts hplain hhandler hbare hreplBare .bare).symm⟩
  · intro withFile without hwith hwithout
    exact execute_file hpath hfile hwith hwithout
  · intro hwords words hread
    exact ⟨execute_file hpath hfile (hwords.fileJoined path _ _ hread hfile) hread,
      fun hdash => execute_file hpath hfile (hwords.fileNext path _ _ hread hfile hdash) hread⟩

theorem execute_agree_narrow_table :
    let script := Bytes.ofText "PLACE 1,2,EAST\r\nREPORT\n" ++ [0xFF, 0x0A]
    let lib := Libraries.standard
    let w : World :=
      { stdin := ⟨script, none⟩
        environment := fun name => if name = Mode.envName then some " BARE\t" else none
        files :=
          { locate := fun path => if path = "moves.txt" then .ok 0 else .error .notFound
            entry := fun _ => .ok (.file script) } }
    let plain := w.execute lib "robot" ["run", "-q", "--max-x=3"]
    w.execute lib "robot" ["repl", "--max-x", "+3", "--bare", "--quiet"] = plain ∧
      w.execute lib "robot" ["repl", "-q", "--max-x=3"] = plain ∧
      w.execute lib "robot" ["repl", "--bare", "-q", "--max-x=3"] = plain ∧
      w.execute lib "robot" [] = w.execute lib "robot" ["repl", "--bare"] ∧
      w.execute lib "robot" ["run", "-qf=moves.txt", "--max-x=3"] = plain ∧
      w.execute lib "robot" ["run", "--file=moves.txt", "-q", "--max-x=3"] = plain ∧
      w.execute lib "robot" ["run", "--file", "moves.txt", "-q", "--max-x=3"] = plain := by
  intro script lib w plain
  have hplain : ∀ text, .ok text ∈ w.stdin.lines → ¬ IsMeta text := by
    have hlines : w.stdin.lines = [.ok "PLACE 1,2,EAST", .ok "REPORT", .error .notUtf8] := rfl
    intro text htext
    rw [hlines] at htext
    simp only [List.mem_cons, Except.ok.injEq, reduceCtorEq, List.not_mem_nil, or_false] at htext
    rcases htext with rfl | rfl <;> decide
  have hbare : w.AllowsBare := by
    rintro raw ⟨⟩
    decide
  let table : TableArguments := { flags := ⟨some 3, none⟩ }
  have hread {words : List String} {a : Arguments} (h : Arguments.ofWords? words = some a) :
      lib.arguments "robot" words = .ok a := Arguments.read_eq_ok_iff.2 h
  have hrun : lib.arguments "robot" ["run", "-q", "--max-x=3"] =
      .ok { task? := some (.run { quiet := true, table }) } := hread (by decide +kernel)
  have hwords : ReadsArguments (lib.arguments "robot") := Arguments.readsArguments_read
  obtain ⟨hstdin, hfile⟩ := execute_agree lib w "robot"
  obtain ⟨hany, hsubcommands⟩ := hstdin hplain hbare rfl
  obtain ⟨hsame, hnone⟩ := hsubcommands hwords
  obtain ⟨hwith, hfront⟩ := hfile "moves.txt" script { quiet := true, table } rfl rfl
  obtain ⟨hrepl, hreplBare⟩ := hsame ["-q", "--max-x=3"] _ hrun rfl rfl rfl
  obtain ⟨hjoined, hnext⟩ := hfront hwords ["-q", "--max-x=3"] hrun
  refine ⟨?_, hrepl, hreplBare, hnone _ (by decide), ?_, hjoined, hnext (by decide)⟩
  · exact hany true table ["repl", "--max-x", "+3", "--bare", "--quiet"] _ _ _
      (hread (by decide +kernel)) .bare hrun .run
  · exact hwith ["run", "-qf=moves.txt", "--max-x=3"] _ (hread (by decide +kernel)) hrun

end World

end Tabletop
