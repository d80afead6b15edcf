import Tabletop.CommandLine

/-!
What the parser of arguments makes of words. What a session can be asked for is asked for in the same
words as of a script, and an option in front of others adds its own to what they ask for.
-/

namespace Tabletop

variable {c : Subcommand} {name : OptionName} {g : Given} {gs : List Given} {o o' : Options}
variable {argument : String} {arguments rest after : List String}

/-- The options of a script that a session does not have. -/
def OptionName.OfScript (name : OptionName) : Prop :=
  name = .file ∨ name = .debug

namespace Subcommand

theorem long?_repl {text : String} (h : run.long? text = some name) (hname : ¬ name.OfScript) :
    repl.long? text = some name := by
  unfold long? at h
  split at h
  · cases h
    exact (hname (.inl rfl)).elim
  · cases h
    exact (hname (.inr rfl)).elim
  · exact h
  · exact h
  · exact h
  · exact h
  · exact h
  · exact h
  · exact h
  · cases h

theorem short?_repl {letter : Char} (h : run.short? letter = some name) (hname : ¬ name.OfScript) :
    repl.short? letter = some name := by
  unfold short? at h
  split at h
  · cases h
    exact (hname (.inl rfl)).elim
  · cases h
    exact (hname (.inr rfl)).elim
  · exact h
  · exact h
  · cases h

end Subcommand

/-- The options that a session has and a script does not. -/
def OptionName.OfSession (name : OptionName) : Prop :=
  name = .bare ∨ name = .editor

namespace Subcommand

theorem not_ofSession_long? {text : String} (h : run.long? text = some name) :
    ¬ name.OfSession := by
  rintro (rfl | rfl) <;>
  · unfold long? at h
    split at h <;> simp_all

theorem not_ofSession_short? {letter : Char} (h : run.short? letter = some name) :
    ¬ name.OfSession := by
  rintro (rfl | rfl) <;>
  · unfold short? at h
    split at h <;> simp_all

end Subcommand

theorem eq_singleton_of_takeValue? (h : (takeValue? name rest).map
    (fun (g, rest) => ([g], rest)) = some (gs, after)) : ∃ value, gs = [(name, value)] := by
  obtain ⟨⟨g, r⟩, hg, hr⟩ := Option.map_eq_some_iff.1 h
  cases hr
  cases rest with
  | nil => cases hg
  | cons argument rest =>
    rw [takeValue?] at hg
    split at hg
    · cases hg
      exact ⟨argument, rfl⟩
    · cases hg

/-- Joined short options give the first one, and then nothing or what the others give. -/
theorem eq_cons_of_readShort? {letter : Char} {more : List Char}
    (h : readShort? c (letter :: more) rest = some (gs, after)) :
    ∃ name value gs', c.short? letter = some name ∧ gs = (name, value) :: gs' ∧
      (gs' = [] ∨ readShort? c more rest = some (gs', after)) := by
  rw [readShort?] at h
  obtain ⟨name, hname, h⟩ := Option.bind_eq_some_iff.1 h
  split at h
  · split at h
    · obtain ⟨value, rfl⟩ := eq_singleton_of_takeValue? h
      exact ⟨name, value, [], hname, rfl, .inl rfl⟩
    · cases h
      exact ⟨name, _, [], hname, rfl, .inl rfl⟩
    · cases h
      exact ⟨name, _, [], hname, rfl, .inl rfl⟩
  · obtain ⟨⟨gs', r⟩, hmore, hr⟩ := Option.map_eq_some_iff.1 h
    cases hr
    exact ⟨name, "", gs', hname, rfl, .inr hmore⟩

theorem eq_singleton_of_readLong? {text : List Char}
    (h : readLong? c text rest = some (gs, after)) :
    ∃ name value, c.long? (String.ofList (text.takeWhile (· != '='))) = some name ∧
      gs = [(name, value)] := by
  rw [readLong?] at h
  obtain ⟨name, hname, h⟩ := Option.bind_eq_some_iff.1 h
  split at h
  · obtain ⟨value, rfl⟩ := eq_singleton_of_takeValue? h
    exact ⟨name, value, hname, rfl⟩
  · cases h
    exact ⟨name, _, hname, rfl⟩
  · cases h
    exact ⟨name, _, hname, rfl⟩
  · cases h

theorem readShort?_repl {names : List Char} (h : readShort? .run names rest = some (gs, after))
    (hgs : ∀ g ∈ gs, ¬ g.1.OfScript) : readShort? .repl names rest = some (gs, after) := by
  induction names generalizing gs with
  | nil => exact h
  | cons letter more ih =>
    obtain ⟨name, value, gs', hname, rfl, -⟩ := eq_cons_of_readShort? h
    have hrepl := Subcommand.short?_repl hname (hgs _ List.mem_cons_self)
    rw [readShort?, Option.bind_eq_bind, hname, Option.bind_some] at h
    rw [readShort?, Option.bind_eq_bind, hrepl, Option.bind_some]
    split
    · next hvalue =>
      rw [if_pos hvalue] at h
      exact h
    · next hvalue =>
      rw [if_neg hvalue] at h
      obtain ⟨⟨gs', r⟩, hmore, hr⟩ := Option.map_eq_some_iff.1 h
      cases hr
      rw [ih hmore fun g hg => hgs g (List.mem_cons_of_mem _ hg)]
      rfl

theorem readLong?_repl {text : List Char} (h : readLong? .run text rest = some (gs, after))
    (hgs : ∀ g ∈ gs, ¬ g.1.OfScript) : readLong? .repl text rest = some (gs, after) := by
  obtain ⟨name, value, hname, rfl⟩ := eq_singleton_of_readLong? h
  have hrepl := Subcommand.long?_repl hname (hgs _ List.mem_cons_self)
  rw [readLong?, hname] at h
  rw [readLong?, hrepl]
  exact h

theorem readOption?_repl (h : readOption? .run argument rest = some (gs, after))
    (hgs : ∀ g ∈ gs, ¬ g.1.OfScript) : readOption? .repl argument rest = some (gs, after) := by
  unfold readOption? at h ⊢
  split at h
  · exact readLong?_repl h hgs
  · exact readShort?_repl h hgs
  · cases h

theorem not_ofSession_readShort? {names : List Char}
    (h : readShort? .run names rest = some (gs, after)) : ∀ g ∈ gs, ¬ g.1.OfSession := by
  induction names generalizing gs with
  | nil =>
    cases h
    exact nofun
  | cons letter more ih =>
    obtain ⟨name, value, gs', hname, rfl, hrest⟩ := eq_cons_of_readShort? h
    refine List.forall_mem_cons.2 ⟨Subcommand.not_ofSession_short? hname, ?_⟩
    rcases hrest with rfl | hmore
    · exact nofun
    · exact ih hmore

theorem not_ofSession_readOption? (h : readOption? .run argument rest = some (gs, after)) :
    ∀ g ∈ gs, ¬ g.1.OfSession := by
  unfold readOption? at h
  split at h
  · obtain ⟨name, value, hname, rfl⟩ := eq_singleton_of_readLong? h
    exact List.forall_mem_singleton.2 (Subcommand.not_ofSession_long? hname)
  · exact not_ofSession_readShort? h
  · cases h

theorem givenOptions?_cons (hend : argument ≠ "--") (rest : List String) :
    givenOptions? c (argument :: rest) =
      (readOption? c argument rest).bind fun given =>
        (givenOptions? c given.2).map (given.1 ++ ·) := by
  rw [givenOptions?, if_neg hend]
  split
  · next h =>
    rw [h]
    rfl
  · next h =>
    rw [h]
    rfl

theorem givenOptions?_repl (h : givenOptions? .run arguments = some gs)
    (hgs : ∀ g ∈ gs, ¬ g.1.OfScript) : givenOptions? .repl arguments = some gs := by
  induction arguments using givenOptions?.induct (c := .run) generalizing gs with
  | case1 => rwa [givenOptions?] at h ⊢
  | case2 rest hrest => rwa [givenOptions?] at h ⊢
  | case3 rest hrest => rwa [givenOptions?] at h ⊢
  | case4 argument rest hend hnone =>
    rw [givenOptions?_cons hend, hnone] at h
    cases h
  | case5 argument rest hend first after hread ih =>
    rw [givenOptions?_cons hend, hread] at h
    obtain ⟨more, hafter, rfl⟩ := Option.map_eq_some_iff.1 h
    rw [List.forall_mem_append] at hgs
    rw [givenOptions?_cons hend, readOption?_repl hread hgs.1, Option.bind_some, ih hafter hgs.2]
    rfl

theorem not_ofSession_givenOptions? (h : givenOptions? .run arguments = some gs) :
    ∀ g ∈ gs, ¬ g.1.OfSession := by
  induction arguments using givenOptions?.induct (c := .run) generalizing gs with
  | case1 =>
    rw [givenOptions?] at h
    cases h
    exact nofun
  | case2 rest hrest =>
    rw [givenOptions?, if_pos rfl, if_pos hrest] at h
    cases h
    exact nofun
  | case3 rest hrest =>
    rw [givenOptions?, if_pos rfl, if_neg hrest] at h
    cases h
  | case4 argument rest hend hnone =>
    rw [givenOptions?_cons hend, hnone] at h
    cases h
  | case5 argument rest hend first after hread ih =>
    rw [givenOptions?_cons hend, hread] at h
    obtain ⟨more, hafter, rfl⟩ := Option.map_eq_some_iff.1 h
    exact List.forall_mem_append.2 ⟨not_ofSession_readOption? hread, ih hafter⟩

namespace Options

/-- Whether options tell that one of a name was given. -/
def Tells (o : Options) : OptionName → Prop
  | .file => o.file?.isSome = true
  | .debug => o.debug = true
  | .quiet => o.quiet = true
  | .maxX => o.flags.maxX.isSome = true
  | .maxY => o.flags.maxY.isSome = true
  | .config => o.config?.isSome = true
  | .bare => o.mode? = some .bare
  | .editor => o.mode? = some .editor
  | .help => o.help = true

theorem not_tells_empty (name : OptionName) : ¬ ({} : Options).Tells name := by
  cases name <;> exact nofun

theorem tells_add? (h : o.add? g = some o') (name : OptionName) :
    o'.Tells name ↔ o.Tells name ∨ name = g.1 := by
  obtain ⟨given, value⟩ := g
  cases given with
  | file => cases h; cases name <;> simp [Tells]
  | debug => cases h; cases name <;> simp [Tells]
  | quiet => cases h; cases name <;> simp [Tells]
  | help => cases h; cases name <;> simp [Tells]
  | maxX =>
    obtain ⟨n, -, rfl⟩ := Option.map_eq_some_iff.1 h
    cases name <;> simp [Tells]
  | maxY =>
    obtain ⟨n, -, rfl⟩ := Option.map_eq_some_iff.1 h
    cases name <;> simp [Tells]
  | config =>
    rw [add?] at h
    split at h
    · cases h
    · cases h
      cases name <;> simp [Tells]
  | bare =>
    rw [add?] at h
    split at h
    · cases h
    · next hmode =>
      cases h
      cases name <;> simp_all [Tells]
  | editor =>
    rw [add?] at h
    split at h
    · cases h
    · next hmode =>
      cases h
      cases name <;> simp_all [Tells]

theorem tells_foldlM (h : gs.foldlM add? o = some o') (name : OptionName) :
    o'.Tells name ↔ o.Tells name ∨ name ∈ gs.map Prod.fst := by
  induction gs generalizing o with
  | nil =>
    cases h
    simp
  | cons g gs ih =>
    rw [List.foldlM_cons] at h
    obtain ⟨next, hnext, h⟩ := Option.bind_eq_some_iff.1 h
    rw [ih h, tells_add? hnext, List.map_cons, List.mem_cons, or_assoc]

theorem ofArguments?_eq_some_iff :
    ofArguments? c arguments = some o ↔
      ∃ gs, givenOptions? c arguments = some gs ∧ (gs.map Prod.fst).Nodup ∧
        gs.foldlM add? {} = some o := by
  rw [ofArguments?]
  constructor
  · intro h
    obtain ⟨gs, hgs, h⟩ := Option.bind_eq_some_iff.1 h
    split at h
    · next hnodup => exact ⟨gs, hgs, hnodup, h⟩
    · cases h
  · rintro ⟨gs, hgs, hnodup, h⟩
    exact Option.bind_eq_some_iff.2 ⟨gs, hgs, by rw [if_pos hnodup, h]⟩

/-- What is read tells the options that were given. -/
theorem tells_iff_mem (h : gs.foldlM add? {} = some o) (name : OptionName) :
    o.Tells name ↔ name ∈ gs.map Prod.fst :=
  (tells_foldlM h name).trans (or_iff_right (not_tells_empty name))

theorem ofArguments?_repl (h : ofArguments? .run arguments = some o) (hfile : o.file? = none)
    (hdebug : o.debug = false) : ofArguments? .repl arguments = some o := by
  obtain ⟨gs, hgs, hnodup, hfold⟩ := ofArguments?_eq_some_iff.1 h
  have hshared : ∀ g ∈ gs, ¬ g.1.OfScript := by
    intro g hg hname
    have htells := (tells_iff_mem hfold g.1).2 (List.mem_map_of_mem hg)
    rcases hname with hname | hname
    · rw [hname, Tells, hfile] at htells
      cases htells
    · rw [hname, Tells, hdebug] at htells
      cases htells
  exact ofArguments?_eq_some_iff.2 ⟨gs, givenOptions?_repl hgs hshared, hnodup, hfold⟩

/-- A script is not asked for in a mode. -/
theorem mode?_of_run (h : ofArguments? .run arguments = some o) : o.mode? = none := by
  obtain ⟨gs, hgs, -, hfold⟩ := ofArguments?_eq_some_iff.1 h
  have hnot (name : OptionName) (hname : name.OfSession) : ¬ o.Tells name := by
    intro htells
    obtain ⟨g, hg, rfl⟩ := List.mem_map.1 ((tells_iff_mem hfold name).1 htells)
    exact not_ofSession_givenOptions? hgs g hg hname
  cases hmode : o.mode? with
  | none => rfl
  | some mode =>
    cases mode with
    | bare => exact (hnot .bare (.inl rfl) hmode).elim
    | editor => exact (hnot .editor (.inr rfl) hmode).elim

theorem foldlM_add?_comm {f : Options → Options}
    (hf : ∀ g ∈ gs, ∀ o : Options, (f o).add? g = (o.add? g).map f) (o : Options) :
    gs.foldlM add? (f o) = (gs.foldlM add? o).map f := by
  induction gs generalizing o with
  | nil => rfl
  | cons g gs ih =>
    rw [List.forall_mem_cons] at hf
    rw [List.foldlM_cons, List.foldlM_cons, hf.1]
    cases o.add? g with
    | none => rfl
    | some next => exact ih hf.2 next

/-- An option that is new to the arguments after it adds to what they say. -/
theorem ofArguments?_cons {f : Options → Options} (hend : argument ≠ "--")
    (hread : readOption? c argument arguments = some ([g], rest))
    (h : ofArguments? c rest = some o) (hnew : ¬ o.Tells g.1)
    (hadd : ({} : Options).add? g = some (f {}))
    (hf : ∀ g' : Given, o.Tells g'.1 → ∀ o' : Options, (f o').add? g' = (o'.add? g').map f) :
    ofArguments? c (argument :: arguments) = some (f o) := by
  obtain ⟨gs, hgs, hnodup, hfold⟩ := ofArguments?_eq_some_iff.1 h
  refine ofArguments?_eq_some_iff.2 ⟨g :: gs, ?_, ?_, ?_⟩
  · rw [givenOptions?_cons hend, hread, Option.bind_some, hgs]
    rfl
  · rw [List.map_cons, List.nodup_cons]
    exact ⟨mt (tells_iff_mem hfold g.1).2 hnew, hnodup⟩
  · have hcomm := foldlM_add?_comm (f := f)
      (fun g' hg' => hf g' ((tells_iff_mem hfold g'.1).2 (List.mem_map_of_mem hg'))) {}
    rw [List.foldlM_cons, hadd]
    exact hcomm.trans (congrArg (Option.map f) hfold)

theorem add?_mode (hname : g.1 ≠ .bare ∧ g.1 ≠ .editor) (mode? : Option Mode) (o : Options) :
    { o with mode? }.add? g = (o.add? g).map fun o => { o with mode? } := by
  obtain ⟨name, value⟩ := g
  cases name with
  | bare => exact (hname.1 rfl).elim
  | editor => exact (hname.2 rfl).elim
  | maxX => simp only [add?, Option.map_map, Function.comp_def]
  | maxY => simp only [add?, Option.map_map, Function.comp_def]
  | config =>
    simp only [add?]
    split <;> rfl
  | _ => rfl

theorem add?_file (hname : g.1 ≠ .file) (file? : Option String) (o : Options) :
    { o with file? }.add? g = (o.add? g).map fun o => { o with file? } := by
  obtain ⟨name, value⟩ := g
  cases name with
  | file => exact (hname rfl).elim
  | maxX => simp only [add?, Option.map_map, Function.comp_def]
  | maxY => simp only [add?, Option.map_map, Function.comp_def]
  | config =>
    simp only [add?]
    split <;> rfl
  | bare =>
    simp only [add?]
    split <;> rfl
  | editor =>
    simp only [add?]
    split <;> rfl
  | _ => rfl

theorem ofArguments?_bare (h : ofArguments? .repl arguments = some o) (hmode : o.mode? = none) :
    ofArguments? .repl ("--bare" :: arguments) = some { o with mode? := some .bare } := by
  have hnone (mode : Mode) : ¬ o.mode? = some mode := by
    rw [hmode]
    exact nofun
  refine ofArguments?_cons (f := fun o => { o with mode? := some .bare }) (g := (.bare, ""))
    (by decide) rfl h (hnone .bare) rfl ?_
  intro g htells
  refine add?_mode ⟨?_, ?_⟩ _
  · intro hname
    rw [hname] at htells
    exact hnone .bare htells
  · intro hname
    rw [hname] at htells
    exact hnone .editor htells

theorem ofArguments?_file {path : String} (hend : argument ≠ "--")
    (hread : readOption? .run argument arguments = some ([(.file, path)], rest))
    (h : ofArguments? .run rest = some o) (hfile : o.file? = none) :
    ofArguments? .run (argument :: arguments) = some { o with file? := some path } := by
  have hnew : ¬ o.Tells .file := by
    rw [Tells, hfile]
    exact Bool.false_ne_true
  refine ofArguments?_cons (f := fun o => { o with file? := some path }) hend hread h hnew rfl ?_
  intro g htells
  refine add?_file ?_ _
  intro hname
  rw [hname] at htells
  exact hnew htells

theorem ofArguments?_file_equals (h : ofArguments? .run arguments = some o) (hfile : o.file? = none)
    (path : String) :
    ofArguments? .run (("--file=" ++ path) :: arguments) = some { o with file? := some path } := by
  have hchars : ("--file=" ++ path).toList = '-' :: '-' :: ("file=".toList ++ path.toList) := by
    rw [String.toList_append]
    rfl
  have hvalue : readLong? .run ("file=".toList ++ path.toList) arguments =
      some ([(.file, String.ofList path.toList)], arguments) := rfl
  have hend : "--file=" ++ path ≠ "--" := by
    intro hdashes
    have hshort := congrArg String.toList hdashes
    rw [hchars] at hshort
    cases hshort
  refine ofArguments?_file hend ?_ h hfile
  rw [readOption?, hchars]
  simp only [hvalue, String.ofList_toList]

theorem ofArguments?_file_next (h : ofArguments? .run arguments = some o) (hfile : o.file? = none)
    {path : String} (hpath : path.toList.head? ≠ some '-') :
    ofArguments? .run ("--file" :: path :: arguments) = some { o with file? := some path } := by
  have hvalue : isValueOf .file path = true :=
    Bool.or_eq_true_iff.2 (.inl (decide_eq_true hpath))
  refine ofArguments?_file (by decide) ?_ h hfile
  change Option.map _ (takeValue? .file (path :: arguments)) = _
  rw [takeValue?, if_pos hvalue]
  rfl

end Options

namespace Arguments

variable {words : List String}

theorem read_eq_ok_iff {a : Arguments} : read words = .ok a ↔ ofWords? words = some a := by
  rw [read]
  cases ofWords? words with
  | none => exact ⟨nofun, nofun⟩
  | some b => simp

theorem read_run_iff {a : RunArguments} :
    read ("run" :: words) = .ok { task? := some (.run a) } ↔
      ∃ o, Options.ofArguments? .run words = some o ∧ o.task .run = .run a := by
  have hwords : ofWords? ("run" :: words) =
      (Options.ofArguments? .run words).map fun o => { task? := some (o.task .run) } := by
    change (Options.ofArguments? .run words).bind _ = _
    cases Options.ofArguments? .run words <;> rfl
  rw [read_eq_ok_iff, hwords, Option.map_eq_some_iff]
  simp

theorem read_repl_iff {a : ReplArguments} :
    read ("repl" :: words) = .ok { task? := some (.repl a) } ↔
      ∃ o, Options.ofArguments? .repl words = some o ∧ o.task .repl = .repl a := by
  have hwords : ofWords? ("repl" :: words) =
      (Options.ofArguments? .repl words).map fun o => { task? := some (o.task .repl) } := by
    change (Options.ofArguments? .repl words).bind _ = _
    cases Options.ofArguments? .repl words <;> rfl
  rw [read_eq_ok_iff, hwords, Option.map_eq_some_iff]
  simp

theorem readsArguments_read : ReadsArguments read where
  nothing := rfl
  run := by
    refine read_run_iff.2 ⟨{}, ?_, rfl⟩
    rw [Options.ofArguments?, givenOptions?]
    rfl
  shared words a h hfile hdebug := by
    obtain ⟨o, ho, htask⟩ := read_run_iff.1 h
    cases htask
    refine read_repl_iff.2 ⟨o, Options.ofArguments?_repl ho hfile hdebug, ?_⟩
    simp only [Options.task, Options.mode?_of_run ho]
    rfl
  bare words a h hmode := by
    obtain ⟨o, ho, htask⟩ := read_repl_iff.1 h
    cases htask
    have hnone : o.mode? = none := by
      cases hmode? : o.mode? with
      | none => rfl
      | some mode =>
        rw [ReplArguments.mode?, hmode?] at hmode
        cases mode <;> cases hmode
    refine read_repl_iff.2 ⟨_, Options.ofArguments?_bare ho hnone, ?_⟩
    simp only [Options.task, hnone]
    rfl
  fileJoined path words a h hfile := by
    obtain ⟨o, ho, htask⟩ := read_run_iff.1 h
    cases htask
    exact read_run_iff.2 ⟨_, Options.ofArguments?_file_equals ho hfile path, rfl⟩
  fileNext path words a h hfile hpath := by
    obtain ⟨o, ho, htask⟩ := read_run_iff.1 h
    cases htask
    exact read_run_iff.2 ⟨_, Options.ofArguments?_file_next ho hfile hpath, rfl⟩

end Arguments

end Tabletop
