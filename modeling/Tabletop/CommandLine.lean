import Tabletop.Arguments

/-!
A parser of arguments. An option is given at most once, a long one in full, and short ones may be
joined. All arguments have to make sense even where only help is asked for. What words are refused
for is not told apart.
-/

namespace Tabletop

inductive OptionName where
  | file
  | debug
  | quiet
  | maxX
  | maxY
  | config
  | bare
  | editor
  | help
  deriving DecidableEq

/-- What a subcommand was given. -/
structure Options where
  file? : Option String := none
  debug : Bool := false
  quiet : Bool := false
  flags : Bounds := {}
  config? : Option String := none
  mode? : Option Mode := none
  help : Bool := false
  deriving DecidableEq

inductive Subcommand where
  | run
  | repl
  deriving DecidableEq

namespace OptionName

/-- Whether an option comes with a value. -/
def takesValue : OptionName → Bool
  | file | maxX | maxY | config => true
  | _ => false

end OptionName

namespace Subcommand

def ofName? : String → Option Subcommand
  | "run" => some run
  | "repl" => some repl
  | _ => none

/-- The option with this long name. -/
def long? (c : Subcommand) (name : String) : Option OptionName :=
  match c, name with
  | run, "file" => some .file
  | run, "debug" => some .debug
  | repl, "bare" => some .bare
  | repl, "editor" => some .editor
  | _, "quiet" => some .quiet
  | _, "max-x" => some .maxX
  | _, "max-y" => some .maxY
  | _, "config" => some .config
  | _, "help" => some .help
  | _, _ => none

/-- The option with this short name. -/
def short? (c : Subcommand) (name : Char) : Option OptionName :=
  match c, name with
  | run, 'f' => some .file
  | run, 'd' => some .debug
  | _, 'q' => some .quiet
  | _, 'h' => some .help
  | _, _ => none

end Subcommand

/-- An option as it was given; one without a value has an empty one. -/
abbrev Given := OptionName × String

/-- Whether an argument can be the value of the option before it. One that looks like an option is
none, but a bound may be a negative number. -/
def isValueOf (o : OptionName) (argument : String) : Bool :=
  match o with
  | .maxX | .maxY => (readInt32? argument).isSome
  | _ => argument.toList.head? ≠ some '-' || argument == "-"

/-- Takes the value of an option from the arguments after it. -/
def takeValue? (o : OptionName) : List String → Option (Given × List String)
  | [] => none
  | argument :: rest => if isValueOf o argument then some ((o, argument), rest) else none

/-- Reads the options of an argument of joined short ones. The rest of the argument after an option
with a value is that value, perhaps after an equals sign. -/
def readShort? (c : Subcommand) : List Char → List String → Option (List Given × List String)
  | [], rest => some ([], rest)
  | name :: more, rest => do
    let o ← c.short? name
    if o.takesValue then
      match more with
      | [] => (takeValue? o rest).map fun (g, rest) => ([g], rest)
      | '=' :: value => some ([(o, String.ofList value)], rest)
      | value => some ([(o, String.ofList value)], rest)
    else (readShort? c more rest).map fun (gs, rest) => ((o, "") :: gs, rest)

/-- Reads a long option, written after its dashes, with a value after an equals sign or in the next
argument. -/
def readLong? (c : Subcommand) (text : List Char) (rest : List String) :
    Option (List Given × List String) := do
  let o ← c.long? (String.ofList (text.takeWhile (· != '=')))
  match o.takesValue, text.dropWhile (· != '=') with
  | true, [] => (takeValue? o rest).map fun (g, rest) => ([g], rest)
  | true, _ :: value => some ([(o, String.ofList value)], rest)
  | false, [] => some ([(o, "")], rest)
  | false, _ :: _ => none

/-- Reads an argument that begins an option, together with the value that may follow it. -/
def readOption? (c : Subcommand) (argument : String) (rest : List String) :
    Option (List Given × List String) :=
  match argument.toList with
  | '-' :: '-' :: text => readLong? c text rest
  | '-' :: name :: names => readShort? c (name :: names) rest
  | _ => none

theorem length_takeValue? {o : OptionName} {rest after : List String} {g : Given}
    (h : takeValue? o rest = some (g, after)) : after.length ≤ rest.length := by
  cases rest with
  | nil => cases h
  | cons a rest =>
    simp only [takeValue?] at h
    split at h
    · cases h; simp
    · cases h

theorem length_readShort? {c : Subcommand} {names : List Char} {rest after : List String}
    {gs : List Given} (h : readShort? c names rest = some (gs, after)) :
    after.length ≤ rest.length := by
  induction names generalizing gs after with
  | nil => cases h; exact Nat.le_refl _
  | cons name more ih =>
    simp only [readShort?, Option.bind_eq_bind] at h
    obtain ⟨o, -, h⟩ := Option.bind_eq_some_iff.1 h
    split at h
    · split at h
      · obtain ⟨⟨g, r⟩, hg, hr⟩ := Option.map_eq_some_iff.1 h
        cases hr
        exact length_takeValue? hg
      · cases h; exact Nat.le_refl _
      · cases h; exact Nat.le_refl _
    · obtain ⟨⟨g, r⟩, hg, hr⟩ := Option.map_eq_some_iff.1 h
      cases hr
      exact ih hg

theorem length_readOption? {c : Subcommand} {argument : String} {rest after : List String}
    {gs : List Given} (h : readOption? c argument rest = some (gs, after)) :
    after.length ≤ rest.length := by
  unfold readOption? at h
  split at h
  · simp only [readLong?, Option.bind_eq_bind] at h
    obtain ⟨o, -, h⟩ := Option.bind_eq_some_iff.1 h
    split at h
    · obtain ⟨⟨g, r⟩, hg, hr⟩ := Option.map_eq_some_iff.1 h
      cases hr
      exact length_takeValue? hg
    · cases h; exact Nat.le_refl _
    · cases h; exact Nat.le_refl _
    · cases h
  · exact length_readShort? h
  · cases h

/-- All options that the arguments of a subcommand give, in order. Two dashes alone end them, and
nothing may follow. -/
def givenOptions? (c : Subcommand) : List String → Option (List Given)
  | [] => some []
  | argument :: rest =>
    if argument = "--" then if rest.isEmpty then some [] else none
    else
      match _h : readOption? c argument rest with
      | none => none
      | some (gs, after) => (givenOptions? c after).map (gs ++ ·)
termination_by arguments => arguments.length
decreasing_by
  have := length_readOption? _h
  simp only [List.length_cons]
  omega

namespace Options

/-- Adds an option. Its value has to suit it. -/
def add? (o : Options) : Given → Option Options
  | (.file, path) => some { o with file? := some path }
  | (.debug, _) => some { o with debug := true }
  | (.quiet, _) => some { o with quiet := true }
  | (.maxX, n) => (readInt32? n).map fun n => { o with flags.maxX := some n }
  | (.maxY, n) => (readInt32? n).map fun n => { o with flags.maxY := some n }
  | (.config, path) => if path.isEmpty then none else some { o with config? := some path }
  | (.bare, _) => if o.mode?.isSome then none else some { o with mode? := some .bare }
  | (.editor, _) => if o.mode?.isSome then none else some { o with mode? := some .editor }
  | (.help, _) => some { o with help := true }

/-- The options of a subcommand, each of them given at most once. -/
def ofArguments? (c : Subcommand) (arguments : List String) : Option Options := do
  let gs ← givenOptions? c arguments
  if (gs.map Prod.fst).Nodup then gs.foldlM add? {} else none

end Options

namespace Options

/-- What the options of a subcommand ask for. -/
def task (o : Options) : Subcommand → Task
  | .run =>
    .run
      { file? := o.file?
        debug := o.debug
        quiet := o.quiet
        table := ⟨o.flags, o.config?⟩
        help := o.help }
  | .repl =>
    .repl
      { bare := o.mode? = some .bare
        editor := o.mode? = some .editor
        quiet := o.quiet
        table := ⟨o.flags, o.config?⟩
        help := o.help }

end Options

namespace Arguments

/-- The arguments after a request for help about the program, if there was one. -/
def ofSubcommand? (help : Bool) : List String → Option Arguments
  | [] => some { help }
  | ["--"] => some { help }
  | name :: words => do
    let c ← Subcommand.ofName? name
    return { help, task? := (← Options.ofArguments? c words).task c }

/-- Reads the words of the program's arguments. -/
def ofWords? : List String → Option Arguments
  | "-h" :: rest => ofSubcommand? true rest
  | "--help" :: rest => ofSubcommand? true rest
  | rest => ofSubcommand? false rest

/-- A parser of arguments. -/
def read : ArgumentsReader := fun words =>
  match ofWords? words with
  | some a => .ok a
  | none => .error ("error: invalid arguments '" ++ " ".intercalate words ++ "'\n")

end Arguments

end Tabletop
