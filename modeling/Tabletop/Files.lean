import Tabletop.Stream.Bytes

/-!
Files by place. A path leads to a place, and several paths may lead to one.
-/

namespace Tabletop

/-- Why a file could not be opened or its text not be had. -/
inductive FileError where
  | notFound
  | notDirectory
  | isDirectory
  | nameTooLong
  | nulInPath
  | notUtf8
  | other (description : String)
  deriving DecidableEq

def FileError.message : FileError → String
  | notFound => "No such file or directory (os error 2)"
  | notDirectory => "Not a directory (os error 20)"
  | isDirectory => "Is a directory (os error 21)"
  | nameTooLong => "File name too long (os error 36)"
  | nulInPath => "file name contained an unexpected NUL byte"
  | notUtf8 => "stream did not contain valid UTF-8"
  | other description => description

inductive FileEntry where
  | file (bytes : Bytes)
  | directory
  deriving DecidableEq

/-- Where paths lead, and what opening each place gives. -/
structure Files where
  locate : String → Except FileError Nat
  entry : Nat → Except FileError FileEntry

namespace Files

/-- Whether a path leads anywhere. -/
def has (files : Files) (path : String) : Bool :=
  (files.locate path).isOk

/-- What opening a path gives. -/
def entryAt (files : Files) (path : String) : Except FileError FileEntry :=
  files.locate path >>= files.entry

/-- The whole text of a file. -/
def text (files : Files) (path : String) : Except FileError String :=
  match files.entryAt path with
  | .error e => .error e
  | .ok .directory => .error .isDirectory
  | .ok (.file bytes) =>
    match bytes.text? with
    | some s => .ok s
    | none => .error .notUtf8

/-- The same files with another content at one place. -/
def put (files : Files) (place : Nat) (bytes : Bytes) : Files :=
  { files with entry := fun i => if i = place then .ok (.file bytes) else files.entry i }

theorem text_eq_ok_iff {files : Files} {path text : String} :
    files.text path = .ok text ↔ files.entryAt path = .ok (.file (.ofText text)) := by
  rw [Files.text]
  constructor
  · intro h
    split at h
    · cases h
    · cases h
    · next bytes hfile =>
      split at h
      · next hsome =>
        cases h
        rw [hfile, Bytes.text?_eq_some_iff.1 hsome]
      · cases h
  · intro h
    simp only [h, Bytes.text?_ofText]

theorem entryAt_of_locate {files : Files} {path : String} {place : Nat}
    (h : files.locate path = .ok place) : files.entryAt path = files.entry place := by
  rw [entryAt, h]
  rfl

theorem entryAt_put {files : Files} {path : String} {place : Nat}
    (h : files.locate path = .ok place) (bytes : Bytes) :
    (files.put place bytes).entryAt path = .ok (.file bytes) := by
  have hlocate : (files.put place bytes).locate path = .ok place := h
  rw [entryAt_of_locate hlocate]
  exact if_pos rfl

theorem entryAt_put_of_ne {files : Files} {path : String} {place : Nat}
    (h : files.locate path ≠ .ok place) (bytes : Bytes) :
    (files.put place bytes).entryAt path = files.entryAt path := by
  have hlocate : (files.put place bytes).locate path = files.locate path := rfl
  cases hpath : files.locate path with
  | error e => rw [entryAt, entryAt, hlocate, hpath]; rfl
  | ok other =>
    rw [hpath, ne_eq, Except.ok.injEq] at h
    rw [entryAt_of_locate hpath, entryAt_of_locate (hlocate.trans hpath)]
    exact if_neg h

theorem has_of_entryAt_ok {files : Files} {path : String} {e : FileEntry}
    (h : files.entryAt path = .ok e) : files.has path = true := by
  cases hpath : files.locate path with
  | error fault =>
    rw [entryAt, hpath] at h
    cases h
  | ok place =>
    rw [has, hpath]
    rfl

end Files

/-- The path of a name in a directory. No slash is put behind one, nor behind no directory. -/
def pathUnder (directory name : String) : String :=
  if directory.isEmpty || directory.toList.getLast? = some '/' then directory ++ name
  else directory ++ "/" ++ name

end Tabletop
