/-!
# State directories

The directory that outlives a process: one file of stored values, which is
written beside its place first and then moved there. The directory or the file
may be obstructed by something else of its name.
-/

namespace ViewSchema

/-- What can stand in the way of a state directory. -/
inductive Obstacle where
  /-- The directory itself is a file. -/
  | directoryIsFile
  /-- The place of the file is taken by a directory. -/
  | fileIsDirectory
  /-- Nothing can be written into the directory. -/
  | readOnly
deriving DecidableEq, Repr

structure StateDirectory where
  /-- The text of the file, if there is one. -/
  file : Option String
  /-- Whether an unfinished file was left behind. -/
  unfinished : Bool
  obstacle : Option Obstacle
deriving DecidableEq, Repr

namespace StateDirectory

/-- A directory without obstacles that holds a file or nothing. -/
def holding (file : Option String) : StateDirectory := ⟨file, false, none⟩

/-- The text of the file; `none` when the file cannot be read. Without the
directory there is no file. -/
def read? (d : StateDirectory) : Option (Option String) :=
  match d.obstacle with
  | none => some d.file
  | some .directoryIsFile => some none
  | some .fileIsDirectory => none
  | some .readOnly => some d.file

/-- Write the file. The answer says whether that succeeded. -/
def write (d : StateDirectory) (text : String) : StateDirectory × Bool :=
  match d.obstacle with
  | none => ({ d with file := some text, unfinished := false }, true)
  | some .directoryIsFile => (d, false)
  | some .fileIsDirectory => ({ d with unfinished := true }, false)
  | some .readOnly => (d, false)

@[simp] theorem read?_holding (file : Option String) : (holding file).read? = some file := rfl

end StateDirectory

end ViewSchema
