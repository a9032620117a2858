/-
  LineLisp.CommandLine.Directory

  The directory in which the program runs, and the paths that lead to its files.
  A path is a row of steps. A step that stays changes nothing (`follow_here`), so
  a point and a slash in front of a path change nothing (`follow_point_slash`).
-/
import LineLisp.Text.Quoted

namespace LineLisp.CommandLine

/-- Why a path leads to no text. -/
inductive PathFault where
  | nullCharacter
  | missing
  | notDirectory
  | isDirectory
  | tooLong
  deriving DecidableEq, Repr

/-- The message for a path that leads to no text. No message shows a path with a
    null character. -/
def PathFault.message (fault : PathFault) (path : String) : String :=
  match fault with
  | .nullCharacter => "embedded null byte"
  | .missing => "[Errno 2] No such file or directory: " ++ Text.quoted path
  | .notDirectory => "[Errno 20] Not a directory: " ++ Text.quoted path
  | .isDirectory => "[Errno 21] Is a directory: " ++ Text.quoted path
  | .tooLong => "[Errno 36] File name too long: " ++ Text.quoted path

/-- One step of a path: none at all, to the directory above, or to a name. -/
inductive Step where
  | here
  | above
  | to (name : String)
  deriving DecidableEq, Repr

namespace Step

/-- The step that a part of a path between slashes asks for. -/
def ofPart : List Char → Step
  | [] => .here
  | ['.'] => .here
  | ['.', '.'] => .above
  | part => .to (String.ofList part)

/-- The parts of a path between its slashes. -/
def parts : List Char → List (List Char)
  | [] => [[]]
  | c :: rest =>
    if c = '/' then [] :: parts rest
    else match parts rest with
      | [] => [[c]]
      | part :: others => (c :: part) :: others

/-- The steps of a path. -/
def ofPath (path : List Char) : List Step :=
  (parts path).map ofPart

end Step

/-- The most bytes that a name in a directory can have. -/
def longestName : Nat := 255

/-- The most bytes that a path can have. -/
def longestPath : Nat := 4095

/-- The fault of a name that a directory does not hold. -/
def absent (name : String) : PathFault :=
  if name.utf8ByteSize ≤ longestName then .missing else .tooLong

/-- Follows steps that start outside of the directory: there are directories
    only, and nothing in them is known by name. -/
def followOutside : List Step → PathFault
  | [] => .isDirectory
  | .to name :: _ => absent name
  | _ :: steps => followOutside steps

/-- A directory that holds files and no other directories. -/
structure Directory where
  files : List (String × String)
  deriving DecidableEq, Repr

namespace Directory

/-- Follows steps that start in the directory. A path ends with the name of a
    file, as no step leads on from there. -/
def follow (d : Directory) : List Step → Except PathFault String
  | [] => .error .isDirectory
  | .here :: steps => d.follow steps
  | .above :: steps => .error (followOutside steps)
  | .to name :: steps =>
    match d.files.lookup name with
    | none => .error (absent name)
    | some text => if steps.isEmpty then .ok text else .error .notDirectory

/-- The text of the file that a path leads to. A path that begins with a slash
    starts outside of the directory. -/
def read (d : Directory) (path : String) : Except PathFault String :=
  if path.toList.contains '\x00' then .error .nullCharacter
  else if longestPath < path.utf8ByteSize then .error .tooLong
  else match path.toList with
    | [] => .error .missing
    | '/' :: rest => .error (followOutside (Step.ofPath rest))
    | cs => d.follow (Step.ofPath cs)

end Directory

-- ============================================================================
-- Lemmas
-- ============================================================================

namespace Step

/-- A part that is ended by a slash is the first one. -/
theorem parts_append_slash {part : List Char} (h : '/' ∉ part) (rest : List Char) :
    parts (part ++ '/' :: rest) = part :: parts rest := by
  induction part with
  | nil => simp [parts]
  | cons c part ih =>
    simp only [List.mem_cons, not_or] at h
    have hc : c ≠ '/' := fun e => h.1 e.symm
    simp [parts, hc, ih h.2]

/-- The step of a part that is ended by a slash is the first one. -/
theorem ofPath_append_slash {part : List Char} (h : '/' ∉ part) (rest : List Char) :
    ofPath (part ++ '/' :: rest) = ofPart part :: ofPath rest := by
  simp [ofPath, parts_append_slash h]

end Step

namespace Directory

/-- A step that stays changes nothing. -/
@[simp] theorem follow_here (d : Directory) (steps : List Step) :
    d.follow (.here :: steps) = d.follow steps := rfl

/-- A point and a slash in front of a path change nothing. -/
theorem follow_point_slash (d : Directory) (path : List Char) :
    d.follow (Step.ofPath ('.' :: '/' :: path)) = d.follow (Step.ofPath path) := by
  rw [show '.' :: '/' :: path = ['.'] ++ '/' :: path from rfl,
    Step.ofPath_append_slash (by decide)]
  rfl

end Directory

end LineLisp.CommandLine
