import CompilerFront.Text.Basic

set_option autoImplicit false

namespace CompilerFront

/-- A path keeps the text it was given. Two paths name the same place when their components agree:
doubled separators, a separator at the end and inner `.` steps make no difference, while a leading
`.` does. -/
structure Path where
  text : Text
  deriving DecidableEq, Repr, Inhabited

namespace Path

inductive Component where
  | root
  | here
  | up
  | name (text : Text)
  deriving DecidableEq, Repr

/-- The component for a piece between separators; an empty piece is none. -/
def component? (piece : Text) : Option Component :=
  if piece = [] then none
  else if piece = ['.'] then some .here
  else if piece = ['.', '.'] then some .up
  else some (.name piece)

def isAbsolute (path : Path) : Bool := path.text.head? = some '/'

/-- The steps of a path. A `.` counts only as the very first piece. -/
def components (path : Path) : List Component :=
  match path.text.splitOn '/' with
  | [] => []
  | first :: rest =>
    let inner := (rest.filterMap component?).filter (· ≠ .here)
    if path.isAbsolute then .root :: inner else (component? first).toList ++ inner

def same (first second : Path) : Bool := first.components = second.components

/-- The members of a list that are the first of their place. -/
def distinct : List Path → List Path
  | [] => []
  | path :: rest => path :: (distinct rest).filter fun other => !other.same path

@[simp] theorem same_refl (path : Path) : path.same path = true := by simp [same]

theorem same_comm (first second : Path) : first.same second = second.same first := by
  simp [same, eq_comm]

theorem same_iff {first second : Path} :
    first.same second = true ↔ first.components = second.components := by
  simp [same]

@[simp] theorem distinct_nil : distinct [] = [] := rfl

theorem mem_of_mem_distinct {path : Path} {paths : List Path} (h : path ∈ distinct paths) :
    path ∈ paths := by
  induction paths with
  | nil => exact h
  | cons first rest ih =>
    rcases List.mem_cons.mp h with rfl | deeper
    · exact List.mem_cons_self
    · exact List.mem_cons_of_mem _ (ih (List.mem_filter.mp deeper).1)

/-- No two of the distinct paths name the same place. -/
theorem distinct_pairwise (paths : List Path) :
    (distinct paths).Pairwise fun first second => first.same second = false := by
  induction paths with
  | nil => exact List.Pairwise.nil
  | cons first rest ih =>
    refine List.Pairwise.cons (fun other inside => ?_) (ih.filter _)
    have kept := (List.mem_filter.mp inside).2
    rw [same_comm]
    simpa using kept

example : (Path.mk "d//x.l").same ⟨"d/./x.l/"⟩ = true := by decide

example : (Path.mk "./x.l").same ⟨"x.l"⟩ = false := by decide

/-- Removes separators and `.` steps from the front of a text that is read backwards. -/
def dropTrail : Text → Text
  | '/' :: rest => dropTrail rest
  | '.' :: '/' :: rest => dropTrail rest
  | backwards => backwards

/-- The text of a path up to the end of its last piece. -/
def body (path : Path) : Text := (dropTrail path.text.reverse).reverse

/-- The last piece of a path, empty for the root and the empty path. -/
def lastPiece (path : Path) : Text :=
  ((dropTrail path.text.reverse).takeWhile (· ≠ '/')).reverse

def fileName? (path : Path) : Option Text :=
  match component? path.lastPiece with
  | some (.name name) => some name
  | _ => none

/-- The last dot of a file name cuts it into stem and extension, unless the dot is the first
character; then, and without a dot, the whole name is the stem. -/
def splitName (name : Text) : Text × Option Text :=
  let backwards := name.reverse
  let stem := ((backwards.dropWhile (· ≠ '.')).drop 1).reverse
  if stem = [] then (name, none) else (stem, some (backwards.takeWhile (· ≠ '.')).reverse)

def extension? (path : Path) : Option Text := path.fileName?.bind fun name => (splitName name).2

def stem? (path : Path) : Option Text := path.fileName?.map fun name => (splitName name).1

/-- Ends the path right behind the stem of its file name and adds a new extension there; an empty
one adds nothing, not even the dot. A path without a file name stays as it is. -/
def setExtension (path : Path) (extension : Text) : Path :=
  match path.fileName? with
  | none => path
  | some name =>
    let kept := path.body.take (path.body.length - (name.length - (splitName name).1.length))
    ⟨kept ++ if extension = [] then [] else '.' :: extension⟩

/-- Drops as many characters from the end of the text as the present extension has, then sets the
new one. -/
def withExtension (path : Path) (extension : Text) : Path :=
  let present := path.extension?.getD []
  setExtension ⟨path.text.take (path.text.length - present.length)⟩ extension

example : (Path.mk "d/a.tar.gz/").extension? = some "gz" := by decide

example : (Path.mk ".profile").extension? = none := by decide

example : (Path.mk "d/a.c/").withExtension "o" = ⟨"d/a.o"⟩ := by decide

/-- Cutting the extension off `..c` leaves a path without a file name. -/
example : (Path.mk "..c").withExtension "o" = ⟨".."⟩ := by decide

end Path

end CompilerFront
