import Cutscene.Text.Pieces

/-!
# Files

The text files that a program can read, by their paths. Two paths name the same file if they have
the same steps.
-/

namespace Cutscene

/-- Files with their texts. -/
structure Files where
  texts : List (String × String) := []
  /-- Directories that exist even if no file is in them. -/
  directories : List String := []

namespace Files

/-- Adds a step to steps, the last one first: `.` stays in place and `..` goes back. -/
def walk (steps : List String) (step : String) : List String :=
  if step = "." then steps
  else if step = ".." then
    match steps with
    | [] => [".."]
    | ".." :: _ => ".." :: steps
    | "/" :: _ => steps
    | _ :: back => back
  else step :: steps

/-- The steps of a path. -/
def steps (path : String) : List String :=
  let pieces := (Text.cut '/' path.toList).map String.ofList
  let root := if path.toList.head? = some '/' then ["/"] else []
  ((pieces.filter (!·.isEmpty)).foldl walk root).reverse

/-- The path can only name a directory. -/
def isDirectoryPath (path : String) : Bool := path.isEmpty || path.toList.getLast? = some '/'

/-- The text of the file at a path. -/
def read? (files : Files) (path : String) : Option String :=
  if isDirectoryPath path then none
  else (files.texts.find? fun file => steps file.1 = steps path).map (·.2)

/-- The first step from a directory on the way to a file. -/
def stepInto? (directory : List String) (path : String) : Option String :=
  let steps := steps path
  if directory.isPrefixOf steps then (steps.drop directory.length).head? else none

/-- The names in a directory, each once and in order, if there is such a directory. -/
def list? (files : Files) (directory : String) : Option (List String) :=
  let within := steps directory
  let names := files.texts.filterMap fun file => stepInto? within file.1
  if names.isEmpty && !(files.directories.any fun d => steps d = within) then none
  else some ((names.mergeSort (· ≤ ·)).eraseReps)

/-- The path of a name in a directory. -/
def join (directory name : String) : String :=
  if isDirectoryPath directory then directory ++ name else directory ++ "/" ++ name

/-- What follows the last point of a name that does not only start with one. -/
def extension? (name : String) : Option String :=
  match (Text.cut '.' name.toList).reverse with
  | last :: before :: rest =>
    if before.isEmpty && rest.isEmpty then none else some (.ofList last)
  | _ => none

end Files

end Cutscene
