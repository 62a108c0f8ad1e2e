/-
# A folder of files

The files and directories below a folder, and where the paths given in it lead.
A path is walked step by step, from one slash to the next: every place on its
way has to be a directory, a dot or nothing between two slashes stays there, two
dots go up, and a name goes down. A path that starts with a slash, or goes up
out of the folder, is outside, where no name is known. Paths and names have
bounds on their length.

Key definitions: `Place`, `Folder`, `Folder.find?`, `Folder.write`,
`Folder.makeDirectory`.
-/
import Manuscript.Text.Split

namespace Manuscript

/-- Where a path may lead. -/
inductive Place where
  /-- The names from the folder down. -/
  | inside (names : List String)
  | outside
deriving Repr, DecidableEq

namespace Place

/-- Where a path starts. -/
def start (path : String) : Place := if path.toList.head? = some '/' then outside else inside []

/-- The place one step on; a name has at most 255 bytes. -/
def next? (place : Place) (step : String) : Option Place :=
  if step == "" || step == "." then some place
  else if 255 < step.utf8ByteSize then none
  else
    match place with
    | outside => if step == ".." then some outside else none
    | inside names =>
      if step != ".." then some (inside (names ++ [step]))
      else if names.isEmpty then some outside
      else some (inside names.dropLast)

end Place

/-- The text can be a path: it is not empty, holds no zero character and has at most 4095 bytes. -/
def isPath (path : String) : Bool :=
  path != "" && !path.toList.contains '\x00' && path.utf8ByteSize ≤ 4095

/-- The steps of a path. -/
def pathSteps (path : String) : List String :=
  (Text.splitBy (· == '/') path.toList).map String.ofList

/-- What stands at a place. -/
inductive Entry where
  | file (content : String)
  | directory
deriving Repr, DecidableEq

/-- A folder of files; the latest entry of a place counts. -/
structure Folder where
  entries : List (List String × Entry) := []
deriving Repr, DecidableEq

namespace Folder

/-- What stands at a place. The folder itself and what is above it are directories. -/
def entry? (d : Folder) : Place → Option Entry
  | .outside => some .directory
  | .inside [] => some .directory
  | .inside names => d.entries.lookup names

/-- Goes one step on from a place, which has to be a directory. -/
def step? (d : Folder) (place : Place) (step : String) : Option Place :=
  if d.entry? place = some .directory then place.next? step else none

/-- What a path leads to. -/
def find? (d : Folder) (path : String) : Option Entry :=
  if isPath path then ((pathSteps path).foldlM d.step? (Place.start path)).bind d.entry? else none

/-- Puts something at a place inside the folder. -/
def put (d : Folder) (e : Entry) : Place → Folder
  | .inside names => ⟨(names, e) :: d.entries⟩
  | .outside => d

/-- Makes a directory at a place where nothing stands. -/
def settle (d : Folder) (place : Place) : Folder :=
  if (d.entry? place).isSome then d else d.put .directory place

/-- Walks steps from a place and makes the directories that are missing on the way: the folder
then, and the place they lead to. -/
def makeWay (d : Folder) (place : Place) : List String → Option (Folder × Place)
  | [] => some (d.settle place, place)
  | step :: steps =>
    let d := d.settle place
    (d.step? place step).bind fun place => d.makeWay place steps

/-- Makes a directory at a path, with those on its way. -/
def makeDirectory (d : Folder) (path : String) : Folder :=
  if isPath path then ((d.makeWay (.start path) (pathSteps path)).map (·.1)).getD d else d

/-- Puts a file at a path and makes the directories on its way. A directory is left as it is. -/
def write (d : Folder) (path content : String) : Folder :=
  let steps := pathSteps path
  match if isPath path then d.makeWay (.start path) steps.dropLast else none with
  | none => d
  | some (way, place) =>
    match way.step? place (steps.getLastD "") with
    | none => d
    | some place =>
      if way.entry? place = some .directory then way else way.put (.file content) place

end Folder

end Manuscript
