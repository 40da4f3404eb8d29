import TwirpClient.Text.Cut

/-!
# Paths as texts

A path is written as names between slashes, and begins with a slash if it starts at the root. What is said
here concerns the text alone; where a path leads is said in `TwirpClient.FileTree.Basic`.
-/

namespace TwirpClient.Path

/-- The names between the slashes, empty ones too. -/
def names (path : String) : List String :=
  Text.pieces '/' path

/-- Whether a path starts at the root. -/
def isRooted (path : String) : Bool :=
  path.toList.head? == some '/'

/-- The path that leads where `path` does for one who is in `directory`: a path that starts at the root is not
changed by where one is. The empty path stands for the directory one is in. -/
def join (directory path : String) : String :=
  if isRooted path then path
  else if directory = "" ∨ directory.toList.getLast? = some '/' then directory ++ path
  else directory ++ "/" ++ path

/-- The names that lead somewhere. A name `.` leads nowhere, unless it is all that a path begins with. -/
def steps (path : String) : List String :=
  match names path with
  | "." :: rest => "." :: rest.filter fun name => name ≠ "" ∧ name ≠ "."
  | all => all.filter fun name => name ≠ "" ∧ name ≠ "."

/-- The paths of the directories that a path goes through before its last step, the nearest first. -/
def ancestors (path : String) : List String :=
  let root := if isRooted path then "/" else ""
  let before := (steps path).dropLast
  let shorter := (List.range before.length).reverse.map fun count =>
    root ++ "/".intercalate (before.take (count + 1))
  shorter ++ (if isRooted path then [root] else [])

end TwirpClient.Path
