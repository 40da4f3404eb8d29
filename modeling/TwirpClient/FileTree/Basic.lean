import TwirpClient.FileTree.Path

/-!
# File trees

Directories and files as a value, with the few operations that the command line needs. A path is followed
name by name: `.` and the empty name stay, `..` goes up, and any other name must be one of a directory,
except for the last, which may be what the operation is about. An operation that cannot be carried out
leaves no trace, as it has no tree to give.

The limits on the length of a name and of a path, and the character NUL in neither, are those of the system.
-/

namespace TwirpClient

/-- A place in a tree: the names that lead to it from the root, the last first. -/
abbrev Place := List String

/-- What may be at a place. -/
inductive Node where
  | directory
  | file (content : List UInt8)
  deriving DecidableEq, Repr

/-- Why an operation on a path cannot be carried out. -/
inductive Obstacle where
  /-- Something on the way is not there. -/
  | missing
  /-- Something is there and stands in the way, or the path is not one. -/
  | blocked
  deriving DecidableEq, Repr

/-- What is at which place. The root is always a directory. -/
structure FileTree where
  nodes : List (Place × Node) := []
  deriving Repr, Inhabited

namespace FileTree

/-- What is at a place, if anything. -/
def node? (tree : FileTree) (place : Place) : Option Node :=
  if place = [] then some .directory else tree.nodes.lookup place

/-- The tree with something put at a place. -/
def put (tree : FileTree) (place : Place) (node : Node) : FileTree where
  nodes := (place, node) :: tree.nodes.filter fun entry => entry.1 ≠ place

/-- The tree with a directory at a place and at every place that leads to it. -/
def putDirectories (tree : FileTree) : Place → FileTree
  | [] => tree
  | name :: outer => (tree.putDirectories outer).put (name :: outer) .directory

/-- The tree with a file at a place, and with the directories that it needs. -/
def plant (tree : FileTree) (place : Place) (content : List UInt8) : FileTree :=
  (tree.putDirectories place.tail).put place (.file content)

/-- What is below a place, each with the names that lead to it from there, the first first. -/
def below (tree : FileTree) (place : Place) : List (List String × Node) :=
  tree.nodes.filterMap fun (inner, node) =>
    if place.isSuffixOf inner ∧ inner.length ≠ place.length then
      some ((inner.take (inner.length - place.length)).reverse, node)
    else none

/-! ## Following paths -/

/-- The most bytes in a name. -/
def maxName : Nat := 255

/-- The most bytes in a path. -/
def maxPath : Nat := 4095

/-- Goes from a directory to the one that a name leads to. -/
def enter (tree : FileTree) (place : Place) (name : String) : Except Obstacle Place :=
  if name = "" ∨ name = "." then .ok place
  else if name = ".." then .ok place.tail
  else if maxName < name.utf8ByteSize then .error .blocked
  else match tree.node? (name :: place) with
    | some .directory => .ok (name :: place)
    | some (.file _) => .error .blocked
    | none => .error .missing

/-- Goes from a directory along some names. -/
def walk (tree : FileTree) (place : Place) (names : List String) : Except Obstacle Place :=
  names.foldlM tree.enter place

/-- Where a path starts, seen from a directory; refused if the text is no path at all. -/
def startOf (here : Place) (path : String) : Except Obstacle Place :=
  if path = "" then .error .missing
  else if maxPath < path.utf8ByteSize ∨ path.toList.contains '\x00' then .error .blocked
  else if Path.isRooted path then .ok []
  else .ok here

/-- The directory that a path leads to. -/
def directoryAt (tree : FileTree) (here : Place) (path : String) : Except Obstacle Place := do
  tree.walk (← startOf here path) (Path.names path)

/-- What a path is about. -/
inductive Target where
  /-- A directory that is there for certain, as the path ends in `.` or `..`, or is the root. -/
  | directory (place : Place)
  /-- A name in a directory, whether there is something of this name or not. A slash behind the name says that
  it is meant to be a directory. -/
  | entry (place : Place) (name : String) (slash : Bool)

/-- Follows a path up to its last name. -/
def target (tree : FileTree) (here : Place) (path : String) : Except Obstacle Target := do
  let start ← startOf here path
  let all := Path.names path
  let named := (all.reverse.dropWhile (· = "")).reverse
  match named.getLast? with
  | none => return .directory start
  | some last =>
    let place ← tree.walk start named.dropLast
    if last = "." ∨ last = ".." then return .directory (← tree.enter place last)
    else if maxName < last.utf8ByteSize then throw .blocked
    else return .entry place last (named.length < all.length)

/-! ## Operations -/

/-- The content of the file that a path leads to. -/
def readFile (tree : FileTree) (here : Place) (path : String) : Except Obstacle (List UInt8) := do
  match ← tree.target here path with
  | .entry place name false =>
    match tree.node? (name :: place) with
    | some (.file content) => return content
    | some .directory => throw .blocked
    | none => throw .missing
  | _ => throw .blocked

/-- The tree with a file of this content where a path leads to. A file that is there is replaced. -/
def writeFile (tree : FileTree) (here : Place) (path : String) (content : List UInt8) :
    Except Obstacle FileTree := do
  match ← tree.target here path with
  | .entry place name false =>
    match tree.node? (name :: place) with
    | some .directory => throw .blocked
    | _ => return tree.put (name :: place) (.file content)
  | _ => throw .blocked

/-- The tree with a new directory where a path leads to. -/
def makeDirectory (tree : FileTree) (here : Place) (path : String) : Except Obstacle FileTree := do
  match ← tree.target here path with
  | .entry place name _ =>
    match tree.node? (name :: place) with
    | none => return tree.put (name :: place) .directory
    | some _ => throw .blocked
  | .directory _ => throw .blocked

end FileTree

end TwirpClient
