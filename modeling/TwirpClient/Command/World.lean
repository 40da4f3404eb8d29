import TwirpClient.Command.Basic
import TwirpClient.FileTree.Basic

/-!
# Worlds

A world is all that a run of the command can see or change, as a value, and `StateM World` is a host. The
input of a world may be one that cannot be read. Its output can be written at any time, and what becomes of a
file is decided by its tree alone.

One text stands for all that the machine may say of what it refuses, and for what is said of bytes that cannot be
decoded. A run tells of one refusal at most, so a statement about every world is one about every wording.
-/

namespace TwirpClient.Command

open Wire (Bytes)

/-- What a run of the command can see or change. -/
structure World where
  tree : FileTree := {}
  /-- The directory that the command runs in. -/
  here : Place := []
  /-- The name that the command is called by. -/
  program : String := "protoc-gen-twirp_typescript"
  /-- What the input holds; `none` if it cannot be read. -/
  input : Option Bytes := some []
  /-- What is said of whatever is refused. -/
  words : String := ""
  output : Bytes := []
  messages : String := ""
  deriving Repr, Inhabited

namespace World

/-- A world after an attempt to change its tree. -/
def settle (world : World) (attempt : Except Obstacle FileTree) : World :=
  match attempt with
  | .ok tree => { world with tree := tree }
  | .error _ => world

/-- What a world answers that has, or has not, what it is asked for. -/
def answer {α : Type} (world : World) (value? : Option α) : Except String α :=
  value?.elim (.error world.words) .ok

/-- What became of an attempt to make a directory. -/
def makingOf (words : String) : Except Obstacle FileTree → Making
  | .ok _ => .made
  | .error .missing => .homeless words
  | .error .blocked => .refused words

instance : Host (StateM World) where
  readInput := fun world => (world.answer world.input, world)
  readFile path := fun world => (world.answer (world.tree.readFile world.here path).toOption, world)
  isDirectory path := fun world => ((world.tree.directoryAt world.here path).isOk, world)
  makeDirectory path := fun world =>
    let attempt := world.tree.makeDirectory world.here path
    (makingOf world.words attempt, world.settle attempt)
  writeFile path content := fun world =>
    let attempt := world.tree.writeFile world.here path content
    (world.answer (attempt.toOption.map fun _ => ()), world.settle attempt)
  writeOutput bytes := fun world => (.ok (), { world with output := world.output ++ bytes })
  writeMessage text := fun world => ((), { world with messages := world.messages ++ text })
  decodingComplaint _ := fun world => (world.words, world)

/-- A run of the command: its exit code, and the world that it leaves. -/
def run (world : World) (arguments : List String) : UInt32 × World :=
  Command.run (m := StateM World) world.program arguments world

end World

end TwirpClient.Command
