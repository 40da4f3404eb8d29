import TwirpClient.Wire.Reader

/-!
# Hosts

What the command line needs of the machine it runs on. The command is written for any host, so that it can
be run on the real one and reasoned about on one that is a plain value.

An operation that is refused is answered with the machine's own words about the refusal. The library has no
part in these words, and hands them on to the user as they are.
-/

namespace TwirpClient.Command

open Wire (Bytes)

/-- What became of an attempt to make a directory. -/
inductive Making where
  | made
  /-- The directory that it should stand in is not there. -/
  | homeless (words : String)
  | refused (words : String)
  deriving DecidableEq, Repr

/-- The operations of a host. Those that may be refused say why. -/
class Host (m : Type → Type) where
  readInput : ExceptT String m Bytes
  readFile : String → ExceptT String m Bytes
  isDirectory : String → m Bool
  makeDirectory : String → m Making
  writeFile : String → Bytes → ExceptT String m Unit
  writeOutput : Bytes → ExceptT String m Unit
  writeMessage : String → m Unit
  /-- What is said of bytes that hold no message of the kind asked for. The wire format leaves this wording to
  whoever reads it. -/
  decodingComplaint : Bytes → m String

end TwirpClient.Command
