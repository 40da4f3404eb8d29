import TwirpClient.Command.Basic

/-!
# The program

The machine as a host, and the command run on it.
-/

namespace TwirpClient.Main

open Command (Host Making)

/-- What an action gives, or what the machine says of its failure. -/
def attempt {α : Type} (action : IO α) : ExceptT String IO α :=
  ExceptT.mk (action.toBaseIO >>= fun outcome => return outcome.mapError toString)

instance : Host IO where
  readInput := attempt do
    let bytes ← (← IO.getStdin).readBinToEnd
    return bytes.data.toList
  readFile path := attempt do
    let bytes ← IO.FS.readBinFile path
    return bytes.data.toList
  isDirectory path := (System.mkFilePath [path]).isDir
  makeDirectory path := do
    try
      IO.FS.createDir path
      return .made
    catch refusal =>
      match refusal with
      | .noFileOrDirectory .. => return .homeless (toString refusal)
      | _ => return .refused (toString refusal)
  writeFile path bytes := attempt (IO.FS.writeBinFile path ⟨bytes.toArray⟩)
  writeOutput bytes := attempt do
    let output ← IO.getStdout
    output.write ⟨bytes.toArray⟩
    output.flush
  writeMessage text := do (← IO.getStderr).putStr text
  decodingComplaint _ := return "failed to decode Protobuf message"

end TwirpClient.Main

/-- Runs the command on the arguments that it was called with. -/
def main (arguments : List String) : IO UInt32 := do
  TwirpClient.Command.run (← IO.appPath).toString arguments
