import TwirpClient.Command.Host
import TwirpClient.FileTree.Path
import TwirpClient.Plugin.Message

/-!
# The command line

Without arguments the command is a plugin: it reads a request from its input and writes the response to its
output. With arguments it works alone: it reads a set of schema files and writes their clients into a
directory. All clients are generated before the first thing is written, so a run that fails in generating
leaves everything as it was.

A run that fails reports one failure: what it could not do, and behind it what the machine, the decoder or the
generator said, if anything. What a log would tell of a run is no part of it.
-/

namespace TwirpClient.Command

open Wire (Bytes)

/-! ## Arguments -/

/-- What a run of the command is to do. -/
inductive Task where
  | plugin
  | usage
  /-- Generates the clients of a set; the input is a path, or `-` for the input of the command. -/
  | generate (input directory parameter : String)
  deriving DecidableEq, Repr

/-- The task that the arguments ask for. -/
def Task.ofArguments : List String → Task
  | [] => plugin
  | "-h" :: _ => usage
  | "--help" :: _ => usage
  | [input] => generate input "." ""
  | [input, directory] => generate input directory ""
  | input :: directory :: parameter :: _ => generate input directory parameter

/-- How the command is used, line by line. -/
def usageLines (program : String) : List String :=
  ["Twirp TypeScript client generator",
   "",
   "USAGE:",
   s!"  protoc --plugin={program} --twirp_typescript_out=version=v6:out/ my.proto",
   s!"  {program} <descriptor_set.pb> [out_dir] [parameter]",
   s!"  {program} - [out_dir] [parameter] < descriptor_set.pb",
   "",
   "ARGUMENTS:",
   "  descriptor_set.pb   FileDescriptorSet from protoc",
   "  out_dir             Output directory (default: .)",
   "  parameter           Plugin options, e.g. version=v6,library=pbjs",
   "",
   "With no arguments, runs as a protoc plugin on stdin/stdout."]

/-- How the command is used. -/
def usageText (program : String) : String :=
  String.join ((usageLines program).map (· ++ "\n"))

/-! ## Failures -/

/-- Why a run of the command fails. What comes from outside the library has a cause, in the words it came with. -/
inductive Failure where
  | requestUnreadable (cause : String)
  | responseUnwritable (cause : String)
  | inputUnreadable (cause : String)
  | fileUnreadable (path cause : String)
  | setUndecodable (cause : String)
  | generation (fault : Fault)
  | directoryUnmade (path cause : String)
  | fileUnwritable (path cause : String)
  deriving DecidableEq, Repr

/-- What a run could not do. -/
def Failure.message : Failure → String
  | requestUnreadable _ => "couldn't read CodeGeneratorRequest from stdin"
  | responseUnwritable _ => "couldn't write CodeGeneratorResponse to stdout"
  | inputUnreadable _ => "couldn't read descriptor set from stdin"
  | fileUnreadable path _ => s!"couldn't read {path}"
  | setUndecodable _ => "failed to decode file descriptor set"
  | generation fault => fault.message
  | directoryUnmade path _ => s!"couldn't create {path}"
  | fileUnwritable path _ => s!"couldn't write {path}"

/-- What lies behind a failure. A cause has none of its own. -/
def Failure.cause? : Failure → Option String
  | requestUnreadable cause | responseUnwritable cause | inputUnreadable cause | setUndecodable cause => some cause
  | fileUnreadable _ cause | directoryUnmade _ cause | fileUnwritable _ cause => some cause
  | generation fault => fault.cause?

/-- The paragraph about a cause, each line of which is set in. -/
def causeText (cause : String) : String :=
  "\nCaused by:\n" ++ String.join ((Text.pieces '\n' cause).map ("    " ++ · ++ "\n"))

/-- What a user reads of a failure. -/
def Failure.report (failure : Failure) : String :=
  s!"Error: {failure.message}\n" ++ failure.cause?.elim "" causeText

/-! ## Running -/

section Run

variable {m : Type → Type} [Monad m] [Host m]

/-- Accepts what became of an attempt to make a directory, which may be there already. -/
def acceptMaking (path : String) : Making → ExceptT String m Unit
  | .made => return
  | .homeless words | .refused words => do
    unless ← (Host.isDirectory path : m Bool) do throw words

/-- Makes the first of some directories, given those that it stands in, the nearest first. -/
def makeDirectories : List String → ExceptT String m Unit
  | [] => return
  | path :: around => do
    match ← (Host.makeDirectory path : m Making) with
    | .homeless _ =>
      makeDirectories around
      acceptMaking path (← (Host.makeDirectory path : m Making))
    | making => acceptMaking path making

/-- Makes a directory and all that it stands in. The empty path is the directory one is in. -/
def ensureDirectory (path : String) : ExceptT String m Unit :=
  if path = "" then return else makeDirectories (path :: Path.ancestors path)

/-- Answers one request. -/
def runPlugin : ExceptT Failure m Unit := do
  let bytes ← Host.readInput.adapt .requestUnreadable
  (Host.writeOutput (Plugin.respondBytes bytes)).adapt .responseUnwritable

/-- Reads an encoded set of schema files from a path, or for `-` from the input of the command. -/
def readSource (input : String) : ExceptT Failure m Bytes :=
  if input = "-" then Host.readInput.adapt .inputUnreadable
  else (Host.readFile input).adapt (.fileUnreadable input)

/-- The schema files of an encoded set. -/
def decodeSet (bytes : Bytes) : ExceptT String m (List Schema.File) :=
  match Schema.decodeSet? bytes with
  | some files => return files
  | none => do throw (← (Host.decodingComplaint bytes : m String))

/-- The clients of a set under the options of a parameter. -/
def clientsOf (files : List Schema.File) (parameter : String) : Except Fault (List Client.ClientFile) := do
  let options ← Plugin.optionsOf parameter
  Plugin.generateSet files options

/-- Writes one client into a directory. -/
def writeClient (directory : String) (client : Client.ClientFile) : ExceptT Failure m Unit :=
  let path := Path.join directory client.name
  (Host.writeFile path (Text.Utf8.encode client.content)).adapt (.fileUnwritable path)

/-- Generates the clients of a set and writes them into a directory. -/
def runGenerate (input directory parameter : String) : ExceptT Failure m Unit := do
  let bytes ← readSource input
  let files ← (decodeSet bytes).adapt .setUndecodable
  let clients ← (clientsOf files parameter).mapError Failure.generation
  (ensureDirectory directory).adapt (.directoryUnmade directory)
  clients.forM (writeClient directory)

/-- Carries out a task. -/
def Task.run (program : String) : Task → ExceptT Failure m Unit
  | plugin => runPlugin
  | usage => (Host.writeMessage (usageText program) : m Unit)
  | generate input directory parameter => runGenerate input directory parameter

/-- Runs the command, called by some name and with some arguments, and gives its exit code. -/
def run (program : String) (arguments : List String) : m UInt32 := do
  match ← ((Task.ofArguments arguments).run program).run with
  | .ok () => return 0
  | .error failure =>
    Host.writeMessage failure.report
    return 1

end Run

end TwirpClient.Command
