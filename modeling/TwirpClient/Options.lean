import TwirpClient.Fault
import TwirpClient.Text.Blank
import TwirpClient.Text.Cut

/-!
# Options

The compiler hands a plugin one string, the parameter: pieces between commas, each a key, an equals sign
and a value. `Setting.parse` reads one piece, `Options.parse` the whole parameter. White space around a
piece, a key or a value does not count, and a blank piece says nothing.

Pieces are read from the left. The first that is refused decides the answer, and of two settings of one
option the later stands.
-/

namespace TwirpClient

/-- The message library that a generated client is written against. -/
inductive Library where
  /-- Static code of protobufjs, with the adapter of `pbjs-twirp`. -/
  | pbjs
  deriving DecidableEq, Repr, Inhabited

/-- Why a parameter is refused. Each case holds the text it complains about, trimmed. -/
inductive ParameterFault where
  | notKeyValue (piece : String)
  | unknownOption (key : String)
  | unsupportedLibrary (name : String)
  deriving DecidableEq, Repr

/-- The complaint, as it stands in the message of the fault. -/
def ParameterFault.reason : ParameterFault → String
  | .notKeyValue piece => s!"expected key=value, got `{piece}`"
  | .unknownOption key => s!"unknown option `{key}`"
  | .unsupportedLibrary name => s!"unsupported library `{name}`"

/-- A refused parameter as a fault of generation. -/
def ParameterFault.toFault (fault : ParameterFault) : Fault :=
  .parameter fault.reason

namespace Library

/-- The name of a library in a parameter. -/
def name : Library → String
  | pbjs => "pbjs"

/-- The library of a name. -/
def ofName (name : String) : Except ParameterFault Library :=
  if name = pbjs.name then .ok pbjs else .error (.unsupportedLibrary name)

/-- Where the messages of a schema file are imported from. The client stands beside them. -/
def messageModule (library : Library) (moduleName : String) : String :=
  match library with
  | pbjs => s!"./{moduleName}.pb"

/-- The package that adapts a service of the library to the protocol. -/
def adapterModule : Library → String
  | pbjs => "pbjs-twirp"

/-- A library is found by its name. -/
theorem ofName_name (library : Library) : ofName library.name = .ok library := by
  cases library
  rfl

end Library

/-- What a parameter decides. Unset options keep the values given here. -/
structure Options where
  /-- The version of the protocol. Only one version changes the client, see `Naming.routePrefix`. -/
  version : String := ""
  library : Library := .pbjs
  deriving DecidableEq, Repr, Inhabited

/-- One piece of a parameter, read. -/
inductive Setting where
  | version (value : String)
  | library (value : Library)
  deriving DecidableEq, Repr

/-- Reads one trimmed piece. The value is all that follows the first equals sign. -/
def Setting.parse (piece : String) : Except ParameterFault Setting :=
  match Text.halves? '=' piece with
  | none => .error (.notKeyValue piece)
  | some (key, value) =>
    match Text.trim key with
    | "version" => .ok (.version (Text.trim value))
    | "library" => (Library.ofName (Text.trim value)).map .library
    | key => .error (.unknownOption key)

namespace Options

/-- Options after one more setting. -/
def set (options : Options) : Setting → Options
  | .version value => { options with version := value }
  | .library value => { options with library := value }

/-- The pieces of a parameter that say something, trimmed. -/
def piecesOf (parameter : String) : List String :=
  ((Text.pieces ',' parameter).map Text.trim).filter (· ≠ "")

/-- The options of a parameter. -/
def parse (parameter : String) : Except ParameterFault Options :=
  ((piecesOf parameter).mapM Setting.parse).map (·.foldl set {})

end Options

end TwirpClient
