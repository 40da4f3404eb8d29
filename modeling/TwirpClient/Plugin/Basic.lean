import TwirpClient.Client.Generator
import TwirpClient.Options

/-!
# The plugin

The compiler sends a plugin one request: the parameter, the schema files with all that they import, and the
names of those that are to be generated. It wants one response, with the generated files or with the text of
an error and no files.

In a request that names no file, every file is to be generated. Of several faults the parameter's comes
first, then that of a name no file has, then those of generation, each in the order of the names.
-/

namespace TwirpClient.Plugin

open Client

/-- What the compiler asks for. -/
structure Request where
  /-- The names of the files to generate; every file if there is none. -/
  requested : List String := []
  parameter : Option String := none
  files : List Schema.File := []
  deriving DecidableEq, Repr, Inhabited

/-- What the compiler is told. -/
structure Response where
  error : Option String := none
  /-- The set of optional features that the plugin knows of, as a sum of powers of two. -/
  features : Option Nat := none
  files : List ClientFile := []
  deriving DecidableEq, Repr, Inhabited

/-- The parameter of a request, empty if unset. -/
def Request.parameterText (request : Request) : String := request.parameter.getD ""

/-- The first file of a name. -/
def findFile (files : List Schema.File) (name : String) : Except Fault Schema.File :=
  match files.find? (·.path == name) with
  | some file => .ok file
  | none => .error (.missingFile name)

/-- The files that a request wants generated, in order. -/
def Request.selected (request : Request) : Except Fault (List Schema.File) :=
  if request.requested.isEmpty then .ok request.files
  else request.requested.mapM (findFile request.files)

/-- The options of a parameter, its refusal as a fault. -/
def optionsOf (parameter : String) : Except Fault Options :=
  (Options.parse parameter).mapError ParameterFault.toFault

/-- The clients that a request wants, all of them or none. -/
def generateRequest (request : Request) : Except Fault (List ClientFile) := do
  let options ← optionsOf request.parameterText
  let generator : Generator := { version := options.version, library := options.library }
  let files ← request.selected
  generator.generateAll files

/-- The clients of a set of schema files, all of them or none. -/
def generateSet (files : List Schema.File) (options : Options) : Except Fault (List ClientFile) :=
  let generator : Generator := { version := options.version, library := options.library }
  generator.generateAll files

/-- The feature of optional fields in the third version of the schema language. -/
def optionalFields : Nat := 1

/-- The response to a request. -/
def respond (request : Request) : Response :=
  match generateRequest request with
  | .ok files => { features := some optionalFields, files := files }
  | .error fault => { features := some optionalFields, error := some fault.message }

end TwirpClient.Plugin
