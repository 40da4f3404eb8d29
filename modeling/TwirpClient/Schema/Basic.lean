/-!
# Schema files

What the compiler tells about one schema file, as far as a client depends on it: its name, its package and
its services. A field that the compiler left out is `none`. Everything downstream reads such a field as the
empty text, so the readers `path`, `packageName` and `label` stand here, beside the fields.
-/

namespace TwirpClient.Schema

/-- A method of a service, with the full names of its two message types. -/
structure Method where
  name : Option String := none
  inputType : Option String := none
  outputType : Option String := none
  deriving DecidableEq, Repr, Inhabited

/-- A service, with its methods in the order of their declaration. -/
structure Service where
  name : Option String := none
  methods : List Method := []
  deriving DecidableEq, Repr, Inhabited

/-- A schema file, with its services in the order of their declaration. -/
structure File where
  name : Option String := none
  package : Option String := none
  /-- The files it imports, by name. -/
  dependencies : List String := []
  services : List Service := []
  /-- The language version that the file declares. -/
  dialect : Option String := none
  deriving DecidableEq, Repr, Inhabited

/-- The name of the method, empty if unset. -/
def Method.label (method : Method) : String := method.name.getD ""

/-- The name of the service, empty if unset. -/
def Service.label (service : Service) : String := service.name.getD ""

/-- The name of the file, which is its path below the root of the schemas, empty if unset. -/
def File.path (file : File) : String := file.name.getD ""

/-- The package of the file, empty if unset. -/
def File.packageName (file : File) : String := file.package.getD ""

/-- The well-known file that holds the Timestamp message. Clients need nothing generated for it. -/
def timestampPath : String := "google/protobuf/timestamp.proto"

end TwirpClient.Schema
