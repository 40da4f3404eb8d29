import TwirpClient.Naming
import TwirpClient.Schema.Basic

/-!
# Blueprints

A blueprint is all that the template of a client looks at: plain texts, with every unset field of the schema
already read as the empty text. It is drawn in two steps. `Outline.ofFile?` takes the package and the
services out of a schema file, or nothing at all from the one file that needs no client; `Blueprint.draw`
adds the names that the naming rules give.
-/

namespace TwirpClient.Client

/-- A service with its package, which the client needs beside every use of its name. -/
structure Service where
  name : String
  package : String
  methods : List String
  deriving DecidableEq, Repr, Inhabited

/-- The package and the services of a schema file. -/
structure Outline where
  package : String
  services : List Service
  deriving DecidableEq, Repr, Inhabited

/-- What a client is made from. -/
structure Blueprint where
  /-- The path of the schema file, for messages. -/
  source : String
  package : String
  /-- The name that the schema file's messages are imported under. -/
  moduleName : String
  /-- What every route begins with. -/
  routePrefix : String
  services : List Service
  deriving DecidableEq, Repr, Inhabited

/-- A service of a schema file, in its package. -/
def Service.ofSchema (package : String) (service : Schema.Service) : Service where
  name := service.label
  package := package
  methods := service.methods.map Schema.Method.label

/-- The outline of a schema file; `none` for the file of the Timestamp message. -/
def Outline.ofFile? (file : Schema.File) : Option Outline :=
  if file.path = Schema.timestampPath then none
  else some ⟨file.packageName, file.services.map (Service.ofSchema file.packageName)⟩

/-- The blueprint of a file's client, for a version of the protocol. -/
def Blueprint.draw (file : Schema.File) (outline : Outline) (version : String) : Blueprint where
  source := file.path
  package := outline.package
  moduleName := Naming.baseName file.path
  routePrefix := Naming.routePrefix version
  services := outline.services

end TwirpClient.Client
