import TwirpClient.Text.Cut

/-!
# Names in a generated client

How the names of a schema become names of the client. Each rule is a function on texts, and each takes any
text: an empty name gives an empty name and is never a fault.
-/

namespace TwirpClient.Naming

/-- The name of a schema file without its directories and without anything from its first dot on. -/
def baseName (path : String) : String :=
  Text.before '.' (Text.afterLast '/' path)

/-- The ending of a generated file. -/
def outputEnding : String := ".twirp.ts"

/-- The name of the file that is generated for a schema file. -/
def outputName (path : String) : String :=
  baseName path ++ outputEnding

/-- The text with its first character in lower case, which is how a method appears on the prototype of its
service. Only the letters `A` to `Z` have a lower case here. -/
def lowerInitial (name : String) : String :=
  match name.toList with
  | [] => ""
  | first :: rest => String.ofList (first.toLower :: rest)

/-- The import of a package: the first name of its path in braces, or nothing for no package. -/
def importBinding (package : String) : String :=
  if package = "" then "" else "\x7b" ++ Text.before '.' package ++ "\x7d"

/-- The path that servers mount their services under. -/
def servicePath : String := "/twirp"

/-- The one version of the protocol that mounts services at the root. -/
def rootedVersion : String := "v6"

/-- What the routes of a client begin with. -/
def routePrefix (version : String) : String :=
  if version = rootedVersion then "" else servicePath

end TwirpClient.Naming
