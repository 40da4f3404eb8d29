import TwirpClient.Client.Template
import TwirpClient.Code.Printer

/-!
# Generators

A generator takes schema files to client files. It holds only how it is configured: each file is generated
from scratch, so no file depends on the ones before it.
-/

namespace TwirpClient.Client

/-- A generated file. -/
structure ClientFile where
  name : String
  content : String
  deriving DecidableEq, Repr, Inhabited

/-- How clients are generated. -/
structure Generator where
  /-- The version of the protocol. -/
  version : String
  library : Library := .pbjs
  helpers : Helpers := {}

namespace Generator

/-- The template of a generator. -/
def template (generator : Generator) : Template where
  helpers := generator.helpers
  library := generator.library

/-- The client of a schema file: no file for the Timestamp message's, and exactly one for any other. -/
def generate (generator : Generator) (file : Schema.File) : Except Fault (List ClientFile) :=
  match Outline.ofFile? file with
  | none => .ok []
  | some outline => do
    let module ← generator.template.expand (Blueprint.draw file outline generator.version)
    let content ← module.print
    return [⟨Naming.outputName file.path, content⟩]

/-- The clients of some schema files, in their order, or the first fault. -/
def generateAll (generator : Generator) (files : List Schema.File) : Except Fault (List ClientFile) :=
  return (← files.mapM generator.generate).flatten

end Generator

end TwirpClient.Client
