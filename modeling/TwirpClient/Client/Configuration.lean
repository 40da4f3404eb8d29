import TwirpClient.Client.Generator

/-!
# Configuring a generator step by step

A generator may be set up, used, set up anew and used again. The steps of such a use are data here, each
with its answer, so that it can be said what an answer depends on: the configuration at that moment and
nothing else. A step that fails leaves the configuration as it was.
-/

namespace TwirpClient.Client.Generator

/-- One step in the use of a generator. -/
inductive Step where
  /-- Starts over with a new generator for a version. -/
  | restart (version : String)
  /-- Writes clients against the library of a name, if there is one. -/
  | selectLibrary (name : String)
  /-- Replaces both open rules of naming. -/
  | selectHelpers (helpers : Helpers)
  | askVersion
  | askLibrary
  | generate (file : Schema.File)

/-- What a step answers. -/
inductive Answer where
  | done
  | text (value : String)
  | files (files : List ClientFile)
  deriving DecidableEq, Repr

/-- The generator after a step. -/
def after (generator : Generator) : Step → Generator
  | .restart version => { version := version }
  | .selectLibrary name =>
    match Library.ofName name with
    | .ok library => { generator with library := library }
    | .error _ => generator
  | .selectHelpers helpers => { generator with helpers := helpers }
  | .askVersion | .askLibrary | .generate _ => generator

/-- What a generator answers to a step. -/
def answer (generator : Generator) : Step → Except Fault Answer
  | .restart _ => .ok .done
  | .selectLibrary name =>
    match Library.ofName name with
    | .ok _ => .ok .done
    | .error fault => .error fault.toFault
  | .selectHelpers _ => .ok .done
  | .askVersion => .ok (.text generator.version)
  | .askLibrary => .ok (.text generator.library.name)
  | .generate file => (generator.generate file).map .files

/-- The answers to some steps, each given by the generator that the steps before it left. -/
def answers : Generator → List Step → List (Except Fault Answer)
  | _, [] => []
  | generator, step :: rest => generator.answer step :: (generator.after step).answers rest

end TwirpClient.Client.Generator
