import TwirpClient.Writer.Basic

/-!
# Writing sessions

A session uses one writer over many steps, and a step that fails does not end it. Whoever has the writer may
take hold of a level of indentation, and the writer is one level deeper until that level is released; levels
are released in any order. Each step answers with what it added and whether it failed.

A step is made of acts, which are done in their order up to the first that fails. The items of a list are acts
as well: a list hands the writer to a callback for each of its items, and a callback may do with it whatever
its caller may.
-/

namespace TwirpClient.Writer

/-- A level of indentation that is held. It is one level of the writer's and no particular one, so all that can be
done with it is to release it. -/
structure Hold where
  deriving DecidableEq, Repr

/-- One thing that is done with the writer of a session, by its user or by a callback. -/
inductive Act where
  | write (value : String)
  | endLine
  /-- Takes hold of a level. -/
  | hold
  /-- Releases one of the levels that are held, of which the newest is at 0. Where none is at this position
  there is none to release. -/
  | release (position : Nat)
  /-- Gives up. -/
  | fail
  deriving DecidableEq, Repr

/-- One step of a session. -/
inductive Step where
  | write (value : String)
  | writeLine (value : String)
  | comment (value : String)
  /-- Two texts, put together before they are written. -/
  | joined (first second : String)
  | endLine
  | separated (separator : String) (items : List (List Act))
  | separatedLines (separator : String) (items : List (List Act))
  | hold
  | releaseNewest
  | releaseOldest
  | release (position : Nat)
  deriving DecidableEq, Repr

/-- What a step answers. -/
structure Report where
  wrote : String
  failed : Bool
  deriving DecidableEq, Repr

/-- A writer and the levels that are held, the newest first. -/
structure Session where
  writer : Writer
  held : List Hold := []
  deriving DecidableEq, Repr

namespace Act

/-- How a list item is written that is a text, or that cannot be written. -/
def ofItem : Option String → List Act
  | some value => [write value]
  | none => [fail]

instance : Coe (List (Option String)) (List (List Act)) := ⟨List.map ofItem⟩

/-- A directive as an act. What begins a level takes hold of it, and what ends one releases the newest. -/
def ofDirective : Directive → Act
  | .text value => write value
  | .lineFeed => endLine
  | .indent => hold
  | .dedent => release 0
  | .abort => fail

/-- What an act asks of the writer, given the levels that are held. -/
def directives (held : List Hold) : Act → List Directive
  | write value => [.text value]
  | endLine => [.lineFeed]
  | hold => [.indent]
  | release position => if position < held.length then [.dedent] else []
  | fail => [.abort]

/-- The levels held after an act. -/
def heldAfter (held : List Hold) : Act → List Hold
  | hold => {} :: held
  | release position => held.eraseIdx position
  | _ => held

end Act

/-- The acts of a step, given how many levels are held. -/
def Step.acts (heldCount : Nat) : Step → List Act
  | write value => [.write value]
  | writeLine value => (Directive.line value).map .ofDirective
  | comment value => (Directive.comment value).map .ofDirective
  | joined first second => [.write (first ++ second)]
  | endLine => [.endLine]
  | separated separator items => List.intercalate [.write separator] items
  | separatedLines separator items => List.intercalate ((Directive.line separator).map .ofDirective) items
  | hold => [.hold]
  | releaseNewest => [.release 0]
  | releaseOldest => [.release (heldCount - 1)]
  | release position => [.release position]

namespace Session

/-- Does one act. -/
def perform (session : Session) (act : Act) : Except Session Session :=
  match session.writer.run (act.directives session.held) with
  | .ok writer => .ok ⟨writer, act.heldAfter session.held⟩
  | .error writer => .error ⟨writer, session.held⟩

/-- Does acts in their order, up to the first that fails. -/
def performAll (session : Session) (acts : List Act) : Except Session Session :=
  acts.foldlM perform session

/-- The session after a step, and what the step answers. -/
def advance (session : Session) (step : Step) : Session × Report :=
  let count := session.writer.sink.pieces.size
  let outcome := session.performAll (step.acts session.held.length)
  let next := leftBy outcome
  (next, ⟨next.writer.sink.contentSince count, !outcome.isOk⟩)

/-- The session after all steps, and what each of them answers. -/
def run : Session → List Step → Session × List Report
  | session, [] => (session, [])
  | session, step :: rest =>
    let (next, report) := session.advance step
    let (last, reports) := next.run rest
    (last, report :: reports)

end Session

end TwirpClient.Writer
