import TwirpClient.Writer.Directive
import TwirpClient.Writer.Sink

/-!
# The indenting writer

A writer carries out directives. It knows how deep it is and whether it stands at the start of a line, and
it writes indentation late: not when a line begins but before the first text on it, so that a blank line
carries none.

Every operation answers with the writer that it leaves. `.error` says that it stopped, because the sink
refused a piece or because it was told to give up; the writer in it is the one to go on with, for what was
written before stays written.
-/

namespace TwirpClient

/-- A writer at some point of its work. -/
structure Writer where
  /-- What one level of indentation looks like. -/
  indentUnit : String
  sink : Writer.Sink := {}
  /-- How many levels deep the writer is. -/
  level : Nat := 0
  atLineStart : Bool := true
  deriving DecidableEq, Repr

namespace Writer

/-- A writer that indents by a number of spaces. -/
def ofSpaces (count : Nat) (sink : Sink := {}) : Writer where
  indentUnit := String.ofList (List.replicate count ' ')
  sink := sink

/-- Puts one piece into the sink. -/
def put (writer : Writer) (piece : Piece) : Except Writer Writer :=
  if writer.sink.accepts piece then .ok { writer with sink := writer.sink.push piece } else .error writer

/-- Puts indentation of so many levels into the sink, each level in a piece of its own. -/
def indentBy : Nat → Writer → Except Writer Writer
  | 0, writer => .ok writer
  | count + 1, writer => do indentBy count (← writer.put (.indentation writer.indentUnit))

/-- Indents the line if nothing stands on it yet. The line counts as begun only once all of its indentation
is written. -/
def beginLine (writer : Writer) : Except Writer Writer :=
  if writer.atLineStart then do
    return { ← indentBy writer.level writer with atLineStart := false }
  else .ok writer

/-- Writes a text. The empty text begins no line. -/
def write (writer : Writer) (value : String) : Except Writer Writer :=
  if value = "" then .ok writer else do (← writer.beginLine).put (.text value)

/-- Ends the line. -/
def endLine (writer : Writer) : Except Writer Writer := do
  return { ← writer.put .lineFeed with atLineStart := true }

/-- Carries out one directive. -/
def perform (writer : Writer) : Directive → Except Writer Writer
  | .text value => writer.write value
  | .lineFeed => writer.endLine
  | .indent => .ok { writer with level := writer.level + 1 }
  | .dedent => .ok { writer with level := writer.level - 1 }
  | .abort => .error writer

/-- Carries out directives in order, up to the first that stops. -/
def run (writer : Writer) (directives : List Directive) : Except Writer Writer :=
  directives.foldlM perform writer

/-- What an operation leaves, a writer or what holds one, whether it stopped or not. -/
def leftBy {α : Type} : Except α α → α
  | .ok left => left
  | .error left => left

@[simp] theorem run_nil (writer : Writer) : writer.run [] = .ok writer := rfl

theorem run_cons (writer : Writer) (directive : Directive) (rest : List Directive) :
    writer.run (directive :: rest) = writer.perform directive >>= fun next => next.run rest := rfl

theorem run_append (writer : Writer) (first second : List Directive) :
    writer.run (first ++ second) = writer.run first >>= fun next => next.run second :=
  List.foldlM_append

end Writer

end TwirpClient
