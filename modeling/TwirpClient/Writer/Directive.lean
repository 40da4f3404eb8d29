/-!
# Writing directives

What a piece of code asks of the writer, as data: a text to write, a line to end, a level of indentation to
begin or to end. A printer gives a list of directives and never sees the state of the writer, so what it
prints is a function of what it prints *from*, and how directives become lines is said once, in
`TwirpClient.Writer.Basic`.
-/

namespace TwirpClient.Writer

/-- One request to the writer. -/
inductive Directive where
  /-- Writes a text in one piece, with the indentation before it at the start of a line. -/
  | text (value : String)
  /-- Ends the line. -/
  | lineFeed
  /-- Begins a deeper level of indentation. It counts from the next text that starts a line. -/
  | indent
  /-- Ends the deepest level of indentation. -/
  | dedent
  /-- Gives up: nothing after it is carried out. -/
  | abort
  deriving DecidableEq, Repr

namespace Directive

/-- A text and the end of its line. -/
def line (value : String) : List Directive := [text value, lineFeed]

/-- A line comment. -/
def comment (value : String) : List Directive := line ("// " ++ value)

/-- Items on one line with a separator between any two. -/
def separated (separator : String) (items : List (List Directive)) : List Directive :=
  List.intercalate [text separator] items

/-- Items on lines of their own. The separator ends every line but the last, whose end is left open. -/
def separatedLines (separator : String) (items : List (List Directive)) : List Directive :=
  List.intercalate (line separator) items

/-- Directives carried out one level deeper. -/
def nested (body : List Directive) : List Directive :=
  indent :: (body ++ [dedent])

end Directive

end TwirpClient.Writer
