/-!
# Sinks

A sink is where a writer puts its text. It takes whole pieces and keeps them apart, so that it can be told
later which of them were indentation. A sink may have room for only so many bytes: a piece that is longer
than the room left is refused whole and leaves the sink as it was, and a shorter piece may still be taken
after it.
-/

namespace TwirpClient.Writer

/-- What is put into a sink at once. -/
inductive Piece where
  /-- One level of indentation at the start of a line. -/
  | indentation (unit : String)
  | text (value : String)
  /-- The end of a line. -/
  | lineFeed
  deriving DecidableEq, Repr

/-- The characters of a piece. -/
def Piece.content : Piece → String
  | indentation unit => unit
  | text value => value
  | lineFeed => "\n"

/-- The bytes that a piece takes up. -/
def Piece.size (piece : Piece) : Nat := piece.content.utf8ByteSize

/-- The pieces taken so far, and the bytes that still fit, `none` if there is no bound. -/
structure Sink where
  room : Option Nat := none
  pieces : Array Piece := #[]
  deriving DecidableEq, Repr

namespace Sink

/-- Whether there is room for a piece. -/
def accepts (sink : Sink) (piece : Piece) : Bool :=
  match sink.room with
  | none => true
  | some room => piece.size ≤ room

/-- The sink with one more piece. -/
def push (sink : Sink) (piece : Piece) : Sink where
  room := sink.room.map (· - piece.size)
  pieces := sink.pieces.push piece

/-- The characters of some pieces in a row. -/
def contentOf (pieces : List Piece) : String :=
  String.join (pieces.map Piece.content)

/-- All that the sink has taken. -/
def content (sink : Sink) : String :=
  contentOf sink.pieces.toList

/-- What the sink has taken after its first `count` pieces. -/
def contentSince (sink : Sink) (count : Nat) : String :=
  contentOf (sink.pieces.toList.drop count)

/-- A sink without a bound has room for every piece. -/
theorem accepts_of_unbounded {sink : Sink} (h : sink.room = none) (piece : Piece) :
    sink.accepts piece = true := by
  simp only [accepts, h]

/-- A sink stays without a bound. -/
theorem room_push_of_unbounded {sink : Sink} (h : sink.room = none) (piece : Piece) :
    (sink.push piece).room = none := by
  simp only [push, h, Option.map_none]

end Sink

end TwirpClient.Writer
