import TwirpClient.Text.Utf8
import TwirpClient.Wire.Field
import TwirpClient.Wire.Shape

/-!
# Records

A record is a message that has been read: its known fields in the order in which they came, each a number
with a value. Nothing is merged on reading. What a field that came twice means is said by the functions that
look into a record: `text?` takes the last, `texts` and `messages` take all.

A message may stand in a message only so deep. `decodeWithin` is told how many more levels there may be; a
message within a message takes up one, and a field that is skipped takes up as many as `Field.levels` says.
-/

namespace TwirpClient.Wire

/-- What a known field holds. -/
inductive Value where
  | integer (value : Nat)
  | double (bytes : Bytes)
  | text (value : String)
  | bytes (value : Bytes)
  | message (entries : List (Nat × Value))

/-- The known fields of a message, in order. -/
abbrev Record := List (Nat × Value)

/-! ## Looking into a record -/

namespace Record

/-- All texts under a number. -/
def texts (record : Record) (number : Nat) : List String :=
  record.filterMap fun
    | (n, .text value) => if n = number then some value else none
    | _ => none

/-- All messages under a number. -/
def messages (record : Record) (number : Nat) : List Record :=
  record.filterMap fun
    | (n, .message entries) => if n = number then some entries else none
    | _ => none

/-- All numbers under a number. -/
def integers (record : Record) (number : Nat) : List Nat :=
  record.filterMap fun
    | (n, .integer value) => if n = number then some value else none
    | _ => none

/-- The last text under a number. -/
def text? (record : Record) (number : Nat) : Option String :=
  (record.texts number).getLast?

/-- The last number under a number. -/
def integer? (record : Record) (number : Nat) : Option Nat :=
  (record.integers number).getLast?

/-- A text under a number, if it is set. -/
def ofText? (number : Nat) (value : Option String) : Record :=
  value.toList.map fun text => (number, .text text)

/-- A number under a number, if it is set. -/
def ofInteger? (number : Nat) (value : Option Nat) : Record :=
  value.toList.map fun n => (number, .integer n)

/-- Texts under one number. -/
def ofTexts (number : Nat) (values : List String) : Record :=
  values.map fun text => (number, .text text)

/-- Messages under one number. -/
def ofMessages (number : Nat) (records : List Record) : Record :=
  records.map fun record => (number, .message record)

end Record

/-! ## Writing -/

mutual

/-- The bytes of a field. -/
def Value.encode (number : Nat) : Value → Bytes
  | .integer value => encodeKey number 0 ++ Varint.encode value
  | .double bytes => encodeKey number 1 ++ bytes
  | .text value => encodeKey number 2 ++ encodeCounted (Text.Utf8.encode value)
  | .bytes value => encodeKey number 2 ++ encodeCounted value
  | .message entries => encodeKey number 2 ++ encodeCounted (encodeEntries entries)

/-- The bytes of some fields. -/
def encodeEntries : List (Nat × Value) → Bytes
  | [] => []
  | (number, value) :: rest => value.encode number ++ encodeEntries rest

end

/-- The bytes of a message. -/
def Record.encode (record : Record) : Bytes :=
  encodeEntries record

/-! ## Reading -/

/-- The values of a known field, in order; `none` if it does not hold what it should. -/
def Scalar.values? (nested : MessageKind → Bytes → Option Record) : FieldKind → Scalar → Option (List Value)
  | .integer, .varint value => some [.integer value]
  | .integers, .varint value => some [.integer value]
  | .integers, .counted bytes => (Varint.reader.all bytes).map (·.map .integer)
  | .double, .fixed64 bytes => some [.double bytes]
  | .text, .counted bytes => (Text.Utf8.decode? bytes).map fun text => [.text text]
  | .bytes, .counted bytes => some [.bytes bytes]
  | .nested kind, .counted bytes => (nested kind bytes).map fun record => [.message record]
  | _, _ => none

/-- What a field adds to the record of a message. An unknown field adds nothing, if it is not too deep. -/
def Field.entries? (nested : MessageKind → Bytes → Option Record) (budget : Nat) (kind : MessageKind)
    (field : Field) : Option Record :=
  match kind.fieldKind? field.number, field with
  | none, field => if field.levels ≤ budget then some [] else none
  | some fieldKind, .scalar number value =>
    (value.values? nested fieldKind).map fun values => values.map fun value => (number, value)
  | some _, .group _ _ => none

/-- Reads a message, given how to read the messages in it. -/
def Record.decodeUsing (nested : MessageKind → Bytes → Option Record) (budget : Nat) (kind : MessageKind)
    (bytes : Bytes) : Option Record := do
  let fields ← Field.decodeAll? bytes
  let entries ← fields.mapM (Field.entries? nested budget kind)
  return entries.flatten

/-- Reads a message that may hold so many levels more. -/
def Record.decodeWithin : Nat → MessageKind → Bytes → Option Record
  | 0 => Record.decodeUsing (fun _ _ => none) 0
  | budget + 1 => Record.decodeUsing (Record.decodeWithin budget) (budget + 1)

/-- How many levels a message may hold. -/
def maxLevels : Nat := 100

/-- Reads a message. -/
def Record.decode? (kind : MessageKind) (bytes : Bytes) : Option Record :=
  Record.decodeWithin maxLevels kind bytes

end TwirpClient.Wire
