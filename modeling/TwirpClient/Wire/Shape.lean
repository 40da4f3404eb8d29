/-!
# The shapes of messages

The messages that describe schemas, and those that a plugin is sent and sends, by the numbers and kinds of
their fields. A client depends on few of these fields; the others are listed because a message is refused if
any field that it knows is malformed. A field that is not listed is unknown, and is skipped.
-/

namespace TwirpClient.Wire

/-- The messages, in the order in which they contain each other. -/
inductive MessageKind where
  | request | version | response | responseFile | fileSet
  | file | message | extensionRange | reservedRange | field | oneof
  | enumeration | enumValue | service | method
  | fileOptions | messageOptions | fieldOptions | oneofOptions | extensionRangeOptions
  | enumOptions | enumValueOptions | serviceOptions | methodOptions
  | uninterpretedOption | namePart | sourceInfo | location
  deriving DecidableEq, Repr

/-- What a field holds. -/
inductive FieldKind where
  /-- A number, a truth value or a member of an enumeration, as a varint. -/
  | integer
  /-- Any count of such numbers; they may also stand packed in counted bytes. -/
  | integers
  /-- A floating-point number of eight bytes. -/
  | double
  | text
  | bytes
  | nested (kind : MessageKind)
  deriving DecidableEq, Repr

open FieldKind

/-- Options that no schema gave a meaning to; every options message may hold some. -/
def uninterpreted : Nat × FieldKind := (999, nested .uninterpretedOption)

/-- The fields of a message, by number. -/
def MessageKind.fields : MessageKind → List (Nat × FieldKind)
  | .request => [(1, text), (2, text), (15, nested .file), (3, nested .version)]
  | .version => [(1, integer), (2, integer), (3, integer), (4, text)]
  | .response => [(1, text), (2, integer), (15, nested .responseFile)]
  | .responseFile => [(1, text), (15, text)]
  | .fileSet => [(1, nested .file)]
  | .file =>
    [(1, text), (2, text), (3, text), (10, integers), (11, integers), (4, nested .message),
     (5, nested .enumeration), (6, nested .service), (7, nested .field), (8, nested .fileOptions),
     (9, nested .sourceInfo), (12, text)]
  | .message =>
    [(1, text), (2, nested .field), (6, nested .field), (3, nested .message), (4, nested .enumeration),
     (5, nested .extensionRange), (8, nested .oneof), (7, nested .messageOptions),
     (9, nested .reservedRange), (10, text)]
  | .extensionRange => [(1, integer), (2, integer), (3, nested .extensionRangeOptions)]
  | .reservedRange => [(1, integer), (2, integer)]
  | .field =>
    [(1, text), (3, integer), (4, integer), (5, integer), (6, text), (2, text), (7, text), (9, integer),
     (10, text), (8, nested .fieldOptions), (17, integer)]
  | .oneof => [(1, text), (2, nested .oneofOptions)]
  | .enumeration =>
    [(1, text), (2, nested .enumValue), (3, nested .enumOptions), (4, nested .reservedRange), (5, text)]
  | .enumValue => [(1, text), (2, integer), (3, nested .enumValueOptions)]
  | .service => [(1, text), (2, nested .method), (3, nested .serviceOptions)]
  | .method =>
    [(1, text), (2, text), (3, text), (4, nested .methodOptions), (5, integer), (6, integer)]
  | .fileOptions =>
    [(1, text), (8, text), (10, integer), (20, integer), (27, integer), (9, integer), (11, text),
     (16, integer), (17, integer), (18, integer), (42, integer), (23, integer), (31, integer), (36, text),
     (37, text), (39, text), (40, text), (41, text), (44, text), (45, text), uninterpreted]
  | .messageOptions => [(1, integer), (2, integer), (3, integer), (7, integer), uninterpreted]
  | .fieldOptions =>
    [(1, integer), (2, integer), (6, integer), (5, integer), (3, integer), (10, integer), uninterpreted]
  | .oneofOptions => [uninterpreted]
  | .extensionRangeOptions => [uninterpreted]
  | .enumOptions => [(2, integer), (3, integer), uninterpreted]
  | .enumValueOptions => [(1, integer), uninterpreted]
  | .serviceOptions => [(33, integer), uninterpreted]
  | .methodOptions => [(33, integer), (34, integer), uninterpreted]
  | .uninterpretedOption =>
    [(2, nested .namePart), (3, text), (4, integer), (5, integer), (6, double), (7, bytes), (8, text)]
  | .namePart => [(1, text), (2, integer)]
  | .sourceInfo => [(1, nested .location)]
  | .location => [(1, integers), (2, integers), (3, text), (4, text), (6, text)]

/-- What a message holds under a number, `none` if the number is unknown to it. -/
def MessageKind.fieldKind? (kind : MessageKind) (number : Nat) : Option FieldKind :=
  kind.fields.lookup number

end TwirpClient.Wire
