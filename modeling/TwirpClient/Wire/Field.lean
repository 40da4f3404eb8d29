import TwirpClient.Wire.Varint

/-!
# Fields on the wire

A message is a run of fields. Each begins with a key, a varint that holds the number of the field and the
form of what follows: a varint, eight bytes, four bytes, counted bytes, or a group, which is a run of fields
between a key that opens it and one with the same number that closes it.

Reading goes in two steps. `Token.reader` reads keys with what belongs to them, where the two keys of a
group are tokens of their own; `Field.nest?` then matches these keys. The result needs no schema: which
numbers a message knows, and how deep it may go, is decided afterwards, in `TwirpClient.Wire.Record`.
-/

namespace TwirpClient.Wire

/-- What a field outside a group holds. -/
inductive Scalar where
  | varint (value : Nat)
  | fixed64 (bytes : Bytes)
  | counted (bytes : Bytes)
  | fixed32 (bytes : Bytes)
  deriving DecidableEq, Repr

/-- A key with what belongs to it. -/
inductive Token where
  | scalar (number : Nat) (value : Scalar)
  | groupStart (number : Nat)
  | groupEnd (number : Nat)
  deriving DecidableEq, Repr

/-- A field. -/
inductive Field where
  | scalar (number : Nat) (value : Scalar)
  | group (number : Nat) (fields : List Field)

/-! ## Tokens -/

/-- Keys have 32 bits. -/
def keyBound : Nat := UInt32.size

/-- The key of a field: its number, and the code of its form. -/
def encodeKey (number form : Nat) : Bytes :=
  Varint.encode (8 * number + form)

/-- Reads a key. No field has the number 0. -/
def decodeKey? (bytes : Bytes) : Option ((Nat × Nat) × Bytes) :=
  match Varint.decode? bytes with
  | some (key, rest) => if 8 ≤ key ∧ key < keyBound then some ((key / 8, key % 8), rest) else none
  | none => none

/-- Counted bytes: how many they are, then they themselves. -/
def encodeCounted (bytes : Bytes) : Bytes :=
  Varint.encode bytes.length ++ bytes

/-- Reads counted bytes. -/
def decodeCounted? (bytes : Bytes) : Option (Bytes × Bytes) :=
  match Varint.decode? bytes with
  | some (count, rest) => cut? count rest
  | none => none

namespace Token

/-- Reads what belongs to a key of a number and a form. The codes 6 and 7 stand for no form. -/
def decodeBody? (number : Nat) : Nat → Bytes → Option (Token × Bytes)
  | 0, bytes => (Varint.decode? bytes).map fun (value, rest) => (scalar number (.varint value), rest)
  | 1, bytes => (cut? 8 bytes).map fun (value, rest) => (scalar number (.fixed64 value), rest)
  | 2, bytes => (decodeCounted? bytes).map fun (value, rest) => (scalar number (.counted value), rest)
  | 3, bytes => some (groupStart number, bytes)
  | 4, bytes => some (groupEnd number, bytes)
  | 5, bytes => (cut? 4 bytes).map fun (value, rest) => (scalar number (.fixed32 value), rest)
  | _, _ => none

/-- Reads a token. -/
def decode? (bytes : Bytes) : Option (Token × Bytes) :=
  match decodeKey? bytes with
  | some ((number, form), rest) => decodeBody? number form rest
  | none => none

end Token

/-! ## What the readers take and leave -/

theorem cut?_length_le {count : Nat} {bytes front rest : Bytes} (h : cut? count bytes = some (front, rest)) :
    rest.length ≤ bytes.length := by
  obtain ⟨rfl, -⟩ := cut?_eq_some h
  simp

theorem decodeKey?_shorter {bytes rest : Bytes} {key : Nat × Nat} (h : decodeKey? bytes = some (key, rest)) :
    rest.length < bytes.length := by
  unfold decodeKey? at h
  split at h
  · next hread =>
    split at h
    · cases h; exact Varint.decodeWithin_shorter hread
    · cases h
  · cases h

theorem decodeKey?_stable {bytes rest : Bytes} {key : Nat × Nat} (more : Bytes)
    (h : decodeKey? bytes = some (key, rest)) : decodeKey? (bytes ++ more) = some (key, rest ++ more) := by
  unfold decodeKey? at h ⊢
  split at h
  · next hread =>
    rw [Varint.decode?, Varint.decodeWithin_stable more hread]
    split at h
    · next hbound => cases h; simp only [hbound, and_self, if_true]
    · cases h
  · cases h

theorem decodeCounted?_length_le {bytes front rest : Bytes} (h : decodeCounted? bytes = some (front, rest)) :
    rest.length ≤ bytes.length := by
  unfold decodeCounted? at h
  split at h
  · next hread =>
    exact Nat.le_trans (cut?_length_le h) (Nat.le_of_lt (Varint.decodeWithin_shorter hread))
  · cases h

theorem decodeCounted?_stable {bytes front rest : Bytes} (more : Bytes)
    (h : decodeCounted? bytes = some (front, rest)) :
    decodeCounted? (bytes ++ more) = some (front, rest ++ more) := by
  unfold decodeCounted? at h ⊢
  split at h
  · next hread =>
    rw [Varint.decode?, Varint.decodeWithin_stable more hread]
    exact cut?_stable more h
  · cases h

namespace Token

theorem decodeBody?_length_le {number form : Nat} {bytes rest : Bytes} {token : Token}
    (h : decodeBody? number form bytes = some (token, rest)) : rest.length ≤ bytes.length := by
  unfold decodeBody? at h
  split at h
  · obtain ⟨⟨value, left⟩, hread, heq⟩ := Option.map_eq_some_iff.1 h
    cases heq
    exact Nat.le_of_lt (Varint.decodeWithin_shorter hread)
  · obtain ⟨⟨value, left⟩, hread, heq⟩ := Option.map_eq_some_iff.1 h
    cases heq
    exact cut?_length_le hread
  · obtain ⟨⟨value, left⟩, hread, heq⟩ := Option.map_eq_some_iff.1 h
    cases heq
    exact decodeCounted?_length_le hread
  · cases h; exact Nat.le_refl _
  · cases h; exact Nat.le_refl _
  · obtain ⟨⟨value, left⟩, hread, heq⟩ := Option.map_eq_some_iff.1 h
    cases heq
    exact cut?_length_le hread
  · cases h

theorem decodeBody?_stable {number form : Nat} {bytes rest : Bytes} {token : Token} (more : Bytes)
    (h : decodeBody? number form bytes = some (token, rest)) :
    decodeBody? number form (bytes ++ more) = some (token, rest ++ more) := by
  unfold decodeBody? at h ⊢
  split at h
  · obtain ⟨⟨value, left⟩, hread, heq⟩ := Option.map_eq_some_iff.1 h
    cases heq
    simp only [Varint.decode?, Varint.decodeWithin_stable more hread, Option.map_some]
  · obtain ⟨⟨value, left⟩, hread, heq⟩ := Option.map_eq_some_iff.1 h
    cases heq
    simp only [cut?_stable more hread, Option.map_some]
  · obtain ⟨⟨value, left⟩, hread, heq⟩ := Option.map_eq_some_iff.1 h
    cases heq
    simp only [decodeCounted?_stable more hread, Option.map_some]
  · cases h; rfl
  · cases h; rfl
  · obtain ⟨⟨value, left⟩, hread, heq⟩ := Option.map_eq_some_iff.1 h
    cases heq
    simp only [cut?_stable more hread, Option.map_some]
  · cases h

theorem decode?_shorter {bytes rest : Bytes} {token : Token} (h : decode? bytes = some (token, rest)) :
    rest.length < bytes.length := by
  unfold decode? at h
  split at h
  · next hkey => exact Nat.lt_of_le_of_lt (decodeBody?_length_le h) (decodeKey?_shorter hkey)
  · cases h

theorem decode?_stable {bytes rest : Bytes} {token : Token} (more : Bytes)
    (h : decode? bytes = some (token, rest)) : decode? (bytes ++ more) = some (token, rest ++ more) := by
  unfold decode? at h ⊢
  split at h
  · next hkey =>
    rw [decodeKey?_stable more hkey]
    exact decodeBody?_stable more h
  · cases h

/-- Tokens one after the other. -/
def reader : Reader Token where
  read? := decode?
  shorter := decode?_shorter
  stable := decode?_stable

end Token

/-! ## Groups -/

/-- A group that is open: its number, and the fields that stand before it, the last first. -/
structure OpenGroup where
  number : Nat
  before : List Field

namespace Field

/-- The number of a field. -/
def number : Field → Nat
  | scalar number _ => number
  | group number _ => number

mutual

/-- How many levels of nesting a field takes up: one, and one more for each group around its deepest part. -/
def levels : Field → Nat
  | scalar _ _ => 1
  | group _ fields => 1 + deepest fields

/-- The most levels that one of some fields takes up. -/
def deepest : List Field → Nat
  | [] => 0
  | field :: rest => max field.levels (deepest rest)

end

/-- Puts the fields between the two keys of a group together, given the groups that are open, the innermost
first, and the fields read in the innermost so far, the last first. -/
def nestFrom (opened : List OpenGroup) (before : List Field) : List Token → Option (List Field)
  | [] => if opened.isEmpty then some before.reverse else none
  | .scalar number value :: rest => nestFrom opened (scalar number value :: before) rest
  | .groupStart number :: rest => nestFrom (⟨number, before⟩ :: opened) [] rest
  | .groupEnd number :: rest =>
    match opened with
    | [] => none
    | outer :: others =>
      if outer.number = number then nestFrom others (group number before.reverse :: outer.before) rest
      else none

/-- The fields of some tokens. A group that is not closed, or closed by another number, is none. -/
def nest? (tokens : List Token) : Option (List Field) :=
  nestFrom [] [] tokens

/-- The fields of a message. -/
def decodeAll? (bytes : Bytes) : Option (List Field) :=
  (Token.reader.all bytes).bind nest?

end Field

end TwirpClient.Wire
