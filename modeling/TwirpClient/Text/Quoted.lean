/-!
# String literals of the generated code

A literal stands between single quotes. Three characters cannot stand there as themselves: the quote,
which would end the literal; the backslash, which begins an escape; and the line feed, which may not occur
inside a quoted literal. Every other character is written as it is.

`Quoted.encode` writes the literal and `Quoted.read?` takes one off the front of a text. The main statement,
`Quoted.read?_encode`, says that reading gives back the value and stops at the closing quote, whatever
follows.
-/

namespace TwirpClient.Text.Quoted

/-- How one character is written between the quotes. -/
def escape (c : Char) : List Char :=
  if c = '\'' then ['\\', '\'']
  else if c = '\\' then ['\\', '\\']
  else if c = '\n' then ['\\', 'n']
  else [c]

/-- What stands between the quotes, and the closing quote. -/
def tail (value : List Char) : List Char :=
  value.flatMap escape ++ ['\'']

/-- The literal of a value. -/
def encode (value : List Char) : List Char :=
  '\'' :: tail value

/-- The character that a backslash stands for together with the character after it. -/
def unescape (c : Char) : Char :=
  if c = 'n' then '\n' else c

/-- The value up to the first quote that no backslash precedes, and the text behind that quote. -/
def readTail? : List Char → Option (List Char × List Char)
  | [] => none
  | '\'' :: rest => some ([], rest)
  | ['\\'] => none
  | '\\' :: c :: rest => (readTail? rest).map fun (value, left) => (unescape c :: value, left)
  | c :: rest => (readTail? rest).map fun (value, left) => (c :: value, left)

/-- The literal at the front of a text, as its value and the text behind it. -/
def read? : List Char → Option (List Char × List Char)
  | '\'' :: rest => readTail? rest
  | _ => none

/-- The literal of a text. -/
def ofString (value : String) : String :=
  String.ofList (encode value.toList)

@[simp] theorem tail_nil : tail [] = ['\''] := rfl

@[simp] theorem tail_cons (c : Char) (value : List Char) : tail (c :: value) = escape c ++ tail value := by
  simp [tail]

theorem readTail?_escape (c : Char) (rest : List Char) :
    readTail? (escape c ++ rest) = (readTail? rest).map fun (value, left) => (c :: value, left) := by
  unfold escape
  split
  · next h => subst h; simp [readTail?, unescape]
  · split
    · next h => subst h; simp [readTail?, unescape]
    · split
      · next h => subst h; simp [readTail?, unescape]
      · next hq hb _ =>
        rw [List.singleton_append, readTail?]
        · exact hq
        · intro h; exact absurd h hb
        · intro _ _ h; exact absurd h hb

theorem readTail?_tail (value rest : List Char) : readTail? (tail value ++ rest) = some (value, rest) := by
  induction value with
  | nil => simp [readTail?]
  | cons c value ih => rw [tail_cons, List.append_assoc, readTail?_escape, ih]; rfl

/-- A literal ends where it was meant to end, and stands for the value it was written for. -/
theorem read?_encode (value rest : List Char) : read? (encode value ++ rest) = some (value, rest) := by
  rw [encode, List.cons_append, read?, readTail?_tail]

end TwirpClient.Text.Quoted
