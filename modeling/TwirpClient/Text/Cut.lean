/-!
# Cutting text at a character

The four cuts that names and parameters need. Each is said on lists of characters by the list's own
operators, so that a law about it is a law about `takeWhile` or `splitOn`; the functions on `String` only
carry the result over.
-/

namespace TwirpClient.Text

/-- The text up to the first `mark`, all of it if there is none. -/
def before (mark : Char) (text : String) : String :=
  String.ofList (text.toList.takeWhile (· != mark))

/-- The text behind the last `mark`, all of it if there is none. -/
def afterLast (mark : Char) (text : String) : String :=
  String.ofList (text.toList.reverse.takeWhile (· != mark)).reverse

/-- The texts between the `mark`s, one more than there are of these. -/
def pieces (mark : Char) (text : String) : List String :=
  (text.toList.splitOn mark).map String.ofList

/-- The characters on the two sides of the first `mark`. -/
def halvesChars? (mark : Char) : List Char → Option (List Char × List Char)
  | [] => none
  | c :: rest =>
    if c = mark then some ([], rest)
    else (halvesChars? mark rest).map fun (left, right) => (c :: left, right)

/-- The texts on the two sides of the first `mark`. -/
def halves? (mark : Char) (text : String) : Option (String × String) :=
  (halvesChars? mark text.toList).map fun (left, right) => (String.ofList left, String.ofList right)

/-- Two halves are the text again with the mark between them, and the first half ends at the first mark. -/
theorem halvesChars?_eq_some {mark : Char} {cs left right : List Char}
    (h : halvesChars? mark cs = some (left, right)) : cs = left ++ mark :: right ∧ mark ∉ left := by
  induction cs generalizing left with
  | nil => simp [halvesChars?] at h
  | cons c rest ih =>
    by_cases hc : c = mark
    · simp only [halvesChars?, hc, if_true, Option.some.injEq, Prod.mk.injEq] at h
      obtain ⟨rfl, rfl⟩ := h
      simp [hc]
    · simp only [halvesChars?, hc, if_false, Option.map_eq_some_iff] at h
      obtain ⟨⟨l, r⟩, hr, heq⟩ := h
      simp only [Prod.mk.injEq] at heq
      obtain ⟨rfl, rfl⟩ := heq
      obtain ⟨hrest, hmem⟩ := ih hr
      exact ⟨by simp [hrest], by simp [hmem, Ne.symm hc]⟩

/-- There are no halves exactly where there is no mark. -/
theorem halvesChars?_eq_none {mark : Char} {cs : List Char} :
    halvesChars? mark cs = none ↔ mark ∉ cs := by
  induction cs with
  | nil => simp [halvesChars?]
  | cons c rest ih =>
    by_cases hc : c = mark
    · simp [halvesChars?, hc]
    · simp [halvesChars?, hc, ih, Ne.symm hc]

end TwirpClient.Text
