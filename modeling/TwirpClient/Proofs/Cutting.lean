import Mathlib.Data.List.DropRight
import TwirpClient.Text.Blank
import TwirpClient.Text.Cut

/-!
# Cuts, said without cutting

What the cuts of a text are, by what they give and not by how they are made. Parts are the pieces of a text
at a mark if they have no mark in them and are the text again when they are joined by it (`isCut_iff`). Halves
are the text on the two sides of a mark with none before it (`halves?_eq_some_iff`). The text before the first
mark, or behind the last, has none in it and stands next to one or to an end (`before_eq_iff`,
`afterLast_eq_iff`). A text is trimmed if nothing but white space was taken from its ends and none is left
there (`isTrimOf_iff`).
-/

namespace TwirpClient.Text

/-! ## Pieces -/

/-- Whether a text falls into these pieces at its marks. -/
def IsCut (mark : Char) (text : String) (parts : List String) : Prop :=
  (String.singleton mark).intercalate parts = text ∧ parts ≠ [] ∧ ∀ part ∈ parts, mark ∉ part.toList

/-- A cut leaves no mark within a part, so a part cannot be cut any further. -/
theorem not_mem_of_mem_splitOn {mark : Char} {cs part : List Char} (h : part ∈ cs.splitOn mark) :
    mark ∉ part := by
  induction cs generalizing part with
  | nil =>
    rw [List.splitOn_nil, List.mem_singleton] at h
    rw [h]
    exact List.not_mem_nil
  | cons c cs ih =>
    rw [List.splitOn_cons_eq_if_modifyHead] at h
    by_cases hc : c = mark
    · rw [if_pos (beq_iff_eq.mpr hc)] at h
      rcases List.mem_cons.mp h with rfl | h
      · exact List.not_mem_nil
      · exact ih h
    · obtain ⟨first, others, hsplit⟩ := List.exists_cons_of_ne_nil (List.splitOn_ne_nil mark cs)
      rw [if_neg (by simpa using hc), hsplit, List.modifyHead_cons] at h
      rw [hsplit] at ih
      rcases List.mem_cons.mp h with rfl | h
      · rw [List.mem_cons, not_or]
        exact ⟨Ne.symm hc, ih List.mem_cons_self⟩
      · exact ih (List.mem_cons_of_mem _ h)

/-- A text falls into parts in one way only, and this is the way it is cut in. The empty text has one part, not
none. -/
theorem isCut_iff {mark : Char} {text : String} {parts : List String} :
    IsCut mark text parts ↔ pieces mark text = parts := by
  constructor
  · rintro ⟨rfl, hne, hmarks⟩
    have hparts : ∀ part ∈ parts.map String.toList, mark ∉ part := by
      intro part hpart
      obtain ⟨text, htext, rfl⟩ := List.mem_map.mp hpart
      exact hmarks text htext
    rw [pieces, String.toList_intercalate, String.toList_singleton,
      List.splitOn_intercalate mark hparts (by simpa using hne), List.map_map]
    simp
  · rintro rfl
    refine ⟨?_, ?_, ?_⟩
    · rw [← String.toList_inj, String.toList_intercalate, String.toList_singleton, pieces, List.map_map]
      simp [Function.comp_def, List.intercalate_splitOn]
    · simp [pieces, List.splitOn_ne_nil]
    · intro part hpart
      obtain ⟨cs, hcs, rfl⟩ := List.mem_map.mp hpart
      rw [String.toList_ofList]
      exact not_mem_of_mem_splitOn hcs

/-! ## Halves -/

theorem halvesChars?_append {mark : Char} {left : List Char} (h : mark ∉ left) (right : List Char) :
    halvesChars? mark (left ++ mark :: right) = some (left, right) := by
  induction left with
  | nil => rw [List.nil_append, halvesChars?, if_pos rfl]
  | cons c left ih =>
    rw [List.mem_cons, not_or] at h
    rw [List.cons_append, halvesChars?, if_neg (Ne.symm h.1), ih h.2]
    rfl

/-- The first half has no mark in it, while the second keeps all that are left. -/
theorem halves?_eq_some_iff {mark : Char} {text left right : String} :
    halves? mark text = some (left, right) ↔
      left ++ String.singleton mark ++ right = text ∧ mark ∉ left.toList := by
  rw [halves?, Option.map_eq_some_iff]
  constructor
  · rintro ⟨⟨first, second⟩, hhalves, heq⟩
    obtain ⟨rfl, rfl⟩ := Prod.mk.inj heq
    obtain ⟨htext, hmark⟩ := halvesChars?_eq_some hhalves
    rw [← String.toList_inj, htext]
    simpa using hmark
  · rintro ⟨rfl, hmark⟩
    refine ⟨(left.toList, right.toList), ?_, by simp⟩
    have htext : (left ++ String.singleton mark ++ right).toList = left.toList ++ mark :: right.toList := by simp
    rw [htext, halvesChars?_append hmark]

theorem halves?_eq_none_iff {mark : Char} {text : String} : halves? mark text = none ↔ mark ∉ text.toList := by
  rw [halves?, Option.map_eq_none_iff, halvesChars?_eq_none]

/-! ## First and last marks -/

/-- What stands before the first mark, on characters. The cut at the last mark is this one of the reversed list. -/
theorem takeWhile_ne_eq_iff {mark : Char} {cs front : List Char} :
    cs.takeWhile (· != mark) = front ↔
      mark ∉ front ∧ ∃ back, front ++ back = cs ∧ (back = [] ∨ back.head? = some mark) := by
  constructor
  · rintro rfl
    refine ⟨fun hmem => by simpa using List.mem_takeWhile_imp hmem,
      cs.dropWhile (· != mark), List.takeWhile_append_dropWhile, ?_⟩
    cases hback : cs.dropWhile (· != mark) with
    | nil => exact .inl rfl
    | cons c rest =>
      have hhead := List.head?_dropWhile_not (· != mark) cs
      rw [hback] at hhead
      exact .inr (by simpa using hhead)
  · rintro ⟨hmark, back, rfl, hback⟩
    have hfront : ∀ c ∈ front, (c != mark) = true := by
      intro c hc
      rw [bne_iff_ne]
      rintro rfl
      exact hmark hc
    have hstops : back.takeWhile (· != mark) = [] := by
      cases back with
      | nil => rfl
      | cons c rest =>
        have hc : c = mark := by simpa using hback
        rw [List.takeWhile_cons_of_neg (by simp [hc])]
    rw [List.takeWhile_append_of_pos hfront, hstops, List.append_nil]

/-- The text before the first mark has no mark, and all that may follow it is nothing or a mark. -/
theorem before_eq_iff {mark : Char} {text front : String} :
    before mark text = front ↔
      mark ∉ front.toList ∧ ∃ back, front ++ back = text ∧ (back = "" ∨ back.toList.head? = some mark) := by
  rw [before, ← String.toList_inj, String.toList_ofList, takeWhile_ne_eq_iff]
  refine and_congr_right fun _ => ⟨?_, ?_⟩
  · rintro ⟨back, htext, hback⟩
    exact ⟨String.ofList back, by rw [← String.toList_inj]; simpa using htext, by simpa using hback⟩
  · rintro ⟨back, rfl, hback⟩
    exact ⟨back.toList, by simp, by simpa using hback⟩

/-- The text behind the last mark has no mark, and all that may stand before it is nothing or a mark. -/
theorem afterLast_eq_iff {mark : Char} {text back : String} :
    afterLast mark text = back ↔
      mark ∉ back.toList ∧ ∃ front, front ++ back = text ∧ (front = "" ∨ front.toList.getLast? = some mark) := by
  rw [afterLast, ← String.toList_inj, String.toList_ofList, List.reverse_eq_iff, takeWhile_ne_eq_iff,
    List.mem_reverse]
  refine and_congr_right fun _ => ⟨?_, ?_⟩
  · rintro ⟨front, htext, hfront⟩
    refine ⟨String.ofList front.reverse, ?_, by simpa using hfront⟩
    rw [← String.toList_inj, ← List.reverse_inj, ← htext]
    simp
  · rintro ⟨front, rfl, hfront⟩
    exact ⟨front.toList.reverse, by simp, by simpa using hfront⟩

/-! ## Trimming -/

/-- Whether no white space stands at either end of a text. -/
def IsTrimmed (text : String) : Prop :=
  (∀ c, text.toList.head? = some c → isBlank c = false) ∧
    ∀ c, text.toList.getLast? = some c → isBlank c = false

/-- Whether a text is what is left of another without the white space at its ends. -/
def IsTrimOf (core text : String) : Prop :=
  IsTrimmed core ∧ ∃ left right : List Char, text.toList = left ++ core.toList ++ right ∧
    (∀ c ∈ left, isBlank c = true) ∧ ∀ c ∈ right, isBlank c = true

theorem dropWhile_eq_self {cs : List Char} (h : ∀ c, cs.head? = some c → isBlank c = false) :
    cs.dropWhile isBlank = cs := by
  cases cs with
  | nil => rfl
  | cons c cs => rw [List.dropWhile_cons_of_neg (by simp [h c rfl])]

/-- White space at the end is taken away, and nothing of a text that does not end in it. -/
theorem trimEnd_append {cs right : List Char} (hcs : ∀ c, cs.getLast? = some c → isBlank c = false)
    (hright : ∀ c ∈ right, isBlank c = true) : trimEnd (cs ++ right) = cs := by
  have hblank : ∀ c ∈ right.reverse, isBlank c = true := fun c hc => hright c (List.mem_reverse.mp hc)
  have hlast : ∀ c, cs.reverse.head? = some c → isBlank c = false := by
    intro c hc
    exact hcs c (List.head?_reverse ▸ hc)
  rw [trimEnd, List.reverse_append, List.dropWhile_append_of_pos hblank, dropWhile_eq_self hlast,
    List.reverse_reverse]

/-- White space around a text that has none at its ends is all that trimming takes away. -/
theorem trimChars_append {left core right : List Char} (hleft : ∀ c ∈ left, isBlank c = true)
    (hright : ∀ c ∈ right, isBlank c = true) (hfirst : ∀ c, core.head? = some c → isBlank c = false)
    (hlast : ∀ c, core.getLast? = some c → isBlank c = false) :
    trimChars (left ++ core ++ right) = core := by
  rw [trimChars, List.append_assoc, List.dropWhile_append_of_pos hleft]
  cases core with
  | nil =>
    rw [List.nil_append, List.dropWhile_eq_nil_iff.mpr hright]
    rfl
  | cons c core =>
    have hfront : ∀ c', (c :: core ++ right).head? = some c' → isBlank c' = false := fun c' hc' => hfirst c' hc'
    rw [dropWhile_eq_self hfront, trimEnd_append hlast hright]

theorem isBlank_of_head?_dropWhile {cs : List Char} {c : Char} (h : (cs.dropWhile isBlank).head? = some c) :
    isBlank c = false := by
  have hhead := List.head?_dropWhile_not isBlank cs
  rw [h] at hhead
  exact hhead

/-- A trimmed text lost white space at its ends and nothing else, and there is none left to lose. -/
theorem isTrimOf_trim (text : String) : IsTrimOf (trim text) text := by
  let front := text.toList.dropWhile isBlank
  have hback : trimEnd front ++ front.rtakeWhile isBlank = front := List.rdropWhile_append_rtakeWhile
  have hfirst : ∀ c, (trimEnd front).head? = some c → isBlank c = false := by
    intro c hc
    have hfront : front.head? = some c := by rw [← hback, List.head?_append, hc, Option.some_or]
    exact isBlank_of_head?_dropWhile hfront
  have hlast : ∀ c, (trimEnd front).getLast? = some c → isBlank c = false := by
    intro c hc
    rw [trimEnd, List.getLast?_reverse] at hc
    exact isBlank_of_head?_dropWhile hc
  refine ⟨by simpa only [IsTrimmed, toList_trim] using ⟨hfirst, hlast⟩,
    text.toList.takeWhile isBlank, front.rtakeWhile isBlank, ?_, ?_, ?_⟩
  · rw [toList_trim, List.append_assoc]
    change _ = _ ++ (trimEnd front ++ _)
    rw [hback, List.takeWhile_append_dropWhile]
  · intro c hc
    exact List.mem_takeWhile_imp hc
  · intro c hc
    exact List.mem_rtakeWhile_imp hc

/-- There is one way to trim a text, however much white space it has within. -/
theorem isTrimOf_iff {core text : String} : IsTrimOf core text ↔ trim text = core := by
  constructor
  · rintro ⟨⟨hfirst, hlast⟩, left, right, htext, hleft, hright⟩
    rw [← String.toList_inj, toList_trim, htext, trimChars_append hleft hright hfirst hlast]
  · rintro rfl
    exact isTrimOf_trim text

end TwirpClient.Text
