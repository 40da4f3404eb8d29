import TwirpClient.Proofs.Parameters

/-!
# Parameters joined by commas

A parameter is a list of pieces written in one line, and a comma between two parameters makes one list of
both: `Options.piecesOf_join`. What is said here of joined parameters follows from this and from the laws of
lists. The first part that is refused decides on the fault, a later version stands over an earlier one, and
white space or blank pieces between the commas count for nothing (`Options.Pads`).
-/

namespace TwirpClient.Text

/-- Whether a text is nothing but white space. -/
def IsWhite (text : String) : Prop :=
  text.toList.all isBlank = true

theorem IsWhite.isBlank {text : String} (h : IsWhite text) : ∀ c ∈ text.toList, isBlank c = true :=
  List.all_eq_true.mp h

theorem isWhite_empty : IsWhite "" := rfl

/-- White space around a text takes no part in what is left of it. -/
theorem IsTrimOf.pad {core text left right : String} (h : IsTrimOf core text) (hleft : IsWhite left)
    (hright : IsWhite right) : IsTrimOf core (left ++ text ++ right) := by
  obtain ⟨htrimmed, before, after, htext, hbefore, hafter⟩ := h
  refine ⟨htrimmed, left.toList ++ before, after ++ right.toList, ?_, ?_, ?_⟩
  · simp [htext]
  · exact fun c hc => (List.mem_append.mp hc).elim (hleft.isBlank c) (hbefore c)
  · exact fun c hc => (List.mem_append.mp hc).elim (hafter c) (hright.isBlank c)

/-- White space at the ends of a text is trimmed together with what is there already. -/
theorem trim_pad {text left right : String} (hleft : IsWhite left) (hright : IsWhite right) :
    trim (left ++ text ++ right) = trim text :=
  isTrimOf_iff.mp ((isTrimOf_trim text).pad hleft hright)

/-- Nothing is left of white space. -/
theorem trim_of_isWhite {text : String} (h : IsWhite text) : trim text = "" := by
  have hpad : trim (text ++ "" ++ "") = trim "" := trim_pad h isWhite_empty
  rwa [String.append_empty, String.append_empty] at hpad

/-- Cuts of two texts are, one behind the other, a cut of the texts with a mark between them. -/
theorem IsCut.join {mark : Char} {text text' : String} {parts parts' : List String}
    (h : IsCut mark text parts) (h' : IsCut mark text' parts') :
    IsCut mark (text ++ String.singleton mark ++ text') (parts ++ parts') := by
  obtain ⟨rfl, hne, hparts⟩ := h
  obtain ⟨rfl, hne', hparts'⟩ := h'
  refine ⟨String.intercalate_append_of_ne_nil hne hne', by simp [hne], fun part hpart => ?_⟩
  exact (List.mem_append.mp hpart).elim (hparts part) (hparts' part)

theorem isCut_singleton {mark : Char} {text : String} (h : mark ∉ text.toList) : IsCut mark text [text] :=
  ⟨String.intercalate_singleton, List.cons_ne_nil _ _, by simpa using h⟩

end TwirpClient.Text

namespace TwirpClient

open Text (IsCut IsTrimOf IsWhite)

/-! ## Pieces of a joined parameter -/

namespace Options

variable {first second : String}

theorem piecesOf_of_isCut {parameter : String} {parts : List String} (h : IsCut ',' parameter parts) :
    piecesOf parameter = (parts.map Text.trim).filter (· ≠ "") := by
  rw [piecesOf, Text.isCut_iff.mp h]

theorem isCut_pieces (parameter : String) : IsCut ',' parameter (Text.pieces ',' parameter) :=
  Text.isCut_iff.mpr rfl

/-- The pieces of a joined parameter are those of its first part and then those of its second. -/
theorem piecesOf_join (first second : String) :
    piecesOf (first ++ "," ++ second) = piecesOf first ++ piecesOf second := by
  have hcut : IsCut ',' (first ++ "," ++ second) (Text.pieces ',' first ++ Text.pieces ',' second) :=
    (isCut_pieces first).join (isCut_pieces second)
  rw [piecesOf_of_isCut hcut, List.map_append, List.filter_append]
  rfl

/-- A parameter of white space says nothing: it has no comma, and its one part is blank. -/
theorem piecesOf_of_isWhite {blank : String} (h : IsWhite blank) : piecesOf blank = [] := by
  have hcomma : ',' ∉ blank.toList := fun hmem => absurd (h.isBlank ',' hmem) (by decide)
  rw [piecesOf_of_isCut (Text.isCut_singleton hcomma), List.map_singleton, Text.trim_of_isWhite h]
  rfl

/-! ## White space and blank pieces -/

/-- The parts of a parameter, with white space added at their ends and with parts of white space between
them. -/
inductive PadsParts : List String → List String → Prop
  | nil : PadsParts [] []
  | part {left right part : String} {parts padded : List String} (hleft : IsWhite left)
    (hright : IsWhite right) (h : PadsParts parts padded) :
    PadsParts (part :: parts) ((left ++ part ++ right) :: padded)
  | blank {text : String} {parts padded : List String} (htext : IsWhite text) (h : PadsParts parts padded) :
    PadsParts parts (text :: padded)

/-- A parameter with white space added anywhere beside its commas or at its ends, and with blank pieces
added. -/
def Pads (parameter padded : String) : Prop :=
  ∃ parts parts', IsCut ',' parameter parts ∧ IsCut ',' padded parts' ∧ PadsParts parts parts'

/-- Trimming takes the white space away, and then blank parts are left out. -/
theorem PadsParts.filter_trim {parts padded : List String} (h : PadsParts parts padded) :
    (padded.map Text.trim).filter (· ≠ "") = (parts.map Text.trim).filter (· ≠ "") := by
  induction h with
  | nil => rfl
  | part hleft hright _ ih =>
    rw [List.map_cons, List.map_cons, Text.trim_pad hleft hright, List.filter_cons, List.filter_cons, ih]
  | blank htext _ ih =>
    rw [List.map_cons, Text.trim_of_isWhite htext, List.filter_cons_of_neg (by simp), ih]

/-- What is added says nothing. -/
theorem Pads.piecesOf_eq {parameter padded : String} (h : Pads parameter padded) :
    piecesOf padded = piecesOf parameter := by
  obtain ⟨parts, parts', hcut, hcut', hparts⟩ := h
  rw [piecesOf_of_isCut hcut', piecesOf_of_isCut hcut, hparts.filter_trim]

/-! ## Options of a joined parameter -/

/-- A parameter is read for its pieces and for nothing else. -/
theorem parse_congr (h : piecesOf first = piecesOf second) : parse first = parse second := by
  rw [parse, parse, h]

/-- What the first part is refused for, the whole is refused for. -/
theorem parse_join_of_error {refusal : ParameterFault} (h : parse first = .error refusal) :
    parse (first ++ "," ++ second) = .error refusal := by
  obtain ⟨before, piece, after, hpieces, hbefore, hpiece⟩ := parse_eq_error_iff.mp h
  refine parse_eq_error_iff.mpr ⟨before, piece, after ++ piecesOf second, ?_, hbefore, hpiece⟩
  rw [piecesOf_join, hpieces, List.append_assoc, List.cons_append]

/-- Behind a part that is accepted, the second is refused for what it would be refused for alone. -/
theorem parse_join_of_ok_error {options : Options} {refusal : ParameterFault} (h : parse first = .ok options)
    (h' : parse second = .error refusal) : parse (first ++ "," ++ second) = .error refusal := by
  obtain ⟨before, piece, after, hpieces, hbefore, hpiece⟩ := parse_eq_error_iff.mp h'
  refine parse_eq_error_iff.mpr ⟨piecesOf first ++ before, piece, after, ?_, ?_, hpiece⟩
  · rw [piecesOf_join, hpieces, List.append_assoc]
  · intro earlier hearlier
    rcases List.mem_append.mp hearlier with hfirst | hmem
    · exact exists_parse_eq_ok_iff.mp ⟨options, h⟩ earlier hfirst
    · exact hbefore earlier hmem

/-- Whether a parameter has an entry of a key. -/
def HasEntry (parameter key : String) : Prop :=
  ∃ pieces, ArePieces parameter pieces ∧
    ∃ piece ∈ pieces, ∃ left value, IsKeyValue piece left value ∧ IsTrimOf key left

/-- Every entry of a version sets one, be it the empty version. -/
theorem hasEntry_version_iff {parameter : String} :
    HasEntry parameter "version" ↔ ∃ piece ∈ piecesOf parameter, ∃ version,
      Setting.versionIn? piece = some version := by
  simp only [HasEntry, arePieces_iff, exists_eq_left', Setting.versionIn?_eq_some_iff]
  constructor
  · rintro ⟨piece, hpiece, left, value, hkeyValue, hkey⟩
    exact ⟨piece, hpiece, _, .version hkeyValue hkey (Text.isTrimOf_trim value)⟩
  · rintro ⟨piece, hpiece, version, hsays⟩
    cases hsays with
    | version hkeyValue hkey _ => exact ⟨piece, hpiece, _, _, hkeyValue, hkey⟩

/-- There is one library, so that options are told apart by their version. -/
theorem eq_of_version_eq {options options' : Options} (h : options.version = options'.version) :
    options = options' := by
  obtain ⟨version, ⟨⟩⟩ := options
  obtain ⟨version', ⟨⟩⟩ := options'
  cases h
  rfl

/-- The options of a joined parameter are those of its second part if that has an entry for the version, and
those of its first part if it has none. -/
theorem parse_join_of_ok {options options' : Options} (h : parse first = .ok options)
    (h' : parse second = .ok options') :
    (HasEntry second "version" → parse (first ++ "," ++ second) = .ok options') ∧
      (¬HasEntry second "version" → parse (first ++ "," ++ second) = .ok options) := by
  obtain ⟨joined, hjoined⟩ : ∃ joined, parse (first ++ "," ++ second) = .ok joined := by
    rw [exists_parse_eq_ok_iff, piecesOf_join, List.forall_mem_append]
    exact ⟨exists_parse_eq_ok_iff.mp ⟨_, h⟩, exists_parse_eq_ok_iff.mp ⟨_, h'⟩⟩
  have hversion := version_of_parse hjoined
  rw [piecesOf_join, List.reverse_append, List.findSome?_append] at hversion
  rw [hjoined, hasEntry_version_iff]
  cases hlast : (piecesOf second).reverse.findSome? Setting.versionIn? with
  | none =>
    have hnone : ∀ piece ∈ piecesOf second, Setting.versionIn? piece = none :=
      fun piece hpiece => List.findSome?_eq_none_iff.mp hlast piece (List.mem_reverse.mpr hpiece)
    rw [hlast, Option.none_or, ← version_of_parse h] at hversion
    refine ⟨?_, fun _ => congrArg _ (eq_of_version_eq hversion)⟩
    rintro ⟨piece, hpiece, version, hsome⟩
    exact absurd ((hnone piece hpiece).symm.trans hsome) (Option.some_ne_none version).symm
  | some version =>
    obtain ⟨piece, hpiece, hsome⟩ := List.exists_of_findSome?_eq_some hlast
    have hlast' := version_of_parse h'
    rw [hlast] at hversion hlast'
    refine ⟨fun _ => congrArg _ (eq_of_version_eq (hversion.trans hlast'.symm)), fun hnot => ?_⟩
    exact absurd ⟨piece, List.mem_reverse.mp hpiece, version, hsome⟩ hnot

end Options

namespace Plugin

open Options (HasEntry Pads)

theorem optionsOf_congr {first second : String} (h : Options.piecesOf first = Options.piecesOf second) :
    optionsOf first = optionsOf second := by
  rw [optionsOf, optionsOf, Options.parse_congr h]

/-- Parameters compose by commas. If the first part is refused, the whole is for the same reason; else if the
second part is; else the options are those of the second part if it has an entry for the version, be it an
empty one, and those of the first part if it has none. So a part of nothing but white space changes nothing on
either side, neither do white space beside commas and blank pieces anywhere, and a parameter that is accepted
may be given twice. -/
theorem optionsOf_join (first second : String) :
    (∀ fault, optionsOf first = .error fault → optionsOf (first ++ "," ++ second) = .error fault) ∧
    (∀ options fault, optionsOf first = .ok options → optionsOf second = .error fault →
      optionsOf (first ++ "," ++ second) = .error fault) ∧
    (∀ options options', optionsOf first = .ok options → optionsOf second = .ok options' →
      (HasEntry second "version" → optionsOf (first ++ "," ++ second) = .ok options') ∧
      (¬HasEntry second "version" → optionsOf (first ++ "," ++ second) = .ok options)) ∧
    (∀ blank, Text.IsWhite blank →
      optionsOf (blank ++ "," ++ first) = optionsOf first ∧
      optionsOf (first ++ "," ++ blank) = optionsOf first) ∧
    (∀ padded, Pads first padded → optionsOf padded = optionsOf first) ∧
    ∀ options, optionsOf first = .ok options → optionsOf (first ++ "," ++ first) = .ok options := by
  have haccepted : ∀ second options options', optionsOf first = .ok options → optionsOf second = .ok options' →
      (HasEntry second "version" → optionsOf (first ++ "," ++ second) = .ok options') ∧
      (¬HasEntry second "version" → optionsOf (first ++ "," ++ second) = .ok options) := by
    intro second options options' h h'
    simp only [optionsOf, mapError_eq_ok_iff] at h h' ⊢
    exact Options.parse_join_of_ok h h'
  refine ⟨?refused, ?refusedBehind, haccepted second, ?blank, ?padded, ?twice⟩
  case refused =>
    intro fault h
    obtain ⟨refusal, hrefusal, rfl⟩ := mapError_eq_error_iff.mp h
    exact mapError_eq_error_iff.mpr ⟨refusal, Options.parse_join_of_error hrefusal, rfl⟩
  case refusedBehind =>
    intro options fault h h'
    obtain ⟨refusal, hrefusal, rfl⟩ := mapError_eq_error_iff.mp h'
    exact mapError_eq_error_iff.mpr
      ⟨refusal, Options.parse_join_of_ok_error (mapError_eq_ok_iff.mp h) hrefusal, rfl⟩
  case blank =>
    intro blank hblank
    have hnone := Options.piecesOf_of_isWhite hblank
    refine ⟨optionsOf_congr ?_, optionsOf_congr ?_⟩
    · rw [Options.piecesOf_join, hnone, List.nil_append]
    · rw [Options.piecesOf_join, hnone, List.append_nil]
  case padded => exact fun padded h => optionsOf_congr h.piecesOf_eq
  case twice =>
    intro options h
    obtain ⟨hentry, hnone⟩ := haccepted first options options h h
    by_cases hversion : HasEntry first "version"
    · exact hentry hversion
    · exact hnone hversion

/-- An entry without a value stands over an earlier version. White space around a comma and a blank piece do no
harm, and what is refused in the second part is refused in the whole. -/
theorem optionsOf_join_empty_version :
    let first := " version = v5 ,"
    optionsOf (first ++ "," ++ "library=pbjs,version=") = .ok ⟨"", .pbjs⟩ ∧
      optionsOf (first ++ "," ++ "=") = .error (.parameter "unknown option ``") ∧
      optionsOf " version = v5 \u00a0,\t," = .ok ⟨"v5", .pbjs⟩ := by
  intro first
  have hfirst : optionsOf first = .ok ⟨"v5", .pbjs⟩ := by decide +kernel
  have hpads : Pads first " version = v5 \u00a0,\t," := by
    refine ⟨[" version = v5 ", ""], ["" ++ " version = v5 " ++ "\u00a0", "\t", "" ++ "" ++ ""],
      Text.isCut_iff.mpr (by decide +kernel), Text.isCut_iff.mpr (by decide +kernel), ?_⟩
    exact .part rfl rfl (.blank rfl (.part rfl rfl .nil))
  obtain ⟨-, -, haccepted, -, hpadded, -⟩ := optionsOf_join first "library=pbjs,version="
  refine ⟨?_, (optionsOf_join first "=").2.1 _ _ hfirst (by decide +kernel), (hpadded _ hpads).trans hfirst⟩
  exact (haccepted _ ⟨"", .pbjs⟩ hfirst (by decide +kernel)).1
    (Options.hasEntry_version_iff.mpr ⟨"version=", by decide +kernel, "", by decide +kernel⟩)

end Plugin

end TwirpClient
