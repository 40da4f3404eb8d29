import TwirpClient.Proofs.Joining

/-!
# Options written back

`Options.written` states options as a parameter, one entry for each option. The parameters that are accepted
come to no more options than those that can be stated this way: their versions are the texts without a comma
and without white space at the ends (`optionsOf_written_iff`), and every such version, odd as it may look, is
read back as it is.
-/

namespace TwirpClient.Text

/-- What is trimmed off a text is all that is lost. -/
theorem IsTrimOf.mem {core text : String} (h : IsTrimOf core text) {c : Char} (hc : c ∈ core.toList) :
    c ∈ text.toList := by
  obtain ⟨-, left, right, htext, -, -⟩ := h
  rw [htext]
  exact List.mem_append_left _ (List.mem_append_right _ hc)

theorem isTrimOf_self_iff {text : String} : IsTrimOf text text ↔ IsTrimmed text :=
  ⟨fun h => h.1, fun h => ⟨h, [], [], by simp, by simp, by simp⟩⟩

instance (text : String) : Decidable (IsTrimmed text) :=
  decidable_of_iff (trim text = text) (isTrimOf_iff.symm.trans isTrimOf_self_iff)

theorem IsTrimmed.append {front back : String} (hfront : IsTrimmed front) (hne : front ≠ "")
    (hback : IsTrimmed back) : IsTrimmed (front ++ back) := by
  refine ⟨fun c hc => ?_, fun c hc => ?_⟩
  · rw [String.toList_append, List.head?_append_of_ne_nil _ (by simpa using hne)] at hc
    exact hfront.1 c hc
  · rw [String.toList_append, List.getLast?_append, Option.or_eq_some_iff] at hc
    rcases hc with hc | ⟨-, hc⟩
    · exact hback.2 c hc
    · exact hfront.2 c hc

end TwirpClient.Text

namespace TwirpClient

open Text (IsTrimmed IsTrimOf)

namespace Options

/-- Options stated as a parameter. -/
def written (options : Options) : String :=
  "version=" ++ options.version ++ "," ++ ("library=" ++ options.library.name)

/-- Whether a version can stand in a parameter: it has no comma and no white space at its ends. -/
def IsStatable (version : String) : Prop :=
  ',' ∉ version.toList ∧ IsTrimmed version

theorem comma_notMem_of_mem_piecesOf {parameter piece : String} (h : piece ∈ piecesOf parameter) :
    ',' ∉ piece.toList := by
  rw [piecesOf_of_isCut (isCut_pieces parameter)] at h
  obtain ⟨part, hpart, rfl⟩ := List.mem_map.mp (List.mem_filter.mp h).1
  exact fun hcomma => (isCut_pieces parameter).2.2 part hpart ((Text.isTrimOf_trim part).mem hcomma)

/-- A text that is trimmed and has no comma is a piece of its own. -/
theorem piecesOf_of_isTrimmed {text : String} (hcomma : ',' ∉ text.toList) (htrimmed : IsTrimmed text)
    (hne : text ≠ "") : piecesOf text = [text] := by
  have htrim : Text.trim text = text := Text.isTrimOf_iff.mp (Text.isTrimOf_self_iff.mpr htrimmed)
  rw [piecesOf_of_isCut (Text.isCut_singleton hcomma), List.map_singleton, htrim,
    List.filter_cons_of_pos (by simpa using hne), List.filter_nil]

/-- The version of a parameter that is accepted is a trimmed part of one of its pieces. -/
theorem isStatable_of_parse {parameter : String} {options : Options} (h : parse parameter = .ok options) :
    IsStatable options.version := by
  rw [version_of_parse h]
  cases hlast : (piecesOf parameter).reverse.findSome? Setting.versionIn? with
  | none => exact ⟨by decide, by decide +kernel⟩
  | some version =>
    obtain ⟨piece, hpiece, hsome⟩ := List.exists_of_findSome?_eq_some hlast
    have hcomma := comma_notMem_of_mem_piecesOf (List.mem_reverse.mp hpiece)
    cases Setting.versionIn?_eq_some_iff.mp hsome with
    | version hkeyValue hkey hvalue =>
      refine ⟨fun hmem => hcomma ?_, hvalue.1⟩
      rw [← hkeyValue.1, String.toList_append]
      exact List.mem_append_right _ (hvalue.mem hmem)

theorem piecesOf_written {options : Options} (h : IsStatable options.version) :
    piecesOf options.written = ["version=" ++ options.version, "library=" ++ options.library.name] := by
  obtain ⟨hcomma, htrimmed⟩ := h
  have hversion : piecesOf ("version=" ++ options.version) = ["version=" ++ options.version] := by
    refine piecesOf_of_isTrimmed ?_ (.append (by decide +kernel) (by decide) htrimmed) (by simp)
    rw [String.toList_append, List.mem_append, not_or]
    exact ⟨by decide, hcomma⟩
  have hlibrary : ∀ library : Library, piecesOf ("library=" ++ library.name) = ["library=" ++ library.name] := by
    intro library
    cases library
    decide +kernel
  rw [written, piecesOf_join, hversion, hlibrary, List.singleton_append]

/-- The value of a piece that states the version is all of it, equals signs and all. -/
theorem parse_versionPiece {version : String} (h : IsTrimmed version) :
    Setting.parse ("version=" ++ version) = .ok (.version version) := by
  have hkeyValue : IsKeyValue ("version=" ++ version) "version" version := ⟨rfl, by decide⟩
  exact Setting.says_ok_iff.mp
    (.version hkeyValue (Text.isTrimOf_iff.mpr (by decide +kernel)) (Text.isTrimOf_self_iff.mpr h))

theorem parse_libraryPiece (library : Library) :
    Setting.parse ("library=" ++ library.name) = .ok (.library library) := by
  have hkeyValue : IsKeyValue ("library=" ++ library.name) "library" library.name := ⟨rfl, by decide⟩
  have hkey : Text.trim "library" = "library" := by decide +kernel
  have hname : Text.trim library.name = library.name := by
    cases library
    decide +kernel
  rw [Setting.parse_of_isKeyValue hkeyValue, hkey, hname, if_neg (by decide), if_pos rfl, Library.ofName_name]
  rfl

/-- Options that can be stated are read back. -/
theorem parse_written {options : Options} (h : IsStatable options.version) :
    parse options.written = .ok options := by
  refine parse_eq_ok_iff.mpr ⟨[.version options.version, .library options.library], ?_, rfl⟩
  rw [piecesOf_written h, List.map_cons, List.map_singleton, parse_versionPiece h.2, parse_libraryPiece]
  rfl

end Options

namespace Plugin

open Options (IsStatable)

/-- The options that parameters come to are those whose version has no comma and no white space at its ends,
and these are the options that are read back when they are written as a parameter. -/
theorem optionsOf_written_iff (options : Options) :
    ((∃ parameter, optionsOf parameter = .ok options) ↔
      ',' ∉ options.version.toList ∧ IsTrimmed options.version) ∧
    ((∃ parameter, optionsOf parameter = .ok options) ↔ optionsOf options.written = .ok options) := by
  have hstatable : ∀ parameter, optionsOf parameter = .ok options → IsStatable options.version :=
    fun parameter h => Options.isStatable_of_parse (mapError_eq_ok_iff.mp h)
  have hwritten : IsStatable options.version → optionsOf options.written = .ok options :=
    fun h => mapError_eq_ok_iff.mpr (Options.parse_written h)
  refine ⟨⟨?stated, fun h => ⟨_, hwritten h⟩⟩, ⟨?reread, fun h => ⟨_, h⟩⟩⟩
  case stated =>
    rintro ⟨parameter, h⟩
    exact hstatable parameter h
  case reread =>
    rintro ⟨parameter, h⟩
    exact hwritten (hstatable parameter h)

example : optionsOf (Options.written ⟨"= v 6\u200b=", .pbjs⟩) = .ok ⟨"= v 6\u200b=", .pbjs⟩ := by decide +kernel

end Plugin

end TwirpClient
