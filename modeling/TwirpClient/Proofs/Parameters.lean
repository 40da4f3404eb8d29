import Mathlib.Data.List.Forall2
import TwirpClient.Plugin.Basic
import TwirpClient.Proofs.Collecting
import TwirpClient.Proofs.Cutting

/-!
# The grammar of parameters

Which parameters are accepted, and what they decide. `Setting.Says` is the grammar of one piece, with a rule
for each way a piece can be refused, and `Setting.says_iff` says that pieces are read by it and by nothing
else. A parameter is accepted if all its pieces are; the last that speaks of the version decides on it, and
of the pieces that are refused the first decides on the fault (`optionsOf_grammar`).
-/

namespace TwirpClient

open Text (IsCut IsTrimOf)

/-! ## Pieces -/

/-- Whether a piece is a key and a value, parted by the first equals sign. -/
def IsKeyValue (piece key value : String) : Prop :=
  key ++ "=" ++ value = piece ∧ '=' ∉ key.toList

/-- What a trimmed piece says: a setting, or the reason why it is refused. -/
inductive Setting.Says (piece : String) : Except String Setting → Prop
  | notKeyValue : '=' ∉ piece.toList → Says piece (.error ("expected key=value, got `" ++ piece ++ "`"))
  | version {key value version : String} : IsKeyValue piece key value → IsTrimOf "version" key →
      IsTrimOf version value → Says piece (.ok (.version version))
  | library {key value : String} : IsKeyValue piece key value → IsTrimOf "library" key →
      IsTrimOf "pbjs" value → Says piece (.ok (.library .pbjs))
  | unsupportedLibrary {key value name : String} : IsKeyValue piece key value → IsTrimOf "library" key →
      IsTrimOf name value → name ≠ "pbjs" → Says piece (.error ("unsupported library `" ++ name ++ "`"))
  | unknownOption {key value name : String} : IsKeyValue piece key value → IsTrimOf name key →
      name ≠ "version" → name ≠ "library" → Says piece (.error ("unknown option `" ++ name ++ "`"))

namespace Setting

variable {piece key value : String}

/-- The first equals sign of a piece is where its key ends. -/
theorem isKeyValue_iff : IsKeyValue piece key value ↔ Text.halves? '=' piece = some (key, value) := by
  have hmark : String.singleton '=' = "=" := rfl
  rw [Text.halves?_eq_some_iff, hmark, IsKeyValue]

/-- The key of a piece decides how its value is read. -/
theorem parse_of_isKeyValue (h : IsKeyValue piece key value) :
    parse piece =
      if Text.trim key = "version" then .ok (.version (Text.trim value))
      else if Text.trim key = "library" then (Library.ofName (Text.trim value)).map .library
      else .error (.unknownOption (Text.trim key)) := by
  rw [parse, isKeyValue_iff.mp h]
  simp only
  split
  next hversion => rw [if_pos hversion]
  next hlibrary => rw [hlibrary, if_neg (by decide), if_pos rfl]
  next hversion hlibrary => rw [if_neg hversion, if_neg hlibrary]

/-- Any other name than that of the library is refused, and stands in the refusal. -/
theorem ofName_of_ne {name : String} (h : name ≠ "pbjs") : Library.ofName name = .error (.unsupportedLibrary name) :=
  if_neg h

/-- A piece without an equals sign is refused as it stands. -/
theorem parse_of_not_mem (h : '=' ∉ piece.toList) : parse piece = .error (.notKeyValue piece) := by
  rw [parse, Text.halves?_eq_none_iff.mpr h]

/-- Pieces are read by the grammar: what a rule says of a piece is what comes of it. -/
theorem Says.parse {outcome : Except String Setting} (h : Says piece outcome) :
    (parse piece).mapError ParameterFault.reason = outcome := by
  cases h with
  | notKeyValue hmark =>
    rw [parse_of_not_mem hmark]
    rfl
  | version hkeyValue hkey hvalue =>
    rw [parse_of_isKeyValue hkeyValue, Text.isTrimOf_iff.mp hkey, Text.isTrimOf_iff.mp hvalue]
    rfl
  | library hkeyValue hkey hvalue =>
    rw [parse_of_isKeyValue hkeyValue, Text.isTrimOf_iff.mp hkey, Text.isTrimOf_iff.mp hvalue,
      if_neg (by decide), if_pos rfl, ← Library.name, Library.ofName_name]
    rfl
  | unsupportedLibrary hkeyValue hkey hvalue hname =>
    rw [parse_of_isKeyValue hkeyValue, Text.isTrimOf_iff.mp hkey, Text.isTrimOf_iff.mp hvalue,
      if_neg (by decide), if_pos rfl, ofName_of_ne hname]
    rfl
  | unknownOption hkeyValue hkey hversion hlibrary =>
    rw [parse_of_isKeyValue hkeyValue, Text.isTrimOf_iff.mp hkey, if_neg hversion, if_neg hlibrary]
    rfl

/-- The grammar has a rule for every piece. -/
theorem says_parse (piece : String) : Says piece ((Setting.parse piece).mapError ParameterFault.reason) := by
  cases hhalves : Text.halves? '=' piece with
  | none =>
    have hmark := Text.halves?_eq_none_iff.mp hhalves
    rw [parse_of_not_mem hmark]
    exact .notKeyValue hmark
  | some halves =>
    obtain ⟨key, value⟩ := halves
    have hkeyValue := isKeyValue_iff.mpr hhalves
    have hkey := Text.isTrimOf_trim key
    have hvalue := Text.isTrimOf_trim value
    rw [parse_of_isKeyValue hkeyValue]
    by_cases hversion : Text.trim key = "version"
    · rw [if_pos hversion]
      exact .version hkeyValue (hversion ▸ hkey) hvalue
    · rw [if_neg hversion]
      by_cases hlibrary : Text.trim key = "library"
      · rw [if_pos hlibrary]
        by_cases hname : Text.trim value = "pbjs"
        · rw [hname, show Library.ofName "pbjs" = .ok .pbjs from Library.ofName_name .pbjs]
          exact .library hkeyValue (hlibrary ▸ hkey) (hname ▸ hvalue)
        · rw [ofName_of_ne hname]
          exact .unsupportedLibrary hkeyValue (hlibrary ▸ hkey) hvalue hname
      · rw [if_neg hlibrary]
        exact .unknownOption hkeyValue hkey hversion hlibrary

theorem says_iff {outcome : Except String Setting} :
    Says piece outcome ↔ (Setting.parse piece).mapError ParameterFault.reason = outcome :=
  ⟨Says.parse, fun h => h ▸ says_parse piece⟩

theorem says_ok_iff {setting : Setting} : Says piece (.ok setting) ↔ Setting.parse piece = .ok setting :=
  says_iff.trans mapError_eq_ok_iff

theorem says_error_iff {reason : String} :
    Says piece (.error reason) ↔ ∃ refusal, Setting.parse piece = .error refusal ∧ refusal.reason = reason :=
  says_iff.trans mapError_eq_error_iff

/-- The version that a setting is of, if it is of one. -/
def version? : Setting → Option String
  | .version value => some value
  | .library _ => none

/-- The version that a piece sets, if it sets one. -/
def versionIn? (piece : String) : Option String :=
  (Setting.parse piece).toOption.bind version?

/-- A piece sets a version exactly if the grammar says so. -/
theorem versionIn?_eq_some_iff {version : String} :
    versionIn? piece = some version ↔ Says piece (.ok (.version version)) := by
  rw [says_ok_iff, versionIn?]
  cases Setting.parse piece with
  | error refusal => exact ⟨nofun, nofun⟩
  | ok setting =>
    cases setting with
    | version value =>
      simp only [Except.toOption, Option.bind_some, version?, Option.some.injEq, Except.ok.injEq,
        Setting.version.injEq]
    | library library => exact ⟨nofun, nofun⟩

theorem versionIn?_eq_none_iff :
    versionIn? piece = none ↔ ∀ version, ¬Says piece (.ok (.version version)) := by
  rw [Option.eq_none_iff_forall_ne_some]
  simp only [ne_eq, versionIn?_eq_some_iff]

end Setting

/-! ## Parameters -/

namespace Options

/-- Whether these are the pieces of a parameter that say something. It is cut at its commas, what is between
them is trimmed, and where nothing is left there is no piece. -/
def ArePieces (parameter : String) (pieces : List String) : Prop :=
  ∃ parts trimmed, IsCut ',' parameter parts ∧ List.Forall₂ IsTrimOf trimmed parts ∧
    trimmed.filter (· ≠ "") = pieces

/-- The pieces of a parameter that say something can be told from the parameter in one way only. -/
theorem arePieces_iff {parameter : String} {pieces : List String} :
    ArePieces parameter pieces ↔ piecesOf parameter = pieces := by
  have htrim : ∀ parts trimmed : List String,
      List.Forall₂ IsTrimOf trimmed parts ↔ parts.map Text.trim = trimmed := by
    intro parts trimmed
    have htrimOf : IsTrimOf = fun core text => core = Text.trim text := by
      funext core text
      exact propext (Text.isTrimOf_iff.trans eq_comm)
    rw [htrimOf, eq_comm, ← List.forall₂_eq_eq_eq, List.forall₂_map_right_iff]
  simp only [ArePieces, Text.isCut_iff, htrim]
  constructor
  · rintro ⟨_, _, rfl, rfl, rfl⟩
    rfl
  · rintro rfl
    exact ⟨_, _, rfl, rfl, rfl⟩

/-- Settings change the version if one of them is of a version, and then to that of the last. -/
theorem version_foldl (options : Options) (settings : List Setting) :
    (settings.foldl set options).version =
      ((settings.filterMap Setting.version?).getLast?).getD options.version := by
  induction settings generalizing options with
  | nil => rfl
  | cons setting settings ih =>
    rw [List.foldl_cons, ih]
    cases setting with
    | version value =>
      have hcons : (Setting.version value :: settings).filterMap Setting.version? =
          value :: settings.filterMap Setting.version? := rfl
      rw [hcons, List.getLast?_cons]
      rfl
    | library library => rfl

variable {parameter : String} {options : Options}

/-- A parameter is accepted if each piece is, and its options are what the settings come to in their order. -/
theorem parse_eq_ok_iff :
    parse parameter = .ok options ↔
      ∃ settings : List Setting, (piecesOf parameter).map Setting.parse = settings.map .ok ∧
        settings.foldl set {} = options := by
  rw [parse, map_eq_ok_iff]
  simp only [mapM_eq_ok_iff]

/-- A parameter is refused with the fault of the first piece that is. -/
theorem parse_eq_error_iff {refusal : ParameterFault} :
    parse parameter = .error refusal ↔ IsFirstFault Setting.parse (piecesOf parameter) refusal := by
  rw [parse, map_eq_error_iff, mapM_eq_error_iff]

theorem exists_parse_eq_ok_iff :
    (∃ options, parse parameter = .ok options) ↔
      ∀ piece ∈ piecesOf parameter, ∃ setting, Setting.parse piece = .ok setting := by
  rw [← exists_mapM_eq_ok_iff]
  constructor
  · rintro ⟨options, h⟩
    obtain ⟨settings, hsettings, -⟩ := map_eq_ok_iff.mp h
    exact ⟨settings, hsettings⟩
  · rintro ⟨settings, hsettings⟩
    exact ⟨_, map_eq_ok_iff.mpr ⟨settings, hsettings, rfl⟩⟩

/-- The version is the one in the last piece that has one. -/
theorem version_of_parse (h : parse parameter = .ok options) :
    options.version = ((piecesOf parameter).reverse.findSome? Setting.versionIn?).getD "" := by
  obtain ⟨settings, hsettings, rfl⟩ := parse_eq_ok_iff.mp h
  have hversions : settings.filterMap Setting.version? = (piecesOf parameter).filterMap Setting.versionIn? :=
    calc settings.filterMap Setting.version?
        = (settings.map Except.ok).filterMap fun outcome : Except ParameterFault Setting =>
            outcome.toOption.bind Setting.version? := by
          rw [List.filterMap_map]
          rfl
      _ = (piecesOf parameter).filterMap Setting.versionIn? := by
          rw [← hsettings, List.filterMap_map]
          rfl
  rw [version_foldl, hversions, List.getLast?_filterMap]

end Options

namespace Plugin

/-- A parameter is accepted exactly if each of its pieces says a setting. Its version is the one in the last
piece that has one, and empty without such a piece. If it is refused, the reason is that of the first piece
that says none, and no piece behind that one matters. -/
theorem optionsOf_grammar (parameter : String) :
    ∃ pieces, Options.ArePieces parameter pieces ∧
      ((∃ options, optionsOf parameter = .ok options) ↔
        ∀ piece ∈ pieces, ∃ setting, Setting.Says piece (.ok setting)) ∧
      (∀ options, optionsOf parameter = .ok options →
        (∃ before piece after, pieces = before ++ piece :: after ∧
          Setting.Says piece (.ok (.version options.version)) ∧
          ∀ later ∈ after, ∀ version, ¬Setting.Says later (.ok (.version version))) ∨
        options.version = "" ∧ ∀ piece ∈ pieces, ∀ version, ¬Setting.Says piece (.ok (.version version))) ∧
      ∀ fault, optionsOf parameter = .error fault ↔
        ∃ before piece after reason, pieces = before ++ piece :: after ∧
          (∀ earlier ∈ before, ∃ setting, Setting.Says earlier (.ok setting)) ∧
          Setting.Says piece (.error reason) ∧ fault = .parameter reason := by
  refine ⟨Options.piecesOf parameter, Options.arePieces_iff.mpr rfl, ?accepted, ?version, ?refused⟩
  case accepted =>
    simp only [optionsOf, mapError_eq_ok_iff, Setting.says_ok_iff]
    exact Options.exists_parse_eq_ok_iff
  case version =>
    intro options hoptions
    have hversion := Options.version_of_parse (mapError_eq_ok_iff.mp hoptions)
    cases hlast : (Options.piecesOf parameter).reverse.findSome? Setting.versionIn? with
    | none =>
      rw [hlast] at hversion
      refine .inr ⟨hversion, fun piece hpiece => Setting.versionIn?_eq_none_iff.mp ?_⟩
      exact List.findSome?_eq_none_iff.mp hlast piece (List.mem_reverse.mpr hpiece)
    | some version =>
      rw [hlast] at hversion
      obtain ⟨after, piece, before, hsplit, hpiece, hafter⟩ := List.findSome?_eq_some_iff.mp hlast
      refine .inl ⟨before.reverse, piece, after.reverse, ?_,
        hversion ▸ Setting.versionIn?_eq_some_iff.mp hpiece, fun later hlater => ?_⟩
      · rw [List.reverse_eq_append_iff.mp hsplit, List.reverse_cons, List.append_assoc, List.singleton_append]
      · exact Setting.versionIn?_eq_none_iff.mp (hafter later (List.mem_reverse.mp hlater))
  case refused =>
    intro fault
    simp only [optionsOf, mapError_eq_error_iff, Options.parse_eq_error_iff, Setting.says_ok_iff,
      Setting.says_error_iff, IsFirstFault]
    constructor
    · rintro ⟨refusal, ⟨before, piece, after, hsplit, hbefore, hpiece⟩, rfl⟩
      exact ⟨before, piece, after, _, hsplit, hbefore, ⟨refusal, hpiece, rfl⟩, rfl⟩
    · rintro ⟨before, piece, after, _, hsplit, hbefore, ⟨refusal, hpiece, rfl⟩, rfl⟩
      exact ⟨refusal, ⟨before, piece, after, hsplit, hbefore, hpiece⟩, rfl⟩

/-- A value that begins with an equals sign, a blank piece, a key with a no-break space behind it and an empty
value are all accepted; a key that is empty is not, and what follows it is not read. -/
theorem optionsOf_grammar_empty_key :
    let parameter := "version==v5,, version\u00a0= ,=x=pbjs,library=proto"
    optionsOf parameter = .error (.parameter "unknown option ``") := by
  intro parameter
  obtain ⟨pieces, hpieces, -, -, hrefused⟩ := optionsOf_grammar parameter
  obtain rfl : ["version==v5", "version\u00a0=", "=x=pbjs", "library=proto"] = pieces :=
    .trans (by decide +kernel) (Options.arePieces_iff.mp hpieces)
  refine (hrefused _).mpr
    ⟨["version==v5", "version\u00a0="], "=x=pbjs", ["library=proto"], _, rfl, ?_, ?_, rfl⟩
  · intro earlier hearlier
    rcases List.mem_cons.mp hearlier with rfl | hearlier
    · exact ⟨.version "=v5", Setting.says_ok_iff.mpr (by decide +kernel)⟩
    · obtain rfl := List.mem_singleton.mp hearlier
      exact ⟨.version "", Setting.says_ok_iff.mpr (by decide +kernel)⟩
  · exact Setting.says_error_iff.mpr ⟨.unknownOption "", by decide +kernel, rfl⟩

example : optionsOf "version=v5,\u3000version = =v6 ,library=pbjs ," = .ok ⟨"=v6", .pbjs⟩ := by decide +kernel

end Plugin

end TwirpClient
