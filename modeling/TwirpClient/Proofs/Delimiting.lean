import TwirpClient.Proofs.Literals
import TwirpClient.Proofs.Separating

/-!
# Where literals end

A literal is followed by whatever the printer writes next, and nothing but its own closing quote tells a reader
where it ends. `Escapes.scan?` is any reader that goes by the quote and the backslash: it stops at the first
quote that no backslash takes, and it knows the three escapes that are written. What it makes of other escapes is
left open, for none is ever written.

Such a reader gives back the value and stops behind the literal, whatever follows (`Escapes.scan?_ofString`).
Text that is added behind what it has read does not change its answer (`Escapes.scan?_append`), so no literal has
another one at its front. In a printed module, each literal stands behind what was written before the printer
came to it (`Module.Reaches.print_eq`), and can be read from there.
-/

namespace TwirpClient

/-! ## Readers of literals -/

namespace Text.Quoted

/-- What a reader makes of a backslash together with the character behind it, `none` if it refuses the two. -/
structure Escapes where
  meaning? : Char → Option Char
  quote : meaning? '\'' = some '\''
  backslash : meaning? '\\' = some '\\'
  lineFeed : meaning? 'n' = some '\n'

namespace Escapes

/-- A reader that takes every other character behind a backslash for itself. -/
def lenient : Escapes where
  meaning? c := some (unescape c)
  quote := rfl
  backslash := rfl
  lineFeed := rfl

variable (escapes : Escapes)

/-- The value up to the first quote that is not part of an escape, and the text behind that quote. -/
def scanTail? : List Char → Option (List Char × List Char)
  | [] => none
  | c :: rest =>
    if c = '\'' then some ([], rest)
    else if c = '\\' then
      match rest with
      | [] => none
      | escaped :: rest => (escapes.meaning? escaped).bind fun c =>
        (scanTail? rest).map fun (value, left) => (c :: value, left)
    else (scanTail? rest).map fun (value, left) => (c :: value, left)

/-- The value of the literal at the front of a text, and the text behind the literal. -/
def scan? (text : String) : Option (String × String) :=
  match text.toList with
  | '\'' :: rest => (escapes.scanTail? rest).map fun (value, left) => (String.ofList value, String.ofList left)
  | _ => none

variable {escapes} {c escaped : Char} {rest value left : List Char}

theorem scanTail?_quote : escapes.scanTail? ('\'' :: rest) = some ([], rest) := by
  rw [scanTail?.eq_def]
  exact if_pos rfl

theorem scanTail?_escaped (h : escapes.meaning? escaped = some c) :
    escapes.scanTail? ('\\' :: escaped :: rest) =
      (escapes.scanTail? rest).map fun (value, left) => (c :: value, left) := by
  rw [scanTail?.eq_def]
  simp only [Char.reduceEq, if_false, if_true, h, Option.bind_some]

theorem scanTail?_plain (hquote : c ≠ '\'') (hbackslash : c ≠ '\\') :
    escapes.scanTail? (c :: rest) =
      (escapes.scanTail? rest).map fun (value, left) => (c :: value, left) := by
  rw [scanTail?.eq_def]
  simp only [hquote, hbackslash, if_false]

/-- One character of a value is read back from what is written for it. -/
theorem scanTail?_escape (c : Char) (rest : List Char) :
    escapes.scanTail? (escape c ++ rest) =
      (escapes.scanTail? rest).map fun (value, left) => (c :: value, left) := by
  by_cases hquote : c = '\''
  · subst hquote
    exact scanTail?_escaped escapes.quote
  · by_cases hbackslash : c = '\\'
    · subst hbackslash
      exact scanTail?_escaped escapes.backslash
    · by_cases hfeed : c = '\n'
      · subst hfeed
        exact scanTail?_escaped escapes.lineFeed
      · rw [escape, if_neg hquote, if_neg hbackslash, if_neg hfeed]
        exact scanTail?_plain hquote hbackslash

theorem scanTail?_tail (value rest : List Char) :
    escapes.scanTail? (tail value ++ rest) = some (value, rest) := by
  induction value with
  | nil => exact scanTail?_quote
  | cons c value ih => rw [tail_cons, List.append_assoc, scanTail?_escape, ih, Option.map_some]

/-- A reader that has come to the closing quote does not look behind it. -/
theorem scanTail?_append {cs : List Char} (h : escapes.scanTail? cs = some (value, left)) (more : List Char) :
    escapes.scanTail? (cs ++ more) = some (value, left ++ more) := by
  fun_induction scanTail? escapes cs generalizing value with
  | case1 => cases h
  | case2 rest =>
    cases h
    exact scanTail?_quote
  | case3 => cases h
  | case4 escaped rest hquote ih =>
    obtain ⟨c, hmeaning, htail⟩ := Option.bind_eq_some_iff.mp h
    obtain ⟨⟨value', left'⟩, hread, heq⟩ := Option.map_eq_some_iff.mp htail
    cases heq
    rw [List.cons_append, List.cons_append, scanTail?_escaped hmeaning, ih hread, Option.map_some]
  | case5 c rest hquote hbackslash ih =>
    obtain ⟨⟨value', left'⟩, hread, heq⟩ := Option.map_eq_some_iff.mp h
    cases heq
    rw [List.cons_append, scanTail?_plain hquote hbackslash, ih hread, Option.map_some]

/-- A literal is read as its value, up to its end and no further. -/
theorem scan?_ofString (escapes : Escapes) (value rest : String) :
    escapes.scan? (ofString value ++ rest) = some (value, rest) := by
  have hchars : (ofString value ++ rest).toList = '\'' :: (tail value.toList ++ rest.toList) := by
    simp [ofString, encode]
  rw [scan?, hchars]
  simp only [scanTail?_tail, Option.map_some, String.ofList_toList]

theorem scan?_append {text value left : String} (h : escapes.scan? text = some (value, left)) (more : String) :
    escapes.scan? (text ++ more) = some (value, left ++ more) := by
  rw [scan?] at h
  split at h
  next rest htext =>
    obtain ⟨⟨value, left⟩, hread, heq⟩ := Option.map_eq_some_iff.mp h
    cases heq
    have hchars : (text ++ more).toList = '\'' :: (rest ++ more.toList) := by
      rw [String.toList_append, htext, List.cons_append]
    rw [scan?, hchars]
    simp only [scanTail?_append hread, Option.map_some, String.ofList_append, String.ofList_toList]
  next => cases h

/-- No literal ends before its last character. -/
theorem scan?_eq_none_of_front {value front back : String} (hvalue : front ++ back = ofString value)
    (hback : back ≠ "") : escapes.scan? front = none := by
  cases hfront : escapes.scan? front with
  | none => rfl
  | some result =>
    obtain ⟨value', left⟩ := result
    have hearly : escapes.scan? (ofString value) = some (value', left ++ back) := hvalue ▸ scan?_append hfront back
    have hwhole : escapes.scan? (ofString value) = some (value, "") := by
      rw [← scan?_ofString escapes value "", String.append_empty]
    have hleft : left ++ back = "" := (Prod.mk.inj (Option.some.inj (hearly.symm.trans hwhole))).2
    exact absurd (String.append_eq_empty_iff.mp hleft).2 hback

/-! ### The reader of modules -/

theorem scanTail?_lenient (cs : List Char) : lenient.scanTail? cs = readTail? cs := by
  fun_induction readTail? cs with
  | case1 => rfl
  | case2 rest => exact scanTail?_quote
  | case3 => rfl
  | case4 escaped rest ih => rw [scanTail?_escaped rfl, ih]
  | case5 c rest hquote hend hescape ih =>
    have hbackslash : c ≠ '\\' := by
      rintro rfl
      cases rest with
      | nil => exact hend rfl rfl
      | cons escaped rest => exact hescape escaped rest rfl rfl
    rw [scanTail?_plain hquote hbackslash, ih]

/-- A module's literals are read in this way too. -/
theorem scan?_lenient (text : String) :
    lenient.scan? text =
      (read? text.toList).map fun (value, left) => (String.ofList value, String.ofList left) := by
  rw [scan?]
  split
  next rest htext => rw [htext, read?, scanTail?_lenient]
  next hquote =>
    rw [read?]
    · rfl
    · exact hquote

end Escapes

/-- Two literals with something behind each are one text only if they and what is behind them are the same. -/
theorem ofString_append_inj {value value' rest rest' : String} :
    ofString value ++ rest = ofString value' ++ rest' ↔ value = value' ∧ rest = rest' := by
  constructor
  · intro h
    have hread := Escapes.scan?_ofString .lenient value rest
    rw [h, Escapes.scan?_ofString] at hread
    exact (Prod.mk.inj (Option.some.inj hread)).imp Eq.symm Eq.symm
  · rintro ⟨rfl, rfl⟩
    rfl

theorem ofString_ne_empty (value : String) : ofString value ≠ "" := by
  simp [ofString, encode]

end Text.Quoted

/-! ## Literals in printed code -/

namespace Code

open Text.Quoted (Escapes ofString)
open Writer (Directive Position Writes)

/-- What a module is printed as has the layout of each expression in it, right behind what was written when the
printer came to the expression. -/
theorem Module.Reaches.print_eq {module : Module} {before : List Directive} {expr : Expr}
    (h : module.Reaches before (.expr expr)) :
    ∃ (atCall : Writer) (back : String), (Writer.ofSpaces indentWidth).run before = .ok atCall ∧
      module.print = .ok (atCall.sink.content ++ (expr.layout atCall.level ++ back)) := by
  obtain ⟨after, hdirectives⟩ := h.directives_eq
  obtain ⟨depth, text, hbefore⟩ := h.leads
  obtain ⟨atCall, hrun, hcall, -⟩ := hbefore _ standsAt_ofSpaces
  obtain ⟨atReturn, hexpr, hreturn, hcontent⟩ := expr.writes depth atCall hcall
  obtain ⟨writer, hwhole, hprint⟩ := module.exists_run
  have hafter : atReturn.run after = .ok writer := by
    rw [← hwhole, hdirectives, Writer.run_append, Writer.run_append, hrun]
    exact (congrArg (· >>= fun next => next.run after) hexpr).symm
  obtain ⟨back, hback⟩ := Writer.content_of_run hreturn.unbounded hafter
  have hdepth : atCall.level = depth := hcall.level
  refine ⟨atCall, back, hrun, ?_⟩
  rw [hprint, hback, hcontent, hdepth, String.append_assoc]

/-- The source of an import stands behind the imports and the constants before it. -/
theorem Module.print_importFrom (front back : List Item) (binding source : String) :
    Module.print ⟨front ++ .importFrom binding source :: back⟩ =
      .ok (Module.layout ⟨front⟩ ++ ("import " ++ binding ++ " from ") ++
        (ofString source ++ (";\n" ++ Module.layout ⟨back⟩))) := by
  rw [print_eq_layout, layout, List.map_append, String.join_append, List.map_cons, String.join_cons]
  simp only [layout, Item.layout, String.append_assoc]

/-- The literal of a value is written in one piece, and every reader of literals takes it for the value and stops
where it ends, whatever follows. No shorter text in front of it is a literal, and two literals are the same only
if their values are. So a reader that is set down where a printed module comes to a value, in an expression or
as the source of an import, finds the value there, and behind it what the module goes on with. -/
theorem Expr.str_delimited (escapes : Escapes) (value : String) :
    (∀ (indentUnit : String) (position : Position),
      Writes indentUnit position (Expr.str value).directives (.inLine position.level)
        ((if position.atLineStart then Writer.indentation indentUnit position.level else "") ++ ofString value)) ∧
    (∀ rest, escapes.scan? (ofString value ++ rest) = some (value, rest)) ∧
    (∀ front back, front ++ back = ofString value → back ≠ "" → escapes.scan? front = none) ∧
    (∀ value' rest rest', ofString value ++ rest = ofString value' ++ rest' ↔ value = value' ∧ rest = rest') ∧
    (∀ module before, Module.Reaches module before (.expr (.str value)) →
      ∃ (atCall : Writer) (text back : String), (Writer.ofSpaces indentWidth).run before = .ok atCall ∧
        module.print = .ok (atCall.sink.content ++ text) ∧ escapes.scan? text = some (value, back)) ∧
    ∀ front binding back, ∃ text,
      Module.print ⟨front ++ .importFrom binding value :: back⟩ =
        .ok (Module.layout ⟨front⟩ ++ ("import " ++ binding ++ " from ") ++ text) ∧
      escapes.scan? text = some (value, ";\n" ++ Module.layout ⟨back⟩) := by
  refine ⟨?written, escapes.scan?_ofString value, fun _ _ => Escapes.scan?_eq_none_of_front,
    fun _ _ _ => Text.Quoted.ofString_append_inj, ?expression, ?source⟩
  case written =>
    intro indentUnit position
    have h : Writes indentUnit position (Expr.str value).directives _ _ :=
      Writes.textAnywhere position (ofString value)
    have hvalue := Text.Quoted.ofString_ne_empty value
    rwa [Position.afterText_of_ne _ hvalue, Position.added_of_ne _ _ hvalue] at h
  case expression =>
    intro module before hreaches
    obtain ⟨atCall, back, hrun, hprint⟩ := hreaches.print_eq
    exact ⟨atCall, _, back, hrun, hprint, escapes.scan?_ofString value back⟩
  case source =>
    intro front binding back
    exact ⟨_, Module.print_importFrom front back binding value, escapes.scan?_ofString value _⟩

/-- A value that has a quote and ends in a backslash, behind one that looks escaped. -/
theorem str_delimited_backslash :
    let call : Expr := .call (.ident "f") [.str "\\n", .str "a'\\"]
    let module : Module := ⟨[.importFrom "f" "it's", .const false "s" call]⟩
    ∃ (before : List Directive) (atCall : Writer) (text : String) (left : List Char),
      module.Reaches before (.expr (.str "a'\\")) ∧
      (Writer.ofSpaces indentWidth).run before = .ok atCall ∧
      module.print = .ok (atCall.sink.content ++ text) ∧
      Text.Quoted.read? text.toList = some ("a'\\".toList, left) ∧
      Escapes.lenient.scan? "'a\\'" = none := by
  intro call module
  have hcall : module.Reaches _ (.expr call) := .item [.importFrom "f" "it's"] [] rfl
  have hreaches := hcall.child (.argument [.str "\\n"] [])
  obtain ⟨-, -, hfront, -, hexpression, -⟩ := Expr.str_delimited .lenient "a'\\"
  obtain ⟨atCall, text, back, hrun, hprint, hscan⟩ := hexpression module _ hreaches
  rw [Escapes.scan?_lenient] at hscan
  obtain ⟨⟨value, left⟩, hread, heq⟩ := Option.map_eq_some_iff.mp hscan
  have hvalue : value = "a'\\".toList := String.ofList_inj.mp (Prod.mk.inj heq).1
  rw [hvalue] at hread
  exact ⟨_, atCall, text, left, hreaches, hrun, hprint, hread, hfront "'a\\'" "\\\\'" rfl (by decide)⟩

example : ofString "it's a \\ path" = "'it\\'s a \\\\ path'" := by decide

end Code

end TwirpClient
