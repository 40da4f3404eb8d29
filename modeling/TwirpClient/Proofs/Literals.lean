import TwirpClient.Proofs.Collecting
import TwirpClient.Proofs.Layout
import TwirpClient.Proofs.Lines

/-!
# Ends of lines in printed code

Two characters end a line for whoever reads the code, the line feed and the carriage return, and neither may
stand between the quotes of a literal. This module says where they stand in a printed module.

A module holds texts of two kinds (`Leaf`): names and types, which are printed as they are, and the values of
literals, which are printed between quotes. Everything else that is printed is fixed and keeps to its line.
`Prints` ties the directives of a piece of code to its leaves, with one law per form of code, and
`run_pieces` ties directives to what the sink has taken.

If no name ends a line, then no literal is broken by a line feed: each of them is the end of a line that the
writer meant (`Module.lineEnds_of_print`). A carriage return is not escaped, and stands in the text exactly if
it stands in a value.
-/

namespace TwirpClient.Writer

/-! ## What the sink has taken -/

/-- The piece that a directive puts into the sink, apart from the indentation before it. -/
def Directive.piece? : Directive → Option Piece
  | text value => if value = "" then none else some (.text value)
  | lineFeed => some .lineFeed
  | indent | dedent | abort => none

/-- The pieces that a writer has written, without its indentation. -/
def ownPieces (writer : Writer) : List Piece :=
  writer.sink.pieces.toList.filter (· ≠ .indentation writer.indentUnit)

/-- What a directive adds to the sink is indentation, and else its own piece. -/
theorem perform_pieces {writer next : Writer} {directive : Directive} (hroom : writer.sink.room = none)
    (h : writer.perform directive = .ok next) :
    next.sink.room = none ∧ next.indentUnit = writer.indentUnit ∧
      ∃ added, next.sink.pieces.toList = writer.sink.pieces.toList ++ added ∧
        added.filter (· ≠ .indentation writer.indentUnit) = directive.piece?.toList := by
  cases directive with
  | text value =>
    obtain ⟨sink, hunbounded, hpieces, hwrite⟩ := write_pieces writer hroom value
    cases hwrite.symm.trans h
    refine ⟨hunbounded, rfl, _, hpieces, ?_⟩
    rcases eq_or_ne value "" with rfl | hvalue
    · rw [Mark.pieces_empty, Directive.piece?, if_pos rfl]
      rfl
    · rw [Mark.pieces_text hvalue, Directive.piece?, if_neg hvalue]
      cases writer.atLineStart with
      | true => simp
      | false => simp
  | lineFeed =>
    rw [perform, endLine, put_of_unbounded writer hroom] at h
    cases h
    exact ⟨Sink.room_push_of_unbounded hroom _, rfl, [.lineFeed], Array.toList_push, rfl⟩
  | indent | dedent =>
    cases h
    exact ⟨hroom, rfl, [], (List.append_nil _).symm, rfl⟩
  | abort => cases h

/-- What a run adds to the sink is its indentation, and else what its directives say, in their order. -/
theorem run_pieces {writer next : Writer} {directives : List Directive} (hroom : writer.sink.room = none)
    (h : writer.run directives = .ok next) :
    next.indentUnit = writer.indentUnit ∧
      ∃ added, next.sink.pieces.toList = writer.sink.pieces.toList ++ added ∧
        added.filter (· ≠ .indentation writer.indentUnit) = directives.filterMap Directive.piece? := by
  induction directives generalizing writer with
  | nil =>
    cases h
    exact ⟨rfl, [], (List.append_nil _).symm, rfl⟩
  | cons directive rest ih =>
    rw [run_cons] at h
    obtain ⟨middle, hperform, hrest⟩ := bind_eq_ok_iff.mp h
    obtain ⟨hmiddle, hunit, first, hfirst, hpiece⟩ := perform_pieces hroom hperform
    obtain ⟨hunit', others, hothers, hpieces⟩ := ih hmiddle hrest
    rw [hunit] at hunit' hpieces
    refine ⟨hunit', first ++ others, by rw [hothers, hfirst, List.append_assoc], ?_⟩
    rw [List.filter_append, hpiece, hpieces, List.filterMap_cons]
    cases directive.piece? with
    | none => rfl
    | some piece => rfl

/-- Whatever is carried out, what was written before stays in front. -/
theorem content_of_run {writer next : Writer} {directives : List Directive} (hroom : writer.sink.room = none)
    (h : writer.run directives = .ok next) : ∃ added, next.sink.content = writer.sink.content ++ added := by
  obtain ⟨-, added, hadded, -⟩ := run_pieces hroom h
  exact ⟨Sink.contentOf added, by rw [Sink.content, hadded, Sink.contentOf_append]; rfl⟩

section Run

variable {writer next : Writer} {directives : List Directive} (hroom : writer.sink.room = none)
  (hempty : writer.sink.pieces = #[]) (h : writer.run directives = .ok next)

include hroom hempty h

theorem ownPieces_of_run : next.ownPieces = directives.filterMap Directive.piece? := by
  obtain ⟨hunit, added, hadded, hown⟩ := run_pieces hroom h
  rw [ownPieces, hadded, hempty, hunit]
  exact hown

/-- What is in the sink of a writer that began with nothing. -/
theorem mem_pieces_of_run {piece : Piece} (hpiece : piece ∈ next.sink.pieces.toList) :
    piece = .indentation writer.indentUnit ∨ piece = .lineFeed ∨
      ∃ value, .text value ∈ directives ∧ piece = .text value := by
  by_cases hindentation : piece = .indentation writer.indentUnit
  · exact .inl hindentation
  · have hown : piece ∈ next.ownPieces := by
      rw [ownPieces, (run_pieces hroom h).1, List.mem_filter]
      exact ⟨hpiece, decide_eq_true hindentation⟩
    rw [ownPieces_of_run hroom hempty h] at hown
    obtain ⟨directive, hdirective, hsays⟩ := List.mem_filterMap.mp hown
    cases directive with
    | text value =>
      rw [Directive.piece?] at hsays
      split at hsays
      · cases hsays
      · cases hsays
        exact .inr (.inr ⟨value, hdirective, rfl⟩)
    | lineFeed =>
      cases hsays
      exact .inr (.inl rfl)
    | indent | dedent | abort => cases hsays

/-- A text that is not empty reaches the sink in one piece. -/
theorem text_mem_pieces_of_run {value : String} (hvalue : value ≠ "") (hmem : .text value ∈ directives) :
    Piece.text value ∈ next.sink.pieces.toList := by
  have hown : Piece.text value ∈ next.ownPieces := by
    rw [ownPieces_of_run hroom hempty h]
    exact List.mem_filterMap.mpr ⟨_, hmem, if_neg hvalue⟩
  exact (List.mem_filter.mp hown).1

end Run

/-- A character of a text stands in one of the pieces that the text was put together from. -/
theorem mem_contentOf {c : Char} {pieces : List Piece} :
    c ∈ (Sink.contentOf pieces).toList ↔ ∃ piece ∈ pieces, c ∈ piece.content.toList := by
  induction pieces with
  | nil => simp [Sink.contentOf]
  | cons piece pieces ih => simp [Sink.contentOf_cons, ih]

end TwirpClient.Writer

namespace TwirpClient.Text

/-- The characters that end a line of code for whoever reads it. -/
def isLineEnd (c : Char) : Bool :=
  c == '\n' || c == '\r'

/-- Whether a text stays on one line. -/
def KeepsLine (text : String) : Prop :=
  text.toList.any isLineEnd = false

instance (text : String) : Decidable (KeepsLine text) :=
  inferInstanceAs (Decidable (_ = _))

/-- A text that keeps its line has none of the characters that end one. -/
theorem KeepsLine.notMem {text : String} (h : KeepsLine text) {c : Char} (hc : isLineEnd c = true) :
    c ∉ text.toList :=
  fun hmem => List.any_eq_false.mp h c hmem hc

theorem keepsLine_iff {text : String} : KeepsLine text ↔ '\n' ∉ text.toList ∧ '\r' ∉ text.toList := by
  constructor
  · intro h
    exact ⟨h.notMem rfl, h.notMem rfl⟩
  · rintro ⟨hfeed, hreturn⟩
    rw [KeepsLine, List.any_eq_false]
    intro c hc hend
    rw [isLineEnd, Bool.or_eq_true, beq_iff_eq, beq_iff_eq] at hend
    rcases hend with rfl | rfl
    · exact hfeed hc
    · exact hreturn hc

namespace Quoted

/-- A line feed is escaped, whatever the value. -/
theorem lineFeed_notMem_ofString (value : String) : '\n' ∉ (ofString value).toList := by
  have hescape : ∀ c, '\n' ∉ escape c := by
    intro c
    unfold escape
    split
    · decide
    · split
      · decide
      · split
        · decide
        · next hfeed => simpa [eq_comm] using hfeed
  simp [ofString, encode, tail, hescape]

/-- A carriage return is not escaped, and is not written for anything else. -/
theorem carriageReturn_mem_ofString_iff {value : String} :
    '\r' ∈ (ofString value).toList ↔ '\r' ∈ value.toList := by
  have hescape : ∀ c, '\r' ∈ escape c ↔ c = '\r' := by
    intro c
    unfold escape
    split
    · next h => simp [h]
    · split
      · next h => simp [h]
      · split
        · next h => simp [h]
        · simp [eq_comm]
  simp [ofString, encode, tail, hescape]

end Quoted

end TwirpClient.Text

namespace TwirpClient.Code

open Text (isLineEnd KeepsLine)
open Writer (Directive Piece Sink)

/-! ## The texts that a module holds -/

/-- A text that a piece of code holds, by how it is printed. -/
inductive Leaf where
  /-- A name, a type, a comment or an import's binding, which are printed as they are. -/
  | verbatim (text : String)
  /-- The value of a literal or the source of an import, which are printed between quotes. -/
  | literal (value : String)
  deriving DecidableEq, Repr

/-- A leaf as it is printed. -/
def Leaf.text : Leaf → String
  | verbatim text => text
  | literal value => Text.Quoted.ofString value

/-- The leaves of a parameter: its name and its type. -/
def Param.leaves (param : Param) : List Leaf :=
  [.verbatim param.name, .verbatim param.type]

def resultLeaves : Option String → List Leaf
  | some type => [.verbatim type]
  | none => []

mutual

/-- The texts in an expression, in the order in which they are printed. -/
def Expr.leaves : Expr → List Leaf
  | .ident name => [.verbatim name]
  | .str value => [.literal value]
  | .member object property => object.leaves ++ [.verbatim property]
  | .call callee arguments => callee.leaves ++ (exprLeaves arguments).flatten
  | .new className arguments => .verbatim className :: (exprLeaves arguments).flatten
  | .binary left _ right => left.leaves ++ right.leaves
  | .object properties => (propertyLeaves properties).flatten
  | .arrow parameters result body =>
    (parameters.map Param.leaves).flatten ++ (resultLeaves result ++ stmtsLeaves body)

/-- The leaves of each of some expressions. -/
def exprLeaves : List Expr → List (List Leaf)
  | [] => []
  | expr :: rest => expr.leaves :: exprLeaves rest

def propertyLeaves : List (String × Expr) → List (List Leaf)
  | [] => []
  | (key, value) :: rest => (.verbatim key :: value.leaves) :: propertyLeaves rest

/-- The leaves of a statement, in the order in which they are printed. -/
def Stmt.leaves : Stmt → List Leaf
  | .const name value => .verbatim name :: value.leaves
  | .when condition body => condition.leaves ++ stmtsLeaves body
  | .give value => value.leaves
  | .throw value => value.leaves
  | .blank => []

def stmtsLeaves : List Stmt → List Leaf
  | [] => []
  | stmt :: rest => stmt.leaves ++ stmtsLeaves rest

end

/-- The leaves of an item. A literal among them is the path of an import or stands in a value. -/
def Item.leaves : Item → List Leaf
  | .comment text => [.verbatim text]
  | .importFrom binding source => [.verbatim binding, .literal source]
  | .const _ name value => .verbatim name :: value.leaves

/-- The texts in a module. -/
def Module.leaves (module : Module) : List Leaf :=
  module.items.flatMap Item.leaves

/-! ## What the directives of code say -/

/-- The directives print the leaves: their texts end a line only where a leaf does, and each literal is a text
of its own. -/
structure Prints (leaves : List Leaf) (directives : List Directive) : Prop where
  lineEnds : ∀ c, isLineEnd c = true →
    ((∃ value, .text value ∈ directives ∧ c ∈ value.toList) ↔ ∃ leaf ∈ leaves, c ∈ leaf.text.toList)
  literals : ∀ value, .literal value ∈ leaves → .text (Text.Quoted.ofString value) ∈ directives

namespace Prints

variable {leaves leaves' : List Leaf} {directives directives' : List Directive}

theorem nil : Prints [] [] :=
  ⟨fun _ _ => by simp, fun _ h => absurd h List.not_mem_nil⟩

/-- The leaves of directives one behind the other are those of the first and then those of the others. -/
theorem append (h : Prints leaves directives) (h' : Prints leaves' directives') :
    Prints (leaves ++ leaves') (directives ++ directives') := by
  refine ⟨fun c hc => ?_, fun value hvalue => ?_⟩
  · simp only [List.mem_append, or_and_right, exists_or, h.lineEnds c hc, h'.lineEnds c hc]
  · rw [List.mem_append] at hvalue ⊢
    exact hvalue.imp (h.literals value) (h'.literals value)

/-- A text without a literal in it, whose ends of lines are those of its leaves. -/
theorem ofText {value : String}
    (hlineEnds : ∀ c, isLineEnd c = true → (c ∈ value.toList ↔ ∃ leaf ∈ leaves, c ∈ leaf.text.toList))
    (hliterals : ∀ literal, .literal literal ∉ leaves) : Prints leaves [.text value] := by
  refine ⟨fun c hc => ?_, fun literal hliteral => absurd hliteral (hliterals literal)⟩
  simp only [List.mem_singleton, Directive.text.injEq, exists_eq_left, hlineEnds c hc]

/-- What the printer writes of its own keeps to the line. -/
theorem fixed (value : String) (h : KeepsLine value := by decide) : Prints [] [.text value] :=
  ofText (fun c hc => by simpa using h.notMem hc) (by simp)

/-- A text that is printed as it is, between what is fixed. -/
theorem verbatim (front text back : String) (hfront : KeepsLine front := by decide)
    (hback : KeepsLine back := by decide) : Prints [.verbatim text] [.text (front ++ text ++ back)] := by
  refine ofText (fun c hc => ?_) (by simp)
  simp [hfront.notMem hc, hback.notMem hc, Leaf.text]

theorem plain (text : String) : Prints [.verbatim text] [.text text] :=
  ofText (fun c _ => by simp [Leaf.text]) (by simp)

/-- Two texts with something fixed between them. -/
theorem joined (first middle second : String) (hmiddle : KeepsLine middle := by decide) :
    Prints [.verbatim first, .verbatim second] [.text (first ++ middle ++ second)] := by
  refine ofText (fun c hc => ?_) (by simp)
  simp [hmiddle.notMem hc, Leaf.text]

theorem literal (value : String) : Prints [.literal value] [.text (Text.Quoted.ofString value)] :=
  ⟨fun _ _ => by simp [Leaf.text], fun _ h => by
    rw [Leaf.literal.inj (List.mem_singleton.mp h)]
    exact List.mem_singleton_self _⟩

/-- A directive that writes no text has no leaf. -/
theorem silent (directive : Directive) (h : ∀ value, directive ≠ .text value) : Prints [] [directive] :=
  ⟨fun _ _ => by simp [Ne.symm (h _)], fun _ h => absurd h List.not_mem_nil⟩

theorem lineFeed : Prints [] [.lineFeed] :=
  silent _ (by simp)

theorem line (value : String) (h : KeepsLine value := by decide) : Prints [] (Directive.line value) :=
  (fixed value h).append lineFeed

theorem nested (h : Prints leaves directives) : Prints leaves (Directive.nested directives) := by
  have hall := (silent .indent (by simp)).append (h.append (silent .dedent (by simp)))
  rwa [List.append_nil, List.nil_append] at hall

/-- Items with something fixed between any two. -/
theorem intercalate {separator : List Directive} (hseparator : Prints [] separator)
    {itemLeaves : List (List Leaf)} {items : List (List Directive)} (h : List.Forall₂ Prints itemLeaves items) :
    Prints itemLeaves.flatten (separator.intercalate items) := by
  induction h with
  | nil => exact nil
  | @cons leaves directives itemLeaves items hitem hitems ih =>
    cases hitems with
    | nil =>
      rw [List.intercalate_singleton, List.flatten_singleton]
      exact hitem
    | cons =>
      rw [List.intercalate_cons_cons, List.flatten_cons]
      have hall := (hitem.append hseparator).append ih
      rwa [List.append_nil] at hall

/-- A block behind the line that opens it, with the brace that closes it. -/
theorem block (h : Prints leaves directives) (opening : String) (hopening : KeepsLine opening := by decide) :
    Prints leaves (Directive.line opening ++ Directive.nested directives ++ [.text "\x7d"]) := by
  have hall := ((line opening hopening).append h.nested).append (.fixed "\x7d")
  rwa [List.append_nil] at hall

/-- Items on one line between parentheses. -/
theorem arguments {itemLeaves : List (List Leaf)} {items : List (List Directive)}
    (h : List.Forall₂ Prints itemLeaves items) :
    Prints itemLeaves.flatten (.text "(" :: Directive.separated ", " items ++ [.text ")"]) := by
  have hitems := intercalate (.fixed ", ") h
  have hall := (fixed "(").append (hitems.append (.fixed ")"))
  rwa [List.append_nil] at hall

end Prints

/-! ## One law per form of code -/

theorem prints_params (params : List Param) :
    List.Forall₂ Prints (params.map Param.leaves) (params.map Param.directives) := by
  induction params with
  | nil => exact .nil
  | cons param rest ih => exact .cons (.joined param.name ": " param.type) ih

theorem prints_result (result : Option String) : Prints (resultLeaves result) (resultDirectives result) := by
  cases result with
  | none => exact .nil
  | some type =>
    have h := Prints.verbatim ": " type ""
    rwa [String.append_empty] at h

mutual

/-- Every expression prints its leaves. The cases are the forms of an expression. -/
theorem Expr.prints : ∀ expr : Expr, Prints expr.leaves expr.directives
  | .ident name => .plain name
  | .str value => .literal value
  | .member object property =>
    object.prints.append ((Prints.fixed ".").append (.plain property))
  | .call callee arguments => by
    have h := callee.prints.append (Prints.arguments (prints_exprs arguments))
    rw [Expr.directives, Expr.leaves, List.append_assoc]
    exact h
  | .new className arguments => by
    have hclass := Prints.verbatim "new " className ""
    have h := hclass.append (Prints.arguments (prints_exprs arguments))
    rwa [String.append_empty] at h
  | .binary left operator right => by
    have hoperator : KeepsLine operator.text := by
      cases operator <;> decide
    exact left.prints.append ((Prints.fixed operator.text hoperator).append right.prints)
  | .object [] => .fixed "\x7b\x7d"
  | .object (property :: rest) => by
    have hlines := Prints.intercalate (.line ",") (prints_properties (property :: rest))
    have h := (hlines.append .lineFeed).block "\x7b"
    rwa [List.append_nil] at h
  | .arrow parameters result body => by
    have hbody := (prints_stmts body).block " => \x7b"
    have h := (Prints.arguments (prints_params parameters)).append ((prints_result result).append hbody)
    rw [Expr.directives, Expr.leaves]
    simpa only [List.append_assoc, List.cons_append, List.nil_append] using h

theorem prints_exprs : ∀ exprs : List Expr, List.Forall₂ Prints (exprLeaves exprs) (exprDirectives exprs)
  | [] => .nil
  | expr :: rest => .cons expr.prints (prints_exprs rest)

theorem prints_properties : ∀ properties : List (String × Expr),
    List.Forall₂ Prints (propertyLeaves properties) (propertyDirectives properties)
  | [] => .nil
  | (key, value) :: rest => by
    have hkey := Prints.verbatim "" key ": "
    rw [String.empty_append] at hkey
    exact .cons (hkey.append value.prints) (prints_properties rest)

/-- Every statement prints its leaves. -/
theorem Stmt.prints : ∀ stmt : Stmt, Prints stmt.leaves stmt.directives
  | .const name value => by
    have hname := Prints.verbatim "const " name " = "
    have h := hname.append (value.prints.append (.line ";"))
    rwa [List.append_nil] at h
  | .when condition body => by
    have hblock := ((prints_stmts body).block ") \x7b").append .lineFeed
    have h := (Prints.fixed "if (").append (condition.prints.append hblock)
    rw [Stmt.directives, Stmt.leaves]
    simpa only [Directive.line, List.append_assoc, List.cons_append, List.nil_append, List.append_nil] using h
  | .give value => by
    have h := (Prints.fixed "return ").append (value.prints.append (.line ";"))
    rwa [List.append_nil] at h
  | .throw value => by
    have h := (Prints.fixed "throw ").append (value.prints.append (.line ";"))
    rwa [List.append_nil] at h
  | .blank => .lineFeed

theorem prints_stmts : ∀ stmts : List Stmt, Prints (stmtsLeaves stmts) (stmtDirectives stmts)
  | [] => .nil
  | stmt :: rest => stmt.prints.append (prints_stmts rest)

end

theorem Item.prints (item : Item) : Prints item.leaves item.directives := by
  cases item with
  | comment text =>
    have htext := Prints.verbatim "// " text ""
    have h := htext.append .lineFeed
    rwa [String.append_empty] at h
  | importFrom binding source =>
    have h := (Prints.fixed "import ").append ((Prints.plain binding).append
      ((Prints.fixed " from ").append
        ((Prints.literal source).append (.line ";"))))
    exact h
  | const exported name value =>
    have hexport : Prints [] (if exported then [.text "export "] else []) := by
      cases exported with
      | true => exact .fixed "export "
      | false => exact .nil
    have hname := Prints.verbatim "const " name " = "
    have h := Prints.lineFeed.append (hexport.append (hname.append (value.prints.append (.line ";"))))
    rw [List.append_nil] at h
    rw [directives, List.append_assoc]
    exact h

/-- A module prints its leaves, and of its own nothing but text that keeps its line. -/
theorem Module.prints (module : Module) : Prints module.leaves module.directives := by
  rw [leaves, directives]
  induction module.items with
  | nil => exact .nil
  | cons item items ih =>
    rw [List.flatMap_cons, List.flatMap_cons]
    exact item.prints.append ih

/-! ## The ends of lines of a module -/

/-- Printing a module is a run of its directives that succeeds. -/
theorem Module.exists_run (module : Module) :
    ∃ writer, (Writer.ofSpaces indentWidth).run module.directives = .ok writer ∧
      module.print = .ok writer.sink.content := by
  obtain ⟨writer, hrun, -⟩ := writes_items module.items _ standsAt_ofSpaces
  refine ⟨writer, hrun, ?_⟩
  rw [print, directives, hrun]

/-- Where a module's names keep to the line, an end of a line in a text that is printed comes from a literal. -/
theorem Module.literal_of_lineEnd {module : Module}
    (hverbatim : ∀ text, .verbatim text ∈ module.leaves → KeepsLine text) {c : Char} (hc : isLineEnd c = true)
    {value : String} (hvalue : .text value ∈ module.directives) (hmem : c ∈ value.toList) :
    ∃ literal, .literal literal ∈ module.leaves ∧ c ∈ (Text.Quoted.ofString literal).toList := by
  obtain ⟨leaf, hleaf, hc'⟩ := (module.prints.lineEnds c hc).mp ⟨value, hvalue, hmem⟩
  cases leaf with
  | verbatim text => exact absurd hc' ((hverbatim text hleaf).notMem hc)
  | literal literal => exact ⟨literal, hleaf, hc'⟩

/-- In a module whose names end no line, each literal is printed as a whole and has no line feed in it, and
every line feed of the text is the end of a line that the writer wrote. A carriage return stands in the text
exactly if it stands in the value of a literal, for it is not escaped. -/
theorem Module.lineEnds_of_print (module : Module)
    (hverbatim : ∀ text, .verbatim text ∈ module.leaves → '\n' ∉ text.toList ∧ '\r' ∉ text.toList) :
    ∃ (text : String) (writer : Writer),
      module.print = .ok text ∧
      (Writer.ofSpaces indentWidth).run module.directives = .ok writer ∧ writer.sink.content = text ∧
      (∀ piece ∈ writer.sink.pieces.toList, '\n' ∈ piece.content.toList → piece = .lineFeed) ∧
      (∀ value, .literal value ∈ module.leaves →
        .text (Text.Quoted.ofString value) ∈ writer.sink.pieces.toList ∧
          '\n' ∉ (Text.Quoted.ofString value).toList) ∧
      ('\r' ∈ text.toList ↔ ∃ value, .literal value ∈ module.leaves ∧ '\r' ∈ value.toList) := by
  have hnames : ∀ text, .verbatim text ∈ module.leaves → KeepsLine text :=
    fun text htext => Text.keepsLine_iff.mpr (hverbatim text htext)
  have hindent : KeepsLine (Writer.ofSpaces indentWidth).indentUnit := by decide
  obtain ⟨writer, hrun, hprint⟩ := module.exists_run
  have hliterals : ∀ value, .literal value ∈ module.leaves →
      .text (Text.Quoted.ofString value) ∈ writer.sink.pieces.toList := by
    intro value hvalue
    have hquote : Text.Quoted.ofString value ≠ "" := by simp [Text.Quoted.ofString, Text.Quoted.encode]
    exact Writer.text_mem_pieces_of_run rfl rfl hrun hquote (module.prints.literals value hvalue)
  refine ⟨_, writer, hprint, hrun, rfl, ?feeds, ?literals, ?returns⟩
  case feeds =>
    intro piece hpiece hfeed
    rcases Writer.mem_pieces_of_run rfl rfl hrun hpiece with rfl | rfl | ⟨value, hvalue, rfl⟩
    · exact absurd hfeed (hindent.notMem rfl)
    · rfl
    · obtain ⟨literal, -, hmem⟩ := Module.literal_of_lineEnd hnames rfl hvalue hfeed
      exact absurd hmem (Text.Quoted.lineFeed_notMem_ofString literal)
  case literals =>
    exact fun value hvalue => ⟨hliterals value hvalue, Text.Quoted.lineFeed_notMem_ofString value⟩
  case returns =>
    rw [Sink.content, Writer.mem_contentOf]
    constructor
    · rintro ⟨piece, hpiece, hreturn⟩
      rcases Writer.mem_pieces_of_run rfl rfl hrun hpiece with rfl | rfl | ⟨value, hvalue, rfl⟩
      · exact absurd hreturn (hindent.notMem rfl)
      · exact absurd hreturn (by decide)
      · obtain ⟨literal, hliteral, hmem⟩ := Module.literal_of_lineEnd hnames rfl hvalue hreturn
        exact ⟨literal, hliteral, Text.Quoted.carriageReturn_mem_ofString_iff.mp hmem⟩
    · rintro ⟨value, hvalue, hreturn⟩
      exact ⟨_, hliterals value hvalue, Text.Quoted.carriageReturn_mem_ofString_iff.mpr hreturn⟩

/-- Line feeds and quotes in the source of an import, in a property and in an argument. -/
theorem lineEnds_of_print_feeds :
    let module : Module :=
      ⟨[.importFrom "a" "x\n'",
        .const true "c" (.object [("k", .str "\n\\"), ("l", .call (.ident "f") [.str "\n\n"])])]⟩
    (∀ text, .verbatim text ∈ module.leaves → '\n' ∉ text.toList ∧ '\r' ∉ text.toList) ∧
      ∃ (text : String) (writer : Writer),
        module.print = .ok text ∧
        (Writer.ofSpaces indentWidth).run module.directives = .ok writer ∧ writer.sink.content = text ∧
        (∀ piece ∈ writer.sink.pieces.toList, '\n' ∈ piece.content.toList → piece = .lineFeed) ∧
        .text "'\\n\\n'" ∈ writer.sink.pieces.toList ∧ '\r' ∉ text.toList := by
  intro module
  have hleaves : module.leaves = [.verbatim "a", .literal "x\n'", .verbatim "c", .verbatim "k",
    .literal "\n\\", .verbatim "l", .verbatim "f", .literal "\n\n"] := rfl
  have hverbatim : ∀ text, .verbatim text ∈ module.leaves → '\n' ∉ text.toList ∧ '\r' ∉ text.toList := by
    intro text htext
    rw [hleaves] at htext
    simp only [List.mem_cons, Leaf.verbatim.injEq, reduceCtorEq, List.not_mem_nil, or_false, false_or] at htext
    rcases htext with rfl | rfl | rfl | rfl | rfl <;> decide
  refine ⟨hverbatim, ?_⟩
  obtain ⟨text, writer, hprint, hrun, hcontent, hfeeds, hliterals, hreturns⟩ := module.lineEnds_of_print hverbatim
  refine ⟨text, writer, hprint, hrun, hcontent, hfeeds, (hliterals "\n\n" (by decide)).1, ?_⟩
  rw [hreturns]
  rintro ⟨value, hvalue, hreturn⟩
  rw [hleaves] at hvalue
  simp only [List.mem_cons, Leaf.literal.injEq, reduceCtorEq, List.not_mem_nil, or_false, false_or] at hvalue
  rcases hvalue with rfl | rfl | rfl <;> exact absurd hreturn (by decide)

/-- A carriage return in a literal reaches the text, although no name has one. -/
theorem print_carriageReturn :
    let module : Module := ⟨[.const false "s" (.str "a\rb")]⟩
    (∀ text, .verbatim text ∈ module.leaves → '\n' ∉ text.toList ∧ '\r' ∉ text.toList) ∧
      ∃ text, module.print = .ok text ∧ '\r' ∈ text.toList := by
  intro module
  refine ⟨fun text htext => ?_, module.layout, module.print_eq_layout, by decide⟩
  obtain rfl : text = "s" := by simpa [module, Module.leaves, Item.leaves, Expr.leaves] using htext
  decide

end TwirpClient.Code
