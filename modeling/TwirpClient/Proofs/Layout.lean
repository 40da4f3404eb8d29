import TwirpClient.Code.Printer
import TwirpClient.Proofs.Writing

/-!
# The layout of code

What a module looks like, said without a writer. The layout of a piece of code is a text that depends on
the piece and on how many blocks it stands in, and on nothing else: a statement brings its own indentation,
an expression begins in the middle of a line, and the two meet only in the depth they hand down.

`Module.print_eq_layout` says that printing gives this text, always. It rests on one law per form of code
(`Expr.writes`, `Stmt.writes` and one for each list), each the layout of that form read off its directives.

The second half is about the moments at which an expression is printed. `Child` lists the places
where printing a piece of code comes to a smaller piece, with the directives in between, and
`Module.Reaches` collects what a module comes to in this way. At every such moment the writer is inside a
line, for no name and no literal, however odd, can end one.
-/

namespace TwirpClient.Code

open Writer (Directive Position Writes StandsAt)

/-- The spaces before a line that stands in so many blocks. -/
def indentation (depth : Nat) : String :=
  String.ofList (List.replicate (4 * depth) ' ')

/-! ## Layouts -/

def Param.layout (param : Param) : String :=
  param.name ++ ": " ++ param.type

/-- An operator as it stands between its operands. -/
def BinOp.text (operator : BinOp) : String :=
  " " ++ operator.sign ++ " "

def resultLayout : Option String → String
  | some type => ": " ++ type
  | none => ""

mutual

/-- The text of an expression on a line that stands in `depth` blocks. -/
def Expr.layout (depth : Nat) : Expr → String
  | .ident name => name
  | .str value => Text.Quoted.ofString value
  | .member object property => object.layout depth ++ "." ++ property
  | .call callee arguments =>
    callee.layout depth ++ "(" ++ ", ".intercalate (exprLayouts depth arguments) ++ ")"
  | .new className arguments =>
    "new " ++ className ++ "(" ++ ", ".intercalate (exprLayouts depth arguments) ++ ")"
  | .binary left operator right =>
    left.layout depth ++ operator.text ++ right.layout depth
  | .object [] => "\x7b\x7d"
  | .object (property :: rest) =>
    "\x7b\n" ++ ",\n".intercalate (propertyLayouts (depth + 1) (property :: rest)) ++ "\n" ++
      indentation depth ++ "\x7d"
  | .arrow parameters result body =>
    "(" ++ ", ".intercalate (parameters.map Param.layout) ++ ")" ++ resultLayout result ++ " => \x7b\n" ++
      stmtsLayout (depth + 1) body ++ indentation depth ++ "\x7d"

def exprLayouts (depth : Nat) : List Expr → List String
  | [] => []
  | expr :: rest => expr.layout depth :: exprLayouts depth rest

/-- The lines of an object's properties, from their indentation on and without what separates them. -/
def propertyLayouts (depth : Nat) : List (String × Expr) → List String
  | [] => []
  | (key, value) :: rest =>
    (indentation depth ++ key ++ ": " ++ value.layout depth) :: propertyLayouts depth rest

/-- The lines of a statement in `depth` blocks. -/
def Stmt.layout (depth : Nat) : Stmt → String
  | .const name value => indentation depth ++ "const " ++ name ++ " = " ++ value.layout depth ++ ";\n"
  | .when condition body =>
    indentation depth ++ "if (" ++ condition.layout depth ++ ") \x7b\n" ++ stmtsLayout (depth + 1) body ++
      indentation depth ++ "\x7d\n"
  | .give value => indentation depth ++ "return " ++ value.layout depth ++ ";\n"
  | .throw value => indentation depth ++ "throw " ++ value.layout depth ++ ";\n"
  | .blank => "\n"

def stmtsLayout (depth : Nat) : List Stmt → String
  | [] => ""
  | stmt :: rest => stmt.layout depth ++ stmtsLayout depth rest

end

/-- The lines of an item at the top level. -/
def Item.layout : Item → String
  | .comment text => "// " ++ text ++ "\n"
  | .importFrom binding source =>
    "import " ++ binding ++ " from " ++ Text.Quoted.ofString source ++ ";\n"
  | .const exported name value =>
    "\n" ++ (if exported then "export " else "") ++ "const " ++ name ++ " = " ++ value.layout 0 ++ ";\n"

def Module.layout (module : Module) : String :=
  String.join (module.items.map Item.layout)

theorem stmtsLayout_append (depth : Nat) (stmts stmts' : List Stmt) :
    stmtsLayout depth (stmts ++ stmts') = stmtsLayout depth stmts ++ stmtsLayout depth stmts' := by
  induction stmts with
  | nil => rw [List.nil_append, stmtsLayout, String.empty_append]
  | cons stmt stmts ih => rw [List.cons_append, stmtsLayout, ih, stmtsLayout, String.append_assoc]

/-! ## What the directives of code write -/

/-- How the printer indents. -/
def indentUnit : String := (Writer.ofSpaces indentWidth).indentUnit

theorem indentation_succ (depth : Nat) : indentation (depth + 1) = "    " ++ indentation depth := by
  rw [indentation, indentation, Nat.mul_succ, Nat.add_comm, List.replicate_add, String.ofList_append]
  rfl

/-- A level of the writer is four spaces, so levels and depth agree. -/
theorem indentation_eq (depth : Nat) : Writer.indentation indentUnit depth = indentation depth := by
  induction depth with
  | zero => rfl
  | succ depth ih =>
    rw [Writer.indentation_succ, ih, indentation_succ]
    rfl

/-- The first text on a line, which must not be empty. -/
theorem writes_lineStart (depth : Nat) (value : String) (hvalue : value ≠ "") :
    Writes indentUnit (.lineStart depth) [.text value] (.inLine depth) (indentation depth ++ value) := by
  rw [← indentation_eq]
  exact Writes.textAtLineStart hvalue

theorem append_ne_empty (front : String) {back : String} (h : back ≠ "") : front ++ back ≠ "" := by
  intro hempty
  exact h (String.append_eq_empty_iff.mp hempty).2

/-- Parameters are written one by one, in the middle of a line. -/
theorem writes_params (depth : Nat) (params : List Param) :
    List.Forall₂ (fun item text => Writes indentUnit (.inLine depth) item (.inLine depth) text)
      (params.map Param.directives) (params.map Param.layout) := by
  induction params with
  | nil => exact .nil
  | cons param rest ih => exact .cons (Writes.text param.layout) ih

theorem writes_result (depth : Nat) (result : Option String) :
    Writes indentUnit (.inLine depth) (resultDirectives result) (.inLine depth) (resultLayout result) := by
  cases result with
  | none => exact Writes.nil
  | some type => exact Writes.text (": " ++ type)

/-- A block: the end of the line that opens it, its own lines one level deeper, and the brace that closes
it. -/
theorem writes_block {depth : Nat} (opening : String) {body : List Directive} {text : String}
    (h : Writes indentUnit (.lineStart (depth + 1)) body (.lineStart (depth + 1)) text) :
    Writes indentUnit (.inLine depth)
      (Directive.line opening ++ Directive.nested body ++ [.text "\x7d"]) (.inLine depth)
      (opening ++ "\n" ++ text ++ (indentation depth ++ "\x7d")) :=
  ((Writes.line opening).append h.nested).append (writes_lineStart depth "\x7d" (by decide))

theorem toString_string (text : String) : toString text = text := rfl

mutual

/-- An expression is written from inside a line to inside a line. -/
theorem Expr.writes (depth : Nat) : ∀ expr : Expr,
    Writes indentUnit (.inLine depth) expr.directives (.inLine depth) (expr.layout depth)
  | .ident name => Writes.text name
  | .str value => Writes.text (Text.Quoted.ofString value)
  | .member object property => by
    have h := (object.writes depth).append ((Writes.text ".").cons (Writes.text property))
    rw [Expr.directives, Expr.layout, String.append_assoc]
    exact h
  | .call callee arguments => by
    have harguments := Writes.separated ", " (writes_exprs depth arguments)
    have h := (callee.writes depth).append
      ((Writes.text "(").cons (harguments.append (Writes.text ")")))
    rw [Expr.directives, Expr.layout]
    simpa only [String.append_assoc, List.append_assoc, List.cons_append] using h
  | .new className arguments => by
    have harguments := Writes.separated ", " (writes_exprs depth arguments)
    have h := (Writes.text ("new " ++ className)).cons
      ((Writes.text "(").cons (harguments.append (Writes.text ")")))
    rw [Expr.directives, Expr.layout]
    simpa only [toString_string, String.append_assoc, List.append_assoc, List.cons_append] using h
  | .binary left operator right => by
    have h := (left.writes depth).append ((Writes.text operator.text).cons (right.writes depth))
    rw [Expr.directives, Expr.layout]
    simpa only [BinOp.text, toString_string, String.append_assoc] using h
  | .object [] => Writes.text "\x7b\x7d"
  | .object (property :: rest) => by
    have hlines := Writes.separatedLines "," (writes_properties (depth + 1) (property :: rest))
      (by rw [propertyDirectives]; exact List.cons_ne_nil _ _)
    have h := writes_block "\x7b" (hlines.append (Writes.lineFeed _))
    rw [Expr.directives, Expr.layout]
    simpa only [String.reduceAppend, String.append_assoc, List.append_assoc] using h
  | .arrow parameters result body => by
    have hparameters := Writes.separated ", " (writes_params depth parameters)
    have h := (Writes.text "(").cons (hparameters.append ((Writes.text ")").cons
      ((writes_result depth result).append (writes_block " => \x7b" (writes_stmts (depth + 1) body)))))
    rw [Expr.directives, Expr.layout]
    simpa only [String.reduceAppend, String.append_assoc, List.append_assoc, List.cons_append] using h

/-- Each of some expressions is written as its layout, on the line and the level of the first. -/
theorem writes_exprs (depth : Nat) : ∀ exprs : List Expr,
    List.Forall₂ (fun item text => Writes indentUnit (.inLine depth) item (.inLine depth) text)
      (exprDirectives exprs) (exprLayouts depth exprs)
  | [] => .nil
  | expr :: rest => .cons (expr.writes depth) (writes_exprs depth rest)

/-- Each property is written as its layout, on a line of its own. -/
theorem writes_properties (depth : Nat) : ∀ properties : List (String × Expr),
    List.Forall₂ (fun item text => Writes indentUnit (.lineStart depth) item (.inLine depth) text)
      (propertyDirectives properties) (propertyLayouts depth properties)
  | [] => .nil
  | (key, value) :: rest => by
    have hkey : key ++ ": " ≠ "" := append_ne_empty _ (by decide)
    have h := (writes_lineStart depth _ hkey).cons (value.writes depth)
    refine .cons ?_ (writes_properties depth rest)
    simpa only [toString_string, String.append_assoc] using h

/-- A statement is written from the start of a line to the start of a line. -/
theorem Stmt.writes (depth : Nat) : ∀ stmt : Stmt,
    Writes indentUnit (.lineStart depth) stmt.directives (.lineStart depth) (stmt.layout depth)
  | .const name value => by
    have hname : "const " ++ name ++ " = " ≠ "" := append_ne_empty _ (by decide)
    have h := (writes_lineStart depth _ hname).cons ((value.writes depth).append (Writes.line ";"))
    rw [Stmt.directives, Stmt.layout]
    simpa only [toString_string, String.reduceAppend, String.append_assoc, List.cons_append] using h
  | .when condition body => by
    have hblock := writes_block ") \x7b" (writes_stmts (depth + 1) body)
    have h := (writes_lineStart depth "if (" (by decide)).cons
      ((condition.writes depth).append (hblock.append (Writes.lineFeed _)))
    rw [Stmt.directives, Stmt.layout]
    simpa only [String.reduceAppend, String.append_assoc, List.append_assoc, List.cons_append,
      List.nil_append, Directive.line] using h
  | .give value => by
    have h := (writes_lineStart depth "return " (by decide)).cons
      ((value.writes depth).append (Writes.line ";"))
    rw [Stmt.directives, Stmt.layout]
    simpa only [String.reduceAppend, String.append_assoc, List.cons_append] using h
  | .throw value => by
    have h := (writes_lineStart depth "throw " (by decide)).cons
      ((value.writes depth).append (Writes.line ";"))
    rw [Stmt.directives, Stmt.layout]
    simpa only [String.reduceAppend, String.append_assoc, List.cons_append] using h
  | .blank => Writes.lineFeed _

/-- A block is written as the layouts of its statements, from the start of a line to the start of another. -/
theorem writes_stmts (depth : Nat) : ∀ stmts : List Stmt,
    Writes indentUnit (.lineStart depth) (stmtDirectives stmts) (.lineStart depth) (stmtsLayout depth stmts)
  | [] => Writes.nil
  | stmt :: rest => (stmt.writes depth).append (writes_stmts depth rest)

end

/-! ## Modules -/

/-- At the top level there is no indentation to come before a text. -/
theorem writes_topLevel (value : String) (hvalue : value ≠ "") :
    Writes indentUnit (.lineStart 0) [.text value] (.inLine 0) value := by
  have h := writes_lineStart 0 value hvalue
  have hindentation : indentation 0 = "" := rfl
  rwa [hindentation, String.empty_append] at h

/-- An item is written as its layout, from the start of a line to the start of another. -/
theorem Item.writes (item : Item) :
    Writes indentUnit (.lineStart 0) item.directives (.lineStart 0) item.layout := by
  cases item with
  | comment text => exact (writes_topLevel ("// " ++ text) (by simp)).cons (Writes.lineFeed false)
  | importFrom binding source =>
    have h := (writes_topLevel "import " (by decide)).cons ((Writes.text binding).cons
      ((Writes.text " from ").cons ((Writes.text (Text.Quoted.ofString source)).cons (Writes.line ";"))))
    simpa only [directives, layout, String.reduceAppend, String.append_assoc, List.cons_append,
      List.nil_append] using h
  | const exported name value =>
    have hvalue := (value.writes 0).append (Writes.line ";")
    have hconst : "const " ++ name ++ " = " ≠ "" := by simp
    have h : Writes indentUnit (.lineStart 0)
        ((if exported then [.text "export "] else []) ++ [.text ("const " ++ name ++ " = ")]) (.inLine 0)
        ((if exported then "export " else "") ++ ("const " ++ name ++ " = ")) := by
      cases exported with
      | true => exact (writes_topLevel "export " (by decide)).append (Writes.text _)
      | false => exact Writes.nil.append (writes_topLevel _ hconst)
    have hall := (Writes.lineFeed true).cons (h.append hvalue)
    simpa only [directives, layout, Position.lineStart, toString_string, String.reduceAppend,
      String.append_assoc, List.append_assoc, List.cons_append, List.nil_append] using hall

/-- A module is written as the layouts of its items. -/
theorem writes_items (items : List Item) :
    Writes indentUnit (.lineStart 0) (items.flatMap Item.directives) (.lineStart 0)
      (String.join (items.map Item.layout)) := by
  induction items with
  | nil => exact Writes.nil
  | cons item rest ih =>
    rw [List.flatMap_cons, List.map_cons, String.join_cons]
    exact item.writes.append ih

/-- The writer that printing begins with. -/
theorem standsAt_ofSpaces : StandsAt indentUnit (.lineStart 0) (Writer.ofSpaces indentWidth) :=
  ⟨rfl, rfl, rfl, rfl⟩

/-- Printing never fails, and gives the layout. -/
theorem Module.print_eq_layout (module : Module) : module.print = .ok module.layout := by
  obtain ⟨writer, hrun, _, hcontent⟩ := writes_items module.items _ standsAt_ofSpaces
  rw [print, directives, hrun]
  exact congrArg Except.ok (hcontent.trans String.empty_append)

/-! ## The moments of printing -/

/-- A piece of code that can stand inside another. -/
inductive Node where
  | expr (expr : Expr)
  | stmt (stmt : Stmt)

def Node.directives : Node → List Directive
  | expr e => e.directives
  | stmt s => s.directives

/-- Where printing of a node begins: a statement begins its line, and an expression does not. -/
def Node.position (depth : Nat) : Node → Position
  | expr _ => .inLine depth
  | stmt _ => .lineStart depth

/-- The directives of the arguments before one of them, with what separates it from them. -/
def argumentsBefore (front : List Expr) : List Directive :=
  (exprDirectives front).flatMap (· ++ [.text ", "])

/-- The directives of the properties before one of them. -/
def propertiesBefore (front : List (String × Expr)) : List Directive :=
  (propertyDirectives front).flatMap (· ++ Directive.line ",")

/-- Printing the first node comes, after these directives, to printing the second. -/
inductive Child : Node → List Directive → Node → Prop
  | object {object property} : Child (.expr (.member object property)) [] (.expr object)
  | callee {callee arguments} : Child (.expr (.call callee arguments)) [] (.expr callee)
  | argument {callee argument} (front back : List Expr) :
    Child (.expr (.call callee (front ++ argument :: back)))
      (callee.directives ++ .text "(" :: argumentsBefore front) (.expr argument)
  | newArgument {className argument} (front back : List Expr) :
    Child (.expr (.new className (front ++ argument :: back)))
      (.text s!"new {className}" :: .text "(" :: argumentsBefore front) (.expr argument)
  | left {left operator right} : Child (.expr (.binary left operator right)) [] (.expr left)
  | right {left operator right} :
    Child (.expr (.binary left operator right)) (left.directives ++ [.text s!" {operator.sign} "])
      (.expr right)
  | property {key value} (front back : List (String × Expr)) :
    Child (.expr (.object (front ++ (key, value) :: back)))
      (Directive.line "\x7b" ++ .indent :: propertiesBefore front ++ [.text s!"{key}: "]) (.expr value)
  | arrowBody {parameters result stmt} (front back : List Stmt) :
    Child (.expr (.arrow parameters result (front ++ stmt :: back)))
      (.text "(" :: Directive.separated ", " (parameters.map Param.directives) ++ .text ")" ::
        resultDirectives result ++ Directive.line " => \x7b" ++ .indent :: stmtDirectives front)
      (.stmt stmt)
  | const {name value} : Child (.stmt (.const name value)) [.text s!"const {name} = "] (.expr value)
  | condition {condition body} : Child (.stmt (.when condition body)) [.text "if ("] (.expr condition)
  | whenBody {condition stmt} (front back : List Stmt) :
    Child (.stmt (.when condition (front ++ stmt :: back)))
      (.text "if (" :: condition.directives ++ Directive.line ") \x7b" ++ .indent :: stmtDirectives front)
      (.stmt stmt)
  | give {value} : Child (.stmt (.give value)) [.text "return "] (.expr value)
  | throw {value} : Child (.stmt (.throw value)) [.text "throw "] (.expr value)

/-- Printing a module comes, after these directives, to printing a node. -/
inductive Module.Reaches (module : Module) : List Directive → Node → Prop
  | item {exported name value} (front back : List Item)
    (h : module.items = front ++ .const exported name value :: back) :
    module.Reaches
      (front.flatMap Item.directives ++ .lineFeed :: (if exported then [.text "export "] else []) ++
        [.text s!"const {name} = "]) (.expr value)
  | child {before between node next} (h : module.Reaches before node) (hchild : Child node between next) :
    module.Reaches (before ++ between) next

/-! ### One step -/

/-- The directives carry the writer from one position to another, whatever they write. -/
def Leads (start : Position) (directives : List Directive) (finish : Position) : Prop :=
  ∃ text, Writes indentUnit start directives finish text

/-- Directives one behind the other lead from where the first begin to where the second end. -/
theorem Leads.append {start middle finish : Position} {first second : List Directive}
    (h : Leads start first middle) (h' : Leads middle second finish) :
    Leads start (first ++ second) finish := by
  obtain ⟨text, hfirst⟩ := h
  obtain ⟨text', hsecond⟩ := h'
  exact ⟨text ++ text', hfirst.append hsecond⟩

theorem leads_text (depth : Nat) (value : String) :
    Leads (.inLine depth) [.text value] (.inLine depth) :=
  ⟨value, Writes.text value⟩

/-- The line that opens a block, and the level that begins with it. -/
theorem leads_opening (depth : Nat) (value : String) :
    Leads (.inLine depth) (Directive.line value ++ [.indent]) (.lineStart (depth + 1)) :=
  ⟨_, (Writes.line value).append (Writes.indent true)⟩

/-- The arguments before another leave the writer in its line and on its level. -/
theorem leads_argumentsBefore (depth : Nat) (front : List Expr) :
    Leads (.inLine depth) (argumentsBefore front) (.inLine depth) := by
  induction front with
  | nil => exact ⟨"", Writes.nil⟩
  | cons expr rest ih =>
    have hexpr : Leads (.inLine depth) expr.directives (.inLine depth) := ⟨_, expr.writes depth⟩
    rw [argumentsBefore, exprDirectives, List.flatMap_cons]
    exact (hexpr.append (leads_text depth ", ")).append ih

theorem leads_key (depth : Nat) (key : String) :
    Leads (.lineStart depth) [.text s!"{key}: "] (.inLine depth) :=
  ⟨_, writes_lineStart depth (key ++ ": ") (append_ne_empty _ (by decide))⟩

/-- The properties before another leave the writer at the start of a line. -/
theorem leads_propertiesBefore (depth : Nat) (front : List (String × Expr)) :
    Leads (.lineStart depth) (propertiesBefore front) (.lineStart depth) := by
  induction front with
  | nil => exact ⟨"", Writes.nil⟩
  | cons property rest ih =>
    obtain ⟨key, value⟩ := property
    have hvalue : Leads (.inLine depth) value.directives (.inLine depth) := ⟨_, value.writes depth⟩
    have hline : Leads (.inLine depth) (Directive.line ",") (.lineStart depth) := ⟨_, Writes.line ","⟩
    rw [propertiesBefore, propertyDirectives, List.flatMap_cons]
    exact (((leads_key depth key).append hvalue).append hline).append ih

/-- Between a node and a smaller one the writer comes to the position where the smaller one begins, at some
depth. -/
theorem Child.leads {node next : Node} {between : List Directive} (h : Child node between next)
    (depth : Nat) : ∃ depth', Leads (node.position depth) between (next.position depth') := by
  cases h with
  | object | callee | left => exact ⟨depth, "", Writes.nil⟩
  | @argument callee _ front back =>
    have hcallee : Leads (.inLine depth) callee.directives (.inLine depth) := ⟨_, callee.writes depth⟩
    exact ⟨depth, hcallee.append ((leads_text depth "(").append (leads_argumentsBefore depth front))⟩
  | newArgument front back =>
    exact ⟨depth, (leads_text depth _).append
      ((leads_text depth "(").append (leads_argumentsBefore depth front))⟩
  | @right left operator _ =>
    have hleft : Leads (.inLine depth) left.directives (.inLine depth) := ⟨_, left.writes depth⟩
    exact ⟨depth, hleft.append (leads_text depth _)⟩
  | @property key _ front back =>
    have h := ((leads_opening depth "\x7b").append (leads_propertiesBefore (depth + 1) front)).append
      (leads_key (depth + 1) key)
    refine ⟨depth + 1, ?_⟩
    simpa only [Node.position, List.append_assoc, List.cons_append, List.nil_append] using h
  | @arrowBody parameters result _ front back =>
    have hparameters : Leads (.inLine depth)
        (Directive.separated ", " (parameters.map Param.directives)) (.inLine depth) :=
      ⟨_, Writes.separated ", " (writes_params depth parameters)⟩
    have hresult : Leads (.inLine depth) (resultDirectives result) (.inLine depth) :=
      ⟨_, writes_result depth result⟩
    have hfront : Leads (.lineStart (depth + 1)) (stmtDirectives front) (.lineStart (depth + 1)) :=
      ⟨_, writes_stmts (depth + 1) front⟩
    have h := (leads_text depth "(").append (hparameters.append ((leads_text depth ")").append
      (hresult.append ((leads_opening depth " => \x7b").append hfront))))
    refine ⟨depth + 1, ?_⟩
    simpa only [Node.position, List.append_assoc, List.cons_append, List.nil_append] using h
  | const => exact ⟨depth, _, writes_lineStart depth _ (append_ne_empty _ (by decide))⟩
  | condition | give | throw => exact ⟨depth, _, writes_lineStart depth _ (by decide)⟩
  | @whenBody condition _ front back =>
    have hif : Leads (.lineStart depth) [.text "if ("] (.inLine depth) :=
      ⟨_, writes_lineStart depth "if (" (by decide)⟩
    have hcondition : Leads (.inLine depth) condition.directives (.inLine depth) :=
      ⟨_, condition.writes depth⟩
    have hfront : Leads (.lineStart (depth + 1)) (stmtDirectives front) (.lineStart (depth + 1)) :=
      ⟨_, writes_stmts (depth + 1) front⟩
    have h := hif.append (hcondition.append ((leads_opening depth ") \x7b").append hfront))
    refine ⟨depth + 1, ?_⟩
    simpa only [Node.position, List.append_assoc, List.cons_append, List.nil_append] using h

/-! ### All steps -/

/-- The items before a constant and its name lead to the middle of a line, where its value begins. -/
theorem Item.leads_value (front : List Item) (exported : Bool) (name : String) :
    Leads (.lineStart 0)
      (front.flatMap Item.directives ++ .lineFeed :: (if exported then [.text "export "] else []) ++
        [.text s!"const {name} = "]) (.inLine 0) := by
  have hfront : Leads (.lineStart 0) (front.flatMap Item.directives) (.lineStart 0) :=
    ⟨_, writes_items front⟩
  have hblank : Leads (.lineStart 0) [.lineFeed] (.lineStart 0) := ⟨_, Writes.lineFeed true⟩
  have hconst : Leads (.lineStart 0)
      ((if exported then [.text "export "] else []) ++ [.text s!"const {name} = "]) (.inLine 0) := by
    cases exported with
    | true => exact Leads.append ⟨_, writes_topLevel "export " (by decide)⟩ (leads_text 0 _)
    | false => exact ⟨_, writes_topLevel _ (append_ne_empty _ (by decide))⟩
  have h := hfront.append (hblank.append hconst)
  simpa only [List.append_assoc, List.cons_append, List.nil_append] using h

/-- Whenever printing a module comes to a node, the writer is where that node begins. -/
theorem Module.Reaches.leads {module : Module} {before : List Directive} {node : Node}
    (h : module.Reaches before node) : ∃ depth, Leads (.lineStart 0) before (node.position depth) := by
  induction h with
  | item front back _ => exact ⟨0, Item.leads_value front _ _⟩
  | child _ hchild ih =>
    obtain ⟨depth, hbefore⟩ := ih
    obtain ⟨depth', hbetween⟩ := hchild.leads depth
    exact ⟨depth', hbefore.append hbetween⟩

/-! ### Where the directives of a node stand -/

/-- A list between separators may be opened at any of its items. -/
theorem intercalate_split {α : Type} (separator : List α) (front back : List (List α)) (item : List α) :
    ∃ after, separator.intercalate (front ++ item :: back) =
      front.flatMap (· ++ separator) ++ item ++ after := by
  induction front with
  | nil =>
    cases back with
    | nil => exact ⟨[], by simp⟩
    | cons next back => exact ⟨separator ++ separator.intercalate (next :: back), by simp⟩
  | cons first front ih =>
    obtain ⟨after, hafter⟩ := ih
    refine ⟨after, ?_⟩
    rw [List.cons_append, List.intercalate_cons_of_ne_nil (by simp), hafter, List.flatMap_cons]
    simp only [List.append_assoc]

theorem exprDirectives_append (front back : List Expr) :
    exprDirectives (front ++ back) = exprDirectives front ++ exprDirectives back := by
  induction front with
  | nil => rfl
  | cons expr rest ih => rw [List.cons_append, exprDirectives, ih, exprDirectives, List.cons_append]

theorem propertyDirectives_append (front back : List (String × Expr)) :
    propertyDirectives (front ++ back) = propertyDirectives front ++ propertyDirectives back := by
  induction front with
  | nil => rfl
  | cons property rest ih =>
    rw [List.cons_append, propertyDirectives, ih, propertyDirectives, List.cons_append]

theorem stmtDirectives_append (front back : List Stmt) :
    stmtDirectives (front ++ back) = stmtDirectives front ++ stmtDirectives back := by
  induction front with
  | nil => rfl
  | cons stmt rest ih =>
    rw [List.cons_append, stmtDirectives, ih, stmtDirectives, List.append_assoc]

theorem separated_exprs (front back : List Expr) (argument : Expr) :
    ∃ after, Directive.separated ", " (exprDirectives (front ++ argument :: back)) =
      argumentsBefore front ++ argument.directives ++ after := by
  rw [exprDirectives_append, exprDirectives]
  exact intercalate_split _ _ _ _

theorem separatedLines_properties (front back : List (String × Expr)) (key : String) (value : Expr) :
    ∃ after, Directive.separatedLines "," (propertyDirectives (front ++ (key, value) :: back)) =
      propertiesBefore front ++ (.text s!"{key}: " :: value.directives) ++ after := by
  rw [propertyDirectives_append, propertyDirectives]
  exact intercalate_split _ _ _ _

theorem Expr.directives_object {properties : List (String × Expr)} (h : properties ≠ []) :
    (Expr.object properties).directives =
      Directive.line "\x7b" ++
        Directive.nested (Directive.separatedLines "," (propertyDirectives properties) ++ [.lineFeed]) ++
        [.text "\x7d"] := by
  cases properties with
  | nil => exact absurd rfl h
  | cons property rest => rw [Expr.directives]

/-- The directives of a smaller node stand inside those of the node. -/
theorem Child.directives_eq {node next : Node} {between : List Directive} (h : Child node between next) :
    ∃ after, node.directives = between ++ next.directives ++ after := by
  cases h with
  | @object object property => exact ⟨[.text ".", .text property], rfl⟩
  | @callee callee arguments =>
    refine ⟨.text "(" :: Directive.separated ", " (exprDirectives arguments) ++ [.text ")"], ?_⟩
    simp only [Node.directives, Expr.directives, List.append_assoc, List.nil_append]
  | @argument _ argument front back =>
    obtain ⟨after, hafter⟩ := separated_exprs front back argument
    refine ⟨after ++ [.text ")"], ?_⟩
    simp only [Node.directives, Expr.directives, hafter, List.append_assoc, List.cons_append]
  | @newArgument _ argument front back =>
    obtain ⟨after, hafter⟩ := separated_exprs front back argument
    refine ⟨after ++ [.text ")"], ?_⟩
    simp only [Node.directives, Expr.directives, hafter, List.append_assoc, List.cons_append]
  | @left left operator right => exact ⟨.text s!" {operator.sign} " :: right.directives, rfl⟩
  | right =>
    refine ⟨[], ?_⟩
    simp only [Node.directives, Expr.directives, List.append_assoc, List.cons_append, List.nil_append,
      List.append_nil]
  | property front back =>
    obtain ⟨after, hafter⟩ := separatedLines_properties front back _ _
    refine ⟨after ++ [.lineFeed, .dedent, .text "\x7d"], ?_⟩
    rw [Node.directives, Expr.directives_object (by simp), hafter]
    simp only [Node.directives, Directive.nested, List.append_assoc, List.cons_append, List.nil_append]
  | @arrowBody _ _ stmt front back =>
    refine ⟨stmtDirectives back ++ [.dedent, .text "\x7d"], ?_⟩
    simp only [Node.directives, Expr.directives, stmtDirectives_append, stmtDirectives, Directive.nested,
      List.append_assoc, List.cons_append, List.nil_append]
  | const | give | throw => exact ⟨Directive.line ";", rfl⟩
  | @condition condition body =>
    refine ⟨Directive.line ") \x7b" ++ Directive.nested (stmtDirectives body) ++
      Directive.line "\x7d", ?_⟩
    simp only [Node.directives, Stmt.directives, List.append_assoc, List.cons_append, List.nil_append]
  | @whenBody _ stmt front back =>
    refine ⟨stmtDirectives back ++ .dedent :: Directive.line "\x7d", ?_⟩
    simp only [Node.directives, Stmt.directives, stmtDirectives_append, stmtDirectives, Directive.nested,
      List.append_assoc, List.cons_append, List.nil_append]

/-- What a module comes to has its directives inside those of the module, behind the ones before it. -/
theorem Module.Reaches.directives_eq {module : Module} {before : List Directive} {node : Node}
    (h : module.Reaches before node) :
    ∃ after, module.directives = before ++ node.directives ++ after := by
  induction h with
  | @item exported name value front back hitems =>
    refine ⟨Directive.line ";" ++ back.flatMap Item.directives, ?_⟩
    simp only [Module.directives, hitems, List.flatMap_append, List.flatMap_cons, Item.directives,
      Node.directives, List.append_assoc, List.cons_append, List.nil_append]
  | @child before between node next _ hchild ih =>
    obtain ⟨after, hafter⟩ := ih
    obtain ⟨rest, hrest⟩ := hchild.directives_eq
    refine ⟨rest ++ after, ?_⟩
    rw [hafter, hrest]
    simp only [List.append_assoc]

/-! ## The main statement -/

/-- Printing succeeds on every module, and its text is the layout. Whenever it comes to an expression, the
writer is inside a line; the expression adds its layout at the level of that moment, and leaves the writer
inside a line at the same level. -/
theorem Module.print_compositional (module : Module) :
    module.print = .ok module.layout ∧
    ∀ before expr, module.Reaches before (.expr expr) →
      (∃ after, module.directives = before ++ expr.directives ++ after) ∧
      ∃ atCall atReturn : Writer,
        (Writer.ofSpaces indentWidth).run before = .ok atCall ∧
        atCall.run expr.directives = .ok atReturn ∧
        atCall.atLineStart = false ∧ atReturn.atLineStart = false ∧
        atReturn.level = atCall.level ∧
        atReturn.sink.content = atCall.sink.content ++ expr.layout atCall.level := by
  refine ⟨module.print_eq_layout, fun before expr hreaches => ⟨hreaches.directives_eq, ?_⟩⟩
  obtain ⟨depth, text, hbefore⟩ := hreaches.leads
  obtain ⟨atCall, hrun, hcall, _⟩ := hbefore _ standsAt_ofSpaces
  obtain ⟨atReturn, hrun', hreturn, hcontent⟩ := expr.writes depth atCall hcall
  have hdepth : atCall.level = depth := hcall.level
  refine ⟨atCall, atReturn, hrun, hrun', hcall.atLineStart, hreturn.atLineStart, ?_, ?_⟩
  · rw [hdepth]
    exact hreturn.level
  · rw [hdepth]
    exact hcontent

/-- A literal with a line feed, behind a property without a key, in a constant without a name. -/
theorem print_compositional_literal :
    ∃ (module : Module) (before : List Directive) (atCall atReturn : Writer),
      module.Reaches before (.expr (.str "a\nb")) ∧
      (Writer.ofSpaces indentWidth).run before = .ok atCall ∧
      atCall.run (Expr.str "a\nb").directives = .ok atReturn ∧
      atCall.atLineStart = false ∧ atReturn.atLineStart = false ∧
      atReturn.level = atCall.level ∧
      atReturn.sink.content = atCall.sink.content ++ (Expr.str "a\nb").layout atCall.level := by
  let front : List (String × Expr) := [("", .ident "")]
  let module : Module := ⟨[.const true "" (.object (front ++ [("k", .str "a\nb")]))]⟩
  have hvalue : module.Reaches _ (.expr (.object (front ++ [("k", .str "a\nb")]))) :=
    .item [] [] rfl
  have hreaches := hvalue.child (.property front [])
  obtain ⟨_, atCall, atReturn, h⟩ := module.print_compositional.2 _ _ hreaches
  exact ⟨module, _, atCall, atReturn, hreaches, h⟩

end TwirpClient.Code
