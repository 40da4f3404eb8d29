import TwirpClient.Code.Basic
import TwirpClient.Fault
import TwirpClient.Text.Quoted
import TwirpClient.Writer.Basic

/-!
# Printing code

Each form of code is turned into directives for the writer, and `Module.print` has a writer carry them out.
A block is one level deeper than what it stands in, and an empty line carries no indentation; both are the
writer's doing. Every constant at the top level has an empty line before it, so that the comment and the
imports in front form one group.
-/

namespace TwirpClient.Code

open Writer (Directive)

/-- The directives of a parameter list, without its parentheses. -/
def Param.directives (param : Param) : List Directive :=
  [.text s!"{param.name}: {param.type}"]

/-- The type that a function is declared to give. -/
def resultDirectives : Option String → List Directive
  | some type => [.text s!": {type}"]
  | none => []

mutual

/-- The directives of an expression. They begin in the middle of a line and end there. -/
def Expr.directives : Expr → List Directive
  | .ident name => [.text name]
  | .str value => [.text (Text.Quoted.ofString value)]
  | .member object property => object.directives ++ [.text ".", .text property]
  | .call callee arguments =>
    callee.directives ++ .text "(" :: Directive.separated ", " (exprDirectives arguments) ++ [.text ")"]
  | .new className arguments =>
    .text s!"new {className}" :: .text "(" :: Directive.separated ", " (exprDirectives arguments) ++ [.text ")"]
  | .binary left operator right =>
    left.directives ++ .text s!" {operator.sign} " :: right.directives
  | .object [] => [.text "\x7b\x7d"]
  | .object (property :: rest) =>
    Directive.line "\x7b" ++
      Directive.nested (Directive.separatedLines "," (propertyDirectives (property :: rest)) ++ [.lineFeed]) ++
      [.text "\x7d"]
  | .arrow parameters result body =>
    .text "(" :: Directive.separated ", " (parameters.map Param.directives) ++ .text ")" ::
      resultDirectives result ++ Directive.line " => \x7b" ++ Directive.nested (stmtDirectives body) ++
      [.text "\x7d"]

/-- The directives of some expressions, one by one. -/
def exprDirectives : List Expr → List (List Directive)
  | [] => []
  | expr :: rest => expr.directives :: exprDirectives rest

/-- The directives of the properties of an object, one by one. -/
def propertyDirectives : List (String × Expr) → List (List Directive)
  | [] => []
  | (key, value) :: rest => (.text s!"{key}: " :: value.directives) :: propertyDirectives rest

/-- The directives of a statement. They begin at the start of a line and end at the start of the next. -/
def Stmt.directives : Stmt → List Directive
  | .const name value => .text s!"const {name} = " :: value.directives ++ Directive.line ";"
  | .when condition body =>
    .text "if (" :: condition.directives ++ Directive.line ") \x7b" ++
      Directive.nested (stmtDirectives body) ++ Directive.line "\x7d"
  | .give value => .text "return " :: value.directives ++ Directive.line ";"
  | .throw value => .text "throw " :: value.directives ++ Directive.line ";"
  | .blank => [.lineFeed]

/-- The directives of a block, one statement after the other. -/
def stmtDirectives : List Stmt → List Directive
  | [] => []
  | stmt :: rest => stmt.directives ++ stmtDirectives rest

end

/-- The directives of an item at the top level. -/
def Item.directives : Item → List Directive
  | .comment text => Directive.comment text
  | .importFrom binding source =>
    [.text "import ", .text binding, .text " from ", .text (Text.Quoted.ofString source)] ++ Directive.line ";"
  | .const exported name value =>
    .lineFeed :: (if exported then [.text "export "] else []) ++
      .text s!"const {name} = " :: value.directives ++ Directive.line ";"

/-- The directives of a module. -/
def Module.directives (module : Module) : List Directive :=
  module.items.flatMap Item.directives

/-- How many spaces a block is indented by. -/
def indentWidth : Nat := 4

/-- The text of a module. -/
def Module.print (module : Module) : Except Fault String :=
  match (Writer.ofSpaces indentWidth).run module.directives with
  | .ok writer => .ok writer.sink.content
  | .error _ => .error .printing

end TwirpClient.Code
