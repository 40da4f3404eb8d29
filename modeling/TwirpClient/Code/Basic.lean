/-!
# Code of a client module

The part of TypeScript that clients are written in, as trees. A module is a list of items at the top level;
statements and expressions contain each other, for an arrow function has a body. Names and types are texts
that are printed as they are; only `Expr.str` and the source of an import are printed as literals.

There is no precedence: nothing is put into parentheses, and a tree is built so that it needs none.
-/

namespace TwirpClient.Code

/-- The binary operators. -/
inductive BinOp where
  | strictEqual
  | plus
  deriving DecidableEq, Repr

/-- How an operator is written. -/
def BinOp.sign : BinOp → String
  | strictEqual => "==="
  | plus => "+"

/-- A parameter of a function, with its type. -/
structure Param where
  name : String
  type : String
  deriving DecidableEq, Repr

mutual

/-- An expression. -/
inductive Expr where
  | ident (name : String)
  | str (value : String)
  | member (object : Expr) (property : String)
  | call (callee : Expr) (arguments : List Expr)
  | new (className : String) (arguments : List Expr)
  | binary (left : Expr) (operator : BinOp) (right : Expr)
  /-- An object, its properties in order. A key may be repeated. -/
  | object (properties : List (String × Expr))
  | arrow (parameters : List Param) (result : Option String) (body : List Stmt)

/-- A statement. -/
inductive Stmt where
  | const (name : String) (value : Expr)
  /-- The statements under a condition, without an alternative. -/
  | when (condition : Expr) (body : List Stmt)
  | give (value : Expr)
  | throw (value : Expr)
  /-- An empty line. -/
  | blank

end

instance : Inhabited Expr := ⟨.ident ""⟩

instance : Inhabited Stmt := ⟨.blank⟩

/-- What may stand at the top level of a module. -/
inductive Item where
  | comment (text : String)
  /-- What is imported, as it is written, and the module it comes from. -/
  | importFrom (binding source : String)
  | const (exported : Bool) (name : String) (value : Expr)
  deriving Inhabited

/-- A module. -/
structure Module where
  items : List Item
  deriving Inhabited

end TwirpClient.Code
