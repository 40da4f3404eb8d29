import TwirpClient.Proofs.Layout

/-!
# Reading code back

Which modules can be told apart by their text, and a reader that does it. Names and types must look like
names and types, a comment must stay on its line, an import must end where its source begins, and an
operation must not stand where only an operand can: `Module.WellFormed` asks for no more. Literals are free.

`Module.read?` takes a text apart again. It descends as the layout does, with the depth of the blocks it is
in, and looks at no more than the front of what is left: an expression is an operand and the operations
behind it, an operand is an atom and the suffixes behind it. It goes on only with less text than before, so
it comes to an end on every text, also on one that is no layout.
-/

namespace TwirpClient.Code

/-! ## Well-formed code -/

/-- The characters of a name: ASCII letters and digits, the underscore and the dollar sign. -/
def isNameChar (c : Char) : Bool :=
  c.isAlphanum || c == '_' || c == '$'

/-- The characters of a type, which may be a path of names. -/
def isTypeChar (c : Char) : Bool :=
  isNameChar c || c == '.'

/-- A text that is not empty and has only such characters. -/
def IsWord (allowed : Char → Bool) (text : String) : Prop :=
  text ≠ "" ∧ ∀ c ∈ text.toList, allowed c = true

def IsName (text : String) : Prop := IsWord isNameChar text

def IsType (text : String) : Prop := IsWord isTypeChar text

def Param.WellFormed (param : Param) : Prop :=
  IsName param.name ∧ IsType param.type

def Expr.isBinary : Expr → Bool
  | .binary .. => true
  | _ => false

mutual

def Expr.WellFormed : Expr → Prop
  | .ident name => IsName name
  | .str _ => True
  | .member object property => object.isBinary = false ∧ object.WellFormed ∧ IsName property
  | .call callee arguments => callee.isBinary = false ∧ callee.WellFormed ∧ ExprsWellFormed arguments
  | .new className arguments => IsType className ∧ ExprsWellFormed arguments
  | .binary left _ right => left.WellFormed ∧ right.isBinary = false ∧ right.WellFormed
  | .object properties => PropertiesWellFormed properties
  | .arrow parameters result body =>
    (∀ param ∈ parameters, param.WellFormed) ∧ (∀ type ∈ result, IsType type) ∧ StmtsWellFormed body

def ExprsWellFormed : List Expr → Prop
  | [] => True
  | expr :: rest => expr.WellFormed ∧ ExprsWellFormed rest

def PropertiesWellFormed : List (String × Expr) → Prop
  | [] => True
  | (key, value) :: rest => IsName key ∧ value.WellFormed ∧ PropertiesWellFormed rest

def Stmt.WellFormed : Stmt → Prop
  | .const name value => IsName name ∧ value.WellFormed
  | .when condition body => condition.WellFormed ∧ StmtsWellFormed body
  | .give value => value.WellFormed
  | .throw value => value.WellFormed
  | .blank => True

def StmtsWellFormed : List Stmt → Prop
  | [] => True
  | stmt :: rest => stmt.WellFormed ∧ StmtsWellFormed rest

end

def Item.WellFormed : Item → Prop
  | .comment text => '\n' ∉ text.toList
  | .importFrom binding _ => '\n' ∉ binding.toList ∧ '\'' ∉ binding.toList
  | .const _ name value => IsName name ∧ value.WellFormed

def Module.WellFormed (module : Module) : Prop :=
  ∀ item ∈ module.items, item.WellFormed

/-! ## Readers of the leaves -/

/-- What is left of a text behind a mark at its front. -/
def skipChars? : List Char → List Char → Option (List Char)
  | [], rest => some rest
  | _ :: _, [] => none
  | c :: mark, d :: rest => if c = d then skipChars? mark rest else none

def skip? (mark : String) (cs : List Char) : Option (List Char) :=
  skipChars? mark.toList cs

/-- The longest front of a text with only such characters, and the text behind it. -/
def readWhile (allowed : Char → Bool) (cs : List Char) : String × List Char :=
  (String.ofList (cs.takeWhile allowed), cs.dropWhile allowed)

/-- A word and the mark behind it. -/
def readWord? (allowed : Char → Bool) (mark : String) (cs : List Char) : Option (String × List Char) := do
  let (word, rest) := readWhile allowed cs
  some (word, ← skip? mark rest)

/-- Whether one more item follows in a list, and what is left behind the separator or the end. -/
def readMore? (separator ending : String) (cs : List Char) : Option (Bool × List Char) :=
  match skip? separator cs with
  | some rest => some (true, rest)
  | none => (skip? ending cs).map fun rest => (false, rest)

def readOperator? (cs : List Char) : Option (BinOp × List Char) :=
  [BinOp.strictEqual, BinOp.plus].findSome? fun operator =>
    (skip? operator.text cs).map fun rest => (operator, rest)

/-- The end of a block: the indentation of the line that opened it, and the brace. -/
def skipBlockEnd? (depth : Nat) (cs : List Char) : Option (List Char) := do
  skip? "\x7d" (← skip? (indentation depth) cs)

/-- The class of a `new`, up to the opening parenthesis. Where no class follows, `new` is a name. -/
def readNew? (cs : List Char) : Option (String × List Char) := do
  let rest ← skip? "new " cs
  let (className, rest) := readWhile isTypeChar rest
  if className = "" then none else some (className, ← skip? "(" rest)

/-- What was read, if less of the text is left than there was. Whatever is read takes something, so this
keeps nothing back; it is why reading comes to an end. -/
def shorter? {α : Type} (cs : List Char) :
    Option (α × List Char) → Option (α × { rest : List Char // rest.length < cs.length })
  | some (value, rest) => if h : rest.length < cs.length then some (value, ⟨rest, h⟩) else none
  | none => none

/-- The parameters of a function up to the closing parenthesis, at least one. -/
def readParamsFrom (cs : List Char) : Option (List Param × List Char) := do
  let (name, rest) ← readWord? isNameChar ": " cs
  let (type, rest) := readWhile isTypeChar rest
  let (more, ⟨rest, _⟩) ← shorter? cs (readMore? ", " ")" rest)
  if more then do
    let (parameters, rest) ← readParamsFrom rest
    some (⟨name, type⟩ :: parameters, rest)
  else some ([⟨name, type⟩], rest)
termination_by cs.length

def readParams (cs : List Char) : Option (List Param × List Char) :=
  match skip? ")" cs with
  | some rest => some ([], rest)
  | none => readParamsFrom cs

def readResult (cs : List Char) : Option String × List Char :=
  match skip? ": " cs with
  | some rest => (some (readWhile isTypeChar rest).1, (readWhile isTypeChar rest).2)
  | none => (none, cs)

/-- What stands in front of the body of a function, behind its opening parenthesis. -/
def readSignature? (cs : List Char) : Option ((List Param × Option String) × List Char) := do
  let (parameters, rest) ← readParams cs
  let (result, rest) := readResult rest
  some ((parameters, result), ← skip? " => \x7b\n" rest)

/-- The key of a property, on a line of its own. -/
def readKey? (depth : Nat) (cs : List Char) : Option (String × List Char) := do
  readWord? isNameChar ": " (← skip? (indentation depth) cs)

/-- What a statement that is not blank begins with. -/
inductive Keyword where
  | const
  | when
  | give
  | throw

def Keyword.text : Keyword → String
  | const => "const "
  | when => "if ("
  | give => "return "
  | throw => "throw "

/-- The keyword of a line that is deep enough. -/
def readKeyword? (depth : Nat) (cs : List Char) : Option (Keyword × List Char) := do
  let line ← skip? (indentation depth) cs
  [Keyword.const, .when, .give, .throw].findSome? fun keyword =>
    (skip? keyword.text line).map fun rest => (keyword, rest)

/-! ## The reader -/

mutual

/-- The expression at the front of a text, in so many blocks. -/
def readExpr (depth : Nat) (cs : List Char) : Option (Expr × List Char) := do
  let (first, ⟨rest, _⟩) ← shorter? cs (readOperand depth cs)
  readOperations depth first rest
termination_by (cs.length, 2)

/-- The operations behind their first operand. They group to the left. -/
def readOperations (depth : Nat) (left : Expr) (cs : List Char) : Option (Expr × List Char) :=
  match shorter? cs (readOperator? cs) with
  | some (operator, ⟨rest, _⟩) => do
    let (right, ⟨rest, _⟩) ← shorter? cs (readOperand depth rest)
    readOperations depth (.binary left operator right) rest
  | none => some (left, cs)
termination_by (cs.length, 0)

def readOperand (depth : Nat) (cs : List Char) : Option (Expr × List Char) := do
  let (atom, ⟨rest, _⟩) ← shorter? cs (readAtom depth cs)
  readSuffixes depth atom rest
termination_by (cs.length, 1)

/-- The properties and arguments behind an operand. -/
def readSuffixes (depth : Nat) (operand : Expr) : List Char → Option (Expr × List Char)
  | '.' :: rest => do
    let (property, ⟨rest, _⟩) ← shorter? ('.' :: rest) (some (readWhile isNameChar rest))
    readSuffixes depth (.member operand property) rest
  | '(' :: rest => do
    let (arguments, ⟨rest, _⟩) ← shorter? ('(' :: rest) (readArguments depth rest)
    readSuffixes depth (.call operand arguments) rest
  | rest => some (operand, rest)
termination_by cs => (cs.length, 0)

/-- An expression that does not begin with another: its first character says which. -/
def readAtom (depth : Nat) : List Char → Option (Expr × List Char)
  | '\'' :: rest => do
    let (value, rest) ← Text.Quoted.readTail? rest
    some (.str (String.ofList value), rest)
  | '\x7b' :: '\x7d' :: rest => some (.object [], rest)
  | '\x7b' :: '\n' :: rest => do
    let (properties, rest) ← readProperties (depth + 1) rest
    some (.object properties, ← skipBlockEnd? depth rest)
  | '(' :: rest => do
    let ((parameters, result), ⟨rest, _⟩) ← shorter? ('(' :: rest) (readSignature? rest)
    let (body, rest) ← readStmts (depth + 1) rest
    some (.arrow parameters result body, ← skipBlockEnd? depth rest)
  | cs =>
    match shorter? cs (readNew? cs) with
    | some (className, ⟨rest, _⟩) => do
      let (arguments, rest) ← readArguments depth rest
      some (.new className arguments, rest)
    | none =>
      let (name, rest) := readWhile isNameChar cs
      some (.ident name, rest)
termination_by cs => (cs.length, 0)

/-- Arguments up to the closing parenthesis. -/
def readArguments (depth : Nat) (cs : List Char) : Option (List Expr × List Char) :=
  match skip? ")" cs with
  | some rest => some ([], rest)
  | none => readArgumentsFrom depth cs
termination_by (cs.length, 4)

def readArgumentsFrom (depth : Nat) (cs : List Char) : Option (List Expr × List Char) := do
  let (argument, rest) ← readExpr depth cs
  let (more, ⟨rest, _⟩) ← shorter? cs (readMore? ", " ")" rest)
  if more then do
    let (arguments, rest) ← readArgumentsFrom depth rest
    some (argument :: arguments, rest)
  else some ([argument], rest)
termination_by (cs.length, 3)

/-- The properties of an object up to the end of the last one's line. -/
def readProperties (depth : Nat) (cs : List Char) : Option (List (String × Expr) × List Char) := do
  let (key, ⟨rest, _⟩) ← shorter? cs (readKey? depth cs)
  let (value, rest) ← readExpr depth rest
  let (more, ⟨rest, _⟩) ← shorter? cs (readMore? ",\n" "\n" rest)
  if more then do
    let (properties, rest) ← readProperties depth rest
    some ((key, value) :: properties, rest)
  else some ([(key, value)], rest)
termination_by (cs.length, 0)

/-- The statements of a block, up to the first line that is neither blank nor a statement deep enough. -/
def readStmts (depth : Nat) : List Char → Option (List Stmt × List Char)
  | '\n' :: rest => do
    let (stmts, rest) ← readStmts depth rest
    some (.blank :: stmts, rest)
  | cs =>
    match shorter? cs (readKeyword? depth cs) with
    | some (keyword, ⟨rest, _⟩) => do
      let (stmt, ⟨rest, _⟩) ← shorter? cs (readStmt depth keyword rest)
      let (stmts, rest) ← readStmts depth rest
      some (stmt :: stmts, rest)
    | none => some ([], cs)
termination_by cs => (cs.length, 0)

/-- A statement behind its keyword. -/
def readStmt (depth : Nat) (keyword : Keyword) (cs : List Char) : Option (Stmt × List Char) :=
  match keyword with
  | .const => do
    let (name, ⟨rest, _⟩) ← shorter? cs (readWord? isNameChar " = " cs)
    let (value, rest) ← readExpr depth rest
    some (.const name value, ← skip? ";\n" rest)
  | .when => do
    let (condition, rest) ← readExpr depth cs
    let ((), ⟨rest, _⟩) ← shorter? cs ((skip? ") \x7b\n" rest).map ((), ·))
    let (body, rest) ← readStmts (depth + 1) rest
    some (.when condition body, ← skip? "\n" (← skipBlockEnd? depth rest))
  | .give => do
    let (value, rest) ← readExpr depth cs
    some (.give value, ← skip? ";\n" rest)
  | .throw => do
    let (value, rest) ← readExpr depth cs
    some (.throw value, ← skip? ";\n" rest)
termination_by (cs.length, 3)

end

/-- The binding of an import, from what stands between `import` and the source. -/
def bindingOf (front : String) : String :=
  String.ofList (front.toList.take (front.toList.length - " from ".toList.length))

/-- The rest of a constant at the top level, from its keyword on. -/
def readConst (exported : Bool) (cs : List Char) : Option (Item × List Char) := do
  let (name, rest) ← readWord? isNameChar " = " (← skip? "const " cs)
  let (value, rest) ← readExpr 0 rest
  some (.const exported name value, ← skip? ";\n" rest)

/-- An item at the top level: its first character says which. -/
def readItem : List Char → Option (Item × List Char)
  | '/' :: rest => do
    let (text, rest) := readWhile (· != '\n') (← skip? "/ " rest)
    some (.comment text, ← skip? "\n" rest)
  | 'i' :: rest => do
    let (front, rest) := readWhile (· != '\'') (← skip? "mport " rest)
    let (source, rest) ← Text.Quoted.read? rest
    some (.importFrom (bindingOf front) (String.ofList source), ← skip? ";\n" rest)
  | '\n' :: rest =>
    match skip? "export " rest with
    | some rest => readConst true rest
    | none => readConst false rest
  | _ => none

def readItems (cs : List Char) : Option (List Item) :=
  if cs = [] then some []
  else do
    let (item, ⟨rest, _⟩) ← shorter? cs (readItem cs)
    return item :: (← readItems rest)
termination_by cs.length

/-- The module that a text is the layout of. -/
def Module.read? (text : String) : Option Module :=
  (readItems text.toList).map Module.mk

end TwirpClient.Code
