import TwirpClient.Code.Basic

/-!
# Equality of code

Two pieces of code are equal if they are the same tree, and this can be decided. The trees nest in lists and
in each other, so the comparison has one function for each kind of tree and of list. Each stops at the first
difference, and each answers `true` for equal trees only.
-/

namespace TwirpClient.Code

mutual

/-- Whether two expressions are the same tree. -/
def Expr.same : Expr → Expr → Bool
  | .ident name, .ident name' => name == name'
  | .str value, .str value' => value == value'
  | .member owner property, .member owner' property' => property == property' && owner.same owner'
  | .call callee arguments, .call callee' arguments' =>
    callee.same callee' && sameExprs arguments arguments'
  | .new className arguments, .new className' arguments' =>
    className == className' && sameExprs arguments arguments'
  | .binary left operator right, .binary left' operator' right' =>
    operator == operator' && left.same left' && right.same right'
  | .object properties, .object properties' => sameProperties properties properties'
  | .arrow parameters result body, .arrow parameters' result' body' =>
    parameters == parameters' && result == result' && sameStmts body body'
  | _, _ => false

/-- Whether two lists of expressions have the same trees in the same order. -/
def sameExprs : List Expr → List Expr → Bool
  | [], [] => true
  | expr :: rest, expr' :: rest' => expr.same expr' && sameExprs rest rest'
  | _, _ => false

/-- Whether two objects have the same keys in the same order, with the same trees for values. -/
def sameProperties : List (String × Expr) → List (String × Expr) → Bool
  | [], [] => true
  | (key, value) :: rest, (key', value') :: rest' =>
    key == key' && value.same value' && sameProperties rest rest'
  | _, _ => false

/-- Whether two statements are the same tree. -/
def Stmt.same : Stmt → Stmt → Bool
  | .const name value, .const name' value' => name == name' && value.same value'
  | .when condition body, .when condition' body' => condition.same condition' && sameStmts body body'
  | .give value, .give value' => value.same value'
  | .throw value, .throw value' => value.same value'
  | .blank, .blank => true
  | _, _ => false

/-- Whether two blocks have the same statements in the same order. -/
def sameStmts : List Stmt → List Stmt → Bool
  | [], [] => true
  | stmt :: rest, stmt' :: rest' => stmt.same stmt' && sameStmts rest rest'
  | _, _ => false

end

mutual

/-- The comparison of expressions decides equality. The cases are those of the first tree; a second tree with another
form at its root differs there. -/
theorem Expr.same_iff : ∀ expr expr' : Expr, expr.same expr' = true ↔ expr = expr'
  | .ident name, expr' => by cases expr' <;> simp [Expr.same]
  | .str value, expr' => by cases expr' <;> simp [Expr.same]
  | .member owner property, expr' => by
    cases expr' <;> simp [Expr.same, Expr.same_iff owner, and_comm]
  | .call callee arguments, expr' => by
    cases expr' <;> simp [Expr.same, Expr.same_iff callee, sameExprs_iff arguments]
  | .new className arguments, expr' => by
    cases expr' <;> simp [Expr.same, sameExprs_iff arguments]
  | .binary left operator right, expr' => by
    cases expr' <;> simp [Expr.same, Expr.same_iff left, Expr.same_iff right, and_assoc, and_left_comm]
  | .object properties, expr' => by
    cases expr' <;> simp [Expr.same, sameProperties_iff properties]
  | .arrow parameters result body, expr' => by
    cases expr' <;> simp [Expr.same, sameStmts_iff body, and_assoc]

theorem sameExprs_iff : ∀ exprs exprs' : List Expr, sameExprs exprs exprs' = true ↔ exprs = exprs'
  | [], exprs' => by cases exprs' <;> simp [sameExprs]
  | expr :: rest, exprs' => by
    cases exprs' <;> simp [sameExprs, Expr.same_iff expr, sameExprs_iff rest]

/-- The order of properties counts, as it does in the text. -/
theorem sameProperties_iff : ∀ properties properties' : List (String × Expr),
    sameProperties properties properties' = true ↔ properties = properties'
  | [], properties' => by cases properties' <;> simp [sameProperties]
  | (key, value) :: rest, properties' => by
    cases properties' with
    | nil => simp [sameProperties]
    | cons property' rest' =>
      obtain ⟨key', value'⟩ := property'
      simp [sameProperties, Expr.same_iff value, sameProperties_iff rest]

/-- The comparison of statements decides equality. -/
theorem Stmt.same_iff : ∀ stmt stmt' : Stmt, stmt.same stmt' = true ↔ stmt = stmt'
  | .const name value, stmt' => by cases stmt' <;> simp [Stmt.same, Expr.same_iff value]
  | .when condition body, stmt' => by
    cases stmt' <;> simp [Stmt.same, Expr.same_iff condition, sameStmts_iff body]
  | .give value, stmt' => by cases stmt' <;> simp [Stmt.same, Expr.same_iff value]
  | .throw value, stmt' => by cases stmt' <;> simp [Stmt.same, Expr.same_iff value]
  | .blank, stmt' => by cases stmt' <;> simp [Stmt.same]

theorem sameStmts_iff : ∀ stmts stmts' : List Stmt, sameStmts stmts stmts' = true ↔ stmts = stmts'
  | [], stmts' => by cases stmts' <;> simp [sameStmts]
  | stmt :: rest, stmts' => by
    cases stmts' <;> simp [sameStmts, Stmt.same_iff stmt, sameStmts_iff rest]

end

instance : DecidableEq Expr := fun expr expr' => decidable_of_iff _ (Expr.same_iff expr expr')

instance : DecidableEq Stmt := fun stmt stmt' => decidable_of_iff _ (Stmt.same_iff stmt stmt')

end TwirpClient.Code
