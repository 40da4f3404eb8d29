import TwirpClient.Proofs.Reader

/-!
# Printed code reads back

The reader recovers every well-formed module from its layout, so no two of them are printed alike.

An expression can stand before many things, and what may follow decides where it ends. Three kinds of ends
matter, each wider than the one before: behind a whole expression come a bracket, a separator or the end of
a line; behind an operand there may be an operator as well; and behind an atom there may be a suffix. An
atom is read whole; reading the text of an operand leaves the reader at the suffixes behind it, with the
operand in hand; reading the text of an expression leaves it at the operations behind it. Said like this,
each law follows the recursion of the layout, although the layout puts what an expression begins with first
and the reader finds what it ends with last.
-/

namespace TwirpClient.Code

/-! ## The leaves -/

theorem skipChars?_append (mark more rest : List Char) :
    skipChars? (mark ++ more) (mark ++ rest) = skipChars? more rest := by
  induction mark with
  | nil => rfl
  | cons c mark ih => rw [List.cons_append, List.cons_append, skipChars?, if_pos rfl, ih]

/-- A mark that stands in front of the rest is skipped. -/
theorem skip?_append (mark : String) (rest : List Char) : skip? mark (mark.toList ++ rest) = some rest := by
  have h := skipChars?_append mark.toList [] rest
  rw [List.append_nil] at h
  exact h

/-- Only a mark that stands in front can be skipped, so that nothing else is lost. -/
theorem skipChars?_eq_some {mark cs rest : List Char} (h : skipChars? mark cs = some rest) :
    cs = mark ++ rest := by
  induction mark generalizing cs with
  | nil => exact Option.some.inj h
  | cons c mark ih =>
    cases cs with
    | nil => cases h
    | cons d cs =>
      rw [skipChars?] at h
      split at h
      · next hcd => rw [ih h, hcd, List.cons_append]
      · cases h

/-- A list on one line begins as its first item does. -/
theorem skip?_intercalate {mark separator text : String} (h : ∀ rest, skip? mark (text.toList ++ rest) = none)
    (texts : List String) (rest : List Char) :
    skip? mark ((separator.intercalate (text :: texts)).toList ++ rest) = none := by
  cases texts with
  | nil => rw [String.intercalate_singleton, h]
  | cons next texts =>
    rw [String.intercalate_cons_cons, String.append_assoc, String.toList_append, List.append_assoc, h]

/-- Characters that stop a word do not begin the text. -/
def Stops (allowed : Char → Bool) (cs : List Char) : Prop :=
  ∀ c ∈ cs.head?, allowed c = false

theorem Stops.cons {allowed : Char → Bool} {c : Char} (hc : allowed c = false) {cs : List Char} :
    Stops allowed (c :: cs) := by
  intro d hd
  obtain rfl : c = d := Option.some.inj hd
  exact hc

/-- Reading goes as far as the characters are allowed, and no further than the rest lets it. -/
theorem readWhile_append {allowed : Char → Bool} {text : String}
    (htext : ∀ c ∈ text.toList, allowed c = true) (rest : List Char) (hrest : Stops allowed rest) :
    readWhile allowed (text.toList ++ rest) = (text, rest) := by
  have htake : rest.takeWhile allowed = [] := by
    cases rest with
    | nil => rfl
    | cons c rest => rw [List.takeWhile_cons_of_neg]; simpa using hrest c rfl
  have hdrop : rest.dropWhile allowed = rest := by
    cases rest with
    | nil => rfl
    | cons c rest => rw [List.dropWhile_cons_of_neg]; simpa using hrest c rfl
  rw [readWhile, List.takeWhile_append_of_pos htext, List.dropWhile_append_of_pos htext, htake, hdrop,
    List.append_nil, String.ofList_toList]

theorem readMore?_separator (separator ending : String) (rest : List Char) :
    readMore? separator ending (separator.toList ++ rest) = some (true, rest) := by
  rw [readMore?, skip?_append]

/-- The list ends where its ending stands, as long as that does not begin like a separator. -/
theorem readMore?_ending {separator ending : String} {rest : List Char}
    (h : skip? separator (ending.toList ++ rest) = none) :
    readMore? separator ending (ending.toList ++ rest) = some (false, rest) := by
  rw [readMore?, h, skip?_append]
  rfl

theorem readOperator?_text (operator : BinOp) (rest : List Char) :
    readOperator? (operator.text.toList ++ rest) = some (operator, rest) := by
  cases operator <;> rfl

/-- A keyword behind the indentation of its line is read as this keyword. -/
theorem readKeyword?_text (depth : Nat) (keyword : Keyword) (rest : List Char) :
    readKeyword? depth ((indentation depth).toList ++ (keyword.text.toList ++ rest)) =
      some (keyword, rest) := by
  rw [readKeyword?, skip?_append]
  cases keyword <;> rfl

/-- Less is left behind a text that is not empty. -/
theorem length_lt_append {text : String} (h : text ≠ "") (rest : List Char) :
    rest.length < (text.toList ++ rest).length := by
  have hpos := List.length_pos_of_ne_nil (mt String.toList_eq_nil_iff.mp h)
  rw [List.length_append]
  omega

theorem shorter?_some {α : Type} {cs rest : List Char} (value : α) (h : rest.length < cs.length) :
    shorter? cs (some (value, rest)) = some (value, ⟨rest, h⟩) :=
  dif_pos h

theorem skipBlockEnd?_append (depth : Nat) (rest : List Char) :
    skipBlockEnd? depth ((indentation depth).toList ++ ("\x7d".toList ++ rest)) = some rest := by
  rw [skipBlockEnd?, skip?_append]
  exact skip?_append "\x7d" rest

/-! ## Where expressions end -/

/-- What can stand behind a whole expression. -/
def endMarks : List Char := [')', ',', ';', '\n']

/-- What else can stand behind an operand that goes on. -/
def suffixMarks : List Char := ['.', '(']

/-- A text that goes on with one of the marks or with an operator. -/
inductive Ends (marks : List Char) : List Char → Prop
  | mark {c : Char} {tail : List Char} (h : c ∈ marks) : Ends marks (c :: tail)
  | operator (operator : BinOp) (tail : List Char) : Ends marks (operator.text.toList ++ tail)

/-- Behind an operand. -/
abbrev EndsOperand (rest : List Char) : Prop := Ends endMarks rest

/-- Behind an atom. -/
abbrev EndsAtom (rest : List Char) : Prop := Ends (suffixMarks ++ endMarks) rest

/-- What ends an operand ends the atom that it begins with. -/
theorem EndsOperand.endsAtom {rest : List Char} (h : EndsOperand rest) : EndsAtom rest := by
  cases h with
  | mark h => exact .mark (List.mem_append_right _ h)
  | operator operator tail => exact .operator operator tail

/-- The first character behind an expression, and for an operator the second one too. -/
theorem Ends.head {marks rest : List Char} (h : Ends marks rest) :
    ∃ c tail, rest = c :: tail ∧
      (c ∈ marks ∨ c = ' ' ∧ ∃ d tail', tail = d :: tail' ∧ d ∈ ['=', '+']) := by
  cases h with
  | @mark c tail h => exact ⟨c, tail, rfl, Or.inl h⟩
  | operator operator tail =>
    cases operator with
    | strictEqual => exact ⟨' ', _, rfl, Or.inr ⟨rfl, '=', _, rfl, by decide⟩⟩
    | plus => exact ⟨' ', _, rfl, Or.inr ⟨rfl, '+', _, rfl, by decide⟩⟩

theorem EndsAtom.stops {rest : List Char} (h : EndsAtom rest) : Stops isNameChar rest := by
  obtain ⟨c, tail, rfl, hc⟩ := h.head
  have hmarks : ((suffixMarks ++ endMarks).all fun c => !isNameChar c) = true := by decide
  rcases hc with hc | ⟨rfl, -⟩
  · exact Stops.cons (by simpa using List.all_eq_true.mp hmarks c hc)
  · exact Stops.cons (by decide)

/-- Behind a whole expression there is no operator. -/
theorem readOperations_end (depth : Nat) (expr : Expr) {c : Char} (hc : c ∈ endMarks) (tail : List Char) :
    readOperations depth expr (c :: tail) = some (expr, c :: tail) := by
  have hoperator : readOperator? (c :: tail) = none := by
    simp only [endMarks, List.mem_cons, List.not_mem_nil, or_false] at hc
    rcases hc with rfl | rfl | rfl | rfl <;> rfl
  rw [readOperations, hoperator]
  rfl

/-- Behind an operand there is no suffix. -/
theorem readSuffixes_end (depth : Nat) (operand : Expr) {rest : List Char} (hrest : EndsOperand rest) :
    readSuffixes depth operand rest = some (operand, rest) := by
  obtain ⟨c, tail, rfl, hc⟩ := hrest.head
  have hmarks : (endMarks.all fun c => c ≠ '.' ∧ c ≠ '(') = true := by decide
  have hne : c ≠ '.' ∧ c ≠ '(' := by
    rcases hc with hc | ⟨rfl, -⟩
    · exact of_decide_eq_true (List.all_eq_true.mp hmarks c hc)
    · decide
  refine readSuffixes.eq_3 depth operand _ ?_ ?_
  · intro rest h
    exact hne.1 (List.cons.inj h).1
  · intro rest h
    exact hne.2 (List.cons.inj h).1

/-! ## Atoms -/

theorem isNameChar_ne {c d : Char} (hc : isNameChar c = true) (hd : isNameChar d = false) : c ≠ d := by
  rintro rfl
  rw [hc] at hd
  cases hd

/-- A text that begins with a name is a `new` or a name. -/
theorem readAtom_word (depth : Nat) {c : Char} {cs : List Char} (hcs : cs.head? = some c)
    (hc : isNameChar c = true) :
    readAtom depth cs =
      match shorter? cs (readNew? cs) with
      | some (className, ⟨rest, _⟩) => do
        let (arguments, rest) ← readArguments depth rest
        some (.new className arguments, rest)
      | none => some (.ident (readWhile isNameChar cs).1, (readWhile isNameChar cs).2) := by
  have hne {d : Char} (hd : isNameChar d = false) (rest : List Char) : cs = d :: rest → False := by
    rintro rfl
    exact isNameChar_ne hc hd (Option.some.inj hcs).symm
  exact readAtom.eq_5 depth cs (hne (by decide)) (fun rest => hne (by decide) _)
    (fun rest => hne (by decide) _) (hne (by decide))

/-- A name before the end of an atom is not the keyword of a `new`: behind the space of an operator there is
no class. -/
theorem readNew?_name {name : String} (hname : IsName name) {rest : List Char} (hrest : EndsAtom rest) :
    readNew? (name.toList ++ rest) = none := by
  cases hskip : skip? "new " (name.toList ++ rest) with
  | none => rw [readNew?, hskip]; rfl
  | some tail =>
    have hword := readWhile_append hname.2 rest hrest.stops
    have htext : name.toList ++ rest = "new ".toList ++ tail := skipChars?_eq_some hskip
    -- The whole name is the word "new", so what follows it begins with the space of an operator.
    have hnew : readWhile isNameChar ("new".toList ++ ' ' :: tail) = ("new", ' ' :: tail) :=
      readWhile_append (List.all_eq_true.mp (by decide)) _ (Stops.cons (by decide))
    have hspace : rest = ' ' :: tail := by
      rw [htext] at hword
      exact (Prod.mk.inj (hnew.symm.trans hword)).2.symm
    obtain ⟨c, tail', hrest', hc⟩ := hrest.head
    obtain ⟨rfl, rfl⟩ := List.cons.inj (hspace.symm.trans hrest')
    rcases hc with hc | ⟨-, d, tail', rfl, hd⟩
    · exact absurd hc (by decide)
    · have hclass : (readWhile isTypeChar (d :: tail')).1 = "" := by
        simp only [List.mem_cons, List.not_mem_nil, or_false] at hd
        rcases hd with rfl | rfl <;> rfl
      rw [readNew?, hskip]
      simp only [Option.bind_eq_bind, Option.bind_some, hclass, if_true]

/-! ## Expressions and statements -/

theorem IsWord.toList_eq {allowed : Char → Bool} {text : String} (h : IsWord allowed text) :
    ∃ c cs, text.toList = c :: cs ∧ allowed c = true := by
  cases htext : text.toList with
  | nil => exact absurd (String.toList_eq_nil_iff.mp htext) h.1
  | cons c cs => exact ⟨c, cs, rfl, h.2 c (by rw [htext]; exact List.mem_cons_self)⟩

theorem IsWord.of_all {allowed : Char → Bool} {text : String} (hne : text ≠ "")
    (hall : text.toList.all allowed = true) : IsWord allowed text :=
  ⟨hne, List.all_eq_true.mp hall⟩

/-- Reading the text of an atom gives the atom. -/
def ReadsAsAtom (depth : Nat) (expr : Expr) : Prop :=
  ∀ rest, EndsAtom rest → readAtom depth ((expr.layout depth).toList ++ rest) = some (expr, rest)

/-- Reading the text of an operand goes on with what follows it. -/
def ReadsAsOperand (depth : Nat) (expr : Expr) : Prop :=
  ∀ rest, EndsAtom rest →
    readOperand depth ((expr.layout depth).toList ++ rest) = readSuffixes depth expr rest

/-- Reading the text of an expression goes on with what follows it. -/
structure Expr.Reads (depth : Nat) (expr : Expr) : Prop where
  operand : expr.isBinary = false → ReadsAsOperand depth expr
  expr : ∀ rest, EndsOperand rest →
    readExpr depth ((expr.layout depth).toList ++ rest) = readOperations depth expr rest

/-- An expression is written as some text, so a reader that has read it is further on. -/
theorem Expr.WellFormed.layout_ne_empty {expr : Expr} (h : expr.WellFormed) (depth : Nat) :
    expr.layout depth ≠ "" := by
  cases expr with
  | ident name => exact h.1
  | object properties => cases properties <;> simp [Expr.layout]
  | binary left operator right => simp [Expr.layout, BinOp.text]
  | _ => simp [Expr.layout, Text.Quoted.ofString, Text.Quoted.encode]

/-- What is read as an operand is read as an expression, since no suffix stands behind it there. -/
theorem ReadsAsOperand.reads {depth : Nat} {expr : Expr} (hexpr : expr.WellFormed)
    (h : ReadsAsOperand depth expr) : expr.Reads depth := by
  refine ⟨fun _ => h, fun rest hrest => ?_⟩
  rw [readExpr, h rest hrest.endsAtom, readSuffixes_end depth expr hrest,
    shorter?_some expr (length_lt_append (hexpr.layout_ne_empty depth) rest)]
  rfl

/-- What is read as an atom is read as an operand, and so as an expression. -/
theorem ReadsAsAtom.reads {depth : Nat} {expr : Expr} (hexpr : expr.WellFormed)
    (h : ReadsAsAtom depth expr) : expr.Reads depth := by
  refine ReadsAsOperand.reads hexpr fun rest hrest => ?_
  rw [readOperand, h rest hrest, shorter?_some expr (length_lt_append (hexpr.layout_ne_empty depth) rest)]
  rfl

/-- Before a mark that ends it, an expression is read whole. -/
theorem Expr.Reads.before {depth : Nat} {expr : Expr} (h : expr.Reads depth) (mark : String) {c : Char}
    (hmark : mark.toList.head? = some c) (hc : c ∈ endMarks) (tail : List Char) :
    readExpr depth ((expr.layout depth).toList ++ (mark.toList ++ tail)) =
      some (expr, mark.toList ++ tail) := by
  cases htext : mark.toList with
  | nil => rw [htext] at hmark; cases hmark
  | cons d cs =>
    rw [htext] at hmark
    obtain rfl : d = c := Option.some.inj hmark
    rw [List.cons_append, h.expr _ (.mark hc), readOperations_end depth expr hc]

/-- An expression does not begin like the end of an argument list. -/
theorem Expr.skip?_layout (depth : Nat) : ∀ expr : Expr, expr.WellFormed → ∀ rest,
    skip? ")" ((expr.layout depth).toList ++ rest) = none
  | .ident name, hname, rest => by
    obtain ⟨c, cs, htext, hc⟩ := hname.toList_eq
    have hne : ')' ≠ c := (isNameChar_ne hc (by decide)).symm
    rw [Expr.layout, htext]
    exact if_neg hne
  | .str value, _, rest => by
    rw [Expr.layout, Text.Quoted.ofString, String.toList_ofList]
    rfl
  | .member owner property, ⟨_, howner, _⟩, rest => by
    rw [Expr.layout, String.toList_append, String.toList_append, List.append_assoc, List.append_assoc]
    exact owner.skip?_layout depth howner _
  | .call callee arguments, ⟨_, hcallee, _⟩, rest => by
    rw [Expr.layout, String.append_assoc, String.append_assoc, String.toList_append, List.append_assoc]
    exact callee.skip?_layout depth hcallee _
  | .new className arguments, _, rest => by
    rw [Expr.layout, String.append_assoc, String.append_assoc, String.append_assoc, String.toList_append]
    rfl
  | .binary left operator right, ⟨hleft, _⟩, rest => by
    rw [Expr.layout, String.append_assoc, String.toList_append, List.append_assoc]
    exact left.skip?_layout depth hleft _
  | .object [], _, rest => by
    rw [Expr.layout]
    rfl
  | .object (property :: properties), _, rest => by
    rw [Expr.layout, String.append_assoc, String.append_assoc, String.append_assoc, String.toList_append]
    rfl
  | .arrow parameters result body, _, rest => by
    simp only [Expr.layout, String.append_assoc, String.toList_append]
    rfl

/-- A word before a mark that does not begin like more of it. -/
theorem IsWord.readWhile_mark {allowed : Char → Bool} {text : String} (h : IsWord allowed text)
    (mark : String) {c : Char} (hmark : mark.toList.head? = some c) (hc : allowed c = false)
    (tail : List Char) :
    readWhile allowed (text.toList ++ (mark.toList ++ tail)) = (text, mark.toList ++ tail) := by
  refine readWhile_append h.2 _ ?_
  cases htext : mark.toList with
  | nil => rw [htext] at hmark; cases hmark
  | cons d cs =>
    rw [htext] at hmark
    obtain rfl : d = c := Option.some.inj hmark
    exact Stops.cons hc

theorem IsWord.readWord?_mark {allowed : Char → Bool} {text : String} (h : IsWord allowed text)
    (mark : String) {c : Char} (hmark : mark.toList.head? = some c) (hc : allowed c = false)
    (tail : List Char) :
    readWord? allowed mark (text.toList ++ (mark.toList ++ tail)) = some (text, tail) := by
  simp only [readWord?, h.readWhile_mark mark hmark hc, skip?_append, Option.bind_eq_bind, Option.bind_some]

/-- The parameters of a function read back up to the closing parenthesis. -/
theorem readParamsFrom_layout (param : Param) (params : List Param) (hparam : param.WellFormed)
    (hparams : ∀ param ∈ params, param.WellFormed) (rest : List Char) :
    readParamsFrom ((", ".intercalate ((param :: params).map Param.layout)).toList ++ (")".toList ++ rest)) =
      some (param :: params, rest) := by
  induction params generalizing param with
  | nil =>
    have hname := hparam.1.readWord?_mark ": " rfl (by decide)
    have htype := hparam.2.readWhile_mark ")" rfl (by decide)
    have hmore : readMore? ", " ")" (")".toList ++ rest) = some (false, rest) := readMore?_ending rfl
    rw [List.map_cons, List.map_nil, String.intercalate_singleton, readParamsFrom]
    simp (disch := simp <;> omega) only [Param.layout, String.toList_append, List.append_assoc, hname, htype,
      hmore, shorter?_some, Option.bind_eq_bind, Option.bind_some, Bool.false_eq_true, if_false]
  | cons next params ih =>
    have hname := hparam.1.readWord?_mark ": " rfl (by decide)
    have htype := hparam.2.readWhile_mark ", " rfl (by decide)
    have hrest := ih next (hparams next List.mem_cons_self)
      (fun param h => hparams param (List.mem_cons_of_mem _ h))
    rw [List.map_cons] at hrest
    rw [List.map_cons, List.map_cons, String.intercalate_cons_cons, readParamsFrom]
    simp only [Param.layout, String.toList_append, List.append_assoc] at hrest ⊢
    simp (disch := simp <;> omega) only [hname, htype, readMore?_separator, shorter?_some, hrest,
      Option.bind_eq_bind, Option.bind_some, if_true]

theorem readParams_layout (params : List Param) (hparams : ∀ param ∈ params, param.WellFormed)
    (rest : List Char) :
    readParams ((", ".intercalate (params.map Param.layout)).toList ++ (")".toList ++ rest)) =
      some (params, rest) := by
  cases params with
  | nil => rw [List.map_nil, String.intercalate_nil, readParams]; rfl
  | cons param params =>
    have hparam := hparams param List.mem_cons_self
    have hread := readParamsFrom_layout param params hparam
      (fun param h => hparams param (List.mem_cons_of_mem _ h)) rest
    obtain ⟨c, cs, htext, hc⟩ := hparam.1.toList_eq
    have hskip (tail : List Char) : skip? ")" (param.layout.toList ++ tail) = none := by
      rw [Param.layout, String.append_assoc, String.toList_append, htext]
      exact if_neg (isNameChar_ne hc (by decide)).symm
    rw [List.map_cons] at hread ⊢
    rw [readParams, skip?_intercalate hskip]
    exact hread

/-- The declared type of a function reads back before its body. -/
theorem readResult_layout (result : Option String) (hresult : ∀ type ∈ result, IsType type)
    (rest : List Char) :
    readResult ((resultLayout result).toList ++ (" => \x7b\n".toList ++ rest)) =
      (result, " => \x7b\n".toList ++ rest) := by
  cases result with
  | none => rfl
  | some type =>
    have htype := (hresult type rfl).readWhile_mark " => \x7b\n" rfl (by decide)
    rw [resultLayout, readResult, String.toList_append, List.append_assoc, skip?_append]
    simp only [htype]

/-- All that stands in front of a body reads back. -/
theorem readSignature?_layout (parameters : List Param) (result : Option String)
    (hparameters : ∀ param ∈ parameters, param.WellFormed) (hresult : ∀ type ∈ result, IsType type)
    (rest : List Char) :
    readSignature? ((", ".intercalate (parameters.map Param.layout)).toList ++ (")".toList ++
      ((resultLayout result).toList ++ (" => \x7b\n".toList ++ rest)))) =
        some ((parameters, result), rest) := by
  simp only [readSignature?, readParams_layout parameters hparameters, readResult_layout result hresult,
    skip?_append, Option.bind_eq_bind, Option.bind_some]

/-! ### The reader before a mark -/

/-- A property behind an operand is read into it, and reading goes on behind the property. -/
theorem readSuffixes_dot (depth : Nat) (operand : Expr) {property : String} (hproperty : IsName property)
    {rest : List Char} (hrest : Stops isNameChar rest) :
    readSuffixes depth operand (".".toList ++ (property.toList ++ rest)) =
      readSuffixes depth (.member operand property) rest := by
  have hword := readWhile_append hproperty.2 rest hrest
  refine (readSuffixes.eq_1 depth operand (property.toList ++ rest)).trans ?_
  rw [hword, shorter?_some property (by rw [List.length_cons, List.length_append]; omega)]
  rfl

theorem readSuffixes_paren (depth : Nat) (operand : Expr) {arguments : List Expr} {cs rest : List Char}
    (h : readArguments depth cs = some (arguments, rest)) (hlength : rest.length ≤ cs.length) :
    readSuffixes depth operand ("(".toList ++ cs) = readSuffixes depth (.call operand arguments) rest := by
  refine (readSuffixes.eq_2 depth operand cs).trans ?_
  rw [h, shorter?_some arguments (Nat.lt_succ_of_le hlength)]
  rfl

theorem readAtom_brace (depth : Nat) (rest : List Char) :
    readAtom depth ("\x7b\n".toList ++ rest) = (do
      let (properties, rest) ← readProperties (depth + 1) rest
      some (.object properties, ← skipBlockEnd? depth rest)) :=
  readAtom.eq_3 depth rest

theorem readAtom_paren (depth : Nat) {parameters : List Param} {result : Option String}
    {cs rest : List Char} (h : readSignature? cs = some ((parameters, result), rest))
    (hlength : rest.length ≤ cs.length) :
    readAtom depth ("(".toList ++ cs) = (do
      let (body, rest) ← readStmts (depth + 1) rest
      some (.arrow parameters result body, ← skipBlockEnd? depth rest)) := by
  refine (readAtom.eq_4 depth cs).trans ?_
  rw [h, shorter?_some (parameters, result) (Nat.lt_succ_of_le hlength)]
  rfl

/-- A key is read behind the indentation of its line, together with the mark that ends it. -/
theorem readKey?_layout (depth : Nat) {key : String} (hkey : IsName key) (rest : List Char) :
    readKey? depth ((indentation depth).toList ++ (key.toList ++ (": ".toList ++ rest))) =
      some (key, rest) := by
  simp only [readKey?, skip?_append, hkey.readWord?_mark ": " rfl (by decide), Option.bind_eq_bind,
    Option.bind_some]

/-- Indentation is spaces, so a line that goes on with something else than a line feed is not blank. -/
theorem indentation_append_ne (depth : Nat) {c : Char} (hc : c ≠ '\n') (cs rest : List Char) :
    (indentation depth).toList ++ c :: cs ≠ '\n' :: rest := by
  intro h
  cases hdepth : 4 * depth with
  | zero =>
    rw [indentation, hdepth] at h
    exact hc (List.cons.inj h).1
  | succ n =>
    rw [indentation, hdepth, String.toList_ofList] at h
    exact absurd (List.cons.inj h).1 (by decide)

/-- A line of a block with a statement on it. -/
theorem readStmts_stmt {depth : Nat} (keyword : Keyword) {mark : String} (hmark : keyword.text = mark)
    {body rest : List Char} {stmt : Stmt} (h : readStmt depth keyword body = some (stmt, rest))
    (hlength : rest.length ≤ body.length) :
    readStmts depth ((indentation depth).toList ++ (mark.toList ++ body)) =
      (readStmts depth rest).map fun read => (stmt :: read.1, read.2) := by
  have hkeyword := readKeyword?_text depth keyword body
  have hbody : body.length < ((indentation depth).toList ++ (mark.toList ++ body)).length := by
    have htext : keyword.text ≠ "" := by cases keyword <;> decide
    have hlength := length_lt_append htext body
    rw [← hmark, List.length_append]
    omega
  have hline : ∀ tail, (indentation depth).toList ++ (mark.toList ++ body) = '\n' :: tail → False := by
    intro tail
    rw [← hmark]
    cases keyword <;> exact indentation_append_ne depth (by decide) _ tail
  rw [hmark] at hkeyword
  rw [readStmts.eq_2 depth _ hline, hkeyword, shorter?_some keyword hbody]
  simp only [h, shorter?_some stmt (Nat.lt_of_le_of_lt hlength hbody), Option.bind_eq_bind,
    Option.bind_some]
  cases readStmts depth rest <;> rfl

/-- The end of a block, which is one level less deep than the block. -/
theorem readStmts_blockEnd (depth : Nat) (rest : List Char) :
    readStmts (depth + 1) ((indentation depth).toList ++ ("\x7d".toList ++ rest)) =
      some ([], (indentation depth).toList ++ ("\x7d".toList ++ rest)) := by
  have hdeeper : indentation (depth + 1) = indentation depth ++ "    " := by
    rw [indentation, indentation, Nat.mul_succ, List.replicate_add, String.ofList_append]
    rfl
  have hskip : skip? (indentation (depth + 1)) ((indentation depth).toList ++ ("\x7d".toList ++ rest)) =
      none := by
    -- The spaces of the brace's line run out before those of a line in the block.
    rw [skip?, hdeeper, String.toList_append, skipChars?_append]
    rfl
  have hkeyword : readKeyword? (depth + 1) ((indentation depth).toList ++ ("\x7d".toList ++ rest)) =
      none := by
    rw [readKeyword?, hskip]
    rfl
  have hline : ∀ tail, (indentation depth).toList ++ ("\x7d".toList ++ rest) = '\n' :: tail → False :=
    indentation_append_ne depth (by decide) _
  rw [readStmts.eq_2 _ _ hline, hkeyword]
  rfl

/-- The arguments are read whole if those of a list that is not empty are. -/
theorem readArguments_layout (depth : Nat) {arguments : List Expr} (harguments : ExprsWellFormed arguments)
    (rest : List Char)
    (h : arguments ≠ [] → readArgumentsFrom depth
      ((", ".intercalate (exprLayouts depth arguments)).toList ++ (")".toList ++ rest)) =
        some (arguments, rest)) :
    readArguments depth ((", ".intercalate (exprLayouts depth arguments)).toList ++ (")".toList ++ rest)) =
      some (arguments, rest) := by
  cases arguments with
  | nil => rw [exprLayouts, String.intercalate_nil, readArguments]; rfl
  | cons argument arguments =>
    have hread := h (List.cons_ne_nil _ _)
    rw [exprLayouts] at hread ⊢
    rw [readArguments, skip?_intercalate (argument.skip?_layout depth harguments.1)]
    exact hread

mutual

/-- Every expression is read back. The cases are the forms of an expression, and each is told by its first
characters. -/
theorem Expr.reads (depth : Nat) : ∀ expr : Expr, expr.WellFormed → expr.Reads depth
  | .ident name, hexpr => by
    refine ReadsAsAtom.reads hexpr fun rest hrest => ?_
    obtain ⟨c, cs, htext, hc⟩ := IsWord.toList_eq hexpr
    have hhead : (name.toList ++ rest).head? = some c := by rw [htext]; rfl
    rw [Expr.layout, readAtom_word depth hhead hc, readNew?_name hexpr hrest,
      shorter?, readWhile_append hexpr.2 rest hrest.stops]
  | .str value, hexpr => by
    refine ReadsAsAtom.reads hexpr fun rest _ => ?_
    have h := Text.Quoted.readTail?_tail value.toList rest
    rw [Expr.layout, Text.Quoted.ofString, String.toList_ofList, Text.Quoted.encode, List.cons_append,
      readAtom, h]
    simp only [Option.bind_eq_bind, Option.bind_some, String.ofList_toList]
  | .member object property, hexpr@⟨hbinary, hobject, hproperty⟩ => by
    refine ReadsAsOperand.reads hexpr fun rest hrest => ?_
    have hdot : EndsAtom (".".toList ++ (property.toList ++ rest)) := .mark (by decide)
    rw [Expr.layout, String.toList_append, String.toList_append, List.append_assoc, List.append_assoc,
      (object.reads depth hobject).operand hbinary _ hdot,
      readSuffixes_dot depth object hproperty hrest.stops]
  | .call callee arguments, hexpr@⟨hbinary, hcallee, harguments⟩ => by
    refine ReadsAsOperand.reads hexpr fun rest hrest => ?_
    have hread := readArguments_layout depth harguments rest (reads_arguments depth arguments harguments rest)
    have hparen (tail : List Char) : EndsAtom ("(".toList ++ tail) := .mark (by decide)
    simp only [Expr.layout, String.toList_append, List.append_assoc]
    rw [(callee.reads depth hcallee).operand hbinary _ (hparen _),
      readSuffixes_paren depth callee hread (by simp only [List.length_append]; omega)]
  | .new className arguments, hexpr@⟨hclass, harguments⟩ => by
    refine ReadsAsAtom.reads hexpr fun rest hrest => ?_
    have hread := readArguments_layout depth harguments rest (reads_arguments depth arguments harguments rest)
    have hword := hclass.readWhile_mark "(" rfl (by decide)
    have hnew (tail : List Char) : readNew? ("new ".toList ++ (className.toList ++ ("(".toList ++ tail))) =
        some (className, tail) := by
      simp only [readNew?, skip?_append, hword, Option.bind_eq_bind, Option.bind_some, if_neg hclass.1]
    have hhead (tail : List Char) : ("new ".toList ++ tail).head? = some 'n' := rfl
    simp only [Expr.layout, String.toList_append, List.append_assoc]
    rw [readAtom_word depth (hhead _) (by decide), hnew, shorter?_some className (by simp; omega)]
    simp only [hread, Option.bind_eq_bind, Option.bind_some]
  | .binary left operator right, ⟨hleft, hbinary, hright⟩ => by
    refine ⟨fun h => Bool.noConfusion h, fun rest hrest => ?_⟩
    -- The left operand may be an operation itself: the reader comes to this operator with it in hand.
    have hoperator (tail : List Char) : EndsOperand (operator.text.toList ++ tail) := .operator _ _
    have hread := (right.reads depth hright).operand hbinary rest hrest.endsAtom
    have htext : operator.text ≠ "" := by cases operator <;> decide
    have hlength := length_lt_append htext ((right.layout depth).toList ++ rest)
    have hlength' := Nat.lt_trans (length_lt_append (hright.layout_ne_empty depth) rest) hlength
    rw [Expr.layout, String.toList_append, String.toList_append, List.append_assoc, List.append_assoc,
      (left.reads depth hleft).expr _ (hoperator _), readOperations, readOperator?_text,
      shorter?_some operator hlength]
    simp only [hread, readSuffixes_end depth right hrest, shorter?_some right hlength', Option.bind_eq_bind,
      Option.bind_some]
  | .object [], hexpr => by
    refine ReadsAsAtom.reads hexpr fun rest _ => ?_
    rw [Expr.layout]
    exact readAtom.eq_2 depth rest
  | .object (property :: properties), hexpr => by
    refine ReadsAsAtom.reads hexpr fun rest _ => ?_
    have hread := reads_properties (depth + 1) (property :: properties) hexpr
      ((indentation depth).toList ++ ("\x7d".toList ++ rest)) (List.cons_ne_nil _ _)
    simp only [Expr.layout, String.toList_append, List.append_assoc]
    rw [readAtom_brace, hread]
    simp only [Option.bind_eq_bind, Option.bind_some, skipBlockEnd?_append]
  | .arrow parameters result body, hexpr@⟨hparameters, hresult, hbody⟩ => by
    refine ReadsAsAtom.reads hexpr fun rest _ => ?_
    have hsignature := readSignature?_layout parameters result hparameters hresult
    have hread := reads_stmts depth body hbody rest
    simp only [Expr.layout, String.toList_append, List.append_assoc]
    rw [readAtom_paren depth (hsignature _) (by simp only [List.length_append]; omega)]
    simp only [hread, skipBlockEnd?_append, Option.bind_eq_bind, Option.bind_some]

theorem reads_arguments (depth : Nat) : ∀ arguments : List Expr, ExprsWellFormed arguments → ∀ rest,
    arguments ≠ [] →
    readArgumentsFrom depth
        ((", ".intercalate (exprLayouts depth arguments)).toList ++ (")".toList ++ rest)) =
      some (arguments, rest)
  | [], _, _, h => absurd rfl h
  | [argument], ⟨hargument, _⟩, rest, _ => by
    have hread := (argument.reads depth hargument).before ")" rfl (by decide) rest
    have hmore : readMore? ", " ")" (")".toList ++ rest) = some (false, rest) := readMore?_ending rfl
    rw [exprLayouts, exprLayouts, String.intercalate_singleton, readArgumentsFrom]
    simp (disch := simp <;> omega) only [hread, hmore, shorter?_some, Option.bind_eq_bind, Option.bind_some,
      Bool.false_eq_true, if_false]
  | argument :: next :: arguments, ⟨hargument, harguments⟩, rest, _ => by
    have hread := (argument.reads depth hargument).before ", " rfl (by decide)
    have hrest := reads_arguments depth (next :: arguments) harguments rest (List.cons_ne_nil _ _)
    rw [exprLayouts] at hrest
    rw [exprLayouts, exprLayouts, String.intercalate_cons_cons, readArgumentsFrom]
    simp (disch := simp <;> omega) only [String.toList_append, List.append_assoc, hread,
      readMore?_separator, shorter?_some, hrest, Option.bind_eq_bind, Option.bind_some, if_true]

theorem reads_properties (depth : Nat) : ∀ properties : List (String × Expr),
    PropertiesWellFormed properties → ∀ rest, properties ≠ [] →
    readProperties depth
        ((",\n".intercalate (propertyLayouts depth properties)).toList ++ ("\n".toList ++ rest)) =
      some (properties, rest)
  | [], _, _, h => absurd rfl h
  | [(key, value)], ⟨hkey, hvalue, _⟩, rest, _ => by
    have hname := readKey?_layout depth hkey
    have hread := (value.reads depth hvalue).before "\n" rfl (by decide) rest
    have hmore : readMore? ",\n" "\n" ("\n".toList ++ rest) = some (false, rest) := readMore?_ending rfl
    rw [propertyLayouts, propertyLayouts, String.intercalate_singleton, readProperties]
    simp (disch := simp <;> omega) only [String.toList_append, List.append_assoc, hname, hread, hmore,
      shorter?_some, Option.bind_eq_bind, Option.bind_some, Bool.false_eq_true, if_false]
  | (key, value) :: (key', value') :: properties, ⟨hkey, hvalue, hproperties⟩, rest, _ => by
    have hname := readKey?_layout depth hkey
    have hread := (value.reads depth hvalue).before ",\n" rfl (by decide)
    have hrest := reads_properties depth ((key', value') :: properties) hproperties rest
      (List.cons_ne_nil _ _)
    rw [propertyLayouts] at hrest
    rw [propertyLayouts, propertyLayouts, String.intercalate_cons_cons, readProperties]
    simp only [String.toList_append, List.append_assoc] at hrest ⊢
    simp (disch := simp <;> omega) only [hname, hread, readMore?_separator, shorter?_some, hrest,
      Option.bind_eq_bind, Option.bind_some, if_true]

/-- Every statement is read back in front of those that follow it. -/
theorem Stmt.reads (depth : Nat) : ∀ stmt : Stmt, stmt.WellFormed → ∀ rest,
    readStmts depth ((stmt.layout depth).toList ++ rest) =
      (readStmts depth rest).map fun read => (stmt :: read.1, read.2)
  | .const name value, ⟨hname, hvalue⟩, rest => by
    have hword := hname.readWord?_mark " = " rfl (by decide)
    have hread := (value.reads depth hvalue).before ";\n" rfl (by decide)
    have hstmt : readStmt depth .const (name.toList ++ (" = ".toList ++ ((value.layout depth).toList ++
        (";\n".toList ++ rest)))) = some (.const name value, rest) := by
      simp (disch := simp <;> omega) only [readStmt, hword, shorter?_some, hread, skip?_append,
        Option.bind_eq_bind, Option.bind_some]
    simp only [Stmt.layout, String.toList_append, List.append_assoc]
    exact readStmts_stmt .const rfl hstmt (by simp only [List.length_append]; omega)
  | .when condition body, ⟨hcondition, hbody⟩, rest => by
    have hread := (condition.reads depth hcondition).before ") \x7b\n" rfl (by decide)
    have hblock := reads_stmts depth body hbody ("\n".toList ++ rest)
    have hstmt : readStmt depth .when ((condition.layout depth).toList ++ (") \x7b\n".toList ++
        ((stmtsLayout (depth + 1) body).toList ++ ((indentation depth).toList ++ ("\x7d".toList ++
          ("\n".toList ++ rest)))))) = some (.when condition body, rest) := by
      simp (disch := simp <;> omega) only [readStmt, hread, skip?_append, Option.map_some, shorter?_some,
        hblock, skipBlockEnd?_append, Option.bind_eq_bind, Option.bind_some]
    simp only [Stmt.layout, String.toList_append, List.append_assoc]
    exact readStmts_stmt .when rfl hstmt (by simp only [List.length_append]; omega)
  | .give value, hvalue, rest => by
    have hread := (value.reads depth hvalue).before ";\n" rfl (by decide)
    have hstmt : readStmt depth .give ((value.layout depth).toList ++ (";\n".toList ++ rest)) =
        some (.give value, rest) := by
      simp only [readStmt, hread, skip?_append, Option.bind_eq_bind, Option.bind_some]
    simp only [Stmt.layout, String.toList_append, List.append_assoc]
    exact readStmts_stmt .give rfl hstmt (by simp only [List.length_append]; omega)
  | .throw value, hvalue, rest => by
    have hread := (value.reads depth hvalue).before ";\n" rfl (by decide)
    have hstmt : readStmt depth .throw ((value.layout depth).toList ++ (";\n".toList ++ rest)) =
        some (.throw value, rest) := by
      simp only [readStmt, hread, skip?_append, Option.bind_eq_bind, Option.bind_some]
    simp only [Stmt.layout, String.toList_append, List.append_assoc]
    exact readStmts_stmt .throw rfl hstmt (by simp only [List.length_append]; omega)
  | .blank, _, rest => by
    rw [Stmt.layout]
    refine (readStmts.eq_1 depth rest).trans ?_
    cases readStmts depth rest <;> rfl

/-- A block is read back up to the brace that ends it, one level further out. -/
theorem reads_stmts (depth : Nat) : ∀ stmts : List Stmt, StmtsWellFormed stmts → ∀ rest,
    readStmts (depth + 1) ((stmtsLayout (depth + 1) stmts).toList ++
        ((indentation depth).toList ++ ("\x7d".toList ++ rest))) =
      some (stmts, (indentation depth).toList ++ ("\x7d".toList ++ rest))
  | [], _, rest => readStmts_blockEnd depth rest
  | stmt :: stmts, ⟨hstmt, hstmts⟩, rest => by
    rw [stmtsLayout, String.toList_append, List.append_assoc, stmt.reads (depth + 1) hstmt,
      reads_stmts depth stmts hstmts]
    rfl

end

/-! ## Modules -/

theorem bindingOf_append (binding : String) : bindingOf (binding ++ " from ") = binding := by
  rw [bindingOf, String.toList_append, List.length_append, Nat.add_sub_cancel, List.take_left,
    String.ofList_toList]

theorem readConst_layout (exported : Bool) {name : String} (hname : IsName name) {value : Expr}
    (hvalue : value.WellFormed) (rest : List Char) :
    readConst exported ("const ".toList ++ (name.toList ++ (" = ".toList ++ ((value.layout 0).toList ++
      (";\n".toList ++ rest))))) = some (.const exported name value, rest) := by
  have hword := hname.readWord?_mark " = " rfl (by decide)
  have hread := (value.reads 0 hvalue).before ";\n" rfl (by decide)
  simp only [readConst, skip?_append, hword, hread, Option.bind_eq_bind, Option.bind_some]

/-- An item reads back before anything. -/
theorem Item.reads (item : Item) (hitem : item.WellFormed) (rest : List Char) :
    readItem (item.layout.toList ++ rest) = some (item, rest) := by
  cases item with
  | comment text =>
    have htext : ∀ c ∈ text.toList, (c != '\n') = true := by
      intro c hc
      exact bne_iff_ne.mpr fun h => hitem (h ▸ hc)
    have hline := readWhile_append htext ("\n".toList ++ rest) (Stops.cons (by decide))
    simp only [layout, String.toList_append, List.append_assoc]
    show readItem ('/' :: ("/ ".toList ++ (text.toList ++ ("\n".toList ++ rest)))) = _
    simp only [readItem, skip?_append, hline, Option.bind_eq_bind, Option.bind_some]
  | importFrom binding source =>
    have hmark : (" from ".toList.all (· != '\'')) = true := by decide
    have htext : ∀ c ∈ (binding ++ " from ").toList, (c != '\'') = true := by
      intro c hc
      rw [String.toList_append, List.mem_append] at hc
      rcases hc with hc | hc
      · exact bne_iff_ne.mpr fun h => hitem.2 (h ▸ hc)
      · exact List.all_eq_true.mp hmark c hc
    have hsource := Text.Quoted.read?_encode source.toList (";\n".toList ++ rest)
    have hfront := readWhile_append htext
      (Text.Quoted.encode source.toList ++ (";\n".toList ++ rest)) (Stops.cons (by decide))
    rw [String.toList_append, List.append_assoc] at hfront
    simp only [layout, Text.Quoted.ofString, String.toList_append, String.toList_ofList, List.append_assoc]
    show readItem ('i' :: ("mport ".toList ++ (binding.toList ++ (" from ".toList ++
      (Text.Quoted.encode source.toList ++ (";\n".toList ++ rest)))))) = _
    simp only [readItem, skip?_append, hfront, hsource, bindingOf_append, String.ofList_toList,
      Option.bind_eq_bind, Option.bind_some]
  | const exported name value =>
    have hread := readConst_layout exported hitem.1 hitem.2 rest
    simp only [layout, String.toList_append, List.append_assoc]
    cases exported with
    | true =>
      show readItem ('\n' :: ("export ".toList ++ _)) = _
      simp only [readItem, skip?_append, hread]
    | false => exact hread

theorem Item.layout_ne_empty (item : Item) : item.layout ≠ "" := by
  cases item <;> simp [Item.layout]

/-- The items of a module are read back, one after the other, to the end of the text. -/
theorem readItems_layout (items : List Item) (hitems : ∀ item ∈ items, item.WellFormed) :
    readItems (String.join (items.map Item.layout)).toList = some items := by
  induction items with
  | nil => rw [readItems]; rfl
  | cons item items ih =>
    have hlength := length_lt_append item.layout_ne_empty (String.join (items.map Item.layout)).toList
    have hitem := item.reads (hitems item List.mem_cons_self) (String.join (items.map Item.layout)).toList
    have hrest := ih fun item h => hitems item (List.mem_cons_of_mem _ h)
    rw [List.map_cons, String.join_cons, String.toList_append, readItems,
      if_neg (List.ne_nil_of_length_pos (Nat.zero_lt_of_lt hlength)), hitem, shorter?_some item hlength]
    simp only [Option.bind_eq_bind, Option.bind_some, hrest]
    rfl

/-- The reader recovers a well-formed module from its layout. -/
theorem Module.read?_layout {module : Module} (h : module.WellFormed) :
    Module.read? module.layout = some module := by
  rw [Module.read?, Module.layout, readItems_layout module.items h]
  rfl

/-- What a well-formed module prints can be read back, so no other is printed alike. -/
theorem Module.print_injective :
    (∀ module : Module, module.WellFormed →
      ∃ text, module.print = .ok text ∧ Module.read? text = some module) ∧
    ∀ module module' : Module, module.WellFormed → module'.WellFormed →
      module.print = module'.print → module = module' := by
  constructor
  · intro module h
    exact ⟨module.layout, module.print_eq_layout, Module.read?_layout h⟩
  · intro module module' h h' hprint
    rw [module.print_eq_layout, module'.print_eq_layout] at hprint
    have hlayout : module.layout = module'.layout := Except.ok.inj hprint
    have hread := Module.read?_layout h
    rw [hlayout, Module.read?_layout h'] at hread
    exact (Option.some.inj hread).symm

/-- A class with a dot in its path, and a property of a new object: `new a.b('...')` and `new a('...').b`. -/
theorem print_injective_new :
    ∃ path property : Module, path.WellFormed ∧ property.WellFormed ∧
      (∃ text, path.print = .ok text ∧ Module.read? text = some path) ∧ path.print ≠ property.print := by
  let argument : Expr := .str "\\'\n"
  let path : Module := ⟨[.const true "x" (.new "a.b" [argument])]⟩
  let property : Module := ⟨[.const true "x" (.member (.new "a" [argument]) "b")]⟩
  have hx : IsName "x" := IsWord.of_all (by decide) (by decide)
  have hpath : path.WellFormed := by
    intro item hitem
    obtain rfl := List.mem_singleton.mp hitem
    exact ⟨hx, IsWord.of_all (by decide) (by decide), trivial, trivial⟩
  have hproperty : property.WellFormed := by
    intro item hitem
    obtain rfl := List.mem_singleton.mp hitem
    exact ⟨hx, rfl, ⟨IsWord.of_all (by decide) (by decide), trivial, trivial⟩,
      IsWord.of_all (by decide) (by decide)⟩
  refine ⟨path, property, hpath, hproperty, Module.print_injective.1 path hpath, fun hprint => ?_⟩
  have heq := congrArg Module.items (Module.print_injective.2 path property hpath hproperty hprint)
  simp [path, property] at heq

end TwirpClient.Code
