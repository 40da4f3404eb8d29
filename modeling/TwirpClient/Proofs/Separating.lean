import TwirpClient.Proofs.Collecting
import TwirpClient.Proofs.Writing
import TwirpClient.Writer.Session

/-!
# Texts with separators

A list of texts can be written item by item, with the separator between any two, or put together first and
written in one go. `Session.run_separated` says that nobody can tell the difference afterwards, from the output
or from the writer, and the same for a list whose items stand on lines of their own.

What it rests on is said of positions. A text carries a writer from any position to `Position.afterText` and
adds `Position.added`; two texts in a row are there what their concatenation is. The care that this takes is in
the empty text, which begins no line, so that the indentation is left to whichever text comes next.
-/

namespace TwirpClient.Writer

/-! ## A text at any position -/

namespace Position

variable (indentUnit : String) (position : Position) {value : String}

/-- The position after a text. The empty text begins no line. -/
def afterText (value : String) : Position :=
  if value = "" then position else .inLine position.level

/-- What a text adds at a position, with the indentation that it brings to a line that it begins. -/
def added (value : String) : String :=
  if value = "" then ""
  else (if position.atLineStart then indentation indentUnit position.level else "") ++ value

@[simp] theorem afterText_empty : position.afterText "" = position := if_pos rfl

@[simp] theorem added_empty : position.added indentUnit "" = "" := if_pos rfl

theorem afterText_of_ne (hvalue : value ≠ "") : position.afterText value = .inLine position.level := if_neg hvalue

/-- A text that is not empty has the indentation before it where a line begins. -/
theorem added_of_ne (hvalue : value ≠ "") :
    position.added indentUnit value =
      (if position.atLineStart then indentation indentUnit position.level else "") ++ value := if_neg hvalue

/-- Inside a line a text is all that it adds. -/
theorem added_inLine (level : Nat) (value : String) : (inLine level).added indentUnit value = value := by
  rcases eq_or_ne value "" with rfl | hvalue
  · exact added_empty indentUnit _
  · rw [added_of_ne indentUnit _ hvalue]
    exact String.empty_append

@[simp] theorem level_afterText (value : String) : (position.afterText value).level = position.level := by
  rw [afterText]
  split
  next => rfl
  next => rfl

theorem afterText_append (first second : String) :
    position.afterText (first ++ second) = (position.afterText first).afterText second := by
  rcases eq_or_ne first "" with rfl | hfirst
  · rw [String.empty_append, afterText_empty]
  · have hboth : first ++ second ≠ "" := fun hempty => hfirst (String.append_eq_empty_iff.mp hempty).1
    rw [afterText_of_ne _ hboth, afterText_of_ne _ hfirst, afterText]
    exact (ite_self _).symm

/-- What two texts add one after the other is what they add as one: only the first that is not empty begins a
line. -/
theorem added_append (first second : String) :
    position.added indentUnit (first ++ second) =
      position.added indentUnit first ++ (position.afterText first).added indentUnit second := by
  rcases eq_or_ne first "" with rfl | hfirst
  · rw [String.empty_append, afterText_empty, added_empty, String.empty_append]
  · have hboth : first ++ second ≠ "" := fun hempty => hfirst (String.append_eq_empty_iff.mp hempty).1
    rw [added_of_ne _ _ hboth, added_of_ne _ _ hfirst, afterText_of_ne _ hfirst, added_inLine, String.append_assoc]

end Position

section Directives

variable {indentUnit : String} {start middle finish : Position} {text text' : String}

/-- A text is written at every position, the empty text included. -/
theorem Writes.textAnywhere (position : Position) (value : String) :
    Writes indentUnit position [.text value] (position.afterText value) (position.added indentUnit value) := by
  rcases eq_or_ne value "" with rfl | hvalue
  · rw [Position.afterText_empty, Position.added_empty]
    refine Writes.one fun writer hat => ⟨writer, ?_, hat, String.append_empty.symm⟩
    rw [perform, write, if_pos rfl]
  · obtain ⟨level, atLineStart⟩ := position
    rw [Position.afterText_of_ne _ hvalue, Position.added_of_ne _ _ hvalue]
    cases atLineStart with
    | true => exact Writes.textAtLineStart hvalue
    | false =>
      rw [if_neg Bool.false_ne_true, String.empty_append]
      exact Writes.text value

/-- A text and the end of its line, from every position. -/
theorem Writes.lineAnywhere (position : Position) (value : String) :
    Writes indentUnit position (Directive.line value) (.lineStart position.level)
      (position.added indentUnit value ++ "\n") := by
  have hend : Writes indentUnit (position.afterText value) [.lineFeed] (.lineStart (position.afterText value).level)
      "\n" := Writes.lineFeed _
  rw [Position.level_afterText] at hend
  exact (Writes.textAnywhere position value).cons hend

/-- Texts with a separator between any two write what they make if they are put together. -/
theorem Writes.separatedTexts (position : Position) (separator : String) (texts : List String) :
    Writes indentUnit position (Directive.separated separator (texts.map fun text => [.text text]))
      (position.afterText (separator.intercalate texts))
      (position.added indentUnit (separator.intercalate texts)) := by
  induction texts generalizing position with
  | nil =>
    rw [String.intercalate_nil, Position.afterText_empty, Position.added_empty]
    exact Writes.nil
  | cons text texts ih =>
    cases texts with
    | nil =>
      rw [String.intercalate_singleton]
      exact Writes.textAnywhere position text
    | cons text' texts =>
      rw [String.intercalate_cons_cons, Position.afterText_append, Position.added_append, Position.afterText_append,
        Position.added_append]
      exact ((Writes.textAnywhere position text).cons (Writes.textAnywhere _ separator)).append (ih _)

end Directives

/-! ## Steps that only write -/

/-- Whether a directive only writes: it ends no level and begins none, and it does not give up. -/
def Directive.IsPlain : Directive → Prop
  | .text _ | .lineFeed => True
  | _ => False

/-- A joined list is mapped part by part, its separators included. -/
theorem map_intercalate {α β : Type} (f : α → β) (separator : List α) (parts : List (List α)) :
    (separator.intercalate parts).map f = (separator.map f).intercalate (parts.map (List.map f)) := by
  induction parts with
  | nil => rfl
  | cons part parts ih =>
    cases parts with
    | nil => rw [List.map_singleton, List.intercalate_singleton, List.intercalate_singleton]
    | cons part' parts =>
      rw [List.map_cons, List.map_cons, List.intercalate_cons_cons, List.intercalate_cons_cons, List.map_append,
        List.map_append, ih, List.map_cons]

theorem forall_mem_intercalate {α : Type} {P : α → Prop} {separator : List α} {parts : List (List α)}
    (hseparator : ∀ a ∈ separator, P a) (hparts : ∀ part ∈ parts, ∀ a ∈ part, P a) :
    ∀ a ∈ separator.intercalate parts, P a := by
  induction parts with
  | nil => exact fun a ha => absurd ha List.not_mem_nil
  | cons part parts ih =>
    rw [List.forall_mem_cons] at hparts
    cases parts with
    | nil =>
      rw [List.intercalate_singleton]
      exact hparts.1
    | cons part' parts =>
      rw [List.intercalate_cons_cons, List.forall_mem_append, List.forall_mem_append]
      exact ⟨⟨hparts.1, hseparator⟩, ih hparts.2⟩

/-- A step that asks the writer for these directives, whatever is held. Nothing else is done in it. -/
structure Step.Asks (step : Step) (directives : List Directive) : Prop where
  acts : ∀ heldCount, step.acts heldCount = directives.map Act.ofDirective
  plain : ∀ directive ∈ directives, directive.IsPlain

namespace Step

theorem isPlain_of_mem_line (value : String) : ∀ directive ∈ Directive.line value, directive.IsPlain :=
  List.forall_mem_cons.mpr ⟨trivial, List.forall_mem_singleton.mpr trivial⟩

theorem asks_write (value : String) : (write value).Asks [.text value] :=
  ⟨fun _ => rfl, List.forall_mem_singleton.mpr trivial⟩

theorem asks_writeLine (value : String) : (writeLine value).Asks (Directive.line value) :=
  ⟨fun _ => rfl, isPlain_of_mem_line value⟩

/-- A list whose items are texts, with anything plain between any two. -/
theorem asks_intercalate {step : Step} {separator : List Directive} {texts : List String}
    (hplain : ∀ directive ∈ separator, directive.IsPlain)
    (hacts : ∀ heldCount, step.acts heldCount =
      (separator.map Act.ofDirective).intercalate (texts.map fun text => [.write text])) :
    step.Asks (separator.intercalate (texts.map fun text => [.text text])) := by
  have hitems : (texts.map fun text => [Directive.text text]).map (List.map Act.ofDirective) =
      texts.map fun text => [Act.write text] := by
    rw [List.map_map]
    rfl
  have hplainItems : ∀ item ∈ texts.map fun text => [Directive.text text],
      ∀ directive ∈ item, directive.IsPlain := by
    rw [List.forall_mem_map]
    exact fun text _ => List.forall_mem_singleton.mpr trivial
  refine ⟨fun heldCount => ?_, forall_mem_intercalate hplain hplainItems⟩
  rw [map_intercalate, hitems, hacts]

/-- A list of texts asks for the directives of the printer's own lists. -/
theorem asks_separated (separator : String) (texts : List String) :
    (separated separator (texts.map fun text => [.write text])).Asks
      (Directive.separated separator (texts.map fun text => [.text text])) :=
  asks_intercalate (List.forall_mem_singleton.mpr trivial) fun _ => rfl

theorem asks_separatedLines (separator : String) (texts : List String) :
    (separatedLines separator (texts.map fun text => [.write text])).Asks
      (Directive.separatedLines separator (texts.map fun text => [.text text])) :=
  asks_intercalate (isPlain_of_mem_line separator) fun _ => rfl

end Step

namespace Session

variable {indentUnit : String} {start middle finish : Position} {text text' : String}

/-- An act that only writes does what its directive does. -/
theorem perform_ofDirective {session : Session} {directive : Directive} (hplain : directive.IsPlain) {next : Writer}
    (h : session.writer.perform directive = .ok next) :
    session.perform (.ofDirective directive) = .ok ⟨next, session.held⟩ := by
  have hrun : session.writer.run [directive] = .ok next := by
    rw [Writer.run_cons, h]
    rfl
  cases directive with
  | text value => rw [perform, Act.ofDirective, Act.directives, hrun]; rfl
  | lineFeed => rw [perform, Act.ofDirective, Act.directives, hrun]; rfl
  | indent => exact hplain.elim
  | dedent => exact hplain.elim
  | abort => exact hplain.elim

/-- Acts that only write do what their directives do, and everything stays held. -/
theorem performAll_ofDirective {session : Session} {directives : List Directive}
    (hplain : ∀ directive ∈ directives, directive.IsPlain) {next : Writer}
    (h : session.writer.run directives = .ok next) :
    session.performAll (directives.map Act.ofDirective) = .ok ⟨next, session.held⟩ := by
  induction directives generalizing session with
  | nil =>
    cases h
    rfl
  | cons directive directives ih =>
    rw [List.forall_mem_cons] at hplain
    rw [Writer.run_cons] at h
    obtain ⟨between, hperform, hrest⟩ := bind_eq_ok_iff.mp h
    rw [List.map_cons, performAll, List.foldlM_cons, perform_ofDirective hplain.1 hperform]
    exact @ih ⟨between, session.held⟩ hplain.2 hrest

/-- The steps carry the writer of a session from one position to another and add a text. None of them fails, and
everything stays held. -/
def Adds (indentUnit : String) (start : Position) (steps : List Step) (finish : Position) (text : String) : Prop :=
  ∀ session : Session, StandsAt indentUnit start session.writer →
    ∃ next reports, session.run steps = (⟨next, session.held⟩, reports) ∧
      (∀ report ∈ reports, report.failed = false) ∧ StandsAt indentUnit finish next ∧
      next.sink.content = session.writer.sink.content ++ text

theorem Adds.nil : Adds indentUnit start [] start "" :=
  fun session hat => ⟨session.writer, [], rfl, fun _ hreport => absurd hreport List.not_mem_nil, hat,
    String.append_empty.symm⟩

/-- A step adds what the directives that it asks for write. -/
theorem Adds.step {step : Step} {directives : List Directive} (hasks : step.Asks directives)
    (h : Writes indentUnit start directives finish text) : Adds indentUnit start [step] finish text := by
  intro session hat
  obtain ⟨next, hrun, hnext, hcontent⟩ := h session.writer hat
  have hperform := performAll_ofDirective hasks.plain hrun
  rw [← hasks.acts session.held.length] at hperform
  refine ⟨next, [(session.advance step).2], ?_, ?_, hnext, hcontent⟩
  · rw [run, advance, hperform]
    rfl
  · rw [List.forall_mem_singleton, advance, hperform]
    rfl

/-- What the later steps add comes behind what the first one adds. -/
theorem Adds.cons {step : Step} {steps : List Step} (h : Adds indentUnit start [step] middle text)
    (h' : Adds indentUnit middle steps finish text') :
    Adds indentUnit start (step :: steps) finish (text ++ text') := by
  intro session hat
  obtain ⟨next, reports, hrun, hreports, hnext, hcontent⟩ := h session hat
  obtain ⟨last, reports', hrun', hreports', hlast, hcontent'⟩ := h' ⟨next, session.held⟩ hnext
  have hadvance : (session.advance step).1 = ⟨next, session.held⟩ := congrArg Prod.fst hrun
  have hreport : [(session.advance step).2] = reports := congrArg Prod.snd hrun
  refine ⟨last, (session.advance step).2 :: reports', ?_, ?_, hlast, ?_⟩
  · change (((session.advance step).1.run steps).1, _ :: ((session.advance step).1.run steps).2) = _
    rw [hadvance, hrun']
    rfl
  · rw [← hreport, List.forall_mem_singleton] at hreports
    exact List.forall_mem_cons.mpr ⟨hreports, hreports'⟩
  · rw [hcontent', hcontent, String.append_assoc]

/-! ## Items and lines -/

theorem adds_write (position : Position) (value : String) :
    Adds indentUnit position [.write value] (position.afterText value) (position.added indentUnit value) :=
  Adds.step (Step.asks_write value) (Writes.textAnywhere position value)

/-- Two texts in a row are as good as one. -/
theorem adds_pair (position : Position) (first second : String) :
    Adds indentUnit position [.write first, .write second] (position.afterText (first ++ second))
      (position.added indentUnit (first ++ second)) := by
  rw [Position.afterText_append, Position.added_append]
  exact (adds_write position first).cons (adds_write _ second)

theorem adds_separated (position : Position) (separator : String) (texts : List String) :
    Adds indentUnit position [.separated separator (texts.map fun text => [.write text])]
      (position.afterText (separator.intercalate texts))
      (position.added indentUnit (separator.intercalate texts)) :=
  Adds.step (Step.asks_separated separator texts) (Writes.separatedTexts position separator texts)

/-- The steps that write texts on lines of their own: all but the last with the separator behind them and the end
of the line, and the last as it is. -/
def lineSteps (separator : String) (texts : List String) : List Step :=
  texts.dropLast.map (fun text => .writeLine (text ++ separator)) ++ texts.getLast?.toList.map .write

/-- Items on lines of their own add what they add if they are written one after the other. -/
theorem adds_separatedLines (position : Position) (separator : String) (texts : List String) :
    ∃ finish text,
      Writes indentUnit position (Directive.separatedLines separator (texts.map fun text => [.text text]))
        finish text ∧
      Adds indentUnit position (lineSteps separator texts) finish text := by
  induction texts generalizing position with
  | nil => exact ⟨position, "", Writes.nil, Adds.nil⟩
  | cons text texts ih =>
    cases texts with
    | nil =>
      exact ⟨_, _, Writes.textAnywhere position text, adds_write position text⟩
    | cons text' texts =>
      obtain ⟨finish, rest, hwrites, hadds⟩ := ih (.lineStart position.level)
      have hitem : Writes indentUnit position ([.text text] ++ Directive.line separator)
          (.lineStart position.level) (position.added indentUnit (text ++ separator) ++ "\n") := by
        rw [Position.added_append, String.append_assoc, ← position.level_afterText text]
        exact (Writes.textAnywhere position text).append (Writes.lineAnywhere _ separator)
      have hline : Adds indentUnit position [.writeLine (text ++ separator)] (.lineStart position.level)
          (position.added indentUnit (text ++ separator) ++ "\n") :=
        Adds.step (Step.asks_writeLine _) (Writes.lineAnywhere position _)
      exact ⟨finish, _, hitem.append hwrites, hline.cons hadds⟩

end Session

/-! ## What can be told afterwards -/

/-- What can be told of a writer: its whole text, whatever the pieces are that it was written in, and how it
goes on from there. -/
structure Condition where
  output : String
  room : Option Nat
  indentUnit : String
  level : Nat
  atLineStart : Bool
  deriving DecidableEq, Repr

def condition (writer : Writer) : Condition where
  output := writer.sink.content
  room := writer.sink.room
  indentUnit := writer.indentUnit
  level := writer.level
  atLineStart := writer.atLineStart

/-- Every writer without a bound stands somewhere. -/
theorem standsAt_own {writer : Writer} (h : writer.sink.room = none) :
    StandsAt writer.indentUnit ⟨writer.level, writer.atLineStart⟩ writer :=
  ⟨h, rfl, rfl, rfl⟩

/-- The position, the text and the unit of indentation are all that can be told of a writer without a bound. -/
theorem StandsAt.condition_eq {indentUnit : String} {position : Position} {writer : Writer}
    (h : StandsAt indentUnit position writer) :
    writer.condition = ⟨writer.sink.content, none, indentUnit, position.level, position.atLineStart⟩ := by
  rw [condition, h.unbounded, h.indentUnit, h.level, h.atLineStart]

namespace Session

/-- Two runs of a session that cannot be told apart at their ends. In neither does a step fail. -/
structure SameEnd (session : Session) (steps steps' : List Step) : Prop where
  succeeds : ∀ report ∈ (session.run steps).2, report.failed = false
  succeeds' : ∀ report ∈ (session.run steps').2, report.failed = false
  condition : (session.run steps).1.writer.condition = (session.run steps').1.writer.condition
  held : (session.run steps).1.held = (session.run steps').1.held

/-- Steps that add the same text and end at the same position. -/
theorem Adds.sameEnd {indentUnit : String} {start finish : Position} {text : String} {steps steps' : List Step}
    {session : Session} (h : Adds indentUnit start steps finish text) (h' : Adds indentUnit start steps' finish text)
    (hat : StandsAt indentUnit start session.writer) : session.SameEnd steps steps' := by
  obtain ⟨last, reports, hrun, hreports, hlast, hcontent⟩ := h session hat
  obtain ⟨last', reports', hrun', hreports', hlast', hcontent'⟩ := h' session hat
  refine ⟨?_, ?_, ?_, ?_⟩
  · rwa [hrun]
  · rwa [hrun']
  · rw [hrun, hrun', hlast.condition_eq, hlast'.condition_eq, hcontent, hcontent']
  · rw [hrun, hrun']

/-- On a sink that takes every piece, from wherever the writer stands, texts with a separator between any two
leave what they leave if they are put together and written in one go. With each on a line of its own, they leave
what is left by writing one line after the other, each but the last with the separator behind it; and an empty
list does nothing at all. Even two texts in a row, whatever they are, are as good as one. -/
theorem run_separated (session : Session) (hroom : session.writer.sink.room = none) (separator : String)
    (texts : List String) :
    let items : List (List Act) := texts.map fun text => [.write text]
    session.SameEnd [.separated separator items] [.write (separator.intercalate texts)] ∧
    session.SameEnd [.separatedLines separator items] (lineSteps separator texts) ∧
    session.run [.separatedLines separator []] = (session, [⟨"", false⟩]) ∧
    ∀ first second, session.SameEnd [.write first, .write second] [.write (first ++ second)] := by
  intro items
  have hat := standsAt_own hroom
  refine ⟨?joined, ?lines, ?nothing, ?pair⟩
  case joined => exact (adds_separated _ separator texts).sameEnd (adds_write _ _) hat
  case lines =>
    obtain ⟨finish, text, hitems, hlines⟩ := adds_separatedLines _ separator texts
    exact (Adds.step (Step.asks_separatedLines separator texts) hitems).sameEnd hlines hat
  case nothing =>
    have hwrote : session.writer.sink.contentSince session.writer.sink.pieces.size = "" := by
      rw [Sink.contentSince, ← Array.length_toList, List.drop_length]
      rfl
    change (session, [(⟨session.writer.sink.contentSince _, false⟩ : Report)]) = _
    rw [hwrote]
  case pair =>
    intro first second
    exact (adds_pair _ first second).sameEnd (adds_write _ _) hat

/-- Texts and a separator that are empty or have a line feed in them, at the start of a line that is two levels
deep. -/
theorem run_separated_empty_texts :
    let session : Session :=
      ⟨{ indentUnit := "\t", sink := { pieces := #[.text "f(", .lineFeed] }, level := 2 }, [{}, {}]⟩
    let items : List (List Act) := [[.write ""], [.write "a\n"], [.write ""]]
    session.writer.sink.room = none ∧
      (session.run [.separated "" items]).1.writer.condition = ⟨"f(\n\t\ta\n", none, "\t", 2, false⟩ ∧
      (session.run [.separatedLines "," items]).1.writer.condition =
        ⟨"f(\n\t\t,\n\t\ta\n,\n", none, "\t", 2, true⟩ ∧
      session.SameEnd [.write "", .write "a"] [.write "a"] := by
  intro session items
  have hroom : session.writer.sink.room = none := rfl
  obtain ⟨hjoined, -, -, hpair⟩ := run_separated session hroom "" ["", "a\n", ""]
  obtain ⟨-, hlines, -, -⟩ := run_separated session hroom "," ["", "a\n", ""]
  exact ⟨hroom, hjoined.condition.trans (by decide), hlines.condition.trans (by decide), hpair "" "a"⟩

end Session

end TwirpClient.Writer
