import Mathlib.Data.List.Forall2
import TwirpClient.Writer.Basic

/-!
# What directives write

A writer remembers two things between directives: how deep it is, and whether it stands at the start of a
line. `Position` is this memory as a value. `Writes` says of some directives that they carry every writer
without a bound from one position to another, and which text they add on the way; it never fails, so a text
that is written is also a run that succeeds.

The laws below give one statement for each directive and one for each way of putting directives together.
Whoever prints with them reasons about positions and texts, and not about sinks and pieces.
-/

namespace TwirpClient.Writer

/-- How deep a writer is, and whether it stands at the start of a line. -/
structure Position where
  level : Nat
  atLineStart : Bool
  deriving DecidableEq, Repr

namespace Position

/-- In the middle of a line. -/
def inLine (level : Nat) : Position := ⟨level, false⟩

/-- At the start of a line. -/
def lineStart (level : Nat) : Position := ⟨level, true⟩

end Position

/-- A writer without a bound, with this indentation, at a position. -/
structure StandsAt (indentUnit : String) (position : Position) (writer : Writer) : Prop where
  unbounded : writer.sink.room = none
  indentUnit : writer.indentUnit = indentUnit
  level : writer.level = position.level
  atLineStart : writer.atLineStart = position.atLineStart

/-- The directives carry a writer from one position to another and add a text. -/
def Writes (indentUnit : String) (start : Position) (directives : List Directive) (finish : Position)
    (text : String) : Prop :=
  ∀ writer, StandsAt indentUnit start writer →
    ∃ next, writer.run directives = .ok next ∧ StandsAt indentUnit finish next ∧
      next.sink.content = writer.sink.content ++ text

/-- Indentation of so many levels. -/
def indentation (indentUnit : String) (level : Nat) : String :=
  String.join (List.replicate level indentUnit)

theorem indentation_succ (indentUnit : String) (level : Nat) :
    indentation indentUnit (level + 1) = indentUnit ++ indentation indentUnit level := by
  rw [indentation, List.replicate_succ, String.join_cons, indentation]

/-! ## One piece -/

/-- Pieces one behind the other have their texts one behind the other. -/
theorem Sink.contentOf_append (first second : List Piece) :
    Sink.contentOf (first ++ second) = Sink.contentOf first ++ Sink.contentOf second := by
  rw [Sink.contentOf, List.map_append, String.join_append]
  rfl

theorem Sink.contentOf_cons (piece : Piece) (rest : List Piece) :
    Sink.contentOf (piece :: rest) = piece.content ++ Sink.contentOf rest := by
  rw [Sink.contentOf, List.map_cons, String.join_cons]
  rfl

theorem Sink.contentOf_indentation (indentUnit : String) (level : Nat) :
    Sink.contentOf (List.replicate level (.indentation indentUnit)) = indentation indentUnit level := by
  rw [Sink.contentOf, List.map_replicate]
  rfl

theorem Sink.content_push (sink : Sink) (piece : Piece) :
    (sink.push piece).content = sink.content ++ piece.content := by
  rw [content, push, Array.toList_push, contentOf_append, contentOf_cons]
  exact congrArg _ String.append_empty

/-- A sink without a bound takes every piece. -/
theorem put_of_unbounded (writer : Writer) (h : writer.sink.room = none) (piece : Piece) :
    writer.put piece = .ok { writer with sink := writer.sink.push piece } := by
  rw [put, Sink.accepts_of_unbounded h, if_pos rfl]

/-- Indentation is put into the sink level by level, and nothing else about the writer changes. -/
theorem indentBy_pieces (count : Nat) (writer : Writer) (h : writer.sink.room = none) :
    ∃ sink : Sink, indentBy count writer = .ok { writer with sink := sink } ∧ sink.room = none ∧
      sink.pieces.toList =
        writer.sink.pieces.toList ++ List.replicate count (.indentation writer.indentUnit) := by
  induction count generalizing writer with
  | zero => exact ⟨writer.sink, rfl, h, (List.append_nil _).symm⟩
  | succ count ih =>
    have hput := put_of_unbounded writer h (.indentation writer.indentUnit)
    have hroom := Sink.room_push_of_unbounded h (.indentation writer.indentUnit)
    obtain ⟨sink, hrun, hsink, hpieces⟩ :=
      ih { writer with sink := writer.sink.push (.indentation writer.indentUnit) } hroom
    refine ⟨sink, ?_, hsink, ?_⟩
    · rw [indentBy, hput]
      exact hrun
    · rw [hpieces, Sink.push, Array.toList_push, List.append_assoc, List.replicate_succ]
      rfl

/-- The same, said on the text that is added. -/
theorem indentBy_of_unbounded (count : Nat) (writer : Writer) (h : writer.sink.room = none) :
    ∃ sink : Sink, indentBy count writer = .ok { writer with sink := sink } ∧ sink.room = none ∧
      sink.content = writer.sink.content ++ indentation writer.indentUnit count := by
  obtain ⟨sink, hrun, hroom, hpieces⟩ := indentBy_pieces count writer h
  refine ⟨sink, hrun, hroom, ?_⟩
  rw [Sink.content, hpieces, Sink.contentOf_append, Sink.contentOf_indentation]
  rfl

/-! ## One directive -/

section Directives

variable {indentUnit : String} {level : Nat}

theorem Writes.one {start finish : Position} {directive : Directive} {text : String}
    (h : ∀ writer, StandsAt indentUnit start writer → ∃ next, writer.perform directive = .ok next ∧
      StandsAt indentUnit finish next ∧ next.sink.content = writer.sink.content ++ text) :
    Writes indentUnit start [directive] finish text := by
  intro writer hat
  obtain ⟨next, hperform, hnext⟩ := h writer hat
  refine ⟨next, ?_, hnext⟩
  rw [run_cons, hperform]
  rfl

/-- Inside a line a text is written as it is, the empty text included. -/
theorem Writes.text (value : String) :
    Writes indentUnit (.inLine level) [.text value] (.inLine level) value := by
  refine Writes.one fun writer hat => ?_
  by_cases hempty : value = ""
  · refine ⟨writer, ?_, hat, ?_⟩
    · rw [perform, write, if_pos hempty]
    · rw [hempty, String.append_empty]
  · have hline : writer.atLineStart = false := hat.atLineStart
    have hbegin : writer.beginLine = .ok writer := by
      rw [beginLine, hline, if_neg Bool.false_ne_true]
    refine ⟨{ writer with sink := writer.sink.push (.text value) }, ?_, ?_, ?_⟩
    · rw [perform, write, if_neg hempty, hbegin]
      exact put_of_unbounded writer hat.unbounded _
    · exact ⟨Sink.room_push_of_unbounded hat.unbounded _, hat.indentUnit, hat.level, hat.atLineStart⟩
    · exact Sink.content_push _ _

/-- The first text on a line has the indentation before it. The empty text would begin no line, so it is
left out. -/
theorem Writes.textAtLineStart {value : String} (hvalue : value ≠ "") :
    Writes indentUnit (.lineStart level) [.text value] (.inLine level)
      (indentation indentUnit level ++ value) := by
  refine Writes.one fun writer hat => ?_
  have hstart : writer.atLineStart = true := hat.atLineStart
  have hlevel : writer.level = level := hat.level
  obtain ⟨sink, hindent, hroom, hcontent⟩ := indentBy_of_unbounded writer.level writer hat.unbounded
  have hput := put_of_unbounded { writer with sink := sink, atLineStart := false } hroom (.text value)
  refine ⟨{ writer with sink := sink.push (.text value), atLineStart := false }, ?_, ?_, ?_⟩
  · rw [perform, write, if_neg hvalue, beginLine, hstart, if_pos rfl, hindent]
    exact hput
  · exact ⟨Sink.room_push_of_unbounded hroom _, hat.indentUnit, hat.level, rfl⟩
  · rw [Sink.content_push, hcontent, hat.indentUnit, hlevel, String.append_assoc]
    rfl

/-- A line may end anywhere, and no indentation is written for a line that ends where it starts. -/
theorem Writes.lineFeed (atLineStart : Bool) :
    Writes indentUnit ⟨level, atLineStart⟩ [.lineFeed] (.lineStart level) "\n" := by
  refine Writes.one fun writer hat => ?_
  refine ⟨{ writer with sink := writer.sink.push .lineFeed, atLineStart := true }, ?_, ?_, ?_⟩
  · rw [perform, endLine, put_of_unbounded writer hat.unbounded]
    rfl
  · exact ⟨Sink.room_push_of_unbounded hat.unbounded _, hat.indentUnit, hat.level, rfl⟩
  · exact Sink.content_push _ _

theorem Writes.indent (atLineStart : Bool) :
    Writes indentUnit ⟨level, atLineStart⟩ [.indent] ⟨level + 1, atLineStart⟩ "" := by
  refine Writes.one fun writer hat => ?_
  refine ⟨{ writer with level := writer.level + 1 }, rfl, ?_, String.append_empty.symm⟩
  exact ⟨hat.unbounded, hat.indentUnit, congrArg (· + 1) hat.level, hat.atLineStart⟩

/-- A level ends only where there is one, which the position it starts from says. -/
theorem Writes.dedent (atLineStart : Bool) :
    Writes indentUnit ⟨level + 1, atLineStart⟩ [.dedent] ⟨level, atLineStart⟩ "" := by
  refine Writes.one fun writer hat => ?_
  refine ⟨{ writer with level := writer.level - 1 }, rfl, ?_, String.append_empty.symm⟩
  exact ⟨hat.unbounded, hat.indentUnit, congrArg (· - 1) hat.level, hat.atLineStart⟩

end Directives

/-! ## Directives put together -/

section Together

variable {indentUnit : String} {start middle finish : Position} {level : Nat}

theorem Writes.nil : Writes indentUnit start [] start "" :=
  fun writer hat => ⟨writer, rfl, hat, String.append_empty.symm⟩

/-- Directives one behind the other write their texts one behind the other. -/
theorem Writes.append {first second : List Directive} {text text' : String}
    (h : Writes indentUnit start first middle text) (h' : Writes indentUnit middle second finish text') :
    Writes indentUnit start (first ++ second) finish (text ++ text') := by
  intro writer hat
  obtain ⟨next, hrun, hnext, hcontent⟩ := h writer hat
  obtain ⟨last, hrun', hlast, hcontent'⟩ := h' next hnext
  refine ⟨last, ?_, hlast, ?_⟩
  · rw [run_append, hrun]
    exact hrun'
  · rw [hcontent', hcontent, String.append_assoc]

theorem Writes.cons {directive : Directive} {rest : List Directive} {text text' : String}
    (h : Writes indentUnit start [directive] middle text) (h' : Writes indentUnit middle rest finish text') :
    Writes indentUnit start (directive :: rest) finish (text ++ text') :=
  h.append h'

/-- A text and the end of its line. -/
theorem Writes.line (value : String) :
    Writes indentUnit (.inLine level) (Directive.line value) (.lineStart level) (value ++ "\n") :=
  (Writes.text value).cons (Writes.lineFeed _)

/-- What is written one level deeper leaves the level as it was. -/
theorem Writes.nested {body : List Directive} {atLineStart atLineStart' : Bool} {text : String}
    (h : Writes indentUnit ⟨level + 1, atLineStart⟩ body ⟨level + 1, atLineStart'⟩ text) :
    Writes indentUnit ⟨level, atLineStart⟩ (Directive.nested body) ⟨level, atLineStart'⟩ text := by
  have hall := (Writes.indent atLineStart).cons (h.append (Writes.dedent atLineStart'))
  rwa [String.append_empty, String.empty_append] at hall

/-- Items on one line. -/
theorem Writes.separated (separator : String) {items : List (List Directive)} {texts : List String}
    (h : List.Forall₂ (fun item text => Writes indentUnit (.inLine level) item (.inLine level) text)
      items texts) :
    Writes indentUnit (.inLine level) (Directive.separated separator items) (.inLine level)
      (separator.intercalate texts) := by
  induction h with
  | nil => exact Writes.nil
  | @cons item text items texts hitem hitems ih =>
    cases hitems with
    | nil =>
      rw [Directive.separated, List.intercalate_singleton, String.intercalate_singleton]
      exact hitem
    | cons =>
      rw [Directive.separated, List.intercalate_cons_cons, String.intercalate_cons_cons]
      exact (hitem.append (Writes.text separator)).append ih

/-- Items on lines of their own, from the start of the first line to the middle of the last. -/
theorem Writes.separatedLines (separator : String) {items : List (List Directive)} {texts : List String}
    (h : List.Forall₂ (fun item text => Writes indentUnit (.lineStart level) item (.inLine level) text)
      items texts) (hitems : items ≠ []) :
    Writes indentUnit (.lineStart level) (Directive.separatedLines separator items) (.inLine level)
      ((separator ++ "\n").intercalate texts) := by
  induction h with
  | nil => exact absurd rfl hitems
  | @cons item text items texts hitem hrest ih =>
    cases hrest with
    | nil =>
      rw [Directive.separatedLines, List.intercalate_singleton, String.intercalate_singleton]
      exact hitem
    | cons =>
      rw [Directive.separatedLines, List.intercalate_cons_cons, String.intercalate_cons_cons]
      exact (hitem.append (Writes.line separator)).append (ih (List.cons_ne_nil _ _))

end Together

end TwirpClient.Writer
