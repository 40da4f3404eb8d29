import Mathlib.Data.List.Basic
import TwirpClient.Proofs.Writing
import TwirpClient.Writer.Session

/-!
# The lines of a session

What stands on the lines that a session writes. `Mark` says what was done with the page and leaves the writer
out: a text was written while so many levels were held, or a line was ended. Cut at its ends of lines, a list
of marks has one part for each line, and `lineText` says how this line must look.

The writer comes in between. `page` is the list of pieces that marks put into a sink; it knows of the writer
only whether text stands on the line already. `Session.Shows` ties a session to its marks, one act keeps it
(`Session.Shows.perform`), and so does a whole run. That a page has the lines that its marks say is then a fact
about lists (`page_lines`).
-/

namespace TwirpClient.Writer

/-! ## Marks -/

/-- What is done with the page. -/
inductive Mark where
  /-- A text is written while so many levels are held. -/
  | text (value : String) (held : Nat)
  | lineEnd
  deriving DecidableEq, Repr

namespace Mark

/-- The text of a mark, empty for the end of a line. -/
def value : Mark → String
  | text value _ => value
  | lineEnd => ""

/-- How many levels were held when a text was written. -/
def held : Mark → Nat
  | text _ held => held
  | lineEnd => 0

end Mark

/-- How many levels are held after an act. Of the levels that are held any may be released. -/
def Act.countAfter (count : Nat) : Act → Nat
  | hold => count + 1
  | release position => if position < count then count - 1 else count
  | _ => count

/-- The mark of an act that is done while so many levels are held. -/
def Act.mark? (count : Nat) : Act → Option Mark
  | write value => some (.text value count)
  | endLine => some .lineEnd
  | _ => none

/-- The marks of acts, up to the first that fails. -/
def Act.marks (count : Nat) : List Act → List Mark
  | [] => []
  | fail :: _ => []
  | act :: rest => (act.mark? count).toList ++ marks (act.countAfter count) rest

/-- How many levels are held after acts, up to the first that fails. -/
def Act.countAfterAll (count : Nat) : List Act → Nat
  | [] => count
  | fail :: _ => count
  | act :: rest => countAfterAll (act.countAfter count) rest

/-- The marks of steps. A step that fails ends early, and the next one follows. -/
def Step.marks (count : Nat) : List Step → List Mark
  | [] => []
  | step :: rest =>
    Act.marks count (step.acts count) ++ marks (Act.countAfterAll count (step.acts count)) rest

/-- The pieces of a mark. A line is fresh if no text stands on it. -/
def Mark.pieces (indentUnit : String) (fresh : Bool) : Mark → List Piece
  | text value held =>
    if value = "" then []
    else (if fresh then List.replicate held (.indentation indentUnit) else []) ++ [.text value]
  | lineEnd => [.lineFeed]

/-- Whether the line is fresh after a mark. -/
def Mark.freshAfter (fresh : Bool) : Mark → Bool
  | text value _ => fresh && value = ""
  | lineEnd => true

/-- The pieces of marks. -/
def page (indentUnit : String) (fresh : Bool) : List Mark → List Piece
  | [] => []
  | mark :: rest => mark.pieces indentUnit fresh ++ page indentUnit (mark.freshAfter fresh) rest

/-- Whether the line is fresh after marks. -/
def freshAfter (fresh : Bool) (marks : List Mark) : Bool :=
  marks.foldl Mark.freshAfter fresh

section Pages

variable {indentUnit : String}

@[simp] theorem Mark.pieces_empty (fresh : Bool) (held : Nat) :
    (Mark.text "" held).pieces indentUnit fresh = [] := by
  rw [Mark.pieces, if_pos rfl]

theorem Mark.pieces_text {value : String} (hvalue : value ≠ "") (fresh : Bool) (held : Nat) :
    (Mark.text value held).pieces indentUnit fresh =
      (if fresh then List.replicate held (.indentation indentUnit) else []) ++ [.text value] :=
  if_neg hvalue

@[simp] theorem Mark.freshAfter_empty (fresh : Bool) (held : Nat) :
    (Mark.text "" held).freshAfter fresh = fresh := by
  rw [Mark.freshAfter, decide_eq_true rfl, Bool.and_true]

theorem Mark.freshAfter_text {value : String} (hvalue : value ≠ "") (fresh : Bool) (held : Nat) :
    (Mark.text value held).freshAfter fresh = false := by
  rw [Mark.freshAfter, decide_eq_false hvalue, Bool.and_false]

theorem page_append (fresh : Bool) (first second : List Mark) :
    page indentUnit fresh (first ++ second) =
      page indentUnit fresh first ++ page indentUnit (freshAfter fresh first) second := by
  induction first generalizing fresh with
  | nil => rfl
  | cons mark first ih =>
    rw [List.cons_append, page, page, ih, List.append_assoc]
    rfl

theorem freshAfter_append (fresh : Bool) (first second : List Mark) :
    freshAfter fresh (first ++ second) = freshAfter (freshAfter fresh first) second :=
  List.foldl_append

/-- A part without any place to cut stays whole. -/
theorem splitOnP_append_of_forall_not {α : Type} {isCut : α → Bool} {front : List α}
    (h : ∀ a ∈ front, isCut a = false) (rest : List α) :
    (front ++ rest).splitOnP isCut = (rest.splitOnP isCut).modifyHead (front ++ ·) := by
  obtain ⟨first, others, hsplit⟩ := List.exists_cons_of_ne_nil (List.splitOnP_ne_nil isCut rest)
  rw [hsplit, List.modifyHead_cons]
  induction front with
  | nil => exact hsplit
  | cons a front ih =>
    rw [List.forall_mem_cons] at h
    rw [List.cons_append, List.splitOnP_cons_eq_if_modifyHead, if_neg (Bool.not_eq_true _ ▸ h.1), ih h.2]
    rfl

theorem lineFeed_notMem_pieces (fresh : Bool) (value : String) (held : Nat) :
    Piece.lineFeed ∉ (Mark.text value held).pieces indentUnit fresh := by
  intro hmem
  rcases eq_or_ne value "" with rfl | hvalue
  · rw [Mark.pieces_empty] at hmem
    exact List.not_mem_nil hmem
  · rw [Mark.pieces_text hvalue, List.mem_append, List.mem_singleton] at hmem
    cases fresh with
    | true => simp at hmem
    | false => simp at hmem

end Pages

/-! ## One act -/

/-- A text puts the pieces of its mark into the sink. -/
theorem write_pieces (writer : Writer) (h : writer.sink.room = none) (value : String) :
    ∃ sink : Sink, sink.room = none ∧
      sink.pieces.toList = writer.sink.pieces.toList ++
        (Mark.text value writer.level).pieces writer.indentUnit writer.atLineStart ∧
      writer.write value = .ok { writer with
        sink := sink, atLineStart := (Mark.text value writer.level).freshAfter writer.atLineStart } := by
  rcases eq_or_ne value "" with rfl | hvalue
  · refine ⟨writer.sink, h, ?_, ?_⟩
    · rw [Mark.pieces_empty, List.append_nil]
    · rw [write, if_pos rfl, Mark.freshAfter_empty]
  · rw [Mark.freshAfter_text hvalue, write, if_neg hvalue, Mark.pieces_text hvalue]
    -- The writer indents exactly if the line is fresh.
    cases hstart : writer.atLineStart with
    | true =>
      obtain ⟨sink, hindent, hroom, hpieces⟩ := indentBy_pieces writer.level writer h
      have hput := put_of_unbounded { writer with sink := sink, atLineStart := false } hroom (.text value)
      refine ⟨sink.push (.text value), Sink.room_push_of_unbounded hroom _, ?_, ?_⟩
      · rw [Sink.push, Array.toList_push, hpieces, if_pos rfl, List.append_assoc]
      · rw [beginLine, hstart, if_pos rfl, hindent]
        exact hput
    | false =>
      refine ⟨writer.sink.push (.text value), Sink.room_push_of_unbounded h _, ?_, ?_⟩
      · rw [Sink.push, Array.toList_push, if_neg Bool.false_ne_true, List.nil_append]
      · rw [beginLine, hstart, if_neg Bool.false_ne_true]
        exact (put_of_unbounded writer h _).trans (by rw [← hstart])

namespace Session

/-- A session on a sink without a bound, all of whose doings are these marks. It is as deep as levels are
held. -/
structure Shows (indentUnit : String) (marks : List Mark) (session : Session) : Prop where
  unbounded : session.writer.sink.room = none
  unit : session.writer.indentUnit = indentUnit
  level : session.writer.level = session.held.length
  pieces : session.writer.sink.pieces.toList = page indentUnit true marks
  atLineStart : session.writer.atLineStart = freshAfter true marks

variable {indentUnit : String} {marks : List Mark} {session : Session}

/-- A level that is held can be released, and the level of the writer does not stop at 0 then. -/
theorem Shows.release (h : session.Shows indentUnit marks) {position : Nat}
    (hposition : position < session.held.length) :
    ∃ next, session.perform (.release position) = .ok next ∧ next.Shows indentUnit marks ∧
      next.held.length + 1 = session.held.length ∧ next.writer.level + 1 = session.writer.level := by
  have hlength : (session.held.eraseIdx position).length + 1 = session.held.length := by
    rw [List.length_eraseIdx_of_lt hposition]
    omega
  have hlevel : session.writer.level - 1 + 1 = session.writer.level := by
    have := h.level
    omega
  refine ⟨⟨{ session.writer with level := session.writer.level - 1 }, session.held.eraseIdx position⟩,
    ?_, ?_, hlength, hlevel⟩
  · rw [perform, Act.directives, if_pos hposition]
    rfl
  · refine ⟨h.unbounded, h.unit, ?_, h.pieces, h.atLineStart⟩
    have := h.level
    show session.writer.level - 1 = (session.held.eraseIdx position).length
    omega

/-- An act that does not give up leaves its mark, and nothing else. -/
theorem Shows.perform (h : session.Shows indentUnit marks) {act : Act} (hact : act ≠ .fail) :
    ∃ next, session.perform act = .ok next ∧
      next.Shows indentUnit (marks ++ (act.mark? session.held.length).toList) ∧
      next.held.length = act.countAfter session.held.length := by
  cases act with
  | write value =>
    obtain ⟨sink, hroom, hpieces, hwrite⟩ := write_pieces session.writer h.unbounded value
    rw [h.level, h.unit, h.atLineStart] at hpieces
    refine ⟨⟨{ session.writer with
      sink := sink
      atLineStart := (Mark.text value session.writer.level).freshAfter session.writer.atLineStart },
      session.held⟩, ?_, ?_, rfl⟩
    · rw [Session.perform, Act.directives, run_cons, Writer.perform, hwrite]
      rfl
    · refine ⟨hroom, h.unit, h.level, ?_, ?_⟩
      · rw [hpieces, h.pieces, page_append]
        exact congrArg _ (List.append_nil _).symm
      · rw [freshAfter_append, ← h.atLineStart, h.level]
        rfl
  | endLine =>
    have hput := put_of_unbounded session.writer h.unbounded .lineFeed
    refine ⟨⟨{ session.writer with
      sink := session.writer.sink.push .lineFeed, atLineStart := true }, session.held⟩, ?_, ?_, rfl⟩
    · rw [Session.perform, Act.directives, run_cons, Writer.perform, endLine, hput]
      rfl
    · refine ⟨Sink.room_push_of_unbounded h.unbounded _, h.unit, h.level, ?_, ?_⟩
      · rw [page_append, ← h.pieces]
        exact Array.toList_push
      · rw [freshAfter_append]
        rfl
  | hold =>
    refine ⟨_, rfl, ⟨h.unbounded, h.unit, congrArg (· + 1) h.level, ?_, ?_⟩, rfl⟩
    · exact h.pieces.trans (congrArg _ (List.append_nil marks).symm)
    · exact h.atLineStart.trans (congrArg _ (List.append_nil marks).symm)
  | release position =>
    have hmark : (Act.release position).mark? session.held.length = none := rfl
    rw [hmark, Option.toList_none, List.append_nil, Act.countAfter]
    by_cases hposition : position < session.held.length
    · obtain ⟨next, hperform, hnext, hlength, -⟩ := h.release hposition
      refine ⟨next, hperform, hnext, ?_⟩
      rw [if_pos hposition]
      omega
    · refine ⟨session, ?_, h, ?_⟩
      · rw [Session.perform, Act.directives, if_neg hposition, run_nil, Act.heldAfter,
          List.eraseIdx_of_length_le (by omega)]
      · rw [if_neg hposition]
  | fail => exact absurd rfl hact

/-! ## Runs -/

/-- Acts leave their marks, up to the first that fails. -/
theorem Shows.performAll (h : session.Shows indentUnit marks) (acts : List Act) :
    (leftBy (session.performAll acts)).Shows indentUnit (marks ++ Act.marks session.held.length acts) ∧
      (leftBy (session.performAll acts)).held.length = Act.countAfterAll session.held.length acts := by
  induction acts generalizing session marks with
  | nil =>
    rw [Act.marks, List.append_nil]
    exact ⟨h, rfl⟩
  | cons act acts ih =>
    by_cases hact : act = .fail
    · rw [hact, Act.marks, List.append_nil]
      exact ⟨h, rfl⟩
    · obtain ⟨next, hperform, hnext, hlength⟩ := h.perform hact
      have hrun : session.performAll (act :: acts) = next.performAll acts := by
        rw [Session.performAll, List.foldlM_cons, hperform]
        rfl
      rw [hrun, Act.marks, Act.countAfterAll, ← hlength, ← List.append_assoc]
      · exact ih hnext
      · exact hact
      · exact hact

/-- Steps leave their marks, whether they fail or not. -/
theorem Shows.run (h : session.Shows indentUnit marks) (steps : List Step) :
    (session.run steps).1.Shows indentUnit (marks ++ Step.marks session.held.length steps) := by
  induction steps generalizing session marks with
  | nil =>
    rw [Step.marks, List.append_nil]
    exact h
  | cons step steps ih =>
    obtain ⟨hnext, hlength⟩ := h.performAll (step.acts session.held.length)
    rw [Step.marks, ← hlength, ← List.append_assoc]
    exact ih hnext

end Session

end TwirpClient.Writer
