import TwirpClient.Proofs.Lines

/-!
# Calls

What becomes of the acts of a session if the sink may refuse a piece. A `Call` is an act at the moment at
which it is begun. The writer has pieces to put into the sink for it, and the sink takes them in a row up to
the first that it has no room for. `Call.perform_eq` says so of every act at once, and what else there is to
say about the session behind it, whether the act was carried out or broken off; whoever reasons about refused
pieces cites it and does not open the writer again.

A run is a row of calls. Each begins with what the one before it left, within a step and from one step to the
next, and whether that one failed or not (`Follow`).
-/

namespace TwirpClient.Writer

/-! ## What a sink takes -/

namespace Sink

/-- The sink with some more pieces. -/
def pushAll (sink : Sink) (pieces : List Piece) : Sink :=
  pieces.foldl push sink

/-- What a sink makes of pieces that it is offered in a row: those that it takes, and the one that it refuses.
With that one the row ends. -/
def offer (sink : Sink) : List Piece → List Piece × Option Piece
  | [] => ([], none)
  | piece :: rest =>
    if sink.accepts piece then
      let (taken, refused) := (sink.push piece).offer rest
      (piece :: taken, refused)
    else ([], some piece)

variable (sink : Sink)

theorem pushAll_append (first second : List Piece) :
    sink.pushAll (first ++ second) = (sink.pushAll first).pushAll second :=
  List.foldl_append

theorem pieces_pushAll (pieces : List Piece) :
    (sink.pushAll pieces).pieces.toList = sink.pieces.toList ++ pieces := by
  induction pieces generalizing sink with
  | nil => exact (List.append_nil _).symm
  | cons piece pieces ih =>
    have hpush : (sink.push piece).pieces.toList = sink.pieces.toList ++ [piece] := Array.toList_push
    rw [pushAll, List.foldl_cons, ← pushAll, ih, hpush, List.append_assoc, List.singleton_append]

theorem offer_cons_of_accepts {piece : Piece} (h : sink.accepts piece = true) (rest : List Piece) :
    sink.offer (piece :: rest) =
      (piece :: ((sink.push piece).offer rest).1, ((sink.push piece).offer rest).2) := by
  rw [offer, if_pos h]

theorem offer_cons_of_refuses {piece : Piece} (h : sink.accepts piece = false) (rest : List Piece) :
    sink.offer (piece :: rest) = ([], some piece) := by
  rw [offer, if_neg (Bool.not_eq_true _ ▸ h)]

/-- Either all pieces are taken, or those before the first that there is no room for. -/
theorem offer_cases (pieces : List Piece) :
    sink.offer pieces = (pieces, none) ∨
      ∃ kept piece rest, pieces = kept ++ piece :: rest ∧ (sink.pushAll kept).accepts piece = false ∧
        sink.offer pieces = (kept, some piece) := by
  induction pieces generalizing sink with
  | nil => exact .inl rfl
  | cons piece pieces ih =>
    cases haccepts : sink.accepts piece with
    | false => exact .inr ⟨[], piece, pieces, rfl, haccepts, sink.offer_cons_of_refuses haccepts pieces⟩
    | true =>
      rw [sink.offer_cons_of_accepts haccepts]
      rcases ih (sink.push piece) with hall | ⟨kept, refused, rest, rfl, hrefused, hoffer⟩
      · exact .inl (by rw [hall])
      · exact .inr ⟨piece :: kept, refused, rest, rfl, hrefused, by rw [hoffer]⟩

theorem offer_append_of_all {first : List Piece} (h : sink.offer first = (first, none)) (second : List Piece) :
    sink.offer (first ++ second) =
      (first ++ ((sink.pushAll first).offer second).1, ((sink.pushAll first).offer second).2) := by
  induction first generalizing sink with
  | nil => rfl
  | cons piece first ih =>
    cases haccepts : sink.accepts piece with
    | false =>
      rw [sink.offer_cons_of_refuses haccepts] at h
      cases h
    | true =>
      rw [sink.offer_cons_of_accepts haccepts, Prod.mk.injEq, List.cons.injEq] at h
      have hrest := ih (sink.push piece) (Prod.ext h.1.2 h.2)
      rw [List.cons_append, sink.offer_cons_of_accepts haccepts, hrest]
      rfl

theorem offer_append_of_refused {first : List Piece} {kept : List Piece} {piece : Piece}
    (h : sink.offer first = (kept, some piece)) (second : List Piece) :
    sink.offer (first ++ second) = (kept, some piece) := by
  induction first generalizing sink kept with
  | nil => cases h
  | cons head first ih =>
    cases haccepts : sink.accepts head with
    | false =>
      rw [sink.offer_cons_of_refuses haccepts] at h
      rw [List.cons_append, sink.offer_cons_of_refuses haccepts, h]
    | true =>
      rw [sink.offer_cons_of_accepts haccepts, Prod.mk.injEq] at h
      have hrest := ih (sink.push head) (Prod.ext rfl h.2)
      rw [List.cons_append, sink.offer_cons_of_accepts haccepts, hrest]
      exact Prod.ext h.1 rfl

end Sink

/-! ## What a writer puts into its sink -/

/-- Whether a line is still fresh when a piece for it is refused: behind the indentation it is begun. -/
def Piece.freshAfterRefusal (fresh : Bool) : Piece → Bool
  | .text _ => false
  | _ => fresh

variable (writer : Writer)

theorem indentBy_eq (count : Nat) :
    indentBy count writer =
      match writer.sink.offer (List.replicate count (.indentation writer.indentUnit)) with
      | (taken, none) => .ok { writer with sink := writer.sink.pushAll taken }
      | (taken, some _) => .error { writer with sink := writer.sink.pushAll taken } := by
  induction count generalizing writer with
  | zero => rfl
  | succ count ih =>
    cases haccepts : writer.sink.accepts (.indentation writer.indentUnit) with
    | false =>
      rw [indentBy, put, if_neg (Bool.not_eq_true _ ▸ haccepts), List.replicate_succ,
        Sink.offer_cons_of_refuses _ haccepts]
      rfl
    | true =>
      have hrest := ih { writer with sink := writer.sink.push (.indentation writer.indentUnit) }
      rw [indentBy, put, if_pos haccepts, List.replicate_succ, Sink.offer_cons_of_accepts _ haccepts]
      refine hrest.trans ?_
      rcases (writer.sink.push (.indentation writer.indentUnit)).offer
        (List.replicate count (.indentation writer.indentUnit)) with ⟨taken, _ | refused⟩
      · rfl
      · rfl

/-- The indentation that a line is begun with. -/
def lineIndent (writer : Writer) : List Piece :=
  if writer.atLineStart then List.replicate writer.level (.indentation writer.indentUnit) else []

theorem eq_indentation_of_mem_lineIndent {piece : Piece} (h : piece ∈ writer.lineIndent) :
    piece = .indentation writer.indentUnit := by
  rw [lineIndent] at h
  split at h
  · exact List.eq_of_mem_replicate h
  · cases h

theorem beginLine_eq :
    writer.beginLine =
      match writer.sink.offer writer.lineIndent with
      | (taken, none) => .ok { writer with sink := writer.sink.pushAll taken, atLineStart := false }
      | (taken, some _) => .error { writer with sink := writer.sink.pushAll taken } := by
  obtain ⟨indentUnit, sink, level, fresh⟩ := writer
  cases fresh with
  | false => rfl
  | true =>
    rw [beginLine, if_pos rfl, indentBy_eq, lineIndent, if_pos rfl]
    rcases sink.offer (List.replicate level (.indentation indentUnit)) with ⟨taken, _ | refused⟩
    · rfl
    · rfl

/-- A text is written in the pieces of its mark. -/
theorem write_eq (value : String) :
    writer.write value =
      match writer.sink.offer ((Mark.text value writer.level).pieces writer.indentUnit writer.atLineStart) with
      | (taken, none) => .ok { writer with
          sink := writer.sink.pushAll taken
          atLineStart := (Mark.text value writer.level).freshAfter writer.atLineStart }
      | (taken, some piece) => .error { writer with
          sink := writer.sink.pushAll taken
          atLineStart := piece.freshAfterRefusal writer.atLineStart } := by
  rcases eq_or_ne value "" with rfl | hvalue
  · rw [write, if_pos rfl, Mark.pieces_empty, Mark.freshAfter_empty]
    rfl
  rw [write, if_neg hvalue, beginLine_eq, Mark.pieces_text hvalue, ← lineIndent, Mark.freshAfter_text hvalue]
  rcases writer.sink.offer_cases writer.lineIndent with hall | ⟨kept, piece, rest, hsplit, -, hoffer⟩
  · rw [Sink.offer_append_of_all _ hall, hall]
    cases haccepts : (writer.sink.pushAll writer.lineIndent).accepts (.text value) with
    | false =>
      rw [Sink.offer_cons_of_refuses _ haccepts, List.append_nil]
      exact if_neg (Bool.not_eq_true _ ▸ haccepts)
    | true =>
      have hpush : writer.sink.pushAll (writer.lineIndent ++ [.text value]) =
          (writer.sink.pushAll writer.lineIndent).push (.text value) := Sink.pushAll_append _ _ _
      rw [Sink.offer_cons_of_accepts _ haccepts]
      exact (if_pos haccepts).trans (by simp only [Sink.offer, hpush])
  · obtain rfl : piece = .indentation writer.indentUnit :=
      writer.eq_indentation_of_mem_lineIndent (hsplit ▸ List.mem_append_right _ List.mem_cons_self)
    rw [Sink.offer_append_of_refused _ hoffer, hoffer]
    rfl

theorem endLine_eq :
    writer.endLine =
      match writer.sink.offer [.lineFeed] with
      | (taken, none) => .ok { writer with sink := writer.sink.pushAll taken, atLineStart := true }
      | (taken, some _) => .error { writer with sink := writer.sink.pushAll taken } := by
  cases haccepts : writer.sink.accepts .lineFeed with
  | false =>
    rw [endLine, put, if_neg (Bool.not_eq_true _ ▸ haccepts), Sink.offer_cons_of_refuses _ haccepts]
    rfl
  | true =>
    rw [endLine, put, if_pos haccepts, Sink.offer_cons_of_accepts _ haccepts]
    rfl

/-! ## Calls -/

/-- An act at the moment at which it is begun. -/
structure Call where
  session : Session
  act : Act

namespace Call

/-- What the call leaves, whether its act is carried out or not. -/
def after (call : Call) : Session :=
  leftBy (call.session.perform call.act)

/-- The pieces that the act has to put into the sink. -/
def due (call : Call) : List Piece :=
  match call.act.mark? call.session.writer.level with
  | some mark => mark.pieces call.session.writer.indentUnit call.session.writer.atLineStart
  | none => []

/-- The pieces that the sink took. -/
def taken (call : Call) : List Piece :=
  call.after.writer.sink.pieces.toList.drop call.session.writer.sink.pieces.size

/-- The piece that the sink refused, which is the first that was due and is not taken. -/
def refused? (call : Call) : Option Piece :=
  call.due[call.taken.length]?

end Call

/-- The level of the writer after an act. -/
def Act.levelAfter (held : List Hold) (level : Nat) : Act → Nat
  | hold => level + 1
  | release position => if position < held.length then level - 1 else level
  | _ => level

namespace Call

variable (call : Call)

/-- The session after an act that was carried out. -/
def completed : Session where
  writer := { call.session.writer with
    sink := call.session.writer.sink.pushAll call.due
    level := call.act.levelAfter call.session.held call.session.writer.level
    atLineStart := freshAfter call.session.writer.atLineStart (call.act.mark? call.session.writer.level).toList }
  held := call.act.heldAfter call.session.held

/-- The session after an act that was broken off at a piece, behind the pieces before it. -/
def brokenOff (kept : List Piece) (piece : Piece) : Session where
  writer := { call.session.writer with
    sink := call.session.writer.sink.pushAll kept
    atLineStart := piece.freshAfterRefusal call.session.writer.atLineStart }
  held := call.session.held

/-- An act that does not give up is carried out if the sink takes all that is due, and is otherwise broken off
at the piece that is refused. -/
theorem perform_eq (hact : call.act ≠ .fail) :
    call.session.perform call.act =
      match call.session.writer.sink.offer call.due with
      | (_, none) => .ok call.completed
      | (kept, some piece) => .error (call.brokenOff kept piece) := by
  obtain ⟨⟨writer, held⟩, act⟩ := call
  have hone : ∀ directive, writer.run [directive] = writer.perform directive := fun directive => by
    rw [run_cons]
    exact bind_pure _
  cases act with
  | write value =>
    have hdue : due ⟨⟨writer, held⟩, .write value⟩ =
        (Mark.text value writer.level).pieces writer.indentUnit writer.atLineStart := rfl
    rw [Session.perform, Act.directives, hone, Writer.perform, write_eq, ← hdue]
    rcases writer.sink.offer_cases (due ⟨⟨writer, held⟩, .write value⟩) with
      hall | ⟨kept, piece, rest, -, -, hoffer⟩
    · rw [hall]
      rfl
    · rw [hoffer]
      rfl
  | endLine =>
    have hdue : due ⟨⟨writer, held⟩, .endLine⟩ = [.lineFeed] := rfl
    rw [Session.perform, Act.directives, hone, Writer.perform, endLine_eq, hdue]
    rcases writer.sink.offer_cases [.lineFeed] with hall | ⟨kept, piece, rest, hsplit, -, hoffer⟩
    · rw [hall]
      rfl
    · obtain rfl : piece = .lineFeed :=
        List.mem_singleton.mp (hsplit ▸ List.mem_append_right kept List.mem_cons_self)
      rw [hoffer]
      rfl
  | hold => rfl
  | release position =>
    by_cases hposition : position < held.length
    · rw [Session.perform, Act.directives, if_pos hposition, hone]
      simp only [completed, Act.levelAfter, if_pos hposition]
      rfl
    · rw [Session.perform, Act.directives, if_neg hposition]
      simp only [completed, Act.levelAfter, if_neg hposition]
      rfl
  | fail => exact absurd rfl hact

theorem due_of_fail (hact : call.act = .fail) : call.due = [] := by
  rw [due, hact]
  rfl

/-- What is due is offered in a row. -/
theorem taken_refused_eq_offer :
    (call.taken, call.refused?) = call.session.writer.sink.offer call.due := by
  have hpieces : ∀ kept : List Piece, call.after.writer.sink = call.session.writer.sink.pushAll kept →
      call.taken = kept := by
    intro kept hsink
    rw [taken, hsink, Sink.pieces_pushAll, ← Array.length_toList, List.drop_left]
  by_cases hact : call.act = .fail
  · have hdue := call.due_of_fail hact
    have hafter : call.after.writer.sink = call.session.writer.sink.pushAll [] := by
      rw [after, hact]
      rfl
    rw [refused?, hpieces [] hafter, hdue]
    rfl
  · have hperform := call.perform_eq hact
    rcases call.session.writer.sink.offer_cases call.due with hall | ⟨kept, piece, rest, hdue, -, hoffer⟩
    · rw [hall] at hperform
      have htaken : call.taken = call.due := hpieces call.due (by rw [after, hperform]; rfl)
      rw [hall, refused?, htaken, List.getElem?_length]
    · rw [hoffer] at hperform
      have htaken : call.taken = kept := hpieces kept (by rw [after, hperform]; rfl)
      rw [hoffer, refused?, htaken, hdue, List.getElem?_append_right (Nat.le_refl _), Nat.sub_self]
      rfl

theorem taken_eq_offer : call.taken = (call.session.writer.sink.offer call.due).1 :=
  congrArg Prod.fst call.taken_refused_eq_offer

/-- A call comes to its end with all that is due, or it is broken off at a piece that there is no room for. -/
theorem after_cases :
    (call.refused? = none ∧ call.taken = call.due ∧ call.after = call.completed) ∨
      ∃ piece rest, call.refused? = some piece ∧ call.due = call.taken ++ piece :: rest ∧
        (call.session.writer.sink.pushAll call.taken).accepts piece = false ∧
        call.after = call.brokenOff call.taken piece := by
  have hoffered := call.taken_refused_eq_offer
  rcases call.session.writer.sink.offer_cases call.due with hall | ⟨kept, piece, rest, hdue, hrefuses, hoffer⟩
  · rw [hall, Prod.mk.injEq] at hoffered
    refine .inl ⟨hoffered.2, hoffered.1, ?_⟩
    by_cases hact : call.act = .fail
    · obtain ⟨session, act⟩ := call
      subst hact
      rfl
    · rw [after, call.perform_eq hact, hall]
      rfl
  · rw [hoffer, Prod.mk.injEq] at hoffered
    obtain ⟨rfl, hrefused⟩ := hoffered
    have hact : call.act ≠ .fail := by
      intro hact
      rw [call.due_of_fail hact] at hdue
      exact List.append_ne_nil_of_right_ne_nil _ (List.cons_ne_nil _ _) hdue.symm
    refine .inr ⟨piece, rest, hrefused, hdue, hrefuses, ?_⟩
    rw [after, call.perform_eq hact, hoffer]
    rfl

theorem taken_prefix_due : call.taken <+: call.due := by
  rcases call.after_cases with ⟨-, htaken, -⟩ | ⟨piece, rest, -, hdue, -, -⟩
  · exact htaken ▸ List.prefix_rfl
  · exact ⟨piece :: rest, hdue.symm⟩

/-- A call with which a piece is refused is broken off there. -/
theorem after_of_refused {piece : Piece} (h : call.refused? = some piece) :
    (∃ rest, call.due = call.taken ++ piece :: rest) ∧
      (call.session.writer.sink.pushAll call.taken).accepts piece = false ∧
      call.after = call.brokenOff call.taken piece := by
  rcases call.after_cases with ⟨hnone, -, -⟩ | ⟨piece', rest, hpiece, hdue, hrefuses, hafter⟩
  · cases h.symm.trans hnone
  · obtain rfl := Option.some.inj (hpiece.symm.trans h)
    exact ⟨⟨rest, hdue⟩, hrefuses, hafter⟩

/-- An act that does not give up is carried out if nothing is refused. -/
theorem perform_of_not_refused (hact : call.act ≠ .fail) (h : call.refused? = none) :
    call.session.perform call.act = .ok call.completed := by
  have hperform := call.perform_eq hact
  rw [← call.taken_refused_eq_offer, h] at hperform
  exact hperform

/-- An act fails if something is refused. -/
theorem perform_of_refused {piece : Piece} (h : call.refused? = some piece) :
    call.session.perform call.act = .error call.after := by
  have hoffered := call.taken_refused_eq_offer
  have hact : call.act ≠ .fail := by
    intro hact
    rw [call.due_of_fail hact, h] at hoffered
    cases congrArg Prod.snd hoffered
  have hperform := call.perform_eq hact
  rw [← hoffered, h] at hperform
  rw [after, hperform]
  rfl

/-- Of what is due, nothing is skipped. -/
theorem sink_after : call.after.writer.sink = call.session.writer.sink.pushAll call.taken := by
  rcases call.after_cases with ⟨-, htaken, hafter⟩ | ⟨piece, rest, -, -, -, hafter⟩
  · rw [hafter, htaken]
    rfl
  · rw [hafter]
    rfl

end Call

/-! ## Rows of calls -/

/-- The calls of acts that are done in their order, up to the first that fails. -/
def Session.callsOf (session : Session) : List Act → List Call
  | [] => []
  | act :: rest =>
    ⟨session, act⟩ ::
      match session.perform act with
      | .ok next => next.callsOf rest
      | .error _ => []

/-- The calls of steps. A step that fails does not keep the next one from being done. -/
def Session.calls : Session → List Step → List Call
  | _, [] => []
  | session, step :: rest =>
    session.callsOf (step.acts session.held.length) ++ (session.advance step).1.calls rest

/-- Calls that lead from one session to another, each begun where the one before it ended. -/
inductive Follow : Session → List Call → Session → Prop
  | nil (session : Session) : Follow session [] session
  | cons (call : Call) {calls : List Call} {last : Session} (h : Follow call.after calls last) :
    Follow call.session (call :: calls) last

namespace Follow

variable {session middle last : Session} {calls calls' : List Call}

theorem append (h : Follow session calls middle) (h' : Follow middle calls' last) :
    Follow session (calls ++ calls') last := by
  induction h with
  | nil session => exact h'
  | cons call h ih => exact cons call (ih h')

/-- A row of calls can be taken apart at any place. -/
theorem split (h : Follow session (calls ++ calls') last) :
    ∃ middle, Follow session calls middle ∧ Follow middle calls' last := by
  induction calls generalizing session with
  | nil => exact ⟨session, nil session, h⟩
  | cons call calls ih =>
    cases h with
    | cons _ h =>
      obtain ⟨middle, hfront, hrest⟩ := ih h
      exact ⟨middle, cons call hfront, hrest⟩

/-- The call at some place of a row begins where the calls before it ended, and those behind it go on. -/
theorem at_call {call : Call} (h : Follow session (calls ++ call :: calls') last) :
    Follow session calls call.session ∧ Follow call.after calls' last := by
  obtain ⟨middle, hfront, hrest⟩ := h.split
  cases hrest with
  | cons _ hrest => exact ⟨hfront, hrest⟩

/-- What each call keeps holds after all of them. -/
theorem keeps {P : Session → Prop} (h : Follow session calls last) (hstart : P session)
    (hstep : ∀ call ∈ calls, P call.session → P call.after) : P last := by
  induction h with
  | nil session => exact hstart
  | cons call h ih =>
    rw [List.forall_mem_cons] at hstep
    exact ih (hstep.1 hstart) hstep.2

/-- The sink of the last session has what was there before and what the calls put into it. -/
theorem pieces (h : Follow session calls last) :
    last.writer.sink.pieces.toList = session.writer.sink.pieces.toList ++ calls.flatMap Call.taken := by
  induction h with
  | nil session => exact (List.append_nil _).symm
  | cons call h ih => rw [ih, call.sink_after, Sink.pieces_pushAll, List.append_assoc, List.flatMap_cons]

end Follow

theorem Session.follow_callsOf (session : Session) (acts : List Act) :
    Follow session (session.callsOf acts) (leftBy (session.performAll acts)) := by
  induction acts generalizing session with
  | nil => exact Follow.nil session
  | cons act acts ih =>
    have hafter : (Call.mk session act).after = leftBy (session.perform act) := rfl
    rw [callsOf, performAll, List.foldlM_cons]
    cases hperform : session.perform act with
    | error next =>
      refine Follow.cons ⟨session, act⟩ ?_
      rw [hafter, hperform]
      exact Follow.nil next
    | ok next =>
      refine Follow.cons ⟨session, act⟩ ?_
      rw [hafter, hperform]
      exact ih next

/-- A run goes from call to call. -/
theorem Session.follow_calls (session : Session) (steps : List Step) :
    Follow session (session.calls steps) (session.run steps).1 := by
  induction steps generalizing session with
  | nil => exact Follow.nil session
  | cons step steps ih => exact (session.follow_callsOf _).append (ih _)

end TwirpClient.Writer
