import TwirpClient.Proofs.Calls

/-!
# Runs on a bounded sink

A session on a sink with a limit, beside the same session on a sink without one. As long as nothing is refused
the two cannot be told apart. Where a piece is refused, the step that it belongs to fails, and it does nothing
more; without a limit that step would have gone on from just this place (`Session.performAll_unbounded`). So
the output within the limit is cut between two pieces, and that happens exactly if the whole output is longer
than the limit (`run_bounded`).
-/

namespace TwirpClient.Writer

/-! ## Without the bound -/

/-- The sink with the same pieces and no bound. -/
def Sink.unbounded (sink : Sink) : Sink := { sink with room := none }

theorem Sink.pushAll_unbounded (sink : Sink) (pieces : List Piece) :
    sink.unbounded.pushAll pieces = (sink.pushAll pieces).unbounded := by
  induction pieces generalizing sink with
  | nil => rfl
  | cons piece pieces ih => exact ih (sink.push piece)

theorem Sink.offer_unbounded (sink : Sink) (pieces : List Piece) :
    sink.unbounded.offer pieces = (pieces, none) := by
  induction pieces generalizing sink with
  | nil => rfl
  | cons piece pieces ih =>
    rw [Sink.offer_cons_of_accepts _ rfl]
    exact congrArg (fun offered => (piece :: offered.1, offered.2)) (ih (sink.push piece))

/-- The session as it would stand if its sink had no bound. -/
def Session.unbounded (session : Session) : Session :=
  { session with writer := { session.writer with sink := session.writer.sink.unbounded } }

namespace Call

variable (call : Call)

/-- The call as it would be if the sink had no bound. -/
def unbounded : Call := ⟨call.session.unbounded, call.act⟩

theorem completed_unbounded : call.unbounded.completed = call.completed.unbounded := by
  have hsink := call.session.writer.sink.pushAll_unbounded call.due
  exact congrArg (fun sink => { call.completed with writer := { call.completed.writer with sink } }) hsink

/-- Without a bound every act is carried out that does not give up. -/
theorem perform_unbounded (hact : call.act ≠ .fail) :
    call.session.unbounded.perform call.act = .ok call.completed.unbounded := by
  have hperform := call.unbounded.perform_eq hact
  have hoffer : call.unbounded.session.writer.sink.offer call.unbounded.due = (call.unbounded.due, none) :=
    Sink.offer_unbounded _ _
  rw [hoffer] at hperform
  exact hperform.trans (congrArg _ call.completed_unbounded)

end Call

/-! ## One step -/

namespace Session

variable (session : Session)

theorem performAll_cons (act : Act) (acts : List Act) :
    session.performAll (act :: acts) = session.perform act >>= fun next => next.performAll acts := rfl

theorem pieces_prefix_performAll (acts : List Act) :
    session.writer.sink.pieces.toList <+: (leftBy (session.performAll acts)).writer.sink.pieces.toList :=
  ⟨_, (session.follow_callsOf acts).pieces.symm⟩

/-- A call with which something is refused is the last of its acts. -/
theorem performAll_of_refused {acts : List Act} {before rest : List Call} {call : Call} {piece : Piece}
    (hcalls : session.callsOf acts = before ++ call :: rest) (hrefused : call.refused? = some piece) :
    rest = [] ∧ session.performAll acts = .error call.after := by
  induction acts generalizing session before with
  | nil => exact absurd hcalls.symm (List.append_ne_nil_of_right_ne_nil _ (List.cons_ne_nil _ _))
  | cons act acts ih =>
    rw [performAll_cons]
    rw [callsOf] at hcalls
    cases before with
    | nil =>
      obtain ⟨hcall, hrest⟩ := List.cons.inj hcalls
      subst hcall
      have hperform := Call.perform_of_refused _ hrefused
      rw [hperform] at hrest ⊢
      exact ⟨hrest.symm, rfl⟩
    | cons first before =>
      have hrest := (List.cons.inj hcalls).2
      cases hperform : session.perform act with
      | error next =>
        rw [hperform] at hrest
        exact absurd hrest.symm (List.append_ne_nil_of_right_ne_nil _ (List.cons_ne_nil _ _))
      | ok next =>
        rw [hperform] at hrest
        exact ih next hrest

/-- A session on a bounded sink does what it would do without the bound, or some piece is refused. Then it
stops at that piece, which without the bound would come next. -/
theorem performAll_unbounded (acts : List Act) :
    ((∀ call ∈ session.callsOf acts, call.refused? = none) ∧
      leftBy (session.unbounded.performAll acts) = (leftBy (session.performAll acts)).unbounded ∧
      (session.unbounded.performAll acts).isOk = (session.performAll acts).isOk) ∨
    ∃ call ∈ session.callsOf acts, ∃ piece, call.refused? = some piece ∧
      session.performAll acts = .error call.after ∧
      call.after.writer.sink.pieces.toList ++ [piece] <+:
        (leftBy (session.unbounded.performAll acts)).writer.sink.pieces.toList := by
  induction acts generalizing session with
  | nil => exact .inl ⟨fun call hcall => absurd hcall List.not_mem_nil, rfl, rfl⟩
  | cons act acts ih =>
    rw [performAll_cons, performAll_cons, callsOf]
    -- An act that gives up does so with and without a bound.
    by_cases hfail : act = .fail
    · subst hfail
      refine .inl ⟨?_, rfl, rfl⟩
      exact List.forall_mem_singleton.mpr rfl
    have hunbounded := Call.perform_unbounded ⟨session, act⟩ hfail
    rcases Call.after_cases ⟨session, act⟩ with ⟨hnone, -, -⟩ | ⟨piece, rest, hrefused, hdue, -, -⟩
    · rw [hunbounded, Call.perform_of_not_refused ⟨session, act⟩ hfail hnone]
      rcases ih (Call.completed ⟨session, act⟩) with ⟨hall, hleft, hok⟩ | ⟨call, hcall, hcut⟩
      · exact .inl ⟨List.forall_mem_cons.mpr ⟨hnone, hall⟩, hleft, hok⟩
      · exact .inr ⟨call, List.mem_cons_of_mem _ hcall, hcut⟩
    · rw [hunbounded, Call.perform_of_refused ⟨session, act⟩ hrefused]
      refine .inr ⟨⟨session, act⟩, List.mem_cons_self, piece, hrefused, rfl, ?_⟩
      have hnext : (Call.after ⟨session, act⟩).writer.sink.pieces.toList ++ [piece] <+:
          (Call.completed ⟨session, act⟩).unbounded.writer.sink.pieces.toList := by
        refine ⟨rest, ?_⟩
        show _ = (session.writer.sink.pushAll (Call.due ⟨session, act⟩)).pieces.toList
        rw [Call.sink_after, Sink.pieces_pushAll, Sink.pieces_pushAll, hdue, List.append_assoc, List.append_assoc,
          List.singleton_append]
      exact hnext.trans (pieces_prefix_performAll _ acts)

end Session

/-! ## Room and limit -/

namespace Sink

/-- More pieces are more text. -/
theorem content_of_pieces {sink next : Sink} {pieces : List Piece}
    (h : next.pieces.toList = sink.pieces.toList ++ pieces) : next.content = sink.content ++ contentOf pieces := by
  rw [content, h, contentOf_append]
  rfl

/-- What the sink has taken and the room that is left make up the limit. -/
def Within (limit : Nat) (sink : Sink) : Prop :=
  ∃ room, sink.room = some room ∧ sink.content.utf8ByteSize + room = limit

variable {limit : Nat} {sink : Sink}

theorem Within.push (h : sink.Within limit) {piece : Piece} (haccepts : sink.accepts piece = true) :
    (sink.push piece).Within limit := by
  obtain ⟨room, hroom, hlimit⟩ := h
  rw [accepts, hroom] at haccepts
  have hsize : piece.size ≤ room := of_decide_eq_true haccepts
  refine ⟨room - piece.size, ?_, ?_⟩
  · rw [Sink.push, hroom]
    rfl
  · rw [content_push, String.utf8ByteSize_append, ← Piece.size]
    omega

theorem Within.pushAll_offer (h : sink.Within limit) (pieces : List Piece) :
    (sink.pushAll (sink.offer pieces).1).Within limit := by
  induction pieces generalizing sink with
  | nil => exact h
  | cons piece pieces ih =>
    cases haccepts : sink.accepts piece with
    | false =>
      rw [sink.offer_cons_of_refuses haccepts]
      exact h
    | true =>
      rw [sink.offer_cons_of_accepts haccepts]
      exact ih (h.push haccepts)

theorem Within.size_le (h : sink.Within limit) : sink.content.utf8ByteSize ≤ limit := by
  obtain ⟨room, -, hlimit⟩ := h
  omega

theorem Within.limit_lt (h : sink.Within limit) {piece : Piece} (hrefuses : sink.accepts piece = false) :
    limit < sink.content.utf8ByteSize + piece.size := by
  obtain ⟨room, hroom, hlimit⟩ := h
  rw [accepts, hroom] at hrefuses
  have hsize : ¬piece.size ≤ room := of_decide_eq_false hrefuses
  omega

end Sink

namespace Call

variable {call : Call} {limit : Nat}

theorem within_after (h : call.session.writer.sink.Within limit) : call.after.writer.sink.Within limit := by
  rw [call.sink_after, call.taken_eq_offer]
  exact h.pushAll_offer call.due

/-- A piece is refused if it would go beyond the limit. -/
theorem limit_lt_of_refused (h : call.session.writer.sink.Within limit) {piece : Piece}
    (hrefused : call.refused? = some piece) :
    limit < call.after.writer.sink.content.utf8ByteSize + piece.size := by
  have hrefuses := (call.after_of_refused hrefused).2.1
  rw [← call.sink_after] at hrefuses
  exact (within_after h).limit_lt hrefuses

end Call

theorem Follow.within {session last : Session} {calls : List Call} {limit : Nat} (h : Follow session calls last)
    (hwithin : session.writer.sink.Within limit) : last.writer.sink.Within limit :=
  h.keeps (P := fun session => session.writer.sink.Within limit) hwithin fun _ _ => Call.within_after

/-! ## Runs -/

namespace Session

variable {session : Session} {step : Step} {steps : List Step} {limit : Nat}

/-- In some step a piece is refused. -/
def Refuses (session : Session) (steps : List Step) : Prop :=
  ∃ call ∈ session.calls steps, ∃ piece, call.refused? = some piece

theorem calls_singleton (session : Session) (step : Step) :
    session.calls [step] = session.callsOf (step.acts session.held.length) :=
  List.append_nil _

theorem refuses_cons_iff :
    session.Refuses (step :: steps) ↔ session.Refuses [step] ∨ (session.advance step).1.Refuses steps := by
  rw [Refuses, Refuses, Refuses, calls_singleton, calls]
  simp only [List.mem_append, or_and_right, exists_or]

/-- A step on a bounded sink does and answers what it would without the bound, if nothing is refused. -/
theorem advance_unbounded (h : ¬session.Refuses [step]) :
    session.unbounded.advance step = ((session.advance step).1.unbounded, (session.advance step).2) := by
  rw [Refuses, calls_singleton] at h
  rcases session.performAll_unbounded (step.acts session.held.length) with
    ⟨-, hleft, hok⟩ | ⟨call, hcall, piece, hrefused, -, -⟩
  · have hheld : session.unbounded.held = session.held := rfl
    rw [advance, advance, hheld, hleft, hok]
    rfl
  · exact absurd ⟨call, hcall, piece, hrefused⟩ h

theorem advance_of_error {next : Session} (h : session.performAll (step.acts session.held.length) = .error next) :
    session.advance step = (next, ⟨next.writer.sink.contentSince session.writer.sink.pieces.size, true⟩) := by
  rw [advance, h]
  rfl

/-- A step in which a piece is refused fails, and stops short of what it would have written. -/
theorem advance_of_refuses (hwithin : session.writer.sink.Within limit) (h : session.Refuses [step]) :
    (session.advance step).2.failed = true ∧
      ∃ missing, (session.unbounded.advance step).1.writer.sink.pieces.toList =
          (session.advance step).1.writer.sink.pieces.toList ++ missing ∧
        limit < (session.advance step).1.writer.sink.content.utf8ByteSize +
          (Sink.contentOf missing).utf8ByteSize := by
  rw [Refuses, calls_singleton] at h
  rcases session.performAll_unbounded (step.acts session.held.length) with
    ⟨hnone, -, -⟩ | ⟨call, hcall, piece, hrefused, hperform, more, hmore⟩
  · obtain ⟨call, hcall, piece, hrefused⟩ := h
    cases hrefused.symm.trans (hnone call hcall)
  · obtain ⟨before, rest, hcalls⟩ := List.append_of_mem hcall
    have hfollow := session.follow_callsOf (step.acts session.held.length)
    rw [hcalls] at hfollow
    have hlimit := Call.limit_lt_of_refused (hfollow.at_call.1.within hwithin) hrefused
    rw [advance_of_error hperform]
    refine ⟨rfl, piece :: more, ?_, ?_⟩
    · rw [List.append_cons]
      exact hmore.symm
    · rw [Sink.contentOf_cons, String.utf8ByteSize_append, ← Piece.size, ← Nat.add_assoc]
      exact Nat.lt_of_lt_of_le hlimit (Nat.le_add_right _ _)

theorem run_cons (session : Session) (step : Step) (steps : List Step) :
    session.run (step :: steps) = (((session.advance step).1.run steps).1,
      (session.advance step).2 :: ((session.advance step).1.run steps).2) := rfl

/-- As long as nothing is refused, a run on a bounded sink does and answers what it would without the bound. -/
theorem run_unbounded (h : ¬session.Refuses steps) :
    session.unbounded.run steps = ((session.run steps).1.unbounded, (session.run steps).2) := by
  induction steps generalizing session with
  | nil => rfl
  | cons step steps ih =>
    rw [refuses_cons_iff, not_or] at h
    rw [run_cons, run_cons, advance_unbounded h.1, ih h.2]

/-- If a piece is refused in some step, there is a first such step. -/
theorem exists_first_refusal (h : session.Refuses steps) :
    ∃ before step after, steps = before ++ step :: after ∧ ¬session.Refuses before ∧
      (session.run before).1.Refuses [step] := by
  induction steps generalizing session with
  | nil =>
    obtain ⟨call, hcall, -⟩ := h
    exact absurd hcall List.not_mem_nil
  | cons step steps ih =>
    by_cases hstep : session.Refuses [step]
    · exact ⟨[], step, steps, rfl, fun ⟨call, hcall, _⟩ => absurd hcall List.not_mem_nil, hstep⟩
    · obtain ⟨before, first, after, rfl, hbefore, hfirst⟩ := ih ((refuses_cons_iff.mp h).resolve_left hstep)
      refine ⟨step :: before, first, after, rfl, ?_, hfirst⟩
      rw [refuses_cons_iff, not_or]
      exact ⟨hstep, hbefore⟩

theorem run_append (first second : List Step) :
    (session.run (first ++ second)).1 = ((session.run first).1.run second).1 := by
  induction first generalizing session with
  | nil => rfl
  | cons step first ih => exact ih

/-- A run that comes to a step with a refused piece has done what it would have done without the bound, up to
the place in this step at which the piece is missing. -/
theorem run_cut {before : List Step} (hwithin : session.writer.sink.Within limit)
    (hbefore : ¬session.Refuses before) (hstep : (session.run before).1.Refuses [step]) :
    (session.run before).2 = (session.unbounded.run before).2 ∧
      let cut := (session.run before).1.advance step
      let whole := (session.unbounded.run before).1.advance step
      cut.2.failed = true ∧
      ∃ missing, whole.1.writer.sink.pieces.toList = cut.1.writer.sink.pieces.toList ++ missing ∧
        limit < cut.1.writer.sink.content.utf8ByteSize + (Sink.contentOf missing).utf8ByteSize := by
  rw [run_unbounded hbefore]
  exact ⟨rfl, advance_of_refuses ((session.follow_calls before).within hwithin) hstep⟩

/-- Something is refused exactly if without the bound the output would be longer than the limit. -/
theorem refuses_iff (hwithin : session.writer.sink.Within limit) :
    session.Refuses steps ↔ limit < (session.unbounded.run steps).1.writer.sink.content.utf8ByteSize := by
  constructor
  · intro hrefuses
    obtain ⟨before, step, after, rfl, hbefore, hstep⟩ := exists_first_refusal hrefuses
    obtain ⟨-, -, missing, hpieces, hlimit⟩ := run_cut hwithin hbefore hstep
    have hrest := (((session.unbounded.run before).1.advance step).1.follow_calls after).pieces
    rw [run_append, run_cons, Sink.content_of_pieces hrest, Sink.content_of_pieces hpieces,
      String.utf8ByteSize_append, String.utf8ByteSize_append]
    exact Nat.lt_of_lt_of_le hlimit (Nat.le_add_right _ _)
  · intro hlimit
    by_contra hnone
    rw [run_unbounded hnone] at hlimit
    exact absurd ((session.follow_calls steps).within hwithin).size_le (Nat.not_le.mpr hlimit)

/-- A step writes nothing behind a piece that is refused. -/
theorem advance_of_refused {front rest : List Call} {call : Call} {piece : Piece}
    (hwithin : session.writer.sink.Within limit)
    (hcalls : session.callsOf (step.acts session.held.length) = front ++ call :: rest)
    (hrefused : call.refused? = some piece) :
    rest = [] ∧ call.taken ++ [piece] <+: call.due ∧ (session.advance step).2.failed = true ∧
      (session.advance step).1.writer.sink.pieces.toList = call.session.writer.sink.pieces.toList ++ call.taken ∧
      limit < (session.advance step).1.writer.sink.content.utf8ByteSize + piece.size := by
  have hfollow := session.follow_callsOf (step.acts session.held.length)
  obtain ⟨hrest, hperform⟩ := session.performAll_of_refused hcalls hrefused
  rw [hcalls] at hfollow
  rw [advance_of_error hperform]
  refine ⟨hrest, ?_, rfl, ?_, Call.limit_lt_of_refused (hfollow.at_call.1.within hwithin) hrefused⟩
  · obtain ⟨⟨missing, hdue⟩, -, -⟩ := call.after_of_refused hrefused
    exact ⟨missing, by rw [hdue, List.append_assoc, List.singleton_append]⟩
  · rw [call.sink_after, Sink.pieces_pushAll]

/-- On a sink with a limit some piece is refused exactly if the whole output is longer than the limit. If none
is, the limit makes no difference. Otherwise all steps before the first with a refused piece answer as they
would, that step fails, and the output at its end is cut short between two pieces. In no step anything is
written behind a piece that was refused because it would have gone beyond the limit. -/
theorem run_bounded (indentUnit : String) (limit : Nat) (steps : List Step) :
    let bounded : Session := ⟨{ indentUnit, sink := { room := some limit } }, []⟩
    let free : Session := ⟨{ indentUnit }, []⟩
    (bounded.Refuses steps ↔ limit < (free.run steps).1.writer.sink.content.utf8ByteSize) ∧
    (¬bounded.Refuses steps → (bounded.run steps).2 = (free.run steps).2 ∧
      (bounded.run steps).1.writer.sink.content = (free.run steps).1.writer.sink.content) ∧
    (bounded.Refuses steps → ∃ before step after, steps = before ++ step :: after ∧
      ¬bounded.Refuses before ∧ (bounded.run before).1.Refuses [step] ∧
      (bounded.run before).2 = (free.run before).2 ∧
      let cut := (bounded.run before).1.advance step
      let whole := (free.run before).1.advance step
      cut.2.failed = true ∧
      ∃ missing, whole.1.writer.sink.pieces.toList = cut.1.writer.sink.pieces.toList ++ missing ∧
        whole.1.writer.sink.content = cut.1.writer.sink.content ++ Sink.contentOf missing ∧
        Sink.contentOf missing ≠ "") ∧
    (∀ before step after, steps = before ++ step :: after →
      let started := (bounded.run before).1
      ∀ front call rest piece, started.callsOf (step.acts started.held.length) = front ++ call :: rest →
        call.refused? = some piece →
        let next := started.advance step
        rest = [] ∧ call.taken ++ [piece] <+: call.due ∧ next.2.failed = true ∧
        next.1.writer.sink.pieces.toList = call.session.writer.sink.pieces.toList ++ call.taken ∧
        limit < next.1.writer.sink.content.utf8ByteSize + piece.size) := by
  intro bounded free
  have hwithin : bounded.writer.sink.Within limit := ⟨limit, rfl, Nat.zero_add limit⟩
  have hrun : ∀ steps, (bounded.run steps).1.writer.sink.Within limit := fun steps =>
    (bounded.follow_calls steps).within hwithin
  refine ⟨refuses_iff hwithin, ?_, ?_, ?_⟩
  · intro hnone
    have hfree : free.run steps = ((bounded.run steps).1.unbounded, (bounded.run steps).2) := run_unbounded hnone
    rw [hfree]
    exact ⟨rfl, rfl⟩
  · intro hrefuses
    obtain ⟨before, step, after, hsteps, hbefore, hstep⟩ := exists_first_refusal hrefuses
    obtain ⟨hreports, hfailed, missing, hpieces, hlimit⟩ := run_cut hwithin hbefore hstep
    refine ⟨before, step, after, hsteps, hbefore, hstep, hreports, hfailed, missing, hpieces,
      Sink.content_of_pieces hpieces, fun hempty => ?_⟩
    have hcut : ((bounded.run before).1.advance step).1.writer.sink.Within limit := by
      have hnext := hrun (before ++ [step])
      rwa [run_append] at hnext
    rw [hempty] at hlimit
    exact absurd hcut.size_le (Nat.not_le.mpr hlimit)
  · intro before step after hsteps started front call rest piece hcalls hrefused
    exact advance_of_refused (hrun before) hcalls hrefused

/-- A list runs out of room in the indentation of its second item, before it would fail by itself. -/
theorem run_bounded_list :
    let items : List (List Act) := [[.write "a"], [.write "bb"], [.fail]]
    let before : List Step := [.writeLine "é(", .hold, .hold]
    let steps : List Step := before ++ .separatedLines "," items :: [.write "c"]
    let bounded : Session := ⟨{ indentUnit := "  ", sink := { room := some 13 } }, []⟩
    let next := (bounded.run before).1.advance (.separatedLines "," items)
    let written : List Piece :=
      [.text "é(", .lineFeed, .indentation "  ", .indentation "  ", .text "a", .text ",", .lineFeed]
    let call : Call := ⟨⟨⟨"  ", ⟨some 2, written.toArray⟩, 2, true⟩, [{}, {}]⟩, .write "bb"⟩
    bounded.Refuses steps ∧ call.refused? = some (.indentation "  ") ∧
      next.1.writer.sink.pieces.toList = written ++ [.indentation "  "] ∧ next.2.failed = true ∧
      13 < next.1.writer.sink.content.utf8ByteSize + Piece.size (.indentation "  ") := by
  intro items before steps bounded next written call
  obtain ⟨hlonger, -, -, hsteps⟩ := run_bounded "  " 13 steps
  have hrefused : call.refused? = some (.indentation "  ") := by decide
  have hcalls : (bounded.run before).1.callsOf (Step.acts 2 (.separatedLines "," items)) =
      (bounded.run before).1.callsOf [.write "a", .write ",", .endLine] ++ [call] := rfl
  have htaken : call.taken = [.indentation "  "] := by decide
  obtain ⟨-, -, hfailed, hpieces, hlimit⟩ := hsteps before _ [.write "c"] rfl _ call [] _ hcalls hrefused
  exact ⟨hlonger.mpr (by decide), hrefused, htaken ▸ hpieces, hfailed, hlimit⟩

end Session

end TwirpClient.Writer
