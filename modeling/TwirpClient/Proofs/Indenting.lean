import TwirpClient.Proofs.Calls

/-!
# Lines are indented once

A writer that is refused in the middle of its indentation does not know how far it came: the line still counts
as fresh, and the next text on it is to be indented again. It is not indented all the same, for the sink has
no room for indentation any more, and never will. So a line is closed to indentation from the first piece that
stands on it, either because the line is begun or because the sink is full (`Session.Closed`), and each line
has its indentation in front and from one call (`run_indents_once`).
-/

namespace TwirpClient.Writer

/-! ## Indentation that cannot come any more -/

namespace Sink

variable {sink : Sink} {piece : Piece}

theorem refuses_push (h : sink.accepts piece = false) (other : Piece) :
    (sink.push other).accepts piece = false := by
  rw [accepts] at h ⊢
  cases hroom : sink.room with
  | none => simp [hroom] at h
  | some room =>
    simp only [hroom, decide_eq_false_iff_not] at h
    simp only [push, hroom, Option.map_some, decide_eq_false_iff_not]
    omega

/-- What there is no room for now is not taken later either. -/
theorem refuses_pushAll (h : sink.accepts piece = false) (pieces : List Piece) :
    (sink.pushAll pieces).accepts piece = false := by
  induction pieces generalizing sink with
  | nil => exact h
  | cons other pieces ih => exact ih (refuses_push h other)

theorem notMem_offer_of_refuses (h : sink.accepts piece = false) (pieces : List Piece) :
    piece ∉ (sink.offer pieces).1 := by
  induction pieces generalizing sink with
  | nil => exact List.not_mem_nil
  | cons head pieces ih =>
    cases hhead : sink.accepts head with
    | false =>
      rw [sink.offer_cons_of_refuses hhead]
      exact List.not_mem_nil
    | true =>
      rw [sink.offer_cons_of_accepts hhead, List.mem_cons, not_or]
      exact ⟨fun heq => Bool.false_ne_true (h.symm.trans (heq ▸ hhead)), ih (refuses_push h head)⟩

end Sink

/-- Indentation in front, of so many levels at most, and text behind it. -/
def InFront (indentUnit : String) (most : Nat) (pieces : List Piece) : Prop :=
  ∃ count texts, pieces = List.replicate count (.indentation indentUnit) ++ texts ∧ count ≤ most ∧
    ∀ piece ∈ texts, ∃ value, piece = .text value

namespace InFront

variable {indentUnit : String} {most : Nat} {pieces : List Piece}

theorem nil : InFront indentUnit most [] :=
  ⟨0, [], rfl, Nat.zero_le _, fun _ hpiece => absurd hpiece List.not_mem_nil⟩

theorem of_prefix {front : List Piece} (h : InFront indentUnit most pieces) (hfront : front <+: pieces) :
    InFront indentUnit most front := by
  obtain ⟨count, texts, rfl, hcount, htexts⟩ := h
  rw [List.prefix_iff_eq_take, List.take_append, List.take_replicate] at hfront
  exact ⟨_, _, hfront, Nat.le_trans (Nat.min_le_right _ _) hcount,
    fun piece hpiece => htexts piece (List.mem_of_mem_take hpiece)⟩

theorem notMem_of_zero (h : InFront indentUnit 0 pieces) (unit : String) : .indentation unit ∉ pieces := by
  obtain ⟨count, texts, rfl, hcount, htexts⟩ := h
  obtain rfl := Nat.le_zero.mp hcount
  intro hmem
  obtain ⟨value, hvalue⟩ := htexts _ hmem
  cases hvalue

theorem lineFeed_notMem (h : InFront indentUnit most pieces) : .lineFeed ∉ pieces := by
  obtain ⟨count, texts, rfl, -, htexts⟩ := h
  intro hmem
  rcases List.mem_append.mp hmem with hfront | htext
  · cases List.eq_of_mem_replicate hfront
  · obtain ⟨value, hvalue⟩ := htexts _ htext
    cases hvalue

end InFront

/-- No indentation can be put on the line any more: it is begun, or the sink has no room for indentation. -/
def Session.Closed (session : Session) : Prop :=
  session.writer.atLineStart = false ∨
    session.writer.sink.accepts (.indentation session.writer.indentUnit) = false

/-! ## One call -/

namespace Call

variable {call : Call}

theorem indentUnit_after (call : Call) : call.after.writer.indentUnit = call.session.writer.indentUnit := by
  rcases call.after_cases with ⟨-, -, hafter⟩ | ⟨piece, rest, -, -, -, hafter⟩
  · rw [hafter]
    rfl
  · rw [hafter]
    rfl

/-- A writer that is as deep as levels are held stays so. -/
theorem level_after (h : call.session.writer.level = call.session.held.length) :
    call.after.writer.level = call.after.held.length := by
  rcases call.after_cases with ⟨-, -, hafter⟩ | ⟨piece, rest, -, -, -, hafter⟩
  · rw [hafter]
    obtain ⟨session, act⟩ := call
    cases act with
    | hold => exact congrArg (· + 1) h
    | release position =>
      show (if position < session.held.length then session.writer.level - 1 else session.writer.level) =
        (session.held.eraseIdx position).length
      rw [List.length_eraseIdx]
      split
      · exact congrArg (· - 1) h
      · exact h
    | write value => exact h
    | endLine => exact h
    | fail => exact h
  · rw [hafter]
    exact h

theorem due_write_empty (writer : Writer) (held : List Hold) : due ⟨⟨writer, held⟩, .write ""⟩ = [] :=
  @Mark.pieces_empty writer.indentUnit writer.atLineStart writer.level

/-- A line is ended, or it is due to be written on. Only on a fresh line is indentation due, and it is as deep
as the writer at most. -/
theorem due_cases (call : Call) :
    (call.act = .endLine ∧ call.due = [.lineFeed]) ∨
      InFront call.session.writer.indentUnit
        (if call.session.writer.atLineStart then call.session.writer.level else 0) call.due := by
  obtain ⟨⟨writer, held⟩, act⟩ := call
  cases act with
  | write value =>
    rcases eq_or_ne value "" with rfl | hvalue
    · exact .inr (due_write_empty writer held ▸ InFront.nil)
    · have hdue : due ⟨⟨writer, held⟩, .write value⟩ = writer.lineIndent ++ [.text value] :=
        Mark.pieces_text hvalue _ _
      refine .inr ⟨_, [.text value], ?_, Nat.le_refl _, fun piece hpiece => ⟨value, List.mem_singleton.mp hpiece⟩⟩
      rw [hdue, lineIndent]
      cases writer.atLineStart with
      | true => rfl
      | false => rfl
  | endLine => exact .inl ⟨rfl, rfl⟩
  | hold => exact .inr InFront.nil
  | release position => exact .inr InFront.nil
  | fail => exact .inr InFront.nil

/-- What is taken looks like what was due. -/
theorem taken_cases (call : Call) :
    call.taken = [.lineFeed] ∨ InFront call.session.writer.indentUnit call.session.writer.level call.taken := by
  rcases call.due_cases with ⟨-, hdue⟩ | hdue
  · have hprefix := hdue ▸ call.taken_prefix_due
    rcases List.prefix_cons_iff.mp hprefix with hnil | ⟨rest, htaken, hrest⟩
    · exact .inr (hnil ▸ InFront.nil)
    · exact .inl (by rw [htaken, List.prefix_nil.mp hrest])
  · obtain ⟨count, texts, htaken, hcount, htexts⟩ := hdue.of_prefix call.taken_prefix_due
    refine .inr ⟨count, texts, htaken, Nat.le_trans hcount ?_, htexts⟩
    split
    · exact Nat.le_refl _
    · exact Nat.zero_le _

/-- To a line that is begun no indentation is due. -/
theorem indentation_notMem_due (h : call.session.writer.atLineStart = false) (unit : String) :
    .indentation unit ∉ call.due := by
  rcases call.due_cases with ⟨-, hdue⟩ | hdue
  · rw [hdue, List.mem_singleton]
    exact nofun
  · rw [h] at hdue
    exact hdue.notMem_of_zero unit

theorem indentation_eq_of_mem_due {unit : String} (h : .indentation unit ∈ call.due) :
    unit = call.session.writer.indentUnit := by
  rcases call.due_cases with ⟨-, hdue⟩ | ⟨count, texts, hdue, -, htexts⟩
  · rw [hdue, List.mem_singleton] at h
    cases h
  · rw [hdue, List.mem_append] at h
    rcases h with h | h
    · exact Piece.indentation.inj (List.eq_of_mem_replicate h)
    · obtain ⟨value, hvalue⟩ := htexts _ h
      cases hvalue

/-- On a closed line no indentation is put. -/
theorem indentation_notMem_taken (h : call.session.Closed) (unit : String) : .indentation unit ∉ call.taken := by
  intro hmem
  have hdue := call.taken_prefix_due.subset hmem
  rcases h with hbegun | hrefuses
  · exact indentation_notMem_due hbegun unit hdue
  · obtain rfl := indentation_eq_of_mem_due hdue
    exact Sink.notMem_offer_of_refuses hrefuses call.due (call.taken_eq_offer ▸ hmem)

/-- A line that is begun stays so until it is ended. -/
theorem atLineStart_after (h : call.session.writer.atLineStart = false) (hline : .lineFeed ∉ call.taken) :
    call.after.writer.atLineStart = false := by
  rcases call.after_cases with ⟨-, htaken, hafter⟩ | ⟨piece, rest, -, -, -, hafter⟩
  · rw [hafter]
    obtain ⟨session, act⟩ := call
    cases act with
    | endLine => exact absurd (htaken ▸ List.mem_singleton_self _) hline
    | write value =>
      show (Mark.text value session.writer.level).freshAfter session.writer.atLineStart = false
      rw [Mark.freshAfter, h, Bool.false_and]
    | hold => exact h
    | release position => exact h
    | fail => exact h
  · rw [hafter]
    show piece.freshAfterRefusal call.session.writer.atLineStart = false
    rw [h]
    cases piece with
    | indentation unit => rfl
    | text value => rfl
    | lineFeed => rfl

theorem refuses_after (h : call.session.writer.sink.accepts (.indentation call.session.writer.indentUnit) = false) :
    call.after.writer.sink.accepts (.indentation call.after.writer.indentUnit) = false := by
  rw [call.sink_after, call.indentUnit_after]
  exact Sink.refuses_pushAll h _

/-- A closed line stays closed until it is ended. -/
theorem closed_after_of_closed (h : call.session.Closed) (hline : .lineFeed ∉ call.taken) : call.after.Closed :=
  h.imp (fun hbegun => atLineStart_after hbegun hline) refuses_after

/-- A text is refused behind all indentation of its line. -/
theorem atLineStart_after_of_refused {value : String} (h : call.refused? = some (.text value)) :
    call.after.writer.atLineStart = false := by
  rw [(call.after_of_refused h).2.2]
  rfl

/-- Where indentation is refused, the sink has no room for more of it. -/
theorem refuses_after_of_refused {unit : String} (h : call.refused? = some (.indentation unit)) :
    call.after.writer.sink.accepts (.indentation call.after.writer.indentUnit) = false := by
  obtain ⟨⟨rest, hdue⟩, hrefuses, -⟩ := call.after_of_refused h
  obtain rfl := indentation_eq_of_mem_due (hdue ▸ List.mem_append_right _ List.mem_cons_self)
  rw [call.sink_after, call.indentUnit_after]
  exact hrefuses

/-- A line that something was put on is closed, even if what was due behind it was refused. -/
theorem closed_after_of_taken (htaken : call.taken ≠ []) (hline : .lineFeed ∉ call.taken) : call.after.Closed := by
  have hprefix := call.taken_prefix_due
  obtain ⟨⟨writer, held⟩, act⟩ := call
  cases act with
  | write value =>
    have hvalue : value ≠ "" := by
      rintro rfl
      rw [due_write_empty] at hprefix
      exact htaken (List.prefix_nil.mp hprefix)
    rcases after_cases ⟨⟨writer, held⟩, .write value⟩ with ⟨-, -, hafter⟩ | ⟨piece, rest, hrefused, hdue, -, -⟩
    · refine .inl ?_
      rw [hafter]
      exact Mark.freshAfter_text hvalue writer.atLineStart writer.level
    · cases piece with
      | indentation unit => exact .inr (refuses_after_of_refused hrefused)
      | text value => exact .inl (atLineStart_after_of_refused hrefused)
      | lineFeed => exact absurd (hdue ▸ List.mem_append_right _ List.mem_cons_self) (lineFeed_notMem_pieces _ _ _)
  | endLine =>
    rcases List.prefix_cons_iff.mp hprefix with hnil | ⟨rest, hfront, -⟩
    · exact absurd hnil htaken
    · exact absurd (hfront ▸ List.mem_cons_self) hline
  | hold => exact absurd (List.prefix_nil.mp hprefix) htaken
  | release position => exact absurd (List.prefix_nil.mp hprefix) htaken
  | fail => exact absurd (List.prefix_nil.mp hprefix) htaken

end Call

/-! ## Lines -/

/-- A piece that was put into the sink, the number of the call that did it, and how many levels were held at
that call. -/
structure Entry where
  piece : Piece
  call : Nat
  held : Nat
  deriving DecidableEq, Repr

/-- The pieces that a call put into the sink. -/
def Call.entries (call : Call) (number : Nat) : List Entry :=
  call.taken.map (⟨·, number, call.session.held.length⟩)

/-- The pieces that calls put into the sink. The calls are numbered on from a number. -/
def entries (number : Nat) : List Call → List Entry
  | [] => []
  | call :: rest => call.entries number ++ entries (number + 1) rest

/-- A line with indentation only in front, all of it from one call and no more of it than levels were held at
that call. -/
def IndentedOnce (indentUnit : String) (line : List Entry) : Prop :=
  ∃ count call held texts, line = List.replicate count ⟨.indentation indentUnit, call, held⟩ ++ texts ∧
    count ≤ held ∧ ∀ entry ∈ texts, ∃ value, entry.piece = .text value

theorem map_piece_entries (number : Nat) (calls : List Call) :
    (entries number calls).map Entry.piece = calls.flatMap Call.taken := by
  induction calls generalizing number with
  | nil => rfl
  | cons call calls ih =>
    rw [entries, List.map_append, ih, List.flatMap_cons, Call.entries, List.map_map]
    exact congrArg (· ++ _) (List.map_id _)

namespace IndentedOnce

variable {indentUnit : String} {line : List Entry}

theorem nil : IndentedOnce indentUnit [] :=
  ⟨0, 0, 0, [], rfl, Nat.le_refl _, fun _ hentry => absurd hentry List.not_mem_nil⟩

/-- Without indentation there is only text. -/
theorem texts (h : IndentedOnce indentUnit line) (hnone : ∀ entry ∈ line, entry.piece ≠ .indentation indentUnit) :
    ∀ entry ∈ line, ∃ value, entry.piece = .text value := by
  obtain ⟨count, call, held, texts, rfl, -, htexts⟩ := h
  intro entry hentry
  rcases List.mem_append.mp hentry with hfront | htext
  · exact absurd (congrArg Entry.piece (List.eq_of_mem_replicate hfront)) (hnone entry hentry)
  · exact htexts entry htext

/-- A call may put a piece of a line in front of texts. -/
theorem append_texts {call : Call} {most : Nat} (h : InFront indentUnit most call.taken)
    (hmost : most = call.session.held.length) (number : Nat)
    (hline : ∀ entry ∈ line, ∃ value, entry.piece = .text value) :
    IndentedOnce indentUnit (call.entries number ++ line) := by
  obtain ⟨count, texts, htaken, hcount, htexts⟩ := h
  refine ⟨count, number, call.session.held.length, texts.map (⟨·, number, call.session.held.length⟩) ++ line,
    ?_, hmost ▸ hcount, ?_⟩
  · rw [Call.entries, htaken, List.map_append, List.map_replicate, List.append_assoc]
  · intro entry hentry
    rcases List.mem_append.mp hentry with htext | hrest
    · obtain ⟨piece, hpiece, rfl⟩ := List.mem_map.mp htext
      exact htexts piece hpiece
    · exact hline entry hrest

end IndentedOnce

/-- Whether an entry is the end of a line. -/
def Entry.endsLine (entry : Entry) : Bool := entry.piece = .lineFeed

theorem Call.entries_endsLine {call : Call} (h : .lineFeed ∉ call.taken) (number : Nat) :
    ∀ entry ∈ call.entries number, entry.endsLine = false := by
  intro entry hentry
  obtain ⟨piece, hpiece, rfl⟩ := List.mem_map.mp hentry
  exact decide_eq_false (ne_of_mem_of_not_mem hpiece h)

/-- Calls indent each of their lines once, and a line that is closed before them not at all. -/
theorem Follow.lines {session last : Session} {calls : List Call} (h : Follow session calls last)
    (hlevel : session.writer.level = session.held.length) (number : Nat) :
    ∃ first others, (entries number calls).splitOnP Entry.endsLine = first :: others ∧
      (∀ line ∈ first :: others, IndentedOnce session.writer.indentUnit line) ∧
      (session.Closed → ∀ entry ∈ first, entry.piece ≠ .indentation session.writer.indentUnit) := by
  -- From the front: of the line that the first call goes on with, the later calls say only what they put on it.
  -- That they put no indentation there if the line was closed is what lets the first call stand before them.
  induction h generalizing number with
  | nil session =>
    refine ⟨[], [], rfl, ?_, fun _ entry hentry => absurd hentry List.not_mem_nil⟩
    rw [List.forall_mem_singleton]
    exact IndentedOnce.nil
  | @cons call calls last h ih =>
    obtain ⟨first, others, hsplit, hlines, hclosed⟩ := ih (Call.level_after hlevel) (number + 1)
    rw [call.indentUnit_after] at hlines hclosed
    rcases call.taken_cases with hfeed | hfront
    · have hends : Entry.endsLine ⟨.lineFeed, number, call.session.held.length⟩ = true := rfl
      refine ⟨[], first :: others, ?_, ?_, fun _ entry hentry => absurd hentry List.not_mem_nil⟩
      · rw [entries, Call.entries, hfeed, List.map_singleton, List.singleton_append,
          List.splitOnP_cons_eq_if_modifyHead, if_pos hends, hsplit]
      · exact List.forall_mem_cons.mpr ⟨IndentedOnce.nil, hlines⟩
    · have hline := hfront.lineFeed_notMem
      refine ⟨call.entries number ++ first, others, ?_, ?_, ?_⟩
      · rw [entries, splitOnP_append_of_forall_not (call.entries_endsLine hline number), hsplit, List.modifyHead_cons]
      · rw [List.forall_mem_cons] at hlines ⊢
        refine ⟨?_, hlines.2⟩
        -- A call that put nothing may leave the line fresh, and its indentation is then from a later call.
        by_cases htaken : call.taken = []
        · rw [Call.entries, htaken]
          exact hlines.1
        · exact IndentedOnce.append_texts hfront hlevel number
            (hlines.1.texts (hclosed (Call.closed_after_of_taken htaken hline)))
      · intro hbefore entry hentry
        rcases List.mem_append.mp hentry with hown | hrest
        · obtain ⟨piece, hpiece, rfl⟩ := List.mem_map.mp hown
          exact ne_of_mem_of_not_mem hpiece (Call.indentation_notMem_taken hbefore _)
        · exact hclosed (Call.closed_after_of_closed hbefore hline) entry hrest

/-- However little room the sink has and whatever fails, each line is indented once: its indentation stands in
front, all of it comes from one call, and it is no deeper than levels were held at that call. A line whose text
was refused behind its indentation is not indented again, and once indentation was refused none ever follows. -/
theorem run_indents_once (indentUnit : String) (room : Option Nat) (steps : List Step) :
    let start : Session := ⟨{ indentUnit, sink := { room } }, []⟩
    let calls := start.calls steps
    (entries 0 calls).map Entry.piece = (start.run steps).1.writer.sink.pieces.toList ∧
    (∀ line ∈ (entries 0 calls).splitOnP (·.piece = .lineFeed), IndentedOnce indentUnit line) ∧
    (∀ before call between later after, calls = before ++ call :: between ++ later :: after →
      (∃ value, call.refused? = some (.text value)) → (∀ other ∈ between, .lineFeed ∉ other.taken) →
      ∀ unit, .indentation unit ∉ later.due ∧ .indentation unit ∉ later.taken) ∧
    (∀ before call after, calls = before ++ call :: after →
      (∃ unit, call.refused? = some (.indentation unit)) →
      ∀ later ∈ after, ∀ unit, .indentation unit ∉ later.taken) := by
  intro start calls
  have hfollow : Follow start calls (start.run steps).1 := start.follow_calls steps
  refine ⟨?_, ?_, ?_, ?_⟩
  · rw [map_piece_entries]
    exact hfollow.pieces.symm
  · obtain ⟨first, others, hsplit, hlines, -⟩ := hfollow.lines rfl 0
    exact fun line hline => hlines line (hsplit ▸ hline)
  · rintro before call between later after hcalls ⟨value, hrefused⟩ hbetween unit
    rw [hcalls, List.append_assoc] at hfollow
    obtain ⟨hlater, -⟩ := hfollow.at_call.2.at_call
    have hbegun : later.session.writer.atLineStart = false :=
      hlater.keeps (P := fun session => session.writer.atLineStart = false)
        (Call.atLineStart_after_of_refused hrefused)
        fun other hother hbegun => Call.atLineStart_after hbegun (hbetween other hother)
    exact ⟨Call.indentation_notMem_due hbegun unit, Call.indentation_notMem_taken (.inl hbegun) unit⟩
  · rintro before call after hcalls ⟨unit, hrefused⟩ later hmem unit'
    obtain ⟨between, rest, rfl⟩ := List.append_of_mem hmem
    rw [hcalls] at hfollow
    obtain ⟨hlater, -⟩ := hfollow.at_call.2.at_call
    have hfull := hlater.keeps (P := fun session =>
        session.writer.sink.accepts (.indentation session.writer.indentUnit) = false)
      (Call.refuses_after_of_refused hrefused) fun other _ => Call.refuses_after
    exact Call.indentation_notMem_taken (.inr hfull) unit'

/-- A text is refused behind the indentation of the first line, which then goes on at a deeper level. On the
second line the sink is full after one level of two, and the text that follows there has none. -/
theorem run_indents_once_refused :
    let steps : List Step := [.hold, .write "six by", .hold, .write "y", .endLine, .write "z", .releaseNewest,
      .releaseOldest, .write "w"]
    let start : Session := ⟨{ indentUnit := "ab", sink := { room := some 7 } }, []⟩
    let long : Call := ⟨⟨⟨"ab", ⟨some 7, #[]⟩, 1, true⟩, [{}]⟩, .write "six by"⟩
    let short : Call := ⟨⟨⟨"ab", ⟨some 5, #[.indentation "ab"]⟩, 2, false⟩, [{}, {}]⟩, .write "y"⟩
    let deep : Call :=
      ⟨⟨⟨"ab", ⟨some 3, #[.indentation "ab", .text "y", .lineFeed]⟩, 2, true⟩, [{}, {}]⟩, .write "z"⟩
    let flat : Call :=
      ⟨⟨⟨"ab", ⟨some 1, #[.indentation "ab", .text "y", .lineFeed, .indentation "ab"]⟩, 0, true⟩, []⟩, .write "w"⟩
    (start.run steps).1.writer.sink.pieces.toList =
      [.indentation "ab", .text "y", .lineFeed, .indentation "ab", .text "w"] ∧
    (∀ line ∈ (entries 0 (start.calls steps)).splitOnP (·.piece = .lineFeed), IndentedOnce "ab" line) ∧
    long.refused? = some (.text "six by") ∧ .indentation "ab" ∉ short.due ∧
    deep.refused? = some (.indentation "ab") ∧ .indentation "ab" ∉ flat.taken := by
  intro steps start long short deep flat
  obtain ⟨-, hlines, htext, hindentation⟩ := run_indents_once "ab" (some 7) steps
  have hlong : long.refused? = some (.text "six by") := by decide
  have hdeep : deep.refused? = some (.indentation "ab") := by decide
  refine ⟨by decide, hlines, hlong, ?_, hdeep, ?_⟩
  · exact (htext [⟨start, .hold⟩] long [⟨long.after, .hold⟩] short (short.after.calls (steps.drop 4)) rfl
      ⟨_, hlong⟩ (by decide) "ab").1
  · exact hindentation (start.calls (steps.take 5)) deep (deep.after.calls (steps.drop 6)) rfl
      ⟨_, hdeep⟩ flat (List.mem_of_getElem? (i := 2) rfl) "ab"

end TwirpClient.Writer
