import TwirpClient.Proofs.Answers

/-!
# Requests put together

Two requests one after the other are one request, with the files and names of both and the later parameter.
That is so because nothing in reading a message looks back: the tokens of the first part are read as if
nothing followed (`Reader.all_append`), its groups are closed, so that the second part begins outside of all
groups (`Field.nest?_append`), and each field adds to the record by itself (`Record.ofFields?_append`).

For the same reason fields that a message does not know may stand between any two of its fields. Wherever the
first part ends with a field, they add nothing, and what comes before and behind them is read as before.
-/

namespace TwirpClient.Wire

/-! ## Groups -/

namespace Field

/-- Fields that stand before all others come first in the result, whatever groups are open. They are below the
fields read so far if no group is, and otherwise below those that stand before the outermost group. -/
theorem nestFrom_onto (base : List Field) (tokens : List Token) :
    (∀ before, nestFrom [] (before ++ base) tokens =
      (nestFrom [] before tokens).map (base.reverse ++ ·)) ∧
    ∀ opened number outer before, nestFrom (opened ++ [⟨number, outer ++ base⟩]) before tokens =
      (nestFrom (opened ++ [⟨number, outer⟩]) before tokens).map (base.reverse ++ ·) := by
  induction tokens with
  | nil =>
    refine ⟨fun before => ?_, fun opened number outer before => ?_⟩
    · rw [nestFrom, nestFrom, List.reverse_append]
      rfl
    · have hopen : ∀ group : OpenGroup, (opened ++ [group]).isEmpty = false := by
        intro group
        cases opened with
        | nil => rfl
        | cons => rfl
      rw [nestFrom, nestFrom, hopen, hopen]
      rfl
  | cons token tokens ih =>
    obtain ⟨houtside, hinside⟩ := ih
    cases token with
    | scalar number value =>
      refine ⟨fun before => ?_, fun opened number' outer before => ?_⟩
      · rw [nestFrom, nestFrom, ← List.cons_append, houtside]
      · rw [nestFrom, nestFrom, hinside]
    | groupStart number =>
      refine ⟨fun before => ?_, fun opened number' outer before => ?_⟩
      · rw [nestFrom, nestFrom]
        exact hinside [] number before []
      · rw [nestFrom, nestFrom, ← List.cons_append, ← List.cons_append, hinside]
    | groupEnd number =>
      refine ⟨fun before => rfl, fun opened number' outer before => ?_⟩
      -- The group that ends is the outermost one, or one inside of it.
      cases opened with
      | nil =>
        rw [List.nil_append, List.nil_append, nestFrom, nestFrom]
        by_cases hnumber : number' = number
        · rw [if_pos hnumber, if_pos hnumber, ← List.cons_append, houtside]
        · rw [if_neg hnumber, if_neg hnumber]
          rfl
      | cons inner opened =>
        rw [List.cons_append, List.cons_append, nestFrom, nestFrom]
        by_cases hnumber : inner.number = number
        · rw [if_pos hnumber, if_pos hnumber, hinside]
        · rw [if_neg hnumber, if_neg hnumber]
          rfl

/-- Tokens whose groups are all closed leave those that follow outside of all groups. -/
theorem nestFrom_append {opened : List OpenGroup} {before fields : List Field} {first : List Token}
    (h : nestFrom opened before first = some fields) (second : List Token) :
    nestFrom opened before (first ++ second) = nestFrom [] fields.reverse second := by
  fun_induction nestFrom opened before first with
  | case1 opened before hempty =>
    cases h
    rw [List.isEmpty_iff.mp hempty, List.reverse_reverse, List.nil_append]
  | case2 => cases h
  | case3 opened before number value first ih => exact ih h
  | case4 opened before number first ih => exact ih h
  | case5 => cases h
  | case6 before first outer opened ih =>
    rw [List.cons_append, nestFrom, if_pos rfl]
    exact ih h
  | case7 => cases h

theorem nest?_append {first : List Token} {fields : List Field} (h : nest? first = some fields)
    (second : List Token) : nest? (first ++ second) = (nest? second).map (fields ++ ·) := by
  have honto := (nestFrom_onto fields.reverse second).1 []
  rw [List.nil_append, List.reverse_reverse] at honto
  rw [nest?, nestFrom_append h, honto]
  rfl

/-- Bytes that are fields to their end are followed by the fields of the bytes that follow. -/
theorem decodeAll?_append {first : Bytes} {fields : List Field} (h : decodeAll? first = some fields)
    (second : Bytes) : decodeAll? (first ++ second) = (decodeAll? second).map (fields ++ ·) := by
  obtain ⟨tokens, hall, hnest⟩ := Option.bind_eq_some_iff.mp h
  rw [decodeAll?, Reader.all_append hall, decodeAll?]
  cases Token.reader.all second with
  | none => rfl
  | some tokens' => exact nest?_append hnest tokens'

end Field

/-! ## Records -/

namespace Record

section Reading

variable {read : MessageKind → Bytes → Option Record} {budget : Nat} {kind : MessageKind}

theorem ofFields?_append (first second : List Field) :
    ofFields? read budget kind (first ++ second) =
      (ofFields? read budget kind first).bind fun record =>
        (ofFields? read budget kind second).map (record ++ ·) := by
  rw [ofFields?, ofFields?, ofFields?, List.mapM_append]
  cases first.mapM (Field.entries? read budget kind) with
  | none => rfl
  | some entries =>
    cases second.mapM (Field.entries? read budget kind) with
    | none => rfl
    | some entries' => exact congrArg some List.flatten_append

/-- Fields that the message does not know add nothing if there are levels enough to skip them. -/
theorem ofFields?_unknown {fields : List Field}
    (h : ∀ field ∈ fields, kind.fieldKind? field.number = none ∧ field.levels ≤ budget) :
    ofFields? read budget kind fields = some [] := by
  induction fields with
  | nil => rfl
  | cons field fields ih =>
    obtain ⟨hnumber, hlevels⟩ := h field List.mem_cons_self
    have hentries : Field.entries? read budget kind field = some [] := by
      unfold Field.entries?
      rw [hnumber]
      exact if_pos hlevels
    exact ofFields?_cons hentries (ih fun field hfield => h field (List.mem_cons_of_mem _ hfield))

/-- The records of two messages one after the other are put together like their bytes. -/
theorem decodeUsing_append {first : Bytes} {record : Record}
    (h : decodeUsing read budget kind first = some record) (second : Bytes) :
    decodeUsing read budget kind (first ++ second) =
      (decodeUsing read budget kind second).map (record ++ ·) := by
  rw [decodeUsing_eq] at h
  obtain ⟨fields, hfields, hrecord⟩ := Option.bind_eq_some_iff.mp h
  rw [decodeUsing_eq, Field.decodeAll?_append hfields, decodeUsing_eq]
  cases Field.decodeAll? second with
  | none => rfl
  | some fields' =>
    rw [Option.map_some, Option.bind_some, ofFields?_append, hrecord]
    rfl

/-- Behind whole fields there may be others that the message does not know. -/
theorem decodeUsing_skip {front unknown : Bytes} {fields skipped : List Field} (hfront : FieldsSpell front fields)
    (hunknown : FieldsSpell unknown skipped)
    (h : ∀ field ∈ skipped, kind.fieldKind? field.number = none ∧ field.levels ≤ budget) (back : Bytes) :
    decodeUsing read budget kind (front ++ unknown ++ back) =
      decodeUsing read budget kind (front ++ back) := by
  have hfields := Field.decodeAll?_eq_some_iff.mpr hfront
  rw [decodeUsing_eq, decodeUsing_eq, List.append_assoc, Field.decodeAll?_append hfields,
    Field.decodeAll?_append hfields, Field.decodeAll?_append (Field.decodeAll?_eq_some_iff.mpr hunknown)]
  cases Field.decodeAll? back with
  | none => rfl
  | some others =>
    simp only [Option.map_some, Option.bind_some, ofFields?_append, ofFields?_unknown h, List.nil_append,
      Option.map_id']

end Reading

end Record

end TwirpClient.Wire

namespace TwirpClient.Plugin

open Wire

/-! ## Requests -/

/-- The request that two requests make up. Of their parameters the second counts, if it has one. -/
def Request.merge (first second : Request) : Request where
  requested := first.requested ++ second.requested
  parameter := second.parameter.or first.parameter
  files := first.files ++ second.files

theorem Request.ofRecord_append (first second : Record) :
    Request.ofRecord (first ++ second) = (Request.ofRecord first).merge (Request.ofRecord second) := by
  simp only [Request.ofRecord, Request.merge, Record.texts_append, Record.text?_append,
    Record.messages_append, List.map_append]

theorem Request.decode?_append {first : Bytes} {request : Request} (h : Request.decode? first = some request)
    (second : Bytes) :
    Request.decode? (first ++ second) = (Request.decode? second).map request.merge := by
  obtain ⟨record, hrecord, rfl⟩ := Option.map_eq_some_iff.mp h
  have happend : Record.decode? .request (first ++ second) =
      (Record.decode? .request second).map (record ++ ·) := Record.decodeUsing_append hrecord second
  rw [Request.decode?, happend, Request.decode?, Option.map_map, Option.map_map]
  congr 1
  funext record'
  exact Request.ofRecord_append record record'

/-- A request knows no other fields than these. -/
theorem Request.fieldKind?_eq_none {number : Nat} (h : number ∉ [1, 2, 3, 15]) :
    MessageKind.request.fieldKind? number = none := by
  rw [MessageKind.fieldKind?, List.lookup_eq_none_iff]
  intro field hfield
  have hknown : field.1 ∈ [1, 2, 3, 15] := by
    have hall : MessageKind.request.fields.all (fun field => field.1 ∈ [1, 2, 3, 15]) = true := by decide
    exact of_decide_eq_true (List.all_eq_true.mp hall field hfield)
  have hne : number ≠ field.1 := fun heq => h (heq ▸ hknown)
  exact bne_iff_ne.mpr hne

theorem respondBytes_congr {bytes bytes' : Bytes} (h : Request.decode? bytes = Request.decode? bytes') :
    respondBytes bytes = respondBytes bytes' := by
  rw [respondBytes, respondBytes, h]

/-- A request with more bytes behind it is answered as the request that both make up, and if the other bytes
are none, as bytes that are no request. Between its fields there may stand others that a request does not
know, groups of any form as deep as messages may be among them, and the answer is the same. -/
theorem respondBytes_append (first second : Bytes) (request : Request)
    (hfirst : Request.decode? first = some request) :
    (∀ request', Request.decode? second = some request' →
      respondBytes (first ++ second) = (respond (request.merge request')).encode) ∧
    (Request.decode? second = none → respondBytes (first ++ second) = undecodableResponse.encode) ∧
    ∀ front back unknown fields skipped, first = front ++ back → FieldsSpell front fields →
      FieldsSpell unknown skipped →
      (∀ field ∈ skipped, field.number ∉ [1, 2, 3, 15] ∧ field.levels ≤ maxLevels) →
      respondBytes (front ++ unknown ++ back) = respondBytes first := by
  refine ⟨?_, ?_, ?_⟩
  · intro request' hsecond
    refine respondBytes_of_decode? ?_
    rw [Request.decode?_append hfirst, hsecond]
    rfl
  · intro hsecond
    rw [respondBytes, Request.decode?_append hfirst, hsecond]
    rfl
  · intro front back unknown fields skipped hsplit hfront hunknown hskipped
    have hnone : ∀ field ∈ skipped,
        MessageKind.request.fieldKind? field.number = none ∧ field.levels ≤ maxLevels := by
      intro field hfield
      obtain ⟨hnumber, hlevels⟩ := hskipped field hfield
      exact ⟨Request.fieldKind?_eq_none hnumber, hlevels⟩
    refine respondBytes_congr (congrArg (Option.map Request.ofRecord) ?_)
    rw [hsplit]
    exact Record.decodeUsing_skip hfront hunknown hnone back

/-- A parameter is set twice, a count and a key are longer than they have to be, and a group has a number in
it that a request knows. -/
theorem respondBytes_append_group :
    respondBytes ([0x0a, 1, 120, 0x12, 1, 44] ++ [0x12, 0x80, 0x00]) =
      (respond { requested := ["x"], parameter := some "" }).encode ∧
    respondBytes ([0x0a, 1, 120, 0x12, 1, 44] ++ [0x12]) = undecodableResponse.encode ∧
    respondBytes ([0x0a, 1, 120] ++ [0xa0, 0x00, 5, 0x2b, 0x0d, 1, 2, 3, 4, 0x2c] ++ [0x12, 1, 44]) =
      respondBytes [0x0a, 1, 120, 0x12, 1, 44] := by
  have hfirst : Request.decode? [0x0a, 1, 120, 0x12, 1, 44] =
      some { requested := ["x"], parameter := some "," } := by decide +kernel
  have hsecond : Request.decode? [0x12, 0x80, 0x00] = some { parameter := some "" } := by decide +kernel
  have hcut : Request.decode? [0x12] = none := by decide +kernel
  have hfront : FieldsSpell [0x0a, 1, 120] [.scalar 1 (.counted [120])] := by
    have hname : Token.Spells [0x0a, 1, 120] (.scalar 1 (.counted [120])) := Token.spells_of_decode? rfl
    exact .scalar hname .nil
  have hgroup : FieldsSpell [0x2b, 0x0d, 1, 2, 3, 4, 0x2c] [.group 5 [.scalar 1 (.fixed32 [1, 2, 3, 4])]] := by
    have hopening : Token.Spells [0x2b] (.groupStart 5) := Token.spells_of_decode? rfl
    have hinner : Token.Spells [0x0d, 1, 2, 3, 4] (.scalar 1 (.fixed32 [1, 2, 3, 4])) :=
      Token.spells_of_decode? rfl
    have hclosing : Token.Spells [0x2c] (.groupEnd 5) := Token.spells_of_decode? rfl
    exact .group hopening (.scalar hinner .nil) hclosing .nil
  have hunknown : FieldsSpell [0xa0, 0x00, 5, 0x2b, 0x0d, 1, 2, 3, 4, 0x2c]
      [.scalar 4 (.varint 5), .group 5 [.scalar 1 (.fixed32 [1, 2, 3, 4])]] := by
    have hnumber : Token.Spells [0xa0, 0x00, 5] (.scalar 4 (.varint 5)) := Token.spells_of_decode? (by decide)
    exact .scalar hnumber hgroup
  have hskipped : ∀ field ∈ [Field.scalar 4 (.varint 5), .group 5 [.scalar 1 (.fixed32 [1, 2, 3, 4])]],
      field.number ∉ [1, 2, 3, 15] ∧ field.levels ≤ maxLevels := by
    intro field hfield
    rcases List.mem_cons.mp hfield with rfl | hfield
    · exact ⟨by decide, by decide⟩
    · obtain rfl := List.mem_singleton.mp hfield
      exact ⟨by decide, by decide⟩
  refine ⟨?_, ?_, ?_⟩
  · have hmerge : Request.merge { requested := ["x"], parameter := some "," } { parameter := some "" } =
        { requested := ["x"], parameter := some "" } := rfl
    rw [← hmerge]
    exact (respondBytes_append _ [0x12, 0x80, 0x00] _ hfirst).1 _ hsecond
  · exact (respondBytes_append _ [0x12] _ hfirst).2.1 hcut
  · exact (respondBytes_append _ [] _ hfirst).2.2 [0x0a, 1, 120] [0x12, 1, 44] _ _ _ rfl hfront hunknown hskipped

end TwirpClient.Plugin
