import Mathlib.Data.List.Basic
import TwirpClient.Proofs.Spelling
import TwirpClient.Wire.Record

/-!
# Records written and read

A record that fits its message is read back from its bytes. To fit, each of its entries must be one that the
message knows and must hold what the message wants there, and messages must not stand in each other deeper
than there are levels; `Record.Fits` follows the levels as `Record.decodeWithin` does.

The proof has two halves. The bytes of a record spell the fields `Field.ofEntry` of its entries
(`fieldsSpell_encode`), so that `Field.decodeAll?` finds these fields; and each of these fields adds its entry
again (`Field.entries?_ofEntry`), by induction on the levels where the entry is a message.

Before that come the laws for looking into records that were put together.
-/

namespace TwirpClient.Wire

/-! ## Looking into records -/

namespace Record

section Looking

variable (number number' : Nat)

@[simp] theorem texts_append (first second : Record) :
    Record.texts (first ++ second) number = first.texts number ++ second.texts number :=
  List.filterMap_append

@[simp] theorem messages_append (first second : Record) :
    Record.messages (first ++ second) number = first.messages number ++ second.messages number :=
  List.filterMap_append

@[simp] theorem integers_append (first second : Record) :
    Record.integers (first ++ second) number = first.integers number ++ second.integers number :=
  List.filterMap_append

@[simp] theorem texts_ofTexts (values : List String) :
    (ofTexts number values).texts number' = if number = number' then values else [] := by
  rw [texts, ofTexts, List.filterMap_map]
  by_cases h : number = number'
  · simp [h]
  · simp [h]

@[simp] theorem messages_ofTexts (values : List String) : (ofTexts number values).messages number' = [] := by
  simp [messages, ofTexts]

@[simp] theorem messages_ofMessages (records : List Record) :
    (ofMessages number records).messages number' = if number = number' then records else [] := by
  rw [messages, ofMessages, List.filterMap_map]
  by_cases h : number = number'
  · simp [h]
  · simp [h]

@[simp] theorem texts_ofMessages (records : List Record) : (ofMessages number records).texts number' = [] := by
  simp [texts, ofMessages]

@[simp] theorem integers_ofMessages (records : List Record) :
    (ofMessages number records).integers number' = [] := by
  simp [integers, ofMessages]

@[simp] theorem texts_ofText? (value : Option String) :
    (ofText? number value).texts number' = if number = number' then value.toList else [] :=
  texts_ofTexts number number' value.toList

@[simp] theorem messages_ofText? (value : Option String) : (ofText? number value).messages number' = [] :=
  messages_ofTexts number number' value.toList

@[simp] theorem integers_ofText? (value : Option String) : (ofText? number value).integers number' = [] := by
  simp [integers, ofText?]

@[simp] theorem texts_ofInteger? (value : Option Nat) : (ofInteger? number value).texts number' = [] := by
  simp [texts, ofInteger?]

@[simp] theorem messages_ofInteger? (value : Option Nat) :
    (ofInteger? number value).messages number' = [] := by
  simp [messages, ofInteger?]

@[simp] theorem integers_ofInteger? (value : Option Nat) :
    (ofInteger? number value).integers number' = if number = number' then value.toList else [] := by
  rw [integers, ofInteger?, List.filterMap_map]
  by_cases h : number = number'
  · simp [h]
  · simp [h]

/-- The last text is one of the second record, if it has any. -/
theorem text?_append (first second : Record) :
    Record.text? (first ++ second) number = (second.text? number).or (first.text? number) := by
  rw [text?, texts_append, List.getLast?_append]
  rfl

end Looking

end Record

/-! ## Records that fit -/

/-- The value is one that a field of this kind holds. -/
def Value.Fits (nested : MessageKind → Record → Prop) : FieldKind → Value → Prop
  | .integer, .integer value => value < UInt64.size
  | .integers, .integer value => value < UInt64.size
  | .double, .double content => content.length = 8
  | .text, .text _ => True
  | .bytes, .bytes _ => True
  | .nested kind, .message entries => nested kind entries
  | _, _ => False

namespace Record

/-- Each entry is one of the message, given which records fit the messages in it. -/
def FitsUsing (nested : MessageKind → Record → Prop) (kind : MessageKind) (record : Record) : Prop :=
  ∀ entry ∈ record, ∃ fieldKind, kind.fieldKind? entry.1 = some fieldKind ∧ entry.2.Fits nested fieldKind

/-- The record is one of the message, with so many levels of messages in it at most. -/
def Fits : Nat → MessageKind → Record → Prop
  | 0 => FitsUsing fun _ _ => False
  | budget + 1 => FitsUsing (Fits budget)

variable {nested : MessageKind → Record → Prop} {kind : MessageKind} {number : Nat}

/-- Two records of one message make a record of this message. -/
theorem FitsUsing.append {first second : Record} (h : first.FitsUsing nested kind)
    (h' : second.FitsUsing nested kind) : FitsUsing nested kind (first ++ second) := by
  intro entry hentry
  rcases List.mem_append.mp hentry with hfirst | hsecond
  · exact h entry hfirst
  · exact h' entry hsecond

/-- Texts may stand under a number that the message has for texts. -/
theorem fitsUsing_ofTexts (h : kind.fieldKind? number = some .text) (values : List String) :
    (ofTexts number values).FitsUsing nested kind := by
  intro entry hentry
  obtain ⟨value, -, rfl⟩ := List.mem_map.mp hentry
  exact ⟨.text, h, trivial⟩

theorem fitsUsing_ofText? (h : kind.fieldKind? number = some .text) (value : Option String) :
    (ofText? number value).FitsUsing nested kind :=
  fitsUsing_ofTexts h value.toList

/-- An integer may stand under a number that the message has for integers, if it is a word. -/
theorem fitsUsing_ofInteger? (h : kind.fieldKind? number = some .integer) {value : Option Nat}
    (hvalue : ∀ n ∈ value, n < UInt64.size) : (ofInteger? number value).FitsUsing nested kind := by
  intro entry hentry
  obtain ⟨n, hn, rfl⟩ := List.mem_map.mp hentry
  exact ⟨.integer, h, hvalue n (Option.mem_toList.mp hn)⟩

/-- Messages may stand under a number that the message has for them, if each is one of the inner kind. -/
theorem fitsUsing_ofMessages {inner : MessageKind} (h : kind.fieldKind? number = some (.nested inner))
    {records : List Record} (hrecords : ∀ record ∈ records, nested inner record) :
    (ofMessages number records).FitsUsing nested kind := by
  intro entry hentry
  obtain ⟨record, hrecord, rfl⟩ := List.mem_map.mp hentry
  exact ⟨.nested inner, h, hrecords record hrecord⟩

end Record

/-! ## What is written -/

/-- What a value holds on the wire. -/
def Value.scalar : Value → Scalar
  | .integer value => .varint value
  | .double content => .fixed64 content
  | .text value => .counted (Text.Utf8.encode value)
  | .bytes value => .counted value
  | .message entries => .counted (encodeEntries entries)

/-- The field of an entry. -/
def Field.ofEntry (entry : Nat × Value) : Field :=
  .scalar entry.1 entry.2.scalar

/-- All numbers of the messages are small, and none is zero. -/
theorem MessageKind.number_bounds (kind : MessageKind) :
    kind.fields.all (fun field => 0 < field.1 && field.1 < 1000) = true := by
  cases kind <;> rfl

/-- A number that a message knows has a key. -/
theorem MessageKind.bounds_of_fieldKind? {kind : MessageKind} {number : Nat} {fieldKind : FieldKind}
    (h : kind.fieldKind? number = some fieldKind) : 0 < number ∧ number < 1000 := by
  have hmem : (number, fieldKind) ∈ kind.fields := by
    obtain ⟨front, rest, hfields, -⟩ := List.lookup_eq_some_iff.mp h
    rw [hfields]
    exact List.mem_append_right _ List.mem_cons_self
  have hbounds := List.all_eq_true.mp kind.number_bounds _ hmem
  rwa [Bool.and_eq_true, decide_eq_true_iff, decide_eq_true_iff] at hbounds

/-- A key and a counted body spell a field. The body is shorter than the whole, so its length can be written. -/
theorem tokenSpells_counted {number : Nat} {body : Bytes} (hkey : KeySpells (encodeKey number 2) number 2)
    (hsize : (encodeKey number 2 ++ encodeCounted body).length < UInt64.size) :
    Token.Spells (encodeKey number 2 ++ encodeCounted body) (.scalar number (.counted body)) := by
  refine .counted hkey (Varint.spells_encode ?_)
  rw [List.length_append, encodeCounted, List.length_append] at hsize
  omega

/-- The bytes of a value spell it under its number. -/
theorem Value.spells_encode {nested : MessageKind → Record → Prop} {kind : MessageKind} {number : Nat}
    {fieldKind : FieldKind} {value : Value} (hknown : kind.fieldKind? number = some fieldKind)
    (hfits : value.Fits nested fieldKind) (hsize : (value.encode number).length < UInt64.size) :
    Token.Spells (value.encode number) (.scalar number value.scalar) := by
  obtain ⟨hpos, hlt⟩ := MessageKind.bounds_of_fieldKind? hknown
  have hkey : ∀ form, form < 8 → KeySpells (encodeKey number form) number form := by
    intro form hform
    refine keySpells_encodeKey hpos hform ?_
    rw [keyBound, UInt32.size]
    omega
  cases value with
  | integer n =>
    have hn : n < UInt64.size := by
      cases fieldKind with
      | integer => exact hfits
      | integers => exact hfits
      | _ => exact hfits.elim
    rw [Value.encode]
    exact .varint (hkey 0 (by decide)) (Varint.spells_encode hn)
  | double bytes =>
    have hlength : bytes.length = 8 := by
      cases fieldKind with
      | double => exact hfits
      | _ => exact hfits.elim
    rw [Value.encode]
    exact .fixed64 (hkey 1 (by decide)) hlength
  | text text =>
    rw [Value.encode] at hsize ⊢
    exact tokenSpells_counted (hkey 2 (by decide)) hsize
  | bytes bytes =>
    rw [Value.encode] at hsize ⊢
    exact tokenSpells_counted (hkey 2 (by decide)) hsize
  | message entries =>
    rw [Value.encode] at hsize ⊢
    exact tokenSpells_counted (hkey 2 (by decide)) hsize

/-- The bytes of a record spell its entries, one after the other. -/
theorem fieldsSpell_encode {nested : MessageKind → Record → Prop} {kind : MessageKind} {record : Record}
    (hfits : record.FitsUsing nested kind) (hsize : record.encode.length < UInt64.size) :
    FieldsSpell record.encode (record.map Field.ofEntry) := by
  induction record with
  | nil =>
    rw [Record.encode, encodeEntries]
    exact .nil
  | cons entry record ih =>
    obtain ⟨number, value⟩ := entry
    obtain ⟨fieldKind, hknown, hvalue⟩ := hfits _ List.mem_cons_self
    rw [Record.encode, encodeEntries, List.length_append] at hsize
    rw [Record.encode, encodeEntries]
    refine .scalar (Value.spells_encode hknown hvalue (by omega)) (ih ?_ ?_)
    · exact fun entry hentry => hfits entry (List.mem_cons_of_mem _ hentry)
    · rw [Record.encode]
      omega

/-! ## What is read -/

/-- A message that stands in a record is not longer than the record. -/
theorem length_le_of_mem {record : Record} {number : Nat} {entries : Record}
    (h : (number, Value.message entries) ∈ record) : entries.encode.length ≤ record.encode.length := by
  induction record with
  | nil => exact absurd h List.not_mem_nil
  | cons entry record ih =>
    rw [Record.encode.eq_def (entry :: record), encodeEntries, List.length_append]
    rcases List.mem_cons.mp h with rfl | hmem
    · rw [Value.encode, encodeCounted, List.length_append, List.length_append, Record.encode]
      omega
    · have hle := ih hmem
      rw [Record.encode.eq_def record] at hle
      omega

/-- A field that the message knows adds what it holds. -/
theorem Field.entries?_known {read : MessageKind → Bytes → Option Record} {budget : Nat} {kind : MessageKind}
    {number : Nat} {fieldKind : FieldKind} (h : kind.fieldKind? number = some fieldKind) (value : Scalar) :
    Field.entries? read budget kind (.scalar number value) =
      (value.values? read fieldKind).map fun values => values.map fun value => (number, value) := by
  unfold Field.entries?
  rw [Field.number, h]

/-- A value that fits is what its field holds. -/
theorem Value.values?_scalar {nested : MessageKind → Record → Prop}
    {read : MessageKind → Bytes → Option Record} {fieldKind : FieldKind} {value : Value}
    (hfits : value.Fits nested fieldKind)
    (hread : ∀ inner (entries : Record), value = .message entries → nested inner entries →
      read inner entries.encode = some entries) :
    value.scalar.values? read fieldKind = some [value] := by
  cases value with
  | integer n =>
    cases fieldKind with
    | integer => rfl
    | integers => rfl
    | _ => exact hfits.elim
  | double bytes =>
    cases fieldKind with
    | double => rfl
    | _ => exact hfits.elim
  | text text =>
    cases fieldKind with
    | text => rw [Value.scalar, Scalar.values?, Text.Utf8.decode?_encode, Option.map_some]
    | _ => exact hfits.elim
  | bytes bytes =>
    cases fieldKind with
    | bytes => rfl
    | _ => exact hfits.elim
  | message entries =>
    cases fieldKind with
    | nested inner =>
      have hinner : read inner (encodeEntries entries) = some entries := hread inner entries rfl hfits
      rw [Value.scalar, Scalar.values?, hinner, Option.map_some]
    | _ => exact hfits.elim

/-- The field of an entry adds this entry. -/
theorem Field.entries?_ofEntry {nested : MessageKind → Record → Prop}
    {read : MessageKind → Bytes → Option Record} {budget : Nat} {kind : MessageKind} {entry : Nat × Value}
    {fieldKind : FieldKind} (hknown : kind.fieldKind? entry.1 = some fieldKind)
    (hfits : entry.2.Fits nested fieldKind)
    (hread : ∀ inner (entries : Record), entry.2 = .message entries → nested inner entries →
      read inner entries.encode = some entries) :
    Field.entries? read budget kind (Field.ofEntry entry) = some [entry] := by
  rw [Field.ofEntry, Field.entries?_known hknown, Value.values?_scalar hfits hread]
  rfl

/-- The record of some fields. -/
def Record.ofFields? (read : MessageKind → Bytes → Option Record) (budget : Nat) (kind : MessageKind)
    (fields : List Field) : Option Record :=
  (fields.mapM (Field.entries? read budget kind)).map List.flatten

section Reading

variable {nested : MessageKind → Record → Prop} {read : MessageKind → Bytes → Option Record} {budget : Nat}
  {kind : MessageKind}

/-- Reading has two halves: bytes are parted into fields, and fields are read as entries. -/
theorem Record.decodeUsing_eq (bytes : Bytes) :
    Record.decodeUsing read budget kind bytes = (Field.decodeAll? bytes).bind (ofFields? read budget kind) := by
  cases h : Field.decodeAll? bytes with
  | none =>
    rw [decodeUsing, h]
    rfl
  | some fields =>
    rw [decodeUsing, h, Option.bind_some, ofFields?]
    cases hentries : fields.mapM (Field.entries? read budget kind) with
    | none =>
      simp only [Option.bind_eq_bind, Option.bind_some, hentries, Option.bind_none, Option.map_none]
    | some entries =>
      simp only [Option.bind_eq_bind, Option.bind_some, hentries, Option.map_some]
      rfl

/-- The entries of the first field stand before those of the others. -/
theorem Record.ofFields?_cons {field : Field} {fields : List Field} {first rest : Record}
    (hfirst : Field.entries? read budget kind field = some first)
    (hrest : ofFields? read budget kind fields = some rest) :
    ofFields? read budget kind (field :: fields) = some (first ++ rest) := by
  obtain ⟨entries, hentries, rfl⟩ := Option.map_eq_some_iff.mp hrest
  rw [ofFields?, List.mapM_cons, hfirst, hentries]
  rfl

/-- Fields that each add one entry make up the record of these entries. -/
theorem Record.ofFields?_ofEntry {record : Record}
    (h : ∀ entry ∈ record, Field.entries? read budget kind (Field.ofEntry entry) = some [entry]) :
    ofFields? read budget kind (record.map Field.ofEntry) = some record := by
  induction record with
  | nil => rfl
  | cons entry record ih =>
    exact ofFields?_cons (h entry List.mem_cons_self)
      (ih fun entry hentry => h entry (List.mem_cons_of_mem _ hentry))

/-- One level: a record is read back if the messages in it are. -/
theorem Record.decodeUsing_encode {record : Record}
    (hread : ∀ inner entries, nested inner entries → entries.encode.length < UInt64.size →
      read inner entries.encode = some entries)
    (hfits : record.FitsUsing nested kind) (hsize : record.encode.length < UInt64.size) :
    Record.decodeUsing read budget kind record.encode = some record := by
  have hentries : ∀ entry ∈ record,
      Field.entries? read budget kind (Field.ofEntry entry) = some [entry] := by
    intro entry hentry
    obtain ⟨fieldKind, hknown, hvalue⟩ := hfits entry hentry
    refine Field.entries?_ofEntry hknown hvalue fun inner entries heq hinner => ?_
    have hmem : (entry.1, Value.message entries) ∈ record := by
      rw [← heq]
      exact hentry
    exact hread inner entries hinner (Nat.lt_of_le_of_lt (length_le_of_mem hmem) hsize)
  rw [decodeUsing_eq, Field.decodeAll?_eq_some_iff.mpr (fieldsSpell_encode hfits hsize), Option.bind_some,
    ofFields?_ofEntry hentries]

end Reading

/-- A record that fits its message is read back from its bytes. -/
theorem Record.decodeWithin_encode {budget : Nat} {kind : MessageKind} {record : Record}
    (hfits : record.Fits budget kind) (hsize : record.encode.length < UInt64.size) :
    Record.decodeWithin budget kind record.encode = some record := by
  induction budget generalizing kind record with
  | zero => exact Record.decodeUsing_encode (fun _ _ hfalse => hfalse.elim) hfits hsize
  | succ budget ih => exact Record.decodeUsing_encode (fun _ _ hinner => ih hinner) hfits hsize

end TwirpClient.Wire
