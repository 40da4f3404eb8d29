import TwirpClient.Wire.Field

/-!
# How fields are spelt

The rules of the wire format, said without a reader. A varint may be longer than it has to be, so a number
has many spellings, and so has every key and every count; `Varint.Spells`, `KeySpells`, `Token.Spells` and
`FieldsSpell` say which bytes are one. Groups nest to any depth here, and a field may have any number: what a
message knows and how deep it may go is not a question of spelling.

The reader takes these spellings and no others: `Varint.decode?_eq_some_iff` for numbers,
`Token.decode?_eq_some_iff` for a key with what belongs to it, and `Field.decodeAll?_eq_some_iff` for whole
runs of fields. So what the writer writes is a spelling because it can be read, and a place between two fields
that are read is one between two fields that are spelt.
-/

namespace TwirpClient.Wire

/-! ## Varints -/

namespace Varint

/-- The number that bytes stand for, seven bits in each of them and the lowest first. -/
def worth : Bytes → Nat
  | [] => 0
  | byte :: rest => byte.toNat % 128 + 128 * worth rest

/-- The high bit is set on all bytes but the last. -/
def Marked (bytes : Bytes) : Prop :=
  ∃ front last, bytes = front ++ [last] ∧ (∀ byte ∈ front, 128 ≤ byte.toNat) ∧ last.toNat < 128

/-- The bytes are a varint of this number: ten of them at most, and the number has 64 bits. -/
structure Spells (bytes : Bytes) (n : Nat) : Prop where
  marked : Marked bytes
  length_le : bytes.length ≤ maxGroups
  worth_eq : worth bytes = n
  bound : n < UInt64.size

theorem Marked.cons {byte : UInt8} {bytes : Bytes} (hbyte : 128 ≤ byte.toNat) (h : Marked bytes) :
    Marked (byte :: bytes) := by
  obtain ⟨front, last, rfl, hfront, hlast⟩ := h
  refine ⟨byte :: front, last, rfl, ?_, hlast⟩
  intro b hb
  rcases List.mem_cons.mp hb with rfl | hb
  · exact hbyte
  · exact hfront b hb

theorem Marked.singleton {byte : UInt8} (hbyte : byte.toNat < 128) : Marked [byte] :=
  ⟨[], byte, rfl, nofun, hbyte⟩

/-- Bytes that are marked as a varint are read to their end, if their number fits. -/
theorem decodeWithin_of_marked {front : Bytes} {last : UInt8} {groups : Nat}
    (hfront : ∀ byte ∈ front, 128 ≤ byte.toNat) (hlast : last.toNat < 128) (hlength : front.length ≤ groups)
    (hbound : worth (front ++ [last]) < Nat.pow 2 (7 * groups + 1)) (rest : Bytes) :
    decodeWithin (groups + 1) (front ++ [last] ++ rest) = some (worth (front ++ [last]), rest) := by
  induction front generalizing groups with
  | nil =>
    have hworth : worth ([] ++ [last]) = last.toNat := by
      rw [List.nil_append, worth, worth]
      omega
    rw [hworth] at hbound ⊢
    cases groups with
    | zero =>
      have hbit : last.toNat < 2 := hbound
      simp only [List.nil_append, List.singleton_append, decodeWithin, hbit, if_true]
    | succ groups => simp only [List.nil_append, List.singleton_append, decodeWithin, hlast, if_true]
  | cons byte front ih =>
    cases groups with
    | zero => exact absurd hlength (Nat.not_succ_le_zero _)
    | succ groups =>
      have hbyte := hfront byte List.mem_cons_self
      have hlt := byte.toNat_lt
      have hworth : worth (byte :: front ++ [last]) = byte.toNat - 128 + 128 * worth (front ++ [last]) := by
        rw [List.cons_append, worth]
        omega
      have hpow : worth (byte :: front ++ [last]) < 2 ^ (7 * groups + 1) * 2 ^ 7 := by
        rw [← Nat.pow_add]
        exact hbound
      have hread := ih (fun b hb => hfront b (List.mem_cons_of_mem _ hb)) (Nat.le_of_succ_le_succ hlength)
        (show worth (front ++ [last]) < 2 ^ (7 * groups + 1) by omega)
      rw [hworth, List.cons_append, List.cons_append, decodeWithin, if_neg (by omega), hread]
      rfl

/-- What is read as a number is marked as a varint of it, and fits. -/
theorem marked_of_decodeWithin {groups n : Nat} {bytes rest : Bytes}
    (h : decodeWithin (groups + 1) bytes = some (n, rest)) :
    ∃ front, bytes = front ++ rest ∧ Marked front ∧ front.length ≤ groups + 1 ∧ worth front = n ∧
      n < Nat.pow 2 (7 * groups + 1) := by
  induction groups generalizing bytes n with
  | zero =>
    cases bytes with
    | nil => cases h
    | cons byte tail =>
      rw [decodeWithin] at h
      split at h
      · next hbit =>
        cases h
        refine ⟨[byte], rfl, .singleton (by omega), Nat.le_refl _, ?_, hbit⟩
        rw [worth, worth]
        omega
      · cases h
  | succ groups ih =>
    cases bytes with
    | nil => cases h
    | cons byte tail =>
      have hpow : Nat.pow 2 (7 * (groups + 1) + 1) = Nat.pow 2 (7 * groups + 1) * 128 :=
        Nat.pow_add 2 (7 * groups + 1) 7
      have hpos : 0 < Nat.pow 2 (7 * groups + 1) := Nat.two_pow_pos _
      rw [decodeWithin] at h
      split at h
      · next hlow =>
        cases h
        refine ⟨[byte], rfl, .singleton hlow, Nat.succ_le_succ (Nat.zero_le _), ?_, by omega⟩
        rw [worth, worth]
        omega
      · next hhigh =>
        obtain ⟨⟨high, left⟩, hread, heq⟩ := Option.map_eq_some_iff.1 h
        cases heq
        obtain ⟨front, rfl, hmarked, hlength, hworth, hbound⟩ := ih hread
        have hlt := byte.toNat_lt
        refine ⟨byte :: front, rfl, hmarked.cons (by omega), Nat.succ_le_succ hlength, ?_, by omega⟩
        rw [worth, hworth]
        omega

/-- The reader takes the varints off the front of bytes, and nothing else. -/
theorem decode?_eq_some_iff {bytes rest : Bytes} {n : Nat} :
    decode? bytes = some (n, rest) ↔ ∃ front, bytes = front ++ rest ∧ Spells front n := by
  constructor
  · intro h
    obtain ⟨front, rfl, hmarked, hlength, hworth, hbound⟩ := marked_of_decodeWithin h
    exact ⟨front, rfl, hmarked, hlength, hworth, hbound⟩
  · rintro ⟨_, rfl, ⟨front, last, rfl, hfront, hlast⟩, hlength, rfl, hbound⟩
    rw [List.length_append] at hlength
    exact decodeWithin_of_marked hfront hlast (Nat.le_of_succ_le_succ hlength) hbound rest

theorem Spells.decode? {bytes : Bytes} {n : Nat} (h : Spells bytes n) (rest : Bytes) :
    Varint.decode? (bytes ++ rest) = some (n, rest) :=
  decode?_eq_some_iff.mpr ⟨bytes, rfl, h⟩

theorem spells_of_decode? {bytes : Bytes} {n : Nat} (h : Varint.decode? bytes = some (n, [])) :
    Spells bytes n := by
  obtain ⟨front, rfl, hspells⟩ := decode?_eq_some_iff.mp h
  rwa [List.append_nil]

/-- The shortest varint of a number is one of its varints. -/
theorem spells_encode {n : Nat} (h : n < UInt64.size) : Spells (encode n) n := by
  have hread := decode?_encode h []
  rw [List.append_nil] at hread
  exact spells_of_decode? hread

end Varint

/-! ## Keys -/

/-- The bytes are a key of this number and form. -/
structure KeySpells (bytes : Bytes) (number form : Nat) : Prop where
  varint : Varint.Spells bytes (8 * number + form)
  number_pos : 0 < number
  form_lt : form < 8
  bound : 8 * number + form < keyBound

theorem KeySpells.decodeKey? {bytes : Bytes} {number form : Nat} (h : KeySpells bytes number form)
    (rest : Bytes) : Wire.decodeKey? (bytes ++ rest) = some ((number, form), rest) := by
  have hpos := h.number_pos
  have hform := h.form_lt
  have hdiv : (8 * number + form) / 8 = number := by omega
  have hmod : (8 * number + form) % 8 = form := by omega
  rw [Wire.decodeKey?, h.varint.decode?]
  simp only [hdiv, hmod]
  exact if_pos ⟨by omega, h.bound⟩

theorem keySpells_encodeKey {number form : Nat} (hnumber : 0 < number) (hform : form < 8)
    (hbound : 8 * number + form < keyBound) : KeySpells (encodeKey number form) number form :=
  ⟨Varint.spells_encode (Nat.lt_trans hbound (by decide)), hnumber, hform, hbound⟩

/-! ## Tokens -/

/-- The bytes are a key with what belongs to it. -/
inductive Token.Spells : Bytes → Token → Prop
  | varint {number value : Nat} {key body : Bytes} (hkey : KeySpells key number 0)
    (hbody : Varint.Spells body value) : Spells (key ++ body) (.scalar number (.varint value))
  | fixed64 {number : Nat} {key body : Bytes} (hkey : KeySpells key number 1) (hlength : body.length = 8) :
    Spells (key ++ body) (.scalar number (.fixed64 body))
  | counted {number : Nat} {key count body : Bytes} (hkey : KeySpells key number 2)
    (hcount : Varint.Spells count body.length) :
    Spells (key ++ (count ++ body)) (.scalar number (.counted body))
  | groupStart {number : Nat} {key : Bytes} (hkey : KeySpells key number 3) :
    Spells key (.groupStart number)
  | groupEnd {number : Nat} {key : Bytes} (hkey : KeySpells key number 4) :
    Spells key (.groupEnd number)
  | fixed32 {number : Nat} {key body : Bytes} (hkey : KeySpells key number 5) (hlength : body.length = 4) :
    Spells (key ++ body) (.scalar number (.fixed32 body))

theorem keySpells_of_decodeKey? {bytes rest : Bytes} {number form : Nat}
    (h : Wire.decodeKey? bytes = some ((number, form), rest)) :
    ∃ key, bytes = key ++ rest ∧ KeySpells key number form := by
  unfold Wire.decodeKey? at h
  split at h
  · next key _ hread =>
    split at h
    · next hbound =>
      cases h
      obtain ⟨front, rfl, hspells⟩ := Varint.decode?_eq_some_iff.mp hread
      have hkey : 8 * (key / 8) + key % 8 = key := Nat.div_add_mod key 8
      refine ⟨front, rfl, ⟨?_, by omega, by omega, ?_⟩⟩
      · rwa [hkey]
      · rw [hkey]
        exact hbound.2
    · cases h
  · cases h

/-- A key that is read leaves what belongs to it. -/
theorem Token.decode?_of_key {key : Bytes} {number form : Nat} (h : KeySpells key number form)
    (rest : Bytes) : Token.decode? (key ++ rest) = decodeBody? number form rest := by
  rw [Token.decode?, h.decodeKey?]

theorem Token.Spells.decode? {bytes : Bytes} {token : Token} (h : Token.Spells bytes token) (rest : Bytes) :
    Token.decode? (bytes ++ rest) = some (token, rest) := by
  cases h with
  | varint hkey hbody =>
    rw [List.append_assoc, decode?_of_key hkey, decodeBody?, hbody.decode?]
    rfl
  | fixed64 hkey hlength =>
    rw [List.append_assoc, decode?_of_key hkey, decodeBody?, ← hlength, cut?_append]
    rfl
  | counted hkey hcount =>
    rw [List.append_assoc, List.append_assoc, decode?_of_key hkey, decodeBody?, decodeCounted?,
      hcount.decode?]
    simp only [cut?_append, Option.map_some]
  | groupStart hkey =>
    rw [decode?_of_key hkey]
    rfl
  | groupEnd hkey =>
    rw [decode?_of_key hkey]
    rfl
  | fixed32 hkey hlength =>
    rw [List.append_assoc, decode?_of_key hkey, decodeBody?, ← hlength, cut?_append]
    rfl

/-- What is read behind a key spells, together with the key, what is read. -/
theorem Token.spells_of_decodeBody? {key bytes rest : Bytes} {number form : Nat} {token : Token}
    (hkey : KeySpells key number form) (h : decodeBody? number form bytes = some (token, rest)) :
    ∃ body, bytes = body ++ rest ∧ Token.Spells (key ++ body) token := by
  unfold decodeBody? at h
  split at h
  · obtain ⟨⟨value, left⟩, hread, heq⟩ := Option.map_eq_some_iff.1 h
    cases heq
    obtain ⟨body, rfl, hbody⟩ := Varint.decode?_eq_some_iff.mp hread
    exact ⟨body, rfl, .varint hkey hbody⟩
  · obtain ⟨⟨body, left⟩, hread, heq⟩ := Option.map_eq_some_iff.1 h
    cases heq
    obtain ⟨rfl, hlength⟩ := cut?_eq_some hread
    exact ⟨body, rfl, .fixed64 hkey hlength⟩
  · obtain ⟨⟨body, left⟩, hread, heq⟩ := Option.map_eq_some_iff.1 h
    cases heq
    unfold decodeCounted? at hread
    split at hread
    · next hcount =>
      obtain ⟨count, rfl, hspells⟩ := Varint.decode?_eq_some_iff.mp hcount
      obtain ⟨rfl, rfl⟩ := cut?_eq_some hread
      exact ⟨count ++ body, (List.append_assoc _ _ _).symm, .counted hkey hspells⟩
    · cases hread
  · cases h
    exact ⟨[], rfl, by rw [List.append_nil]; exact .groupStart hkey⟩
  · cases h
    exact ⟨[], rfl, by rw [List.append_nil]; exact .groupEnd hkey⟩
  · obtain ⟨⟨body, left⟩, hread, heq⟩ := Option.map_eq_some_iff.1 h
    cases heq
    obtain ⟨rfl, hlength⟩ := cut?_eq_some hread
    exact ⟨body, rfl, .fixed32 hkey hlength⟩
  · cases h

/-- The reader takes the tokens off the front of bytes, and nothing else. -/
theorem Token.decode?_eq_some_iff {bytes rest : Bytes} {token : Token} :
    Token.decode? bytes = some (token, rest) ↔ ∃ front, bytes = front ++ rest ∧ Token.Spells front token := by
  constructor
  · intro h
    unfold Token.decode? at h
    split at h
    · next hread =>
      obtain ⟨key, rfl, hkey⟩ := keySpells_of_decodeKey? hread
      obtain ⟨body, rfl, hspells⟩ := Token.spells_of_decodeBody? hkey h
      exact ⟨key ++ body, (List.append_assoc _ _ _).symm, hspells⟩
    · cases h
  · rintro ⟨front, rfl, h⟩
    exact h.decode? rest

theorem Token.spells_of_decode? {bytes : Bytes} {token : Token} (h : Token.decode? bytes = some (token, [])) :
    Token.Spells bytes token := by
  obtain ⟨front, rfl, hspells⟩ := Token.decode?_eq_some_iff.mp h
  rwa [List.append_nil]

/-! ## Fields -/

/-- The bytes are these fields, one after the other. A group stands between two keys of its number. -/
inductive FieldsSpell : Bytes → List Field → Prop
  | nil : FieldsSpell [] []
  | scalar {number : Nat} {value : Scalar} {front rest : Bytes} {fields : List Field}
    (hfront : Token.Spells front (.scalar number value)) (hrest : FieldsSpell rest fields) :
    FieldsSpell (front ++ rest) (.scalar number value :: fields)
  | group {number : Nat} {opening body closing rest : Bytes} {inner fields : List Field}
    (hopening : Token.Spells opening (.groupStart number)) (hbody : FieldsSpell body inner)
    (hclosing : Token.Spells closing (.groupEnd number)) (hrest : FieldsSpell rest fields) :
    FieldsSpell (opening ++ (body ++ (closing ++ rest))) (.group number inner :: fields)

/-- One token is read off the front. -/
theorem Token.Spells.all {front : Bytes} {token : Token} (h : Token.Spells front token) (rest : Bytes) :
    Token.reader.all (front ++ rest) = (Token.reader.all rest).map (token :: ·) :=
  Reader.all_of_read? (h.decode? rest)

/-- Fields are read as tokens that leave the groups around them as they are. -/
theorem FieldsSpell.tokens {bytes : Bytes} {fields : List Field} (h : FieldsSpell bytes fields) :
    ∃ tokens, Token.reader.all bytes = some tokens ∧ ∀ opened before more,
      Field.nestFrom opened before (tokens ++ more) = Field.nestFrom opened (fields.reverse ++ before) more := by
  induction h with
  | nil => exact ⟨[], Reader.all_nil _, fun _ _ _ => rfl⟩
  | @scalar number value front rest fields hfront _ ih =>
    obtain ⟨tokens, hall, hnest⟩ := ih
    refine ⟨.scalar number value :: tokens, ?_, ?_⟩
    · rw [hfront.all, hall]
      rfl
    · intro opened before more
      rw [List.cons_append, Field.nestFrom, hnest, List.reverse_cons, List.append_assoc]
      rfl
  | @group number opening body closing rest inner fields hopening _ hclosing _ ihbody ihrest =>
    obtain ⟨innerTokens, hinner, hnestInner⟩ := ihbody
    obtain ⟨tokens, hall, hnest⟩ := ihrest
    refine ⟨.groupStart number :: (innerTokens ++ .groupEnd number :: tokens), ?_, ?_⟩
    · rw [hopening.all, Reader.all_append hinner, hclosing.all, hall]
      rfl
    · intro opened before more
      rw [List.cons_append, List.append_assoc, Field.nestFrom, hnestInner, List.cons_append, Field.nestFrom,
        if_pos rfl, hnest, List.append_nil, List.reverse_reverse, List.reverse_cons, List.append_assoc]
      rfl

/-- What is left where groups are open: the rest of each of them with the key that closes it, the innermost
first, and then fields outside of all groups. -/
inductive Closes : List OpenGroup → List Field → Bytes → List Field → Prop
  | outside {before fields : List Field} {bytes : Bytes} (hfields : FieldsSpell bytes fields) :
    Closes [] before bytes (before.reverse ++ fields)
  | inside {number : Nat} {outer before inner fields : List Field} {opened : List OpenGroup}
    {body closing rest : Bytes} (hbody : FieldsSpell body inner)
    (hclosing : Token.Spells closing (.groupEnd number))
    (hrest : Closes opened (.group number (before.reverse ++ inner) :: outer) rest fields) :
    Closes (⟨number, outer⟩ :: opened) before (body ++ (closing ++ rest)) fields

/-- A field at the front belongs to what the innermost group has left. -/
theorem Closes.cons {opened : List OpenGroup} {before fields : List Field} {front rest : Bytes} {field : Field}
    (hfield : ∀ {bytes fields}, FieldsSpell bytes fields → FieldsSpell (front ++ bytes) (field :: fields))
    (h : Closes opened (field :: before) rest fields) : Closes opened before (front ++ rest) fields := by
  cases h with
  | outside hfields =>
    rw [List.reverse_cons, List.append_assoc]
    exact .outside (hfield hfields)
  | inside hbody hclosing hrest =>
    rw [List.reverse_cons, List.append_assoc] at hrest
    rw [← List.append_assoc]
    exact .inside (hfield hbody) hclosing hrest

/-- Tokens that can be nested close the groups that are open. -/
theorem closes_of_nestFrom {tokens : List Token} {bytes : Bytes} {opened : List OpenGroup}
    {before fields : List Field} (hall : Token.reader.all bytes = some tokens)
    (hnest : Field.nestFrom opened before tokens = some fields) : Closes opened before bytes fields := by
  induction tokens generalizing bytes opened before with
  | nil =>
    obtain rfl := Reader.eq_nil_of_all hall
    rw [Field.nestFrom] at hnest
    split at hnest
    · next hopened =>
      cases hnest
      rw [List.isEmpty_iff.mp hopened, ← List.append_nil before.reverse]
      exact .outside .nil
    · cases hnest
  | cons token tokens ih =>
    obtain ⟨rest, hread, hrest⟩ := Reader.read?_of_all hall
    obtain ⟨front, rfl, hfront⟩ := Token.decode?_eq_some_iff.mp hread
    cases token with
    | scalar number value => exact (ih hrest hnest).cons (.scalar hfront)
    | groupStart number =>
      -- Inside the group its rest is found, which together with the key in front is the whole group.
      cases ih hrest hnest with
      | @inside _ _ _ inner _ _ body closing rest hbody hclosing hrest =>
        have hgroup : ∀ {bytes fields}, FieldsSpell bytes fields →
            FieldsSpell (front ++ (body ++ closing) ++ bytes) (.group number inner :: fields) := by
          intro bytes fields hfields
          rw [List.append_assoc, List.append_assoc]
          exact .group hfront hbody hclosing hfields
        rw [← List.append_assoc body, ← List.append_assoc]
        exact hrest.cons hgroup
    | groupEnd number =>
      cases opened with
      | nil => cases hnest
      | cons group opened =>
        obtain ⟨number', outer⟩ := group
        rw [Field.nestFrom] at hnest
        split at hnest
        · next hnumber =>
          cases hnumber
          have hclosed := ih hrest hnest
          rw [← List.append_nil before.reverse] at hclosed
          exact .inside .nil hfront hclosed
        · cases hnest

/-- The fields that are read are those that are spelt. -/
theorem Field.decodeAll?_eq_some_iff {bytes : Bytes} {fields : List Field} :
    Field.decodeAll? bytes = some fields ↔ FieldsSpell bytes fields := by
  constructor
  · intro h
    obtain ⟨tokens, hall, hnest⟩ := Option.bind_eq_some_iff.mp h
    cases closes_of_nestFrom hall hnest with
    | outside hfields => exact hfields
  · intro h
    obtain ⟨tokens, hall, hnest⟩ := h.tokens
    have hclosed := hnest [] [] []
    rw [List.append_nil, List.append_nil] at hclosed
    rw [Field.decodeAll?, hall, Option.bind_some, Field.nest?, hclosed]
    simp only [Field.nestFrom, List.isEmpty_nil, if_true, List.reverse_reverse]

end TwirpClient.Wire
