import TwirpClient.Wire.Reader

/-!
# Varints

A number as bytes of seven bits each, the lowest first; every byte but the last has its high bit set. Numbers
have 64 bits, so a varint has at most ten bytes and the tenth is 0 or 1. The writer gives the shortest form.
The reader also takes longer ones, with zeros on top.
-/

namespace TwirpClient.Wire.Varint

/-- The shortest varint of a number. -/
def encode (n : Nat) : Bytes :=
  if n < 128 then [n.toUInt8] else (n % 128 + 128).toUInt8 :: encode (n / 128)
termination_by n
decreasing_by omega

/-- The most bytes that a varint has. -/
def maxGroups : Nat := 10

/-- Reads a number of at most so many bytes. Of the last of these only the lowest bit may be set. -/
def decodeWithin : Nat → Bytes → Option (Nat × Bytes)
  | 0, _ => none
  | _ + 1, [] => none
  | 1, byte :: rest => if byte.toNat < 2 then some (byte.toNat, rest) else none
  | groups + 2, byte :: rest =>
    if byte.toNat < 128 then some (byte.toNat, rest)
    else (decodeWithin (groups + 1) rest).map fun (high, left) => (byte.toNat - 128 + 128 * high, left)

/-- Reads a varint. -/
def decode? (bytes : Bytes) : Option (Nat × Bytes) :=
  decodeWithin maxGroups bytes

theorem decodeWithin_shorter {groups : Nat} {bytes rest : Bytes} {n : Nat}
    (h : decodeWithin groups bytes = some (n, rest)) : rest.length < bytes.length := by
  fun_induction decodeWithin groups bytes generalizing n with
  | case1 => cases h
  | case2 => cases h
  | case3 byte tail _ => cases h; simp
  | case4 => cases h
  | case5 _ byte tail _ => cases h; simp
  | case6 _ byte tail _ ih =>
    obtain ⟨⟨high, left⟩, hread, heq⟩ := Option.map_eq_some_iff.1 h
    cases heq
    exact Nat.lt_succ_of_lt (ih hread)

theorem decodeWithin_stable {groups : Nat} {bytes rest : Bytes} {n : Nat} (more : Bytes)
    (h : decodeWithin groups bytes = some (n, rest)) :
    decodeWithin groups (bytes ++ more) = some (n, rest ++ more) := by
  fun_induction decodeWithin groups bytes generalizing n with
  | case1 => cases h
  | case2 => cases h
  | case3 byte tail hlow => cases h; simp [decodeWithin, hlow]
  | case4 => cases h
  | case5 _ byte tail hlow => cases h; simp [decodeWithin, hlow]
  | case6 groups byte tail hhigh ih =>
    obtain ⟨⟨high, left⟩, hread, heq⟩ := Option.map_eq_some_iff.1 h
    cases heq
    simp [decodeWithin, hhigh, ih hread]

/-- Varints one after the other, as they stand in a packed field. -/
def reader : Reader Nat where
  read? := decode?
  shorter := decodeWithin_shorter
  stable := decodeWithin_stable

theorem toNat_toUInt8 {n : Nat} (h : n < 256) : n.toUInt8.toNat = n := by
  simp [Nat.mod_eq_of_lt h]

/-- A number that fits into so many groups is read back from its varint. -/
theorem decodeWithin_encode {groups n : Nat} (h : n < Nat.pow 2 (7 * groups + 1)) (rest : Bytes) :
    decodeWithin (groups + 1) (encode n ++ rest) = some (n, rest) := by
  induction groups generalizing n with
  | zero =>
    have hn : n < 2 := h
    have hbyte := toNat_toUInt8 (show n < 256 by omega)
    rw [encode, if_pos (by omega)]
    simp only [List.singleton_append, decodeWithin, hbyte, hn, if_true]
  | succ groups ih =>
    rw [encode]
    split
    · next hlow =>
      have hbyte := toNat_toUInt8 (show n < 256 by omega)
      simp only [List.singleton_append, decodeWithin, hbyte, hlow, if_true]
    · next hhigh =>
      have hbyte := toNat_toUInt8 (show n % 128 + 128 < 256 by omega)
      have hpow : n < 2 ^ (7 * groups + 1) * 2 ^ 7 := by
        rw [← Nat.pow_add]
        exact h
      have hdiv : n / 128 < 2 ^ (7 * groups + 1) := Nat.div_lt_of_lt_mul (by omega)
      rw [List.cons_append, decodeWithin, hbyte, if_neg (by omega), ih hdiv]
      simp only [Option.map_some, Option.some.injEq, Prod.mk.injEq, and_true]
      omega

/-- A 64-bit number is read back from its varint. -/
theorem decode?_encode {n : Nat} (h : n < UInt64.size) (rest : Bytes) :
    decode? (encode n ++ rest) = some (n, rest) :=
  decodeWithin_encode h rest

end TwirpClient.Wire.Varint
