/-!
# Readers of bytes

A reader takes one thing off the front of some bytes. It owes two laws: it takes at least one byte, so that
reading on and on comes to an end; and it does not look behind what it takes, so that bytes which follow
change neither what it reads nor where it stops. `Reader.all` reads to the end, and `all_append` says what
the second law is for: the readings of two runs of bytes are put together like the bytes.
-/

namespace TwirpClient.Wire

/-- Bytes, in the order in which they are sent. -/
abbrev Bytes := List UInt8

/-- Reads one thing off the front. -/
structure Reader (α : Type) where
  read? : Bytes → Option (α × Bytes)
  /-- Something is taken. -/
  shorter : ∀ {bytes a rest}, read? bytes = some (a, rest) → rest.length < bytes.length
  /-- What follows is not looked at. -/
  stable : ∀ {bytes a rest} (more : Bytes), read? bytes = some (a, rest) →
    read? (bytes ++ more) = some (a, rest ++ more)

/-- The first `count` bytes and the rest, if there are so many. -/
def cut? (count : Nat) (bytes : Bytes) : Option (Bytes × Bytes) :=
  let front := bytes.take count
  if front.length = count then some (front, bytes.drop count) else none

theorem cut?_eq_some {count : Nat} {bytes front rest : Bytes} (h : cut? count bytes = some (front, rest)) :
    bytes = front ++ rest ∧ front.length = count := by
  simp only [cut?] at h
  split at h
  · next hlength =>
    cases h
    exact ⟨(List.take_append_drop count bytes).symm, hlength⟩
  · cases h

theorem cut?_append (front rest : Bytes) : cut? front.length (front ++ rest) = some (front, rest) := by
  simp [cut?]

theorem cut?_stable {count : Nat} {bytes front rest : Bytes} (more : Bytes)
    (h : cut? count bytes = some (front, rest)) : cut? count (bytes ++ more) = some (front, rest ++ more) := by
  obtain ⟨rfl, rfl⟩ := cut?_eq_some h
  rw [List.append_assoc, cut?_append]

namespace Reader

variable {α : Type}

/-- Reads to the end of the bytes. -/
def all (reader : Reader α) (bytes : Bytes) : Option (List α) :=
  match bytes with
  | [] => some []
  | byte :: tail =>
    match h : reader.read? (byte :: tail) with
    | none => none
    | some (a, rest) =>
      have : rest.length < (byte :: tail).length := reader.shorter h
      (reader.all rest).map (a :: ·)
termination_by bytes.length
decreasing_by exact this

@[simp] theorem all_nil (reader : Reader α) : reader.all [] = some [] := by
  rw [all]

/-- One step of reading to the end. -/
theorem all_of_read? {reader : Reader α} {bytes rest : Bytes} {a : α} (h : reader.read? bytes = some (a, rest)) :
    reader.all bytes = (reader.all rest).map (a :: ·) := by
  cases bytes with
  | nil => exact absurd (reader.shorter h) (Nat.not_lt_zero _)
  | cons byte tail =>
    rw [all]
    split
    · next hnone => rw [h] at hnone; cases hnone
    · next hsome =>
      rw [h] at hsome
      cases hsome
      rfl

/-- What is read first was taken off the front. -/
theorem read?_of_all {reader : Reader α} {bytes : Bytes} {a : α} {as : List α} (h : reader.all bytes = some (a :: as)) :
    ∃ rest, reader.read? bytes = some (a, rest) ∧ reader.all rest = some as := by
  cases bytes with
  | nil =>
    rw [all_nil] at h
    cases h
  | cons byte tail =>
    cases hread : reader.read? (byte :: tail) with
    | none =>
      rw [all] at h
      split at h
      · cases h
      · next hsome =>
        rw [hread] at hsome
        cases hsome
    | some taken =>
      obtain ⟨first, rest⟩ := taken
      rw [all_of_read? hread] at h
      obtain ⟨others, hothers, heq⟩ := Option.map_eq_some_iff.1 h
      cases heq
      exact ⟨rest, rfl, hothers⟩

/-- Where nothing is read there is nothing. -/
theorem eq_nil_of_all {reader : Reader α} {bytes : Bytes} (h : reader.all bytes = some []) : bytes = [] := by
  cases bytes with
  | nil => rfl
  | cons byte tail =>
    rw [all] at h
    split at h
    · cases h
    · obtain ⟨others, -, heq⟩ := Option.map_eq_some_iff.1 h
      cases heq

/-- Bytes that can be read to the end are read the same way with others behind them. -/
theorem all_append {reader : Reader α} {first : Bytes} {as : List α} (h : reader.all first = some as)
    (second : Bytes) : reader.all (first ++ second) = (reader.all second).map (as ++ ·) := by
  fun_induction all reader first generalizing as with
  | case1 =>
    cases h
    simp
  | case2 => cases h
  | case3 byte tail a rest hread _ ih =>
    obtain ⟨others, hothers, rfl⟩ := Option.map_eq_some_iff.1 h
    rw [all_of_read? (reader.stable second hread), ih hothers, Option.map_map]
    rfl

end Reader

end TwirpClient.Wire
