import SortKey.Proofs.Field
import SortKey.Proofs.VarInt.Spelling

namespace SortKey

/-!
# How far a field reaches

The beginning of a field tells how many octets it takes: its shape does, or the length
in front of it.  `Field.Shape.extent` reads that off and looks at nothing else.  A
field whose extent cannot be told, or is larger than what is there, consumes nothing.
Any other field consumes exactly its extent, also a text that turns out to be
malformed.
-/

namespace Reading

variable {α β : Type}

/-! ## Lengths -/

/-- A length of 16 bits and how many octets it takes. -/
def shortLength (bytes : Bytes) : Except ByteError (Nat × Nat) :=
  if bytes.length < 2 then .error .endOfBuffer else .ok (Bytes.toNat (bytes.take 2), 2)

/-- What a length is, and how many octets it takes, if it can be told. -/
inductive Told (told : Except ByteError (Nat × Nat)) (bytes : Bytes) :
    Except ByteError Nat × Bytes -> Prop
  | not {cause : ByteError} (refused : told = .error cause) : Told told bytes (.error cause, bytes)
  | length {count used : Nat} (read : told = .ok (count, used)) (inside : used ≤ bytes.length) :
      Told told bytes (.ok count, bytes.drop used)

theorem told_varInt (bytes : Bytes) : Told (VarInt.decode bytes) bytes (varInt bytes) := by
  rw [varInt]
  cases read : VarInt.decode bytes with
  | error cause => exact .not rfl
  | ok found =>
      rcases VarInt.exists_groups read with ⟨front, rest, rfl, used, _⟩
      refine .length rfl ?_
      rw [used, Nat.zero_add, List.length_append]
      exact Nat.le_add_right _ _

theorem told_number (bytes : Bytes) : Told (shortLength bytes) bytes (number 2 bytes) := by
  rw [shortLength, number_eq]
  rcases Nat.lt_or_ge bytes.length 2 with fewer | enough
  · rw [if_pos fewer, take_of_lt fewer]
    exact .not rfl
  · rw [if_neg (Nat.not_lt.mpr enough), take_of_le enough]
    exact .length rfl enough

/-! ## Extents -/

/-- What is taken of octets if an extent can be told, and nothing otherwise.  Octets
that are taken can only be malformed as a text. -/
inductive Spanned (extent : Except ByteError Nat) (bytes : Bytes) :
    Except ByteError α × Bytes -> Prop
  | untold {cause : ByteError} (untold : extent = .error cause) :
      Spanned extent bytes (.error cause, bytes)
  | cutOff {count : Nat} (told : extent = .ok count) (fewer : bytes.length < count) :
      Spanned extent bytes (.error .endOfBuffer, bytes)
  | taken {count : Nat} {result : Except ByteError α} (told : extent = .ok count)
      (enough : count ≤ bytes.length)
      (onText : forall cause, result = .error cause -> cause = .malformedText) :
      Spanned extent bytes (result, bytes.drop count)

/-- Looking further at what was read takes no more octets. -/
theorem Spanned.checked {extent : Except ByteError Nat} {bytes : Bytes}
    {found : Except ByteError α × Bytes} (spanned : Spanned extent bytes found)
    {check : α -> Except ByteError β}
    (onText : forall content cause, check content = .error cause -> cause = .malformedText) :
    Spanned extent bytes (found.1.bind check, found.2) := by
  cases spanned with
  | untold untold => exact .untold untold
  | cutOff told fewer => exact .cutOff told fewer
  | @taken count result told enough malformed =>
      refine .taken told enough fun cause refused => ?_
      cases result with
      | error first =>
          cases refused
          exact malformed _ rfl
      | ok content => exact onText content cause refused

theorem Spanned.mapped {extent : Except ByteError Nat} {bytes : Bytes}
    {found : Except ByteError α × Bytes} (spanned : Spanned extent bytes found) (make : α -> β) :
    Spanned extent bytes (found.1.map make, found.2) := by
  have same : found.1.map make = found.1.bind fun content => .ok (make content) := by
    cases found.1 <;> rfl
  rw [same]
  exact spanned.checked (by simp)

/-- What is found is found in a front of the octets that is as long as the extent. -/
theorem Spanned.exists_front {extent : Except ByteError Nat} {bytes rest : Bytes} {content : α}
    (spanned : Spanned extent bytes (.ok content, rest)) :
    Exists fun front => bytes = front ++ rest ∧ extent = .ok front.length := by
  cases spanned with
  | @taken count _ told enough _ =>
      refine ⟨bytes.take count, (List.take_append_drop count bytes).symm, ?_⟩
      rw [List.length_take_of_le enough, told]

theorem spanned_take (count : Nat) (bytes : Bytes) :
    Spanned (.ok count) bytes (take count bytes) := by
  rcases Nat.lt_or_ge bytes.length count with fewer | enough
  · rw [take_of_lt fewer]
    exact .cutOff rfl fewer
  · rw [take_of_le enough]
    exact .taken rfl enough (by simp)

theorem spanned_number (width : Nat) (bytes : Bytes) :
    Spanned (.ok width) bytes (number width bytes) := by
  rw [number_eq]
  exact (spanned_take width bytes).mapped _

theorem spanned_octet (bytes : Bytes) : Spanned (.ok 1) bytes (octet bytes) := by
  rw [octet_eq]
  exact (spanned_number 1 bytes).mapped _

theorem spanned_int32 (bytes : Bytes) : Spanned (.ok 4) bytes (int32 bytes) := by
  rw [int32_eq]
  exact (spanned_number 4 bytes).mapped _

theorem spanned_int64 (bytes : Bytes) : Spanned (.ok 8) bytes (int64 bytes) := by
  rw [int64_eq]
  exact (spanned_number 8 bytes).mapped _

theorem spanned_double (bytes : Bytes) : Spanned (.ok 8) bytes (double bytes) := by
  rw [double_eq]
  exact (spanned_number 8 bytes).mapped _

theorem spanned_varInt (bytes : Bytes) :
    Spanned ((VarInt.decode bytes).map Prod.snd) bytes (varInt bytes) := by
  have tells := told_varInt bytes
  generalize varInt bytes = found at tells ⊢
  cases tells with
  | not refused => exact .untold (by rw [refused]; rfl)
  | length read inside => exact .taken (by rw [read]; rfl) inside (by simp)

/-- Octets behind a length reach as far as the length and what it announces. -/
theorem spanned_counted {length : Reading Nat} {told : Except ByteError (Nat × Nat)} {bytes : Bytes}
    (tells : Told told bytes (length bytes)) :
    Spanned (told.map fun found => found.2 + found.1) bytes (counted length bytes) := by
  generalize first : length bytes = found at tells
  cases tells with
  | not refused =>
      rw [counted_of_error first]
      exact .untold (by rw [refused]; rfl)
  | @length count used read inside =>
      have extent : (told.map fun found => found.2 + found.1) = .ok (used + count) := by
        rw [read]
        rfl
      have left : (bytes.drop used).length = bytes.length - used := List.length_drop
      rcases Nat.lt_or_ge (bytes.drop used).length count with fewer | enough
      · rw [counted_of_lt first fewer]
        exact .cutOff extent (by omega)
      · rw [counted_of_le first enough, List.drop_drop]
        exact .taken extent (by omega) (by simp)

theorem Spanned.textOf {extent : Except ByteError Nat} {body : Reading Bytes} {bytes : Bytes}
    (spanned : Spanned extent bytes (body bytes)) : Spanned extent bytes (textOf body bytes) := by
  rw [textOf_eq]
  refine spanned.checked fun content cause refused => ?_
  rcases Text.Modified.decode_cases content with malformed | ⟨text, decoded, _⟩
  · rw [malformed] at refused
    cases refused
    rfl
  · rw [decoded] at refused
    cases refused

end Reading

/-! ## Fields -/

namespace Field
namespace Shape

/-- How many octets a field of the shape takes that begins like these octets. -/
def extent : Shape -> Bytes -> Except ByteError Nat
  | .octet, _ => .ok 1
  | .word16, _ => .ok 2
  | .int32, _ => .ok 4
  | .int64, _ => .ok 8
  | .double, _ => .ok 8
  | .raw count, _ => .ok count
  | .varInt, bytes => (VarInt.decode bytes).map Prod.snd
  | .buffer, bytes => (VarInt.decode bytes).map fun length => length.2 + length.1
  | .text, bytes => (VarInt.decode bytes).map fun length => length.2 + length.1
  | .shortText, bytes => (Reading.shortLength bytes).map fun length => length.2 + length.1

/-- A field is its content in other words. -/
theorem packed_eq {α : Type} (make : α -> Field) (found : Except ByteError α × Bytes) :
    (match found with
      | (.ok content, rest) => (.ok (make content), rest)
      | (.error cause, rest) => (.error cause, rest)) =
      ((found.1.map make, found.2) : Except ByteError Field × Bytes) := by
  rcases found with ⟨_ | _, _⟩ <;> rfl

private theorem spanned_packed {α : Type} {extent : Except ByteError Nat} {bytes : Bytes}
    {found : Except ByteError α × Bytes} (make : α -> Field)
    (spanned : Reading.Spanned extent bytes found) :
    Reading.Spanned extent bytes
      (match found with
        | (.ok content, rest) => (.ok (make content), rest)
        | (.error cause, rest) => (.error cause, rest)) := by
  rw [packed_eq]
  exact spanned.mapped make

/-- A field takes its extent or nothing. -/
theorem spanned_read (shape : Shape) (bytes : Bytes) :
    Reading.Spanned (shape.extent bytes) bytes (shape.read bytes) := by
  cases shape with
  | octet => exact spanned_packed _ (Reading.spanned_octet bytes)
  | word16 => exact spanned_packed _ (Reading.spanned_number 2 bytes)
  | int32 => exact spanned_packed _ (Reading.spanned_int32 bytes)
  | int64 => exact spanned_packed _ (Reading.spanned_int64 bytes)
  | double => exact spanned_packed _ (Reading.spanned_double bytes)
  | raw count => exact spanned_packed _ (Reading.spanned_take count bytes)
  | varInt => exact spanned_packed _ (Reading.spanned_varInt bytes)
  | buffer => exact spanned_packed _ (Reading.spanned_counted (Reading.told_varInt bytes))
  | text => exact spanned_packed _ (Reading.spanned_counted (Reading.told_varInt bytes)).textOf
  | shortText =>
      exact spanned_packed _ (Reading.spanned_counted (Reading.told_number bytes)).textOf

/-- An extent cannot be told if its octets are cut off or spell no number. -/
theorem extent_error {shape : Shape} {bytes : Bytes} {cause : ByteError}
    (untold : shape.extent bytes = .error cause) :
    cause = .endOfBuffer ∨ cause = .malformedVarInt := by
  have ofVarInt : forall {make : Nat × Nat -> Nat}, (VarInt.decode bytes).map make = .error cause ->
      cause = .endOfBuffer ∨ cause = .malformedVarInt := by
    intro make refused
    rcases VarInt.decode_cases bytes with ⟨read, _⟩ | ⟨read, _⟩ | ⟨_, _, _, _, _, _, _, _, read⟩ <;>
      rw [read] at refused <;> cases refused
    · exact Or.inl rfl
    · exact Or.inr rfl
  cases shape with
  | varInt | buffer | text => exact ofVarInt untold
  | shortText =>
      rw [extent, Reading.shortLength] at untold
      split at untold <;> cases untold
      exact Or.inl rfl
  | _ => cases untold

/-- Nothing but octets without a length can be no octets at all. -/
theorem extent_pos (shape : Shape) {bytes : Bytes} {count : Nat}
    (sized : forall count, shape ≠ .raw count) (told : shape.extent bytes = .ok count) :
    0 < count := by
  have ofVarInt : forall {make : Nat × Nat -> Nat}, (forall found, found.2 ≤ make found) ->
      (VarInt.decode bytes).map make = .ok count -> 0 < count := by
    intro make most told
    rcases VarInt.decode_cases bytes with ⟨read, _⟩ | ⟨read, _⟩ | ⟨front, b, _, _, _, _, _, _, read⟩ <;>
      rw [read] at told <;> cases told
    exact Nat.lt_of_lt_of_le (Nat.succ_pos front.length) (most (_, front.length + 1))
  cases shape with
  | raw count => exact absurd rfl (sized count)
  | varInt => exact ofVarInt (fun _ => Nat.le_refl _) told
  | buffer | text => exact ofVarInt (fun _ => Nat.le_add_right _ _) told
  | shortText =>
      rw [extent, Reading.shortLength] at told
      split at told <;> cases told
      exact Nat.add_pos_left Nat.two_pos _
  | _ =>
      cases told
      decide

end Shape
end Field
end SortKey
