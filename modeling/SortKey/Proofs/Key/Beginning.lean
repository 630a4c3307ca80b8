import SortKey.Proofs.Equality
import SortKey.Proofs.Key.Extension
import SortKey.Proofs.Key.RoundTrip
import SortKey.Proofs.Session.Slice

namespace SortKey

/-!
# Beginnings of keys are keys

The first entries of a record, written with or without their last separator, are
read as these entries, and their octets begin the key of the record.  Data that
ends in separators makes no difference: they are escaped, so that their number is
even where no separator follows and odd where one does.

For a record that was built from values this means that the beginning is read as
the slice of the first entries.  Only empty octets and the text of the character
zero are not found again in what was written.
-/

namespace Record

/-- Written entries with data are read as frames, with the last separator or
without it. -/
theorem frames_joined {record : Record} (some : record ≠ [])
    (filled : record.any (·.data.isEmpty) = false) (terminated : Bool) :
    Key.frames none (record.joined terminated) = .ok (record.map Entry.frame) := by
  have cut : Key.Cut (record.joined terminated) ((record.map Entry.frame).map Key.Frame.piece)
      terminated := by
    rw [List.map_map]
    exact cut_joined some terminated
  apply cut.frames_eq
  intro frame member
  rcases List.mem_map.mp member with ⟨entry, inside, rfl⟩
  refine ⟨entry.frame_announced, ?_⟩
  intro none
  have empty := List.any_eq_false.mp filled entry inside
  exact empty (List.isEmpty_iff.mpr none)

theorem decode_joined {record : Record} (some : record ≠ [])
    (filled : record.any (·.data.isEmpty) = false) (terminated : Bool) :
    Key.decode none (record.joined terminated) = .ok (record.map Entry.reread) := by
  rw [Key.decode_eq_map_frames, frames_joined some filled terminated]
  exact congrArg Except.ok List.map_map

theorem joined_false_prefix_joined_true (record : Record) :
    record.joined false <+: record.joined true := by
  refine ⟨[separator], ?_⟩
  simp [joined, Key.Piece.joined]

theorem joined_take_prefix_key {record : Record} {count : Nat} (positive : 0 < count)
    (inside : count ≤ record.length) (terminated : Bool) :
    joined (record.take count) terminated <+: record.key := by
  have some : record ≠ [] := by
    rintro rfl
    exact absurd (Nat.lt_of_lt_of_le positive inside) (Nat.lt_irrefl 0)
  have ofClosed : joined (record.take count) true <+: record.key := by
    rw [joined_true (take_ne_nil positive inside), key_eq_closed some]
    refine ⟨closed (record.drop count), ?_⟩
    rw [← closed_append, List.take_append_drop]
  cases terminated with
  | true => exact ofClosed
  | false => exact (joined_false_prefix_joined_true _).trans ofClosed

/-- The first entries of a record built from values, written with or without
their last separator, begin the key of the record and are read as these entries,
which are also what a slice of the first entries shows. -/
theorem decode_keyPrefix (record : Record) (complete : record.Complete)
    (filled : record.Everywhere (· ≠ .ofValue (.bytes [])))
    (absent : record.Everywhere (· ≠ .ofValue (.text "\x00"))) (count : Nat)
    (positive : 0 < count) (inside : count ≤ record.length) (terminated : Bool) :
    Exists fun bytes => record.keyPrefix terminated count = .ok bytes ∧
      bytes <+: record.key ∧ Key.decode none bytes = .ok (record.take count) ∧
      (∀ (session : Session) (slice : Slice), session.record slice = record ->
        Exists fun part => slice.toIndex count = .ok part ∧
          Record.same (record.take count) (session.record part) = true) := by
  have subset : record.take count ⊆ record := List.take_subset count record
  have completePart : Record.Complete (record.take count) := complete.of_subset subset
  have filledPart := filled.of_subset subset
  have someData : (record.take count).any (·.data.isEmpty) = false := by
    rw [← Bool.not_eq_true, any_isEmpty_data_iff fun entry member => completePart.of_mem member]
    intro empty
    exact filledPart.of_mem empty rfl
  have read := decode_joined (take_ne_nil positive inside) someData terminated
  rw [map_reread_of_complete _ completePart filledPart,
    withoutNul_eq_self _ (absent.of_subset subset)] at read
  refine ⟨_, keyPrefix_eq_joined positive inside terminated,
    joined_take_prefix_key positive inside terminated, read, ?_⟩
  rintro session slice rfl
  rcases session.exists_toIndex slice inside with ⟨part, taken, shown⟩
  exact ⟨part, taken, by rw [shown, same_self]⟩

/-- Octets that end in a separator, and a nested record, in front of a text;
without the last separator. -/
theorem decode_keyPrefix_at_separators :
    let record : Record := [.ofValue (.record [.ofValue (.byte 1)]),
      .ofValue (.bytes [1, separator]), .ofValue (.text "a")]
    record.Complete ∧ record.Everywhere (· ≠ .ofValue (.bytes [])) ∧
      record.Everywhere (· ≠ .ofValue (.text "\x00")) ∧ 0 < 2 ∧ 2 ≤ record.length ∧
      Exists fun bytes => record.keyPrefix false 2 = .ok bytes ∧
        Key.decode none bytes = .ok [.ofValue (.record [.ofValue (.byte 1)]),
          .ofValue (.bytes [1, separator])] := by
  intro record
  have complete : record.Complete := by decide
  have filled : record.Everywhere (· ≠ .ofValue (.bytes [])) := by
    simp [record, Everywhere, Entry.EverywhereIn, Entry.Everywhere, Value.Everywhere]
  have absent : record.Everywhere (· ≠ .ofValue (.text "\x00")) := by
    simp [record, Everywhere, Entry.EverywhereIn, Entry.Everywhere, Value.Everywhere]
  rcases decode_keyPrefix record complete filled absent 2 (by decide) (by decide) false with
    ⟨bytes, written, _, read, _⟩
  exact ⟨complete, filled, absent, by decide, by decide, bytes, written, read⟩

end Record
end SortKey
