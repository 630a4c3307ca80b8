import SortKey.Proofs.Escape.Passes
import SortKey.Proofs.Key.Reading
import SortKey.Proofs.Key.Reread

namespace SortKey

/-!
# How keys of nested records grow

The key of a record that has one entry, a record again, is the key of that record with
its separators doubled, a code in front, and a separator behind.  So the separators
double with every level, and each level makes the key longer by as many octets as it
found separators, and two.

Octets that are read need not be a key that was written.  A code of a record, time after
time, in front of the marker of the empty record has no separator that could double, and
stands for the empty record inside as many others as there are codes.
-/

namespace Record

/-! ## One more level -/

/-- A record whose one entry is a record. -/
theorem key_around (record : Record) :
    key [.ofValue (.record record)] =
      Kind.record.code :: (Escape.escape separator record.key ++ [separator]) := by
  have closed := key_eq_closed (List.cons_ne_nil (Entry.ofValue (.record record)) [])
  rwa [closed_cons] at closed

theorem count_key_around (record : Record) :
    (key [.ofValue (.record record)]).count separator = 2 * record.key.count separator + 1 := by
  have ordinary : Kind.record.code ≠ separator := by decide
  rw [key_around, List.count_cons_of_ne ordinary, List.count_append, Escape.count_escape,
    List.count_singleton_self]

theorem length_key_around (record : Record) :
    (key [.ofValue (.record record)]).length =
      record.key.length + record.key.count separator + 2 := by
  rw [key_around, List.length_cons, List.length_append, Escape.length_escape,
    List.length_singleton]

/-! ## Any number of levels -/

theorem count_key_wrapped (record : Record) (times : Nat) :
    (record.wrapped times).key.count separator + 1 =
      2 ^ times * (record.key.count separator + 1) := by
  induction times with
  | zero => rw [wrapped, Nat.pow_zero, Nat.one_mul]
  | succ times ih =>
      rw [wrapped, count_key_around, Nat.pow_succ, Nat.mul_right_comm, ← ih]
      omega

/-- Each level adds as many octets as there are separators, and two. -/
theorem length_key_wrapped (record : Record) (times : Nat) :
    (record.wrapped times).key.length + (record.key.count separator + 1) =
      record.key.length + times + 2 ^ times * (record.key.count separator + 1) := by
  induction times with
  | zero => rw [wrapped, Nat.pow_zero, Nat.one_mul]; rfl
  | succ times ih =>
      have counted := record.count_key_wrapped times
      rw [wrapped, length_key_around, Nat.pow_succ, Nat.mul_right_comm, ← counted]
      rw [← counted] at ih
      omega

end Record

/-! ## Reading without separators -/

namespace Key

/-- A code of a record in front of a key without a separator. -/
theorem decode_around {data : Bytes} (filled : data ≠ []) (unseparated : data.count separator = 0)
    {record : Record} (read : decode none data = .ok record) :
    decode none (Kind.record.code :: data) = .ok [.ofValue (.record record)] := by
  let frame : Frame := ⟨Kind.record.code, .record, data⟩
  have known : frame.Announced none := announced?_code .record
  have isFrame : frames none (Kind.record.code :: data) = .ok [frame] := by
    have whole := scanOnto_octets known [] (Or.inl rfl)
    have someData : ¬ frame.data.isEmpty = true := fun empty => filled (List.isEmpty_iff.mp empty)
    rw [List.append_nil, (Escape.escape_eq_self_iff separator data).mpr unseparated,
      if_neg someData] at whole
    rw [frames, if_neg (by decide), scan]
    exact congrArg Scan.outcome whole
  refine decode_eq_ok_iff.mpr ⟨[frame], isFrame, ?_⟩
  rw [List.map_singleton, Frame.entry_of_ok rfl read]

/-- Codes of records in front of the marker of the empty record. -/
def around (times : Nat) : Bytes :=
  List.replicate times Kind.record.code ++ [emptyMarker]

theorem count_around (times : Nat) : (around times).count separator = 0 := by
  rw [around, List.count_append, List.count_replicate]
  rfl

theorem decode_around_empty (times : Nat) :
    decode none (around times) = .ok (Record.wrapped times []) := by
  induction times with
  | zero => exact decode_eq_ok_iff.mpr ⟨[], rfl, rfl⟩
  | succ times ih =>
      exact decode_around (by simp [around]) (count_around times) ih

end Key

/-- The key of a record inside others grows exactly like this, and very few octets are
read as a record whose key is that long. -/
theorem Record.wrapped_key_grows (times : Nat) :
    (forall record : Record,
      (record.wrapped times).key.count separator =
          2 ^ times * (record.key.count separator + 1) - 1 ∧
        (record.wrapped times).key.length =
          record.key.length + times + (2 ^ times - 1) * (record.key.count separator + 1)) ∧
    Key.decode none (List.replicate times Kind.record.code ++ [emptyMarker]) =
        .ok (Record.wrapped times []) ∧
      (Record.wrapped times []).key.length = 2 ^ (times + 1) + times - 1 := by
  have onEmpty := length_key_wrapped [] times
  have emptyKey : key [] = [separator] := rfl
  rw [emptyKey, List.count_singleton_self, List.length_singleton] at onEmpty
  refine ⟨fun record => ⟨?_, ?_⟩, Key.decode_around_empty times, ?_⟩
  · exact Nat.eq_sub_of_add_eq (record.count_key_wrapped times)
  · have grown := record.length_key_wrapped times
    have least : record.key.count separator + 1 ≤ 2 ^ times * (record.key.count separator + 1) :=
      Nat.le_mul_of_pos_left _ (Nat.two_pow_pos times)
    rw [Nat.sub_mul, Nat.one_mul]
    omega
  · rw [Nat.pow_succ]
    omega

/-- Four octets are read as a record whose key has eighteen. -/
example : (Key.around 3).length = 4 ∧ (Record.wrapped 3 []).key.length = 18 := by
  decide

end SortKey
