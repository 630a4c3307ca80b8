import SortKey.Proofs.Key.Data
import SortKey.Proofs.Key.Framing

namespace SortKey

/-!
# Reading back what was written

A written key is read back entry by entry.  `Entry.reread` is what a reader
with no dialect makes of an entry that was written, and depends on the kind
and the data of that entry only.  The key as a whole is refused exactly when
some entry on its outermost level has no data.  Nested records do not matter
for that: what cannot be read inside an entry makes that entry undecodable and
nothing more.
-/

/-- The frame as which an entry is written. -/
def Entry.frame (entry : Entry) : Key.Frame :=
  ⟨entry.kind.code, entry.kind, entry.data⟩

/-- What a reader with no dialect makes of a written entry. -/
def Entry.reread (entry : Entry) : Entry :=
  entry.frame.entry none

theorem Entry.frame_announced (entry : Entry) : entry.frame.Announced none :=
  Key.announced?_code entry.kind

theorem Record.frames_announced (record : Record) :
    ∀ frame ∈ record.map Entry.frame, frame.Announced none := by
  intro frame member
  rcases List.mem_map.mp member with ⟨entry, _, rfl⟩
  exact entry.frame_announced

theorem Entry.frames_eq_map (entries : List Entry) :
    Entry.frames entries = (entries.map Entry.frame).map Key.Frame.octets := by
  induction entries with
  | nil => rfl
  | cons entry entries ih => rw [Entry.frames, ih]; rfl

theorem Record.key_eq_keyOfFrames (record : Record) :
    record.key = keyOfFrames ((record.map Entry.frame).map Key.Frame.octets) := by
  rw [key, Entry.frames_eq_map]

namespace Record

/-- The written entries of a record, each with its separator. -/
def closed (record : Record) : Bytes :=
  Key.Frame.closed (record.map Entry.frame)

theorem closed_cons (entry : Entry) (entries : Record) :
    closed (entry :: entries) =
      entry.kind.code :: (Escape.escape separator entry.data ++ separator :: closed entries) :=
  Key.Frame.closed_cons entry.frame (entries.map Entry.frame)

theorem closed_append (front back : Record) :
    closed (front ++ back) = front.closed ++ back.closed := by
  rw [closed, List.map_append]
  exact List.flatMap_append

theorem flatMap_frames (record : Record) :
    ((Entry.frames record).flatMap fun frame => frame ++ [separator]) = record.closed := by
  rw [Entry.frames_eq_map, List.flatMap_map]
  rfl

theorem key_eq_closed {record : Record} (filled : record ≠ []) : record.key = record.closed := by
  cases record with
  | nil => exact absurd rfl filled
  | cons entry entries => exact flatMap_frames (entry :: entries)

private theorem key_nil_ne_key_cons (entry : Entry) (entries : Record) :
    key [] ≠ key (entry :: entries) := by
  intro same
  have emptyKey : key [] = [separator] := rfl
  rw [emptyKey, key_eq_closed (List.cons_ne_nil entry entries), closed_cons] at same
  exact UInt8.ne_of_lt entry.kind.code_lt_separator (List.cons.inj same).1.symm

/-- Keys tell exactly the kinds and the data of the entries. -/
theorem key_eq_key_iff (a b : Record) :
    a.key = b.key <-> a.map Entry.frame = b.map Entry.frame := by
  constructor
  · intro same
    cases a with
    | nil =>
        cases b with
        | nil => rfl
        | cons y b => exact absurd same (key_nil_ne_key_cons y b)
    | cons x a =>
        cases b with
        | nil => exact absurd same.symm (key_nil_ne_key_cons x a)
        | cons y b =>
            rw [key_eq_closed (List.cons_ne_nil x a), key_eq_closed (List.cons_ne_nil y b)] at same
            exact Key.Frame.closed_injective (frames_announced _) (frames_announced _) same
  · intro same
    rw [key_eq_keyOfFrames, key_eq_keyOfFrames, same]

end Record

namespace Key

theorem frames_key (record : Record) :
    frames none record.key =
      if record.any (·.data.isEmpty) then .error .emptyData
      else .ok (record.map Entry.frame) := by
  have sameData : (record.map Entry.frame).any (·.data.isEmpty) =
      record.any (·.data.isEmpty) := List.any_map
  rw [record.key_eq_keyOfFrames, frames_keyOfFrames _ record.frames_announced, sameData]

theorem decode_key (record : Record) :
    decode none record.key =
      if record.any (·.data.isEmpty) then .error .emptyData
      else .ok (record.map Entry.reread) := by
  rw [decode_eq_map_frames, frames_key]
  split
  · rfl
  · exact congrArg Except.ok List.map_map

end Key

/-! ## Entries read back -/

namespace Entry

theorem reread_of_value_ne_record (value : Value) (plain : value.kind ≠ .record) :
    (ofValue value).reread = .ofValue value.withoutNul :=
  Key.Frame.entry_of_data plain rfl rfl

/-- A nested record is read back as a record, unless one of its entries has no
data.  Then its whole data is kept. -/
theorem reread_record (entries : List Entry) :
    (ofValue (.record entries)).reread =
      if entries.any (·.data.isEmpty) then
        .undecodable .record (Record.key entries) .emptyData
      else .ofValue (.record (entries.map reread)) := by
  have found : Key.Frame.value none (ofValue (.record entries)).frame =
      (Key.decode none (Record.key entries)).map Value.record := rfl
  rw [reread, Key.Frame.entry, found, Key.decode_key]
  split <;> rfl

end Entry
end SortKey
