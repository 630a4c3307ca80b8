import SortKey.Stream.Read

namespace SortKey
namespace Stream

/-!
# The stream form, read into room that is reserved

Room for the entries of a record is reserved as soon as their count is known.  The count
may be a lie, so it is not trusted further than the octets that are left: no more room
is reserved than there could be entries in them, two octets for each.

Reading is as it was, except that entries go into the room and that the room does not
grow.  An entry for which there is none would be refused, like anything that is longer
than it may be.
-/

/-- Room for a number of entries, and the entries that are in it, newest first. -/
structure Room (capacity : Nat) where
  entries : List Entry
  /-- There are no more of them than there is room for. -/
  fits : entries.length ≤ capacity

namespace Room

/-- Reserve room. -/
def reserved (capacity : Nat) : Room capacity :=
  ⟨[], Nat.zero_le capacity⟩

/-- Put an entry into the room, where it is not full yet. -/
def push {capacity : Nat} (entry : Entry) (room : Room capacity) :
    Except RecordError (Room capacity) :=
  if free : room.entries.length < capacity then .ok ⟨entry :: room.entries, free⟩
  else .error (.tooLong (room.entries.length + 1) capacity)

end Room

/-- How much room is reserved when so many entries are announced in front of these
octets. -/
def roomFor (count : Int32) (left : Bytes) : Nat :=
  min count.toInt.toNat (left.length / 2)

/-- Read `count` entries into the room. -/
def readEntriesInto {capacity : Nat} (nested : Bytes -> Step Record) (dialect : Option Dialect) :
    (count : Nat) -> (room : Room capacity) -> (reported : List Event) -> Bytes -> Step Record
  | 0, room, reported, bytes => ⟨.ok room.entries.reverse, bytes, reported.reverse⟩
  | count + 1, room, reported, bytes =>
      match readEntry nested dialect bytes with
      | ⟨.error cause, rest, events⟩ => ⟨.error cause, rest, (events.reverse ++ reported).reverse⟩
      | ⟨.ok entry, rest, events⟩ =>
          match room.push entry with
          | .ok room =>
              readEntriesInto nested dialect count room (events.reverse ++ reported) rest
          | .error cause => ⟨.error cause, rest, (events.reverse ++ reported).reverse⟩

/-- Read a record that may have `levels` levels of records, itself included, each of them
into room of its own. -/
def readRecordInto (dialect : Option Dialect) : (levels : Nat) -> Bytes -> Step Record
  | 0, bytes => ⟨.error (.tooDeep maxDepth), bytes, []⟩
  | levels + 1, bytes =>
      match Reading.int32 bytes with
      | (.error cause, rest) => ⟨.error (.ofByteError cause), rest, []⟩
      | (.ok count, rest) =>
          if count < 0 then
            ⟨.error (.negativeCount count), rest, [.decodingStream count dialect]⟩
          else
            readEntriesInto (readRecordInto dialect levels) dialect count.toInt.toNat
              (Room.reserved (roomFor count rest)) [.decodingStream count dialect] rest

end Stream
end SortKey
