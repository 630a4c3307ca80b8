import SortKey.Escape
import SortKey.Hash.Xxh3
import SortKey.Record
import SortKey.Text.Utf8

namespace SortKey

/-!
# The key form, written

The key of a record is the sequence of its entries, each as its code and its
escaped data, and each followed by the separator.  The empty record is the
separator alone.  Keys compare like the records' entries, which is what the
form is for.  They also stand for records in hashes that outlive a program.

`Value.data` is what stands, escaped, between code and separator.  The empty
text takes the octet zero because data must not be empty; the text that is
that octet shares the encoding.
-/

/-- The data of the empty text. -/
def emptyTextData : Bytes := [0]

/-- A code and the escaped data behind it. -/
def frameOctets (kind : Kind) (data : Bytes) : Bytes :=
  kind.code :: Escape.escape separator data

/-- The key of a record, from the frames of its entries. -/
def keyOfFrames (frames : List Bytes) : Bytes :=
  if frames.isEmpty then [separator]
  else frames.flatMap fun frame => frame ++ [separator]

mutual

/-- The data of a value, before it is escaped. -/
def Value.data : Value -> Bytes
  | .byte b => [b]
  | .bytes content => content
  | .double bits => Bytes.ofNat 8 bits.toNat
  | .integer n => Bytes.ofNat 4 n.toUInt32.toNat
  | .long n => Bytes.ofNat 8 n.toUInt64.toNat
  | .text content => if content.isEmpty then emptyTextData else Text.Utf8.encode content
  | .record entries => keyOfFrames (Entry.frames entries)

/-- The data of an entry, before it is escaped. -/
def Entry.data : Entry -> Bytes
  | .ofValue value => value.data
  | .undecodable _ data _ => data

/-- Codes and escaped data of a sequence of entries. -/
def Entry.frames : List Entry -> List Bytes
  | [] => []
  | entry :: entries => frameOctets entry.kind entry.data :: Entry.frames entries

end

namespace Record

/-- The key of a record. -/
def key (record : Record) : Bytes :=
  keyOfFrames (Entry.frames record)

/-- What the keys of all records begin with that start with the same `count`
entries.  Without the last separator the last entry may also go on. -/
def keyPrefix (record : Record) (terminated : Bool) (count : Nat) : Except RecordError Bytes :=
  if count > record.length then .error (.indexOutOfRange count record.length)
  else
    let frames := Entry.frames (record.take count)
    .ok (if terminated then frames.flatMap fun frame => frame ++ [separator]
      else [separator].intercalate frames)

/-- Records are ordered like their keys. -/
def order (a b : Record) : Ordering :=
  a.key.order b.key

/-- The stable hash of a record is that of its key, so it may be stored. -/
def stableHash (record : Record) : UInt64 :=
  Xxh3.hash record.key

end Record
end SortKey
