import SortKey.Event
import SortKey.Field
import SortKey.Record
import SortKey.Wire

namespace SortKey

/-!
# The stream form, read

Reading takes a record from the front of the remaining octets.  Nesting is
limited, and the limit is checked before a nested record is looked at.  Every
step tells what is left and what it reported, also when it fails.

Claimed counts cost nothing: each entry has to be found in the input.
-/

namespace Stream

/-- How deep records may be nested in one another. -/
def maxDepth : Nat := 512

/-- A result, the octets that are left, and what was reported. -/
structure Step (α : Type) where
  result : Except RecordError α
  rest : Bytes
  events : List Event

/-- A field becomes a value. -/
def fieldStep {α : Type} (reading : Reading α) (make : α -> Value) (bytes : Bytes) : Step Value :=
  match reading bytes with
  | (.ok content, rest) => ⟨.ok (make content), rest, []⟩
  | (.error cause, rest) => ⟨.error (.ofByteError cause), rest, []⟩

/-- Read a value whose code was `code`.  Nested records are read by
`nested`. -/
def readValue (nested : Bytes -> Step Record) (code : UInt8) (wire : Wire) (bytes : Bytes) :
    Step Value :=
  match wire with
  | .kind .byte => fieldStep Reading.octet .byte bytes
  | .kind .bytes => fieldStep Reading.buffer .bytes bytes
  | .kind .double => fieldStep Reading.double .double bytes
  | .kind .integer => fieldStep Reading.int32 .integer bytes
  | .kind .long => fieldStep Reading.int64 .long bytes
  | .kind .text => fieldStep Reading.text .text bytes
  | .kind .record =>
      let inner := nested bytes
      ⟨inner.result.map .record, inner.rest, inner.events⟩
  | .shortText => fieldStep Reading.shortText .text bytes
  | .emptyRecord => ⟨.error (.invalidCode code), bytes, []⟩

/-- Read an entry: its code, and its value. -/
def readEntry (nested : Bytes -> Step Record) (dialect : Option Dialect) (bytes : Bytes) :
    Step Entry :=
  match Reading.octet bytes with
  | (.error cause, rest) => ⟨.error (.ofByteError cause), rest, []⟩
  | (.ok code, rest) =>
      match Wire.ofCode dialect code with
      | .error cause => ⟨.error cause, rest, Event.ofCode dialect code⟩
      | .ok wire =>
          let value := readValue nested code wire rest
          ⟨value.result.map .ofValue, value.rest, Event.ofCode dialect code ++ value.events⟩

/-- Read `count` entries.  Entries read before and what they reported are
given newest first. -/
def readEntriesOnto (nested : Bytes -> Step Record) (dialect : Option Dialect) :
    (count : Nat) -> (read : List Entry) -> (reported : List Event) -> Bytes -> Step Record
  | 0, read, reported, bytes => ⟨.ok read.reverse, bytes, reported.reverse⟩
  | count + 1, read, reported, bytes =>
      match readEntry nested dialect bytes with
      | ⟨.ok entry, rest, events⟩ =>
          readEntriesOnto nested dialect count (entry :: read) (events.reverse ++ reported) rest
      | ⟨.error cause, rest, events⟩ => ⟨.error cause, rest, (events.reverse ++ reported).reverse⟩

/-- Read a record that may have `levels` levels of records, itself
included. -/
def readRecord (dialect : Option Dialect) : (levels : Nat) -> Bytes -> Step Record
  | 0, bytes => ⟨.error (.tooDeep maxDepth), bytes, []⟩
  | levels + 1, bytes =>
      match Reading.int32 bytes with
      | (.error cause, rest) => ⟨.error (.ofByteError cause), rest, []⟩
      | (.ok count, rest) =>
          if count < 0 then
            ⟨.error (.negativeCount count), rest, [.decodingStream count dialect]⟩
          else
            readEntriesOnto (readRecord dialect levels) dialect count.toInt.toNat []
              [.decodingStream count dialect] rest

/-- Read a record from the front. -/
def read (dialect : Option Dialect) (bytes : Bytes) : Step Record :=
  readRecord dialect (maxDepth + 1) bytes

/-- Read a record that takes all the octets. -/
def readExact (bytes : Bytes) : Step Record :=
  match read none bytes with
  | ⟨.ok record, [], events⟩ => ⟨.ok record, [], events⟩
  | ⟨.ok _, rest, events⟩ =>
      ⟨.error (.trailingBytes rest.length), rest, events ++ [.bytesLeft rest.length]⟩
  | failed => failed

end Stream
end SortKey
