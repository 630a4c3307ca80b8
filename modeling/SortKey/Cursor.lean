import SortKey.Field

namespace SortKey

/-!
# Reading and writing field by field

A `Reader` walks over octets up to an end that may be set earlier than theirs.
A `Writer` collects octets.  Both work with the fields of `SortKey.Field`; a
field that cannot be written leaves the writer unchanged.

A field is written at once by `Writer.write`.  `Writer.emit` writes it in place,
part by part: first the length, if it has one, and then what the length
announces.  In the same way `Reader.read` takes a field from the octets that are
left, and `Reader.readInPlace` moves over its parts, and back in front of the
length when what it announces is cut off.
-/

/-- A position `x` in octets that are readable up to `stop`. -/
structure Reader where
  bytes : Bytes
  x : Nat
  stop : Nat
deriving DecidableEq, Repr

namespace Reader

/-- Start at the front, with everything readable. -/
def ofBytes (bytes : Bytes) : Reader :=
  ⟨bytes, 0, bytes.length⟩

/-- How many octets are left; none behind the end. -/
def size (reader : Reader) : Nat :=
  reader.stop - reader.x

/-- The octets that are left. -/
def window (reader : Reader) : Bytes :=
  (reader.bytes.take reader.stop).drop reader.x

/-- Read, and move past what the reading consumed. -/
def run {α : Type} (reading : Reading α) (reader : Reader) : Except ByteError α × Reader :=
  let outcome := reading reader.window
  (outcome.1, { reader with x := reader.x + (reader.window.length - outcome.2.length) })

/-- Read a field of a known shape. -/
def read (shape : Field.Shape) (reader : Reader) : Except ByteError Field × Reader :=
  reader.run shape.read

/-- The next octet, which stays where it is. -/
def peek (reader : Reader) : Except ByteError UInt8 :=
  (Reading.octet reader.window).1

/-- Move past `count` octets. -/
def skip (count : Nat) (reader : Reader) : Except ByteError Unit × Reader :=
  if count > reader.size then (.error .endOfBuffer, reader)
  else (.ok (), { reader with x := reader.x + count })

/-- Read fields one after the other, also behind one that was not found. -/
def readAll : List Field.Shape -> Reader -> List (Except ByteError Field) × Reader
  | [], reader => ([], reader)
  | shape :: shapes, reader =>
      let step := reader.read shape
      let others := readAll shapes step.2
      (step.1 :: others.1, others.2)

/-! ## Part by part -/

/-- What was found in other words, and the reader as it is. -/
def answering {α β : Type} (make : α -> β) (found : Except ByteError α × Reader) :
    Except ByteError β × Reader :=
  (found.1.map make, found.2)

/-- The octets from the position on, and past them. -/
def next (count : Nat) (reader : Reader) : Except ByteError Bytes × Reader :=
  if count > reader.size then (.error .endOfBuffer, reader)
  else (.ok ((reader.bytes.drop reader.x).take count), { reader with x := reader.x + count })

/-- A big-endian number, and past it. -/
def nextNumber (width : Nat) (reader : Reader) : Except ByteError Nat × Reader :=
  answering Bytes.toNat (reader.next width)

/-- A number of variable length, and past its groups. -/
def nextVarInt (reader : Reader) : Except ByteError Nat × Reader :=
  match VarInt.decode reader.window with
  | .ok (n, used) => (.ok n, { reader with x := reader.x + used })
  | .error cause => (.error cause, reader)

/-- A length and that many octets.  When they are cut off, the reader is put back
in front of the length. -/
def nextCounted (length : Reader -> Except ByteError Nat × Reader) (reader : Reader) :
    Except ByteError Bytes × Reader :=
  match length reader with
  | (.error cause, moved) => (.error cause, moved)
  | (.ok count, moved) =>
      match moved.next count with
      | (.ok body, moved) => (.ok body, moved)
      | (.error cause, moved) => (.error cause, { moved with x := reader.x })

/-- A length and a text.  The reader stays behind octets that are no text. -/
def nextText (length : Reader -> Except ByteError Nat × Reader) (reader : Reader) :
    Except ByteError String × Reader :=
  match reader.nextCounted length with
  | (.ok body, moved) => (Text.Modified.decode body, moved)
  | (.error cause, moved) => (.error cause, moved)

/-- Read a field of a known shape, part by part. -/
def readInPlace : Field.Shape -> Reader -> Except ByteError Field × Reader
  | .octet, reader => answering .octet (answering UInt8.ofNat (reader.nextNumber 1))
  | .word16, reader => answering (fun n => .word16 (UInt16.ofNat n)) (reader.nextNumber 2)
  | .int32, reader =>
      answering .int32 (answering (fun n => (UInt32.ofNat n).toInt32) (reader.nextNumber 4))
  | .int64, reader =>
      answering .int64 (answering (fun n => (UInt64.ofNat n).toInt64) (reader.nextNumber 8))
  | .double, reader => answering .double (answering UInt64.ofNat (reader.nextNumber 8))
  | .raw count, reader => answering .raw (reader.next count)
  | .varInt, reader => answering .varInt reader.nextVarInt
  | .buffer, reader => answering .buffer (reader.nextCounted nextVarInt)
  | .text, reader => answering .text (reader.nextText nextVarInt)
  | .shortText, reader => answering .shortText (reader.nextText (nextNumber 2))

/-! ## Asking -/

/-- What can be asked of a reader. -/
inductive Request where
  | field (shape : Field.Shape)
  | peek
  | skip (count : Nat)
deriving DecidableEq, Repr

/-- What a reader finds. -/
inductive Answer where
  | field (field : Field)
  | octet (b : UInt8)
  /-- It has moved. -/
  | past
deriving DecidableEq, Repr

def ask : Request -> Reader -> Except ByteError Answer × Reader
  | .field shape, reader => answering .field (reader.read shape)
  | .peek, reader => (reader.peek.map .octet, reader)
  | .skip count, reader => answering (fun _ => .past) (reader.skip count)

/-- Ask one thing after the other, also behind one that was not found. -/
def askAll : List Request -> Reader -> List (Except ByteError Answer) × Reader
  | [], reader => ([], reader)
  | request :: requests, reader =>
      let step := reader.ask request
      let others := askAll requests step.2
      (step.1 :: others.1, others.2)

end Reader

/-- The octets written so far. -/
structure Writer where
  bytes : Bytes
deriving DecidableEq, Repr

namespace Writer

/-- Nothing was written yet. -/
def empty : Writer := ⟨[]⟩

/-- Write a field at the end. -/
def write (field : Field) (writer : Writer) : Except ByteError Writer :=
  match field.encode with
  | .ok bytes => .ok ⟨writer.bytes ++ bytes⟩
  | .error cause => .error cause

/-- The writer with more octets at its end. -/
def append (writer : Writer) (bytes : Bytes) : Writer :=
  ⟨writer.bytes ++ bytes⟩

/-- Write a number of variable length, unless it is out of range. -/
def emitNumber (n : Nat) (writer : Writer) : Except ByteError Unit × Writer :=
  match VarInt.encode n with
  | .ok octets => (.ok (), writer.append octets)
  | .error cause => (.error cause, writer)

/-- Write a text without a length, unit by unit. -/
def emitText (content : String) (writer : Writer) : Writer :=
  ⟨Text.Modified.encodeOnto writer.bytes (Text.Modified.units content)⟩

/-- Write the parts of a field in place.  A length that does not fit is noticed
before anything is written. -/
def emit : Field -> Writer -> Except ByteError Unit × Writer
  | .octet b, writer => (.ok (), writer.append [b])
  | .word16 n, writer => (.ok (), writer.append (Bytes.ofNat 2 n.toNat))
  | .int32 n, writer => (.ok (), writer.append (Bytes.ofNat 4 n.toUInt32.toNat))
  | .int64 n, writer => (.ok (), writer.append (Bytes.ofNat 8 n.toUInt64.toNat))
  | .double bits, writer => (.ok (), writer.append (Bytes.ofNat 8 bits.toNat))
  | .raw bytes, writer => (.ok (), writer.append bytes)
  | .varInt n, writer => writer.emitNumber n
  | .buffer bytes, writer =>
      match writer.emitNumber bytes.length with
      | (.ok (), writer) => (.ok (), writer.append bytes)
      | failed => failed
  | .text content, writer =>
      match writer.emitNumber (Text.Modified.encodedLength content) with
      | (.ok (), writer) => (.ok (), writer.emitText content)
      | failed => failed
  | .shortText content, writer =>
      let count := Text.Modified.encodedLength content
      if count > Field.longestShort then (.error (.tooLong count Field.longestShort), writer)
      else (.ok (), (writer.append (Bytes.ofNat 2 count)).emitText content)

/-- Write fields one after the other, also behind one that was refused. -/
def emitAll : List Field -> Writer -> List (Except ByteError Unit) × Writer
  | [], writer => ([], writer)
  | field :: fields, writer =>
      let step := writer.emit field
      let others := emitAll fields step.2
      (step.1 :: others.1, others.2)

/-- Forget everything after the first `count` octets. -/
def truncate (count : Nat) (writer : Writer) : Writer :=
  ⟨writer.bytes.take count⟩

/-- The octets as numbers, as they appear in a log. -/
def text (writer : Writer) : String :=
  "Writer \x7b uint8: [" ++ String.intercalate ", " (writer.bytes.map fun b => toString b.toNat) ++ "] \x7d"

end Writer
end SortKey
