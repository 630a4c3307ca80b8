import SortKey.Cursor
import SortKey.Record

namespace SortKey

/-!
# The stream form, written

A record is its count of entries and then, for each entry, its code and its
value as a self-delimiting field.  A nested record is written in the same way
in place.

Only an entry without a value cannot be written.  What was written before it
is taken back, so the writer holds either the whole form or what it held
before.
-/

/-- The largest number of entries that the count can tell. -/
def mostEntries : Nat := 0x7FFFFFFF

/-- Write a field and keep the writer also when that fails. -/
def Writer.put (field : Field) (writer : Writer) : Except RecordError Unit × Writer :=
  match writer.write field with
  | .ok written => (.ok (), written)
  | .error cause => (.error (.ofByteError cause), writer)

/-- Write the count of a record. -/
def Writer.putCount (count : Nat) (writer : Writer) : Except RecordError Unit × Writer :=
  if count > mostEntries then (.error (.tooLong count mostEntries), writer)
  else writer.put (.int32 (UInt32.ofNat count).toInt32)

mutual

/-- Write a value without its code. -/
def Value.writeTo : Value -> Writer -> Except RecordError Unit × Writer
  | .byte b, writer => writer.put (.octet b)
  | .bytes content, writer => writer.put (.buffer content)
  | .double bits, writer => writer.put (.double bits)
  | .integer n, writer => writer.put (.int32 n)
  | .long n, writer => writer.put (.int64 n)
  | .text content, writer => writer.put (.text content)
  | .record entries, writer =>
      match writer.putCount entries.length with
      | (.ok (), writer) => Entry.writeAllTo entries writer
      | failed => failed

/-- Write an entry: its code and its value. -/
def Entry.writeTo : Entry -> Writer -> Except RecordError Unit × Writer
  | .ofValue value, writer =>
      match writer.put (.octet value.kind.code) with
      | (.ok (), writer) => value.writeTo writer
      | failed => failed
  | .undecodable kind _ cause, writer =>
      match writer.put (.octet kind.code) with
      | (.ok (), writer) => (.error cause, writer)
      | failed => failed

/-- Write entries one after the other until one fails. -/
def Entry.writeAllTo : List Entry -> Writer -> Except RecordError Unit × Writer
  | [], writer => (.ok (), writer)
  | entry :: entries, writer =>
      match entry.writeTo writer with
      | (.ok (), writer) => Entry.writeAllTo entries writer
      | failed => failed

end

namespace Record

/-- Write a record, or leave the writer as it was. -/
def writeTo (record : Record) (writer : Writer) : Except RecordError Unit × Writer :=
  match (Value.record record).writeTo writer with
  | (.ok (), written) => (.ok (), written)
  | (.error cause, written) => (.error cause, written.truncate writer.bytes.length)

/-- The stream form of a record. -/
def stream (record : Record) : Except RecordError Bytes :=
  match (Value.record record).writeTo Writer.empty with
  | (.ok (), written) => .ok written.bytes
  | (.error cause, _) => .error cause

end Record
end SortKey
