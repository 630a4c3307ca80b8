import SortKey.Text.Modified
import SortKey.VarInt

namespace SortKey

/-!
# Self-delimiting fields

A field knows where it ends, so fields can be written one after the other.
Reading a field consumes it from the front of the remaining octets.  What is
left is part of the outcome also when reading fails: a field that is cut off
or has a malformed length consumes nothing, and a field whose text is
malformed is consumed as a whole.
-/

/-- Read something from the front of the remaining octets. -/
abbrev Reading (α : Type) := Bytes -> Except ByteError α × Bytes

namespace Reading

/-- The next `count` octets. -/
def take (count : Nat) : Reading Bytes := fun bytes =>
  let front := bytes.take count
  if front.length = count then (.ok front, bytes.drop count) else (.error .endOfBuffer, bytes)

def octet : Reading UInt8
  | [] => (.error .endOfBuffer, [])
  | b :: rest => (.ok b, rest)

/-- A big-endian number of `width` octets. -/
def number (width : Nat) : Reading Nat := fun bytes =>
  match take width bytes with
  | (.ok digits, rest) => (.ok digits.toNat, rest)
  | (.error cause, rest) => (.error cause, rest)

def int32 : Reading Int32 := fun bytes =>
  match number 4 bytes with
  | (.ok n, rest) => (.ok (UInt32.ofNat n).toInt32, rest)
  | (.error cause, rest) => (.error cause, rest)

def int64 : Reading Int64 := fun bytes =>
  match number 8 bytes with
  | (.ok n, rest) => (.ok (UInt64.ofNat n).toInt64, rest)
  | (.error cause, rest) => (.error cause, rest)

/-- The bits of a double. -/
def double : Reading UInt64 := fun bytes =>
  match number 8 bytes with
  | (.ok n, rest) => (.ok (UInt64.ofNat n), rest)
  | (.error cause, rest) => (.error cause, rest)

def varInt : Reading Nat := fun bytes =>
  match VarInt.decode bytes with
  | .ok (n, used) => (.ok n, bytes.drop used)
  | .error cause => (.error cause, bytes)

/-- A length and that many octets.  When the octets are cut off, the length
is not consumed either. -/
def counted (length : Reading Nat) : Reading Bytes := fun bytes =>
  match length bytes with
  | (.error cause, rest) => (.error cause, rest)
  | (.ok count, rest) =>
      match take count rest with
      | (.ok body, rest) => (.ok body, rest)
      | (.error cause, _) => (.error cause, bytes)

/-- Octets behind a varint length. -/
def buffer : Reading Bytes := counted varInt

/-- Octets behind a length of 16 bits. -/
def shortBuffer : Reading Bytes := counted (number 2)

/-- A length and a text in modified UTF-8. -/
def textOf (body : Reading Bytes) : Reading String := fun bytes =>
  match body bytes with
  | (.ok octets, rest) => (Text.Modified.decode octets, rest)
  | (.error cause, rest) => (.error cause, rest)

/-- Text behind a varint length. -/
def text : Reading String := textOf buffer

/-- Text behind a length of 16 bits. -/
def shortText : Reading String := textOf shortBuffer

end Reading

/-- A field with its content. -/
inductive Field where
  | octet (b : UInt8)
  | word16 (n : UInt16)
  | int32 (n : Int32)
  | int64 (n : Int64)
  | double (bits : UInt64)
  /-- Octets without a length. -/
  | raw (bytes : Bytes)
  | varInt (n : Nat)
  /-- Octets behind a varint length. -/
  | buffer (bytes : Bytes)
  /-- Text behind a varint length. -/
  | text (content : String)
  /-- Text behind a length of 16 bits. -/
  | shortText (content : String)
deriving DecidableEq, Repr

namespace Field

/-- What a reader has to know before it reads a field. -/
inductive Shape where
  | octet
  | word16
  | int32
  | int64
  | double
  | raw (count : Nat)
  | varInt
  | buffer
  | text
  | shortText
deriving DecidableEq, Repr

/-- The shape in which a field has to be read back. -/
def shape : Field -> Shape
  | octet _ => .octet
  | word16 _ => .word16
  | int32 _ => .int32
  | int64 _ => .int64
  | double _ => .double
  | raw bytes => .raw bytes.length
  | varInt _ => .varInt
  | buffer _ => .buffer
  | text _ => .text
  | shortText _ => .shortText

/-- Replace the content of a successful reading. -/
private def packed {α : Type} (pack : α -> Field) :
    Except ByteError α × Bytes -> Except ByteError Field × Bytes
  | (.ok content, rest) => (.ok (pack content), rest)
  | (.error cause, rest) => (.error cause, rest)

def Shape.read : Shape -> Reading Field
  | .octet => fun bytes => packed Field.octet (Reading.octet bytes)
  | .word16 => fun bytes => packed (fun n => Field.word16 (UInt16.ofNat n)) (Reading.number 2 bytes)
  | .int32 => fun bytes => packed Field.int32 (Reading.int32 bytes)
  | .int64 => fun bytes => packed Field.int64 (Reading.int64 bytes)
  | .double => fun bytes => packed Field.double (Reading.double bytes)
  | .raw count => fun bytes => packed Field.raw (Reading.take count bytes)
  | .varInt => fun bytes => packed Field.varInt (Reading.varInt bytes)
  | .buffer => fun bytes => packed Field.buffer (Reading.buffer bytes)
  | .text => fun bytes => packed Field.text (Reading.text bytes)
  | .shortText => fun bytes => packed Field.shortText (Reading.shortText bytes)

/-- A varint length in front of a body that has it. -/
def behindLength (count : Nat) (body : Bytes) : Except ByteError Bytes :=
  match VarInt.encode count with
  | .ok length => .ok (length ++ body)
  | .error cause => .error cause

/-- The largest length that fits 16 bits. -/
def longestShort : Nat := 0xFFFF

def encode : Field -> Except ByteError Bytes
  | octet b => .ok [b]
  | word16 n => .ok (Bytes.ofNat 2 n.toNat)
  | int32 n => .ok (Bytes.ofNat 4 n.toUInt32.toNat)
  | int64 n => .ok (Bytes.ofNat 8 n.toUInt64.toNat)
  | double bits => .ok (Bytes.ofNat 8 bits.toNat)
  | raw bytes => .ok bytes
  | varInt n => VarInt.encode n
  | buffer bytes => behindLength bytes.length bytes
  | text content =>
      behindLength (Text.Modified.encodedLength content) (Text.Modified.encode content)
  | shortText content =>
      let count := Text.Modified.encodedLength content
      if count > longestShort then .error (.tooLong count longestShort)
      else .ok (Bytes.ofNat 2 count ++ Text.Modified.encode content)

end Field
end SortKey
