import SortKey.Bytes
import SortKey.Kind
import SortKey.RecordError

namespace SortKey

/-!
# Records

A record is a finite sequence of entries, and an entry holds a value or data
that could not be read as one.  A value may be a record again.

Doubles are represented by their bits: they are equal exactly when their bits
are, so a NaN equals itself and the two zeros differ.  The cause for which
data could not be read is kept for messages and does not take part in
equality.  `hashWrites` lists what a record feeds to a hash function, and
equal records feed the same.
-/

mutual

/-- A typed value. -/
inductive Value where
  | byte (b : UInt8)
  | bytes (content : Bytes)
  | double (bits : UInt64)
  | integer (n : Int32)
  | long (n : Int64)
  | text (content : String)
  /-- A nested record, by its entries. -/
  | record (entries : List Entry)

/-- One place of a record. -/
inductive Entry where
  | ofValue (value : Value)
  /-- Data that no value of the kind has. -/
  | undecodable (kind : Kind) (data : Bytes) (cause : RecordError)

end

/-- An ordered sequence of entries. -/
abbrev Record := List Entry

def Value.kind : Value -> Kind
  | byte _ => .byte
  | bytes _ => .bytes
  | double _ => .double
  | integer _ => .integer
  | long _ => .long
  | text _ => .text
  | record _ => .record

namespace Entry

/-- The kind of an entry is known also when its value is not. -/
def kind : Entry -> Kind
  | ofValue value => value.kind
  | undecodable kind _ _ => kind

/-- The value, or why there is none. -/
def value : Entry -> Except RecordError Value
  | ofValue value => .ok value
  | undecodable _ _ cause => .error cause

end Entry

/-! ## Equality -/

mutual

def Value.same : Value -> Value -> Bool
  | .byte a, .byte b => a == b
  | .bytes a, .bytes b => a == b
  | .double a, .double b => a == b
  | .integer a, .integer b => a == b
  | .long a, .long b => a == b
  | .text a, .text b => a == b
  | .record as, .record bs => Entry.sameAll as bs
  | _, _ => false

/-- Equality of entries.  Undecodable ones are compared by their data. -/
def Entry.same : Entry -> Entry -> Bool
  | .ofValue a, .ofValue b => a.same b
  | .undecodable kind data _, .undecodable kind' data' _ => kind == kind' && data == data'
  | _, _ => false

/-- Equality of entries at equal places. -/
def Entry.sameAll : List Entry -> List Entry -> Bool
  | [], [] => true
  | a :: as, b :: bs => a.same b && Entry.sameAll as bs
  | _, _ => false

end

def Record.same (a b : Record) : Bool :=
  Entry.sameAll a b

/-! ## What is hashed -/

/-- One write into a hash function. -/
inductive HashWrite where
  | length (n : Nat)
  | code (code : UInt8)
  | octet (b : UInt8)
  | octets (bytes : Bytes)
  | word64 (bits : UInt64)
  | int32 (n : Int32)
  | int64 (n : Int64)
  | text (content : String)
deriving DecidableEq, Repr

mutual

/-- What a value feeds to a hash function: its code and its content. -/
def Value.hashWrites : Value -> List HashWrite
  | .byte b => [.code Kind.byte.code, .octet b]
  | .bytes content => [.code Kind.bytes.code, .octets content]
  | .double bits => [.code Kind.double.code, .word64 bits]
  | .integer n => [.code Kind.integer.code, .int32 n]
  | .long n => [.code Kind.long.code, .int64 n]
  | .text content => [.code Kind.text.code, .text content]
  | .record entries =>
      .code Kind.record.code :: .length entries.length :: Entry.hashWritesAll entries

/-- What an entry feeds to a hash function. -/
def Entry.hashWrites : Entry -> List HashWrite
  | .ofValue value => value.hashWrites
  | .undecodable kind data _ => [.code kind.code, .octets data]

/-- What a sequence of entries feeds to a hash function. -/
def Entry.hashWritesAll : List Entry -> List HashWrite
  | [] => []
  | entry :: entries => entry.hashWrites ++ Entry.hashWritesAll entries

end

/-- What a record feeds to a hash function: its length and its entries. -/
def Record.hashWrites (record : Record) : List HashWrite :=
  .length record.length :: Entry.hashWritesAll record

/-! ## Looking at a record -/

namespace Record

def entryAt (record : Record) (index : Nat) : Except RecordError Entry :=
  match record[index]? with
  | some entry => .ok entry
  | none => .error (.indexOutOfRange index record.length)

def kindAt (record : Record) (index : Nat) : Except RecordError Kind :=
  (record.entryAt index).map Entry.kind

/-- The value at a position, whatever its kind. -/
def get (record : Record) (index : Nat) : Except RecordError Value :=
  match record.entryAt index with
  | .ok entry => entry.value
  | .error cause => .error cause

/-- The value at a position, which has to be of the kind asked for.  The kind
is checked before the data. -/
def getAs (record : Record) (index : Nat) (expected : Kind) : Except RecordError Value :=
  match record.entryAt index with
  | .ok entry =>
      if entry.kind = expected then entry.value
      else .error (.kindMismatch index expected entry.kind)
  | .error cause => .error cause

/-- All values, or the cause of the first entry that has none. -/
def values : Record -> Except RecordError (List Value)
  | [] => .ok []
  | entry :: entries =>
      match entry.value with
      | .error cause => .error cause
      | .ok value => (values entries).map (value :: ·)

end Record
end SortKey
