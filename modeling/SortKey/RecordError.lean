import SortKey.ByteError
import SortKey.Kind
import SortKey.Bytes
import SortKey.Text.Quoted

namespace SortKey

/-!
# What can go wrong with records

The causes of failure of building, reading and writing records.  Failures of
octets become failures of records through `RecordError.ofByteError`.
-/

/-- A failure at the level of records. -/
inductive RecordError where
  /-- A code stands for nothing at its place.  It is the code as written,
  before a dialect converts it. -/
  | invalidCode (code : UInt8)
  /-- An entry of the key form has no data. -/
  | emptyData
  /-- An entry was asked for as a kind that it does not have. -/
  | kindMismatch (index : Nat) (expected actual : Kind)
  | indexOutOfRange (index len : Nat)
  /-- The data of a kind with fixed width has another width. -/
  | invalidLength (kind : Kind) (expected actual : Nat)
  | negativeCount (count : Int32)
  | malformedVarInt
  | malformedText
  | tooLong (len max : Nat)
  | unexpectedEnd
  /-- The stream form ended before the octets did. -/
  | trailingBytes (len : Nat)
  /-- Records are nested more than `max` deep. -/
  | tooDeep (max : Nat)
  /-- A value was missing. -/
  | nullArgument (what : String)
deriving DecidableEq, Repr

namespace RecordError

/-- A failure of octets, seen from a record. -/
def ofByteError : ByteError -> RecordError
  | .endOfBuffer => unexpectedEnd
  | .indexOutOfRange index len => indexOutOfRange index len
  | .invalidRange _ stop len => indexOutOfRange stop len
  | .malformedVarInt => malformedVarInt
  | .malformedText => malformedText
  | .tooLong len max => tooLong len max

def message : RecordError -> String
  | invalidCode code => "type code 0x" ++ octetText code ++ " is invalid"
  | emptyData => "entry data must not be empty"
  | kindMismatch index expected actual =>
      s!"type at position {index} is {actual.name}, not {expected.name}"
  | indexOutOfRange index len => s!"index {index} is out of range for length {len}"
  | invalidLength kind expected actual =>
      s!"{kind.name} entry data must be {expected} bytes, got {actual}"
  | negativeCount count => s!"negative entry count {count}"
  | malformedVarInt => "malformed variable-length integer"
  | malformedText => "malformed text"
  | tooLong len max => s!"length {len} exceeds the maximum of {max}"
  | unexpectedEnd => "unexpected end of input"
  | trailingBytes len => s!"{len} bytes left after the stream form"
  | tooDeep max => s!"marshals nested deeper than {max} levels"
  | nullArgument what => s!"null {what} cannot be added to a marshal"

/-- The cause of a failure in detailed texts. -/
def label : RecordError -> String
  | invalidCode code => s!"InvalidTypeCode({code.toNat})"
  | emptyData => "EmptyEntryData"
  | kindMismatch index expected actual =>
      s!"TypeMismatch \x7b index: {index}, expected: {expected.label}, actual: {actual.label} \x7d"
  | indexOutOfRange index len => s!"IndexOutOfRange \x7b index: {index}, len: {len} \x7d"
  | invalidLength kind expected actual =>
      s!"InvalidEntryLength \x7b entry_type: {kind.label}, expected: {expected}, actual: {actual} \x7d"
  | negativeCount count => s!"NegativeCount({count})"
  | malformedVarInt => "MalformedVarInt"
  | malformedText => "MalformedText"
  | tooLong len max => s!"TooLong \x7b len: {len}, max: {max} \x7d"
  | unexpectedEnd => "UnexpectedEof"
  | trailingBytes len => s!"TrailingBytes \x7b len: {len} \x7d"
  | tooDeep max => s!"TooDeep \x7b max: {max} \x7d"
  | nullArgument what => "NullArgument(" ++ Text.quoted what ++ ")"

end RecordError
end SortKey
