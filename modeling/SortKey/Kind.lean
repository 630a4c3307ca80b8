namespace SortKey

/-!
# Kinds of values and their codes

The seven kinds have fixed one-octet codes that order them.  Two further
octets never stand for a kind: the separator of the key form, which is also
its escape octet, and the marker that older writers used for an empty record.
-/

/-- What an entry holds. -/
inductive Kind where
  | byte
  | bytes
  | double
  | integer
  | long
  | text
  /-- A nested record. -/
  | record
deriving DecidableEq, Repr

/-- Ends an entry in the key form, and escapes itself inside an entry. -/
def separator : UInt8 := 0xFE

/-- Once stood for the empty record.  It is read and never written. -/
def emptyMarker : UInt8 := 0xFF

/-- Text with a length of 16 bits in the stream form. -/
def shortTextCode : UInt8 := 0x85

namespace Kind

/-- Every kind, in the order of the codes. -/
def all : List Kind :=
  [byte, bytes, double, integer, long, text, record]

def code : Kind -> UInt8
  | byte => 0
  | bytes => 1
  | double => 2
  | integer => 3
  | long => 4
  | text => 5
  | record => 6

def ofCode? (code : UInt8) : Option Kind :=
  all.find? fun kind => kind.code = code

/-- The name of a kind in messages and settings. -/
def name : Kind -> String
  | byte => "BYTE"
  | bytes => "BYTE_ARRAY"
  | double => "DOUBLE"
  | integer => "INTEGER"
  | long => "LONG"
  | text => "STRING"
  | record => "MARSHAL"

/-- The name of a kind in detailed texts. -/
def label : Kind -> String
  | byte => "Byte"
  | bytes => "ByteArray"
  | double => "Double"
  | integer => "Integer"
  | long => "Long"
  | text => "String"
  | record => "Marshal"

theorem ofCode?_code (kind : Kind) : ofCode? kind.code = some kind := by
  cases kind <;> rfl

theorem code_injective {a b : Kind} (same : a.code = b.code) : a = b := by
  have found := congrArg ofCode? same
  rw [ofCode?_code, ofCode?_code] at found
  exact Option.some.inj found

theorem code_inj {a b : Kind} : a.code = b.code <-> a = b :=
  ⟨code_injective, congrArg code⟩

/-- Codes are small, so a separator or an escape octet is never one. -/
theorem code_lt_separator (kind : Kind) : kind.code < separator := by
  cases kind <;> decide

end Kind
end SortKey
