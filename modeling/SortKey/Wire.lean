import SortKey.Dialect
import SortKey.RecordError

namespace SortKey

/-!
# What a code stands for

A code is first converted by the dialect and then looked up.  Besides the
seven kinds it may stand for text with a short length or for an empty record.
A failure names the code as it was written.
-/

/-- The meaning of a code. -/
inductive Wire where
  | kind (kind : Kind)
  /-- Text, with a length of 16 bits in the stream form. -/
  | shortText
  /-- An empty record. -/
  | emptyRecord
deriving DecidableEq, Repr

namespace Wire

/-- The present code for a code, with or without a dialect. -/
def presentCode (dialect : Option Dialect) (code : UInt8) : UInt8 :=
  match dialect with
  | some dialect => dialect.convert code
  | none => code

/-- The meaning of a code. -/
def ofCode (dialect : Option Dialect) (code : UInt8) : Except RecordError Wire :=
  let present := presentCode dialect code
  if present = shortTextCode then .ok shortText
  else if present = emptyMarker then .ok emptyRecord
  else
    match Kind.ofCode? present with
    | some found => .ok (kind found)
    | none => .error (.invalidCode code)

/-- The kind of the entries that a meaning announces. -/
def entryKind? : Wire -> Option Kind
  | kind found => some found
  | shortText => some .text
  | emptyRecord => none

end Wire
end SortKey
