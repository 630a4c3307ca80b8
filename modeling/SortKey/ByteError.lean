namespace SortKey

/-!
# What can go wrong with octets

The causes of failure of views, cursors, varints and length-prefixed text.
The wording is given once, in `ByteError.message`.
-/

/-- A failure below the level of records. -/
inductive ByteError where
  /-- A read would pass the end of the readable octets. -/
  | endOfBuffer
  /-- A position lies outside a view. -/
  | indexOutOfRange (index len : Nat)
  /-- A view was asked for over a range that its buffer does not have. -/
  | invalidRange (first stop len : Nat)
  /-- A varint is longer than five groups or exceeds 31 bits. -/
  | malformedVarInt
  /-- Octets are not modified UTF-8. -/
  | malformedText
  /-- A length does not fit the field reserved for it. -/
  | tooLong (len max : Nat)
deriving DecidableEq, Repr

/-- The text of a failure. -/
def ByteError.message : ByteError -> String
  | endOfBuffer => "end of buffer"
  | indexOutOfRange index len => s!"position {index} is out of range for length {len}"
  | invalidRange first stop len =>
      s!"invalid range [{first}, {stop}) for buffer of length {len}"
  | malformedVarInt => "malformed variable-length integer"
  | malformedText => "malformed modified UTF-8 text"
  | tooLong len max => s!"length {len} exceeds the maximum of {max}"

end SortKey
