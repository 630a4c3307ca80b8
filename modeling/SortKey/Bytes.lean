namespace SortKey

/-!
# Octet strings

Every written form in this library is a list of octets.  Numbers of fixed
width are big-endian.  Two comparisons are given: `Bytes.order` follows the
two lists together, and `Bytes.walkOrder` looks for the first difference over
the common length before it falls back on the lengths.  Both put a strict
prefix first and compare octets as unsigned numbers.
-/

/-- A run of octets. -/
abbrev Bytes := List UInt8

namespace Bytes

/-- The low `width` octets of a number, most significant first. -/
def ofNat : (width : Nat) -> Nat -> Bytes
  | 0, _ => []
  | width + 1, n => UInt8.ofNat (n >>> (8 * width)) :: ofNat width n

/-- The number whose big-endian octets are given. -/
def toNat (bytes : Bytes) : Nat :=
  bytes.foldl (fun n b => n * 256 + b.toNat) 0

/-- Unsigned lexicographic order, a strict prefix first. -/
def order : Bytes -> Bytes -> Ordering
  | [], [] => .eq
  | [], _ :: _ => .lt
  | _ :: _, [] => .gt
  | a :: as, b :: bs =>
      match compare a b with
      | .eq => order as bs
      | decided => decided

/-- The first pair that differs decides; without one the lengths do. -/
def walkOrder (as bs : Bytes) : Ordering :=
  match (as.zip bs).find? (fun pair => compare pair.1 pair.2 != .eq) with
  | some (a, b) => compare a b
  | none => compare as.length bs.length

end Bytes

/-! ## Octets as text -/

/-- One lower-case hexadecimal digit. -/
def hexDigit (n : Nat) : Char :=
  if n < 10 then Char.ofNat (48 + n) else Char.ofNat (87 + n)

/-- An octet as two hexadecimal digits. -/
def octetText (b : UInt8) : String :=
  String.ofList [hexDigit (b.toNat / 16), hexDigit (b.toNat % 16)]

/-- At most `most` octets separated by blanks, and a note of how many were
left out. -/
def octetsText (most : Nat) (bytes : Bytes) : String :=
  let shown := String.intercalate " " ((bytes.take most).map octetText)
  let left := bytes.length - most
  if bytes.length > most then s!"{shown}... ({left} more)" else shown

/-- How many octets are shown where nothing else is asked for. -/
def octetsShown : Nat := 32

end SortKey
