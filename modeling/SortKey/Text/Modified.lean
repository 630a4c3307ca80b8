import SortKey.Bytes
import SortKey.ByteError

namespace SortKey
namespace Text
namespace Modified

/-!
# Modified UTF-8

Text is written one UTF-16 unit at a time, in one, two or three octets.  The
unit zero takes two octets, so written text holds no zero octet, and a
character outside the basic plane is two units of three octets each.

The reader is more liberal than the writer.  It accepts a zero octet and
two- or three-octet forms of small units.  It does require that every
continuation octet has its mark and that surrogate units pair up.
-/

/-- The UTF-16 units of one character. -/
def charUnits (c : Char) : List UInt16 :=
  let n := c.toNat
  if n < 0x10000 then [UInt16.ofNat n]
  else [UInt16.ofNat (0xD800 + (n - 0x10000) / 0x400), UInt16.ofNat (0xDC00 + (n - 0x10000) % 0x400)]

/-- The UTF-16 units of a text. -/
def units (text : String) : List UInt16 :=
  text.toList.flatMap charUnits

/-- How many octets a unit takes. -/
def unitLength (unit : UInt16) : Nat :=
  let n := unit.toNat
  if 1 ≤ n ∧ n ≤ 0x7F then 1
  else if n ≤ 0x7FF then 2
  else 3

/-- The octets of a unit. -/
def encodeUnit (unit : UInt16) : Bytes :=
  let n := unit.toNat
  match unitLength unit with
  | 1 => [UInt8.ofNat n]
  | 2 => [UInt8.ofNat (0xC0 + n / 0x40), UInt8.ofNat (0x80 + n % 0x40)]
  | _ => [UInt8.ofNat (0xE0 + n / 0x1000), UInt8.ofNat (0x80 + n / 0x40 % 0x40),
          UInt8.ofNat (0x80 + n % 0x40)]

/-- The written form of a text, without a length. -/
def encode (text : String) : Bytes :=
  (units text).flatMap encodeUnit

/-- Write units one by one behind the octets that were written before. -/
def encodeOnto (written : Bytes) : List UInt16 -> Bytes
  | [] => written
  | unit :: rest => encodeOnto (written ++ encodeUnit unit) rest

/-- The length of the written form, found without writing it. -/
def encodedLength (text : String) : Nat :=
  (units text).foldl (fun total unit => total + unitLength unit) 0

/-- Continuation octets lie in `0x80 .. 0xBF`. -/
def isContinuation (b : UInt8) : Bool :=
  b.toNat / 0x40 == 2

/-- Read units to the end of the octets, newest first in `read`.  The high
four bits of the first octet tell how long a unit is. -/
def decodeUnitsOnto (read : List UInt16) : Bytes -> Option (List UInt16)
  | [] => some read.reverse
  | a :: rest =>
      let lead := a.toNat / 0x10
      if lead ≤ 7 then
        decodeUnitsOnto (UInt16.ofNat a.toNat :: read) rest
      else if lead = 12 ∨ lead = 13 then
        match rest with
        | b :: rest =>
            if isContinuation b then
              decodeUnitsOnto
                (UInt16.ofNat (a.toNat % 0x20 * 0x40 + b.toNat % 0x40) :: read) rest
            else none
        | [] => none
      else if lead = 14 then
        match rest with
        | b :: c :: rest =>
            if isContinuation b && isContinuation c then
              decodeUnitsOnto
                (UInt16.ofNat (a.toNat % 0x10 * 0x1000 + b.toNat % 0x40 * 0x40 + c.toNat % 0x40) :: read)
                rest
            else none
        | _ => none
      else none

/-- The first unit of a surrogate pair. -/
def isHigh (unit : UInt16) : Bool :=
  0xD800 ≤ unit.toNat && unit.toNat < 0xDC00

/-- The second unit of a surrogate pair. -/
def isLow (unit : UInt16) : Bool :=
  0xDC00 ≤ unit.toNat && unit.toNat < 0xE000

/-- Pair up surrogates and make characters, newest first in `made`. -/
def charsOnto (made : List Char) : List UInt16 -> Option (List Char)
  | [] => some made.reverse
  | unit :: rest =>
      if isHigh unit then
        match rest with
        | next :: rest =>
            if isLow next then
              charsOnto
                (Char.ofNat (0x10000 + (unit.toNat - 0xD800) * 0x400 + (next.toNat - 0xDC00)) :: made)
                rest
            else none
        | [] => none
      else if isLow unit then none
      else charsOnto (Char.ofNat unit.toNat :: made) rest

/-- Read a whole run of octets as text. -/
def decode (bytes : Bytes) : Except ByteError String :=
  match decodeUnitsOnto [] bytes with
  | none => .error .malformedText
  | some units =>
      match charsOnto [] units with
      | none => .error .malformedText
      | some chars => .ok (String.ofList chars)

end Modified
end Text
end SortKey
