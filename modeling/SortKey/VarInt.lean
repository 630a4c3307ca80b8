import SortKey.Bytes
import SortKey.ByteError

namespace SortKey
namespace VarInt

/-!
# Variable-length integers

A number is written in groups of seven bits, the least significant group
first.  The high bit of an octet says that another group follows.  Values end
at `2 ^ 31 - 1`, so five groups suffice and the fifth holds three bits.

The reader accepts longer spellings of a small number: nothing requires the
last group to be nonzero.

Numbers in range fit words of 32 bits.  Groups are taken off such a word, and put
together in one, by shifts and masks.
-/

/-- The largest number that can be written. -/
def largest : Nat := 0x7FFFFFFF

/-- The most octets that a number takes. -/
def longest : Nat := 5

/-- How many octets the writer uses. -/
def size (n : Nat) : Nat :=
  if n ≤ 0x7F then 1
  else if n ≤ 0x3FFF then 2
  else if n ≤ 0x1FFFFF then 3
  else if n ≤ 0xFFFFFFF then 4
  else 5

/-- `more` continued groups and a last one. -/
def groups : (more : Nat) -> Nat -> Bytes
  | 0, n => [UInt8.ofNat n]
  | more + 1, n => UInt8.ofNat (n % 128 + 128) :: groups more (n / 128)

/-- The written form of a number in range. -/
def encode (n : Nat) : Except ByteError Bytes :=
  if n > largest then .error (.tooLong n largest) else .ok (groups (size n - 1) n)

/-- Continue a number of which `index` groups with the given value were read.
The fifth group must fit in the remaining bits, and is checked before its
value is used. -/
def decodeFrom (index value : Nat) : Bytes -> Except ByteError (Nat × Nat)
  | [] => .error .endOfBuffer
  | b :: rest =>
      if longest ≤ index + 1 && 8 ≤ b.toNat then
        .error .malformedVarInt
      else
        let read := value + b.toNat % 128 * 128 ^ index
        if b.toNat < 128 then .ok (read, index + 1) else decodeFrom (index + 1) read rest

/-- Read a number from the front: its value and how many octets it took. -/
def decode (bytes : Bytes) : Except ByteError (Nat × Nat) :=
  decodeFrom 0 0 bytes

/-! ## In words of 32 bits -/

/-- `more` continued groups and a last one, shifted out of a word. -/
def wordGroups : (more : Nat) -> UInt32 -> Bytes
  | 0, word => [word.toUInt8]
  | more + 1, word => ((word &&& 0x7F).toUInt8 ||| 0x80) :: wordGroups more (word >>> 7)

/-- The written form of a word in range. -/
def encodeWord (word : UInt32) : Except ByteError Bytes :=
  if word.toNat > largest then .error (.tooLong word.toNat largest)
  else .ok (wordGroups (size word.toNat - 1) word)

/-- Continue a word into which `index` groups were shifted. -/
def decodeWordFrom (index : Nat) (word : UInt32) : Bytes -> Except ByteError (UInt32 × Nat)
  | [] => .error .endOfBuffer
  | b :: rest =>
      if longest ≤ index + 1 && 8 ≤ b then
        .error .malformedVarInt
      else
        let read := word ||| (b.toUInt32 &&& 0x7F) <<< UInt32.ofNat (7 * index)
        if b &&& 0x80 = 0 then .ok (read, index + 1) else decodeWordFrom (index + 1) read rest

/-- Read a word from the front: its value and how many octets it took. -/
def decodeWord (bytes : Bytes) : Except ByteError (UInt32 × Nat) :=
  decodeWordFrom 0 0 bytes

end VarInt
end SortKey
