import SortKey.Bytes

namespace SortKey
namespace Escape

/-!
# Escaped data

Inside escaped data the escape octet is written twice, so an escape octet that
is not half of a pair ends the data.  Pairs are matched from left to right.
Reading tolerates a stray escape octet and keeps it.

`pairs` counts the doubled octets and `unescape` drops one octet of each.
They are two passes over the same data: the first tells whether the second
would change anything.
-/

/-- Double every escape octet. -/
def escape (esc : UInt8) (data : Bytes) : Bytes :=
  data.flatMap fun b => if b = esc then [b, b] else [b]

/-- Count pairs; `pending` says that the octet before was an unmatched
escape. -/
def pairsFrom (esc : UInt8) (pending : Bool) (count : Nat) : Bytes -> Nat
  | [] => count
  | b :: rest =>
      if b = esc then
        pairsFrom esc (!pending) (if pending then count + 1 else count) rest
      else
        pairsFrom esc false count rest

/-- The number of doubled escape octets. -/
def pairs (esc : UInt8) (bytes : Bytes) : Nat :=
  pairsFrom esc false 0 bytes

/-- Keep one octet of each pair, newest first in `kept`. -/
def collapseOnto (esc : UInt8) (pending : Bool) (kept : Bytes) : Bytes -> Bytes
  | [] => kept.reverse
  | b :: rest =>
      if b = esc then
        collapseOnto esc (!pending) (if pending then kept else b :: kept) rest
      else
        collapseOnto esc false (b :: kept) rest

/-- Collapse every doubled escape octet into one. -/
def unescape (esc : UInt8) (bytes : Bytes) : Bytes :=
  collapseOnto esc false [] bytes

/-- Look for a lone escape octet, with `index` octets already passed. -/
def separatorFrom (esc : UInt8) (index : Nat) : Bytes -> Nat
  | [] => index
  | [b] => if b = esc then index else index + 1
  | b :: next :: rest =>
      if b = esc then
        if next = esc then separatorFrom esc (index + 2) rest else index
      else
        separatorFrom esc (index + 1) (next :: rest)

/-- The position of the first escape octet that is not half of a pair, or the
length when there is none. -/
def findSeparator (esc : UInt8) (bytes : Bytes) : Nat :=
  separatorFrom esc 0 bytes

end Escape
end SortKey
