import SortKey.Bytes
import SortKey.ByteError
import SortKey.Escape
import SortKey.Record

namespace SortKey

/-!
# Views of shared buffers

A view shows a range of a buffer and never reaches outside it.  Buffers have
an identity: two buffers made separately are different even when they hold the
same octets.  A `Pool` counts the buffers made so far, and every operation
that may have to copy takes the pool and returns it.  Slicing never copies.

The order of views depends on their contents alone, although whole buffers
and partial views are compared along different paths.
-/

/-- Octets with an identity. -/
structure Buffer where
  id : Nat
  bytes : Bytes
deriving DecidableEq, Repr

/-- The octets of a buffer from `first` up to, not including, `stop`. -/
structure View where
  buffer : Buffer
  first : Nat
  stop : Nat
  /-- The range is not inverted. -/
  first_le_stop : first ≤ stop
  /-- The range lies inside the buffer. -/
  stop_le_length : stop ≤ buffer.bytes.length
deriving DecidableEq, Repr

def View.ofBuffer (buffer : Buffer) : View :=
  ⟨buffer, 0, buffer.bytes.length, Nat.zero_le _, Nat.le_refl _⟩

/-- The number of buffers made so far, which is the identity of the next. -/
structure Pool where
  made : Nat
deriving DecidableEq, Repr

namespace Pool

def empty : Pool := ⟨0⟩

/-- Make a buffer. -/
def buffer (pool : Pool) (bytes : Bytes) : Buffer × Pool :=
  (⟨pool.made, bytes⟩, ⟨pool.made + 1⟩)

def view (pool : Pool) (bytes : Bytes) : View × Pool :=
  (View.ofBuffer ⟨pool.made, bytes⟩, ⟨pool.made + 1⟩)

end Pool

namespace View

def ofRange (buffer : Buffer) (first stop : Nat) : Except ByteError View :=
  if inside : first ≤ stop ∧ stop ≤ buffer.bytes.length then
    .ok ⟨buffer, first, stop, inside.1, inside.2⟩
  else .error (.invalidRange first stop buffer.bytes.length)

def length (view : View) : Nat :=
  view.stop - view.first

def isEmpty (view : View) : Bool :=
  view.first == view.stop

/-- The octets shown. -/
def bytes (view : View) : Bytes :=
  (view.buffer.bytes.drop view.first).take view.length

@[simp] theorem length_bytes (view : View) : view.bytes.length = view.length := by
  have := view.stop_le_length
  simp only [bytes, length, List.length_take, List.length_drop]
  omega

def isWhole (view : View) : Bool :=
  view.first == 0 && view.stop == view.buffer.bytes.length

/-- Whether two views show the same buffer, wherever they do. -/
def sharesBuffer (a b : View) : Bool :=
  a.buffer.id == b.buffer.id

def get (view : View) (pos : Nat) : Except ByteError UInt8 :=
  match view.bytes[pos]? with
  | some b => .ok b
  | none => .error (.indexOutOfRange pos view.length)

def first? (view : View) : Option UInt8 :=
  view.bytes.head?

/-- The view without its first `pos` octets. -/
def sliceFrom (view : View) (pos : Nat) : Except ByteError View :=
  if inside : pos ≤ view.length then
    .ok ⟨view.buffer, view.first + pos, view.stop,
      Nat.add_le_of_le_sub' view.first_le_stop inside, view.stop_le_length⟩
  else .error (.indexOutOfRange pos view.length)

/-- The first `pos` octets of the view. -/
def sliceTo (view : View) (pos : Nat) : Except ByteError View :=
  if inside : pos ≤ view.length then
    .ok ⟨view.buffer, view.first, view.first + pos, Nat.le_add_right _ _,
      Nat.le_trans (Nat.add_le_of_le_sub' view.first_le_stop inside) view.stop_le_length⟩
  else .error (.indexOutOfRange pos view.length)

/-- A buffer that holds exactly what is shown.  It is the view's own buffer
when that is shown whole. -/
def toBuffer (pool : Pool) (view : View) : Buffer × Pool :=
  if view.isWhole then (view.buffer, pool) else pool.buffer view.bytes

/-- The octets of one view after those of another.  An empty side is not
worth a copy: the other side itself is the result. -/
def append (pool : Pool) (front back : View) : View × Pool :=
  if front.isEmpty then (back, pool)
  else if back.isEmpty then (front, pool)
  else pool.view (front.bytes ++ back.bytes)

/-- The octets of all parts in order.  A single part is the result itself. -/
def combine (pool : Pool) : List View -> View × Pool
  | [] => pool.view []
  | [part] => (part, pool)
  | parts => pool.view (parts.flatMap bytes)

/-- Unsigned lexicographic order of what is shown. -/
def order (a b : View) : Ordering :=
  if a.isWhole && b.isWhole then a.buffer.bytes.order b.buffer.bytes
  else Bytes.walkOrder a.bytes b.bytes

/-- Views are equal when they show the same octets. -/
def same (a b : View) : Bool :=
  a.bytes == b.bytes

/-- What a view feeds to a hash function. -/
def hashWrites (view : View) : List HashWrite :=
  [.octets view.bytes]

/-- Escape what is shown.  Without an escape octet the view is the result
itself. -/
def escape (pool : Pool) (esc : UInt8) (view : View) : View × Pool :=
  if view.bytes.count esc = 0 then (view, pool)
  else pool.view (Escape.escape esc view.bytes)

/-- Collapse the pairs of what is shown.  Without a pair the view is the
result itself. -/
def unescape (pool : Pool) (esc : UInt8) (view : View) : View × Pool :=
  if Escape.pairs esc view.bytes = 0 then (view, pool)
  else pool.view (Escape.unescape esc view.bytes)

def text (view : View) : String :=
  "ByteView[" ++ octetsText octetsShown view.bytes ++ "]"

end View

/-! ## A numbered row of views -/

/-- Views kept in the order in which they were made, with their pool. -/
structure Shelf where
  pool : Pool
  views : Array View

namespace Shelf

def empty : Shelf := ⟨Pool.empty, #[]⟩

/-- Keep a view that was made from the shelf's pool. -/
def put (shelf : Shelf) (made : View × Pool) : Shelf :=
  ⟨made.2, shelf.views.push made.1⟩

/-- The numbers of the views kept before the one with number `index` that
show the same buffer. -/
def sharing (shelf : Shelf) (index : Nat) : List Nat :=
  match shelf.views[index]? with
  | none => []
  | some view =>
      (List.range index).filter fun other =>
        match shelf.views[other]? with
        | some earlier => earlier.sharesBuffer view
        | none => false

end Shelf

end SortKey
